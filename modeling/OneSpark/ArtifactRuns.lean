import OneSpark.Artifact
import OneSpark.FileTables

namespace OneSpark.ArtifactRuns
open Programs FileStore FileTables Checkpoint Artifact Relation
variable {Bytes Hash Tables α : Type}

section Publication
variable (site : Site Bytes Hash Tables) (size : Bytes → Nat)

-- Names mkstemp may choose for the artifact that is being saved.
def IsPartial (path : Path) : Prop := path.dir = site.out.dir ∧
  ∃ random : Name, random.length = 8 ∧ path.name = site.out.name ++ ['.'] ++ random ++ ".partial".toList

-- The artifact, its sidecar and their temporary files: others leave them alone
-- while a run goes on.
def Own (path : Path) : Prop := path = site.out ∨ path = sidecar site.out ∨ IsPartial site path ∨
  IsTemp (sidecar site.out) path

def elsewhere (before after : Store Bytes) : Prop := ∀ path, Own site path → after path = before path

def machine : Machine (FileOp Bytes) ToolError (Store Bytes) := onFiles size (elsewhere site)

def Absent (store : Store Bytes) : Prop := store site.out = none ∧ store (sidecar site.out) = none

def Complete (art : Art Hash Tables) (store : Store Bytes) : Prop :=
  ∃ file, store site.out = some file ∧ file.content = site.save art

def record (art : Art Hash Tables) : Metadata Hash :=
  metadata art.provenance (size (site.save art)) (site.digest (site.save art))

def Recorded (art : Art Hash Tables) (store : Store Bytes) : Prop :=
  ∃ file, store (sidecar site.out) = some file ∧ file.content = site.sidecarJson.dumps (record site size art)

def Sound (store : Store Bytes) : Prop := Absent site store ∨
  ∃ art, Complete site art store ∧ (store (sidecar site.out) = none ∨ Recorded site size art store)

end Publication

section Parts
variable {site : Site Bytes Hash Tables} {size : Bytes → Nat} {store next before : Store Bytes} {tmp : Path}
  {art : Art Hash Tables}

theorem sidecar_ne : sidecar site.out ≠ site.out := by
  intro same
  have lengths := congrArg (fun path : Path => path.name.length) same
  simp [sidecar] at lengths

theorem partial_ne (temp : IsPartial site tmp) : tmp ≠ site.out ∧ tmp ≠ sidecar site.out := by
  obtain ⟨_,random,long,named⟩ := temp
  constructor
  · intro same
    have lengths := congrArg List.length named
    simp [same] at lengths
  · intro same
    have lengths := congrArg List.length named
    simp [same,sidecar,long] at lengths

theorem out_permanent : ¬ IsTemp (sidecar site.out) site.out := by
  intro temp
  obtain ⟨_,random,_,named⟩ := temp
  have lengths := congrArg List.length named
  simp [sidecar] at lengths

theorem absent_same (out : next site.out = store site.out) (recorded : next (sidecar site.out) = store (sidecar site.out))
    (absent : Absent site store) : Absent site next := ⟨out.trans absent.1,recorded.trans absent.2⟩

theorem complete_same (out : next site.out = store site.out) (complete : Complete site art store) :
    Complete site art next := by
  obtain ⟨file,here,whole⟩ := complete
  exact ⟨file,out.trans here,whole⟩

theorem recorded_same (same : next (sidecar site.out) = store (sidecar site.out))
    (recorded : Recorded site size art store) : Recorded site size art next := by
  obtain ⟨file,here,whole⟩ := recorded
  exact ⟨file,same.trans here,whole⟩

theorem sound_same (out : next site.out = store site.out) (same : next (sidecar site.out) = store (sidecar site.out))
    (sound : Sound site size store) : Sound site size next := by
  cases sound with
  | inl absent => exact .inl (absent_same out same absent)
  | inr made =>
      obtain ⟨art,complete,beside⟩ := made
      refine .inr ⟨art,complete_same out complete,?_⟩
      cases beside with
      | inl none => exact .inl (same.trans none)
      | inr recorded => exact .inr (recorded_same same recorded)

theorem out_own : Own site site.out := .inl rfl
theorem sidecar_own : Own site (sidecar site.out) := .inr (.inl rfl)

theorem sound_stable : Stable (elsewhere site) (Sound site size) :=
  fun _ _ moved => sound_same (moved _ out_own) (moved _ sidecar_own)

theorem absent_stable : Stable (elsewhere site) (Absent site) :=
  fun _ _ moved => absent_same (moved _ out_own) (moved _ sidecar_own)

def making (site : Site Bytes Hash Tables) (size : Bytes → Nat) (returns : α → Store Bytes → Prop) :
    Post ToolError (Store Bytes) α := ⟨Sound site size,returns,fun _ => Sound site size⟩

theorem making_raise {error : ToolError} {returns : α → Store Bytes → Prop} (sound : Sound site size store) :
    Holds (machine site size) (making site size returns) (.raise error) store :=
  holds_raise sound_stable (fun _ sound => ⟨sound,sound⟩) sound

theorem making_done {a : α} {returns : α → Store Bytes → Prop} {fact : Store Bytes → Prop}
    (stable : Stable (elsewhere site) fact) (ends : ∀ store, fact store → Sound site size store ∧ returns a store)
    (here : fact store) : Holds (machine site size) (making site size returns) (.done a) store :=
  holds_done stable ends here

section Calls
variable {β : Type} {op : FileOp Bytes β} {f : β → ToolProg Bytes α} {returns : α → Store Bytes → Prop}
  {fact : Store Bytes → Prop}

theorem making_call (stable : Stable (elsewhere site) fact) (sound : ∀ store, fact store → Sound site size store)
    (ends : ∀ store reply next, fact store → completes size op store reply next →
      Holds (machine site size) (making site size returns) (f reply) next)
    (spares : ∀ store next, fact store → fails op store next → Sound site size next)
    (here : fact store) : Holds (machine site size) (making site size returns) (call op >>= f) store := by
  refine holds_call stable sound ends ?_ here
  exact fun store error next here stepped => making_raise (spares store next here stepped)

theorem partial_succeeds {reply : β} (temp : IsPartial site tmp) (own : ∀ path, op.touches path → path = tmp)
    (did : completes size op store reply next) (absent : Absent site store) : Absent site next := by
  have stepped : step size op store (.ok reply : Except ToolError β) next := did
  exact absent_same (step_frame stepped _ fun touched => (partial_ne temp).1 (own _ touched).symm)
    (step_frame stepped _ fun touched => (partial_ne temp).2 (own _ touched).symm) absent

theorem partial_fails (temp : IsPartial site tmp) (own : ∀ path, op.touches path → path = tmp)
    (failed : fails op store next) (absent : Absent site store) : Absent site next := by
  have stepped : step (fun _ => 0) op store (.error .osError : Except ToolError β) next := failed
  exact absent_same (step_frame stepped _ fun touched => (partial_ne temp).1 (own _ touched).symm)
    (step_frame stepped _ fun touched => (partial_ne temp).2 (own _ touched).symm) absent

end Calls

def Saved (site : Site Bytes Hash Tables) (art : Art Hash Tables) (tmp : Path) (store : Store Bytes) : Prop :=
  Absent site store ∧ ∃ file, store tmp = some file ∧ file.content = site.save art

theorem saved_stable (temp : IsPartial site tmp) : Stable (elsewhere site) (Saved site art tmp) := by
  intro store next moved saved
  obtain ⟨absent,file,here,whole⟩ := saved
  exact ⟨absent_stable store next moved absent,file,(moved tmp (.inr (.inr (.inl temp)))).trans here,whole⟩

theorem sidecar_holds (complete : Complete site art store ∧ store (sidecar site.out) = none) :
    Holds (machine site size) (making site size fun _ store => Complete site art store ∧ Recorded site size art store)
      (atomicJson site.sidecarJson (sidecar site.out) (record site size art) 0o644) store := by
  have half : Stable (elsewhere site) fun store => Complete site art store ∧ store (sidecar site.out) = none := by
    intro store next moved half
    exact ⟨complete_same (moved _ out_own) half.1,(moved _ sidecar_own).trans half.2⟩
  have sound : ∀ store, Complete site art store ∧ store (sidecar site.out) = none → Sound site size store :=
    fun store half => .inr ⟨art,half.1,.inl half.2⟩
  refine making_call half sound ?_ ?_ complete
  · intro store _ next here made
    cases made
    have published : Holds (onFiles size (elsewhere site)) (publishing (Own site) (sidecar site.out)
        (site.sidecarJson.dumps (record site size art)) store : Post ToolError _ _)
        (replaceFile (some 0o644) (sidecar site.out) (site.sidecarJson.dumps (record site size art))) store :=
      replaceFile_holds (fun _ _ moved => moved) (some 0o644) (fun _ temp => .inr (.inr (.inr temp))) sidecar_own store
    have unpublished : ∀ next, Unpublished (Own site) (sidecar site.out) store next → Sound site size next := by
      intro next same
      exact sound_same (same _ out_own out_permanent) (same _ sidecar_own fun temp => temp_ne temp rfl) (sound store here)
    have whole : ∀ next, FileStore.Published (Own site) (sidecar site.out) (site.sidecarJson.dumps (record site size art))
        store next → Complete site art next ∧ Recorded site size art next := by
      intro next done
      exact ⟨complete_same (done.2 _ out_own out_permanent sidecar_ne.symm) here.1,done.1⟩
    refine holds_weaken published ?_ (fun _ => whole) fun _ => unpublished
    intro next here
    cases here with
    | inl same => exact unpublished next same
    | inr done => exact .inr ⟨art,(whole next done).1,.inr (whole next done).2⟩
  · intro store next here same
    cases same
    exact sound store here

theorem publish_holds (temp : IsPartial site tmp) (absent : Absent site store) :
    Holds (machine site size) (making site size fun _ store => Complete site art store ∧ Recorded site size art store)
      (publish site tmp art) store := by
  have stable : Stable (elsewhere site) (Saved site art tmp) := saved_stable temp
  have sound : ∀ store, Saved site art tmp store → Sound site size store := fun store saved => .inl saved.1
  refine making_call absent_stable (fun store absent => .inl absent) ?_
    (fun _ _ absent failed => .inl (partial_fails temp (fun _ => id) failed absent)) absent
  intro store _ next absent written
  have absent := partial_succeeds temp (fun _ => id) written absent
  obtain ⟨file,rfl,whole,_⟩ := written
  have here : Saved site art tmp (Function.update store tmp (some file)) := ⟨absent,file,Function.update_self ..,whole⟩
  refine making_call stable sound ?_ (fun _ _ saved failed => failed ▸ sound _ saved) here
  intro store stat next saved seen
  obtain ⟨rfl,file,there,rfl⟩ := seen
  have size_eq : (file.stamp size).size = size (site.save art) := by
    obtain ⟨_,other,same,whole⟩ := saved
    cases there.symm.trans same
    exact congrArg size whole
  rw [Checkpoint.sha256,Programs.bind_assoc]
  refine making_call stable sound ?_ (fun _ _ saved failed => failed ▸ sound _ saved) saved
  intro store content next saved read
  obtain ⟨rfl,file,there,rfl⟩ := read
  have content_eq : file.content = site.save art := by
    obtain ⟨_,other,same,whole⟩ := saved
    cases there.symm.trans same
    exact whole
  rw [size_eq,content_eq]
  refine making_call stable sound ?_ (fun _ _ saved failed => failed ▸ sound _ saved) saved
  intro store _ next saved moded
  have absent := partial_succeeds temp (fun _ => id) moded saved.1
  obtain ⟨file,there,rfl⟩ := moded
  have saved_next : Saved site art tmp (Function.update store tmp (some {file with mode := 0o644})) := by
    obtain ⟨_,other,same,whole⟩ := saved
    cases there.symm.trans same
    exact ⟨absent,_,Function.update_self ..,whole⟩
  refine making_call stable sound ?_ (fun _ _ saved failed => failed ▸ sound _ saved) saved_next
  intro store _ next saved renamed
  obtain ⟨absent,other,same,whole⟩ := saved
  obtain ⟨file,there,rfl⟩ := renamed
  cases there.symm.trans same
  refine sidecar_holds ⟨⟨_,Function.update_self ..,whole⟩,?_⟩
  rw [Function.update_of_ne sidecar_ne,Function.update_of_ne (partial_ne temp).2.symm]
  exact absent.2

def Settled (site : Site Bytes Hash Tables) (fact : Store Bytes → Prop) : Prop := ∀ store next,
  next site.out = store site.out → next (sidecar site.out) = store (sidecar site.out) → fact store → fact next

def Same (site : Site Bytes Hash Tables) (before store : Store Bytes) : Prop :=
  store site.out = before site.out ∧ store (sidecar site.out) = before (sidecar site.out)

theorem same_settled : Settled site (Same site before) :=
  fun _ _ out recorded same => ⟨out.trans same.1,recorded.trans same.2⟩

theorem settled_stable {fact : Store Bytes → Prop} (settled : Settled site fact) : Stable (elsewhere site) fact :=
  fun store next moved => settled store next (moved _ out_own) (moved _ sidecar_own)

theorem observing_holds {program : ToolProg Bytes α} {fact : Store Bytes → Prop}
    (uses : program.Uses FileOp.observes) (settled : Settled site fact) (here : fact store) :
    Holds (machine site size) ⟨fact,fun _ => fact,fun _ => fact⟩ program store := by
  refine holds_frame uses (settled_stable settled) ?_ here
  intro _ op store reply next observes stepped
  have kept : FileStore.step size op store reply next := stepped
  exact settled store next (step_frame kept _ (observes _)) (step_frame kept _ (observes _))

theorem readJson_observes {loads : Bytes → Option α} {path : Path} :
    (readJson loads path).Uses FileOp.observes := by
  refine uses_bind (uses_call fun _ => id) ?_
  intro content
  cases loads content with
  | none => trivial
  | some value => trivial

theorem sha256_observes {digest : Bytes → Hash} {path : Path} : (Checkpoint.sha256 digest path).Uses FileOp.observes :=
  uses_bind (uses_call fun _ => id) fun _ => trivial

theorem artifactMetadata_observes : (artifactMetadata site).Uses FileOp.observes :=
  uses_bind readJson_observes fun _ => uses_bind sha256_observes fun _ => uses_bind sha256_observes fun _ => trivial

theorem checkArtifact_observes [DecidableEq Hash] : (checkArtifact site).Uses FileOp.observes := by
  refine uses_bind artifactMetadata_observes fun _ => uses_bind ?_ fun _ => trivial
  refine uses_bind readJson_observes fun found => uses_bind (uses_each (fun _ => uses_check) _) fun _ => ?_
  refine uses_bind (uses_call fun _ => id) fun _ => uses_bind uses_check fun _ => uses_bind ?_ fun _ => trivial
  exact uses_bind sha256_observes fun _ => uses_check

theorem existing_observes : (existing site).Uses FileOp.observes := by
  refine uses_bind (uses_call fun _ => id) ?_
  intro artifact
  cases artifact with
  | true => trivial
  | false => exact uses_call fun _ => id

-- Once one of the two names is there, the guard ends the run.
theorem main_present {request : Request Tables} (there : ¬ Absent site store) :
    Holds (machine site size) ⟨Same site store,fun _ _ => False,fun _ => Same site store⟩ (main site request) store := by
  have stable : Stable (elsewhere site) (Same site store) := settled_stable same_settled
  have refused : ∀ {next : Store Bytes} {error : ToolError}, Same site store next →
      Holds (machine site size) ⟨Same site store,fun (_ : Unit) _ => False,fun _ => Same site store⟩ (.raise error) next :=
    holds_raise stable fun _ same => ⟨same,same⟩
  have failed : ∀ (middle : Store Bytes) (error : ToolError) (next : Store Bytes), Same site store middle →
      next = middle →
      Holds (machine site size) ⟨Same site store,fun (_ : Unit) _ => False,fun _ => Same site store⟩ (.raise error) next := by
    intro middle error next same kept
    exact refused (kept ▸ same)
  have start : Same site store store := ⟨rfl,rfl⟩
  refine holds_check (fun _ => ?_) fun _ => refused start
  refine holds_call stable (fun _ same => same) ?_ failed start
  intro middle present next same probed
  obtain ⟨rfl,found⟩ := probed
  cases present with
  | true => exact refused same
  | false =>
      have out : store site.out = none := by simpa [same.1] using found
      refine holds_call stable (fun _ same => same) ?_ failed same
      intro middle recorded next same probed
      obtain ⟨rfl,beside⟩ := probed
      cases recorded with
      | true => exact refused same
      | false =>
          have recorded : store (sidecar site.out) = none := by simpa [same.2] using beside
          exact absurd ⟨out,recorded⟩ there

def Whole (site : Site Bytes Hash Tables) (size : Bytes → Nat) (store : Store Bytes) : Prop :=
  ∃ art, Complete site art store ∧ Recorded site size art store

theorem whole_sound (whole : Whole site size store) : Sound site size store := by
  obtain ⟨art,complete,recorded⟩ := whole
  exact .inr ⟨art,complete,.inr recorded⟩

theorem sound_settled : Settled site (Sound site size) := fun _ _ => sound_same

theorem whole_settled : Settled site (Whole site size) := by
  intro store next out same whole
  obtain ⟨art,complete,recorded⟩ := whole
  exact ⟨art,complete_same out complete,recorded_same same recorded⟩

theorem absent_settled : Settled site (Absent site) := fun _ _ => absent_same

theorem discard_holds {fact : Store Bytes → Prop} (temp : IsPartial site tmp) (settled : Settled site fact)
    (sound : ∀ store, fact store → Sound site size store) (here : fact store) :
    Holds (machine site size) (making site size fun _ => fact) (discard tmp) store := by
  refine discard_frame (settled_stable settled) ?_ (fun store here => ⟨sound store here,here,fun _ => sound store here⟩) here
  intro store next here frame
  exact settled store next (frame _ (partial_ne temp).1.symm) (frame _ (partial_ne temp).2.symm) here

theorem save_holds {provenance : Provenance Hash} {tables : Tables} (absent : Absent site store) :
    Holds (machine site size) (making site size fun _ => Whole site size) (do
      let tmp ← call (.mkstemp site.out.dir (site.out.name ++ ['.']) ".partial".toList)
      Prog.tryFinally (publish site tmp ⟨provenance,tables⟩) (discard tmp)
      let _ ← call (.stat site.out)
      return ()) store := by
  refine making_call (settled_stable absent_settled) (fun _ absent => .inl absent) ?_
    (fun _ _ absent failed => failed ▸ .inl absent) absent
  intro store tmp next absent made
  have temp : IsPartial site tmp := ⟨made.1,made.2.1⟩
  have absent : Absent site next := by
    obtain ⟨_,_,_,file,rfl⟩ := made
    exact absent_same (Function.update_of_ne (partial_ne temp).1.symm _ _)
      (Function.update_of_ne (partial_ne temp).2.symm _ _) absent
  apply holds_bind
  apply holds_finally
  refine holds_weaken (publish_holds temp absent) (fun _ sound => sound) ?_ fun _ _ sound =>
    discard_holds temp sound_settled (fun _ sound => sound) sound
  intro _ store whole
  refine holds_weaken (discard_holds temp whole_settled (fun _ => whole_sound) ⟨_,whole⟩) (fun _ sound => sound) ?_
    fun _ _ sound => sound
  intro _ store whole
  refine making_call (settled_stable whole_settled) (fun _ => whole_sound) ?_
    (fun _ _ whole failed => failed ▸ whole_sound whole) whole
  intro store stat next whole seen
  rw [seen.1]
  exact making_done (settled_stable whole_settled) (fun _ whole => ⟨whole_sound whole,whole⟩) whole

theorem main_absent {request : Request Tables} (absent : Absent site store) :
    Holds (machine site size) (making site size fun _ => Whole site size) (main site request) store := by
  have stable : Stable (elsewhere site) (Absent site) := settled_stable absent_settled
  have sound : ∀ store, Absent site store → Sound site size store := fun _ absent => .inl absent
  have kept : ∀ store next, Absent site store → next = store → Sound site size next :=
    fun _ _ absent same => same ▸ sound _ absent
  refine holds_check (fun _ => ?_) fun _ => making_raise (sound _ absent)
  refine making_call stable sound ?_ kept absent
  intro store present next absent probed
  cases probed.1
  refine holds_check (fun _ => ?_) fun _ => making_raise (sound _ absent)
  refine making_call stable sound ?_ kept absent
  intro store recorded next absent probed
  cases probed.1
  refine holds_check (fun _ => ?_) fun _ => making_raise (sound _ absent)
  apply holds_bind
  refine holds_weaken (observing_holds artifactMetadata_observes absent_settled absent) sound ?_ fun _ => sound
  intro provenance store absent
  refine holds_check (fun _ => ?_) fun _ => making_raise (sound _ absent)
  unfold Request.build
  cases request.tables with
  | error error => exact making_raise (sound _ absent)
  | ok tables => exact save_holds absent

-- A run keeps the state sound, and what already stands under a final name.
def running (site : Site Bytes Hash Tables) (size : Bytes → Nat) (start : Store Bytes) : Post ToolError (Store Bytes) Unit where
  inv store := Sound site size store ∧ (Absent site start ∨ Same site start store)
  returns _ store := Sound site size store ∧ (Absent site start ∨ Same site start store)
  raises _ store := Sound site size store ∧ (Absent site start ∨ Same site start store)

theorem running_settled {start : Store Bytes} :
    Settled site fun store => Sound site size store ∧ (Absent site start ∨ Same site start store) := by
  intro store next out recorded here
  refine ⟨sound_same out recorded here.1,?_⟩
  cases here.2 with
  | inl absent => exact .inl absent
  | inr same => exact .inr (same_settled store next out recorded same)

theorem running_meets {start : Store Bytes} {outcome : Outcome ToolError Unit}
    (ran : (running site size start).meets outcome store) :
    Sound site size store ∧ (Absent site start ∨ Same site start store) := by
  cases outcome with
  | returned _ => exact ran
  | raised _ => exact ran
  | killed => exact ran

theorem main_holds {request : Request Tables} (sound : Sound site size store) :
    Holds (machine site size) (running site size store) (main site request) store := by
  by_cases absent : Absent site store
  · exact holds_weaken (main_absent absent) (fun _ sound => ⟨sound,.inl absent⟩)
      (fun _ _ whole => ⟨whole_sound whole,.inl absent⟩) fun _ _ sound => ⟨sound,.inl absent⟩
  · have kept : ∀ next, Same site store next → Sound site size next ∧ (Absent site store ∨ Same site store next) :=
      fun next same => ⟨sound_same same.1 same.2 sound,.inr same⟩
    exact holds_weaken (main_present absent) kept (fun _ _ never => never.elim) fun _ => kept

theorem checkArtifact_holds [DecidableEq Hash] {start : Store Bytes}
    (here : Sound site size store ∧ (Absent site start ∨ Same site start store)) :
    Holds (machine site size) (running site size start) (checkArtifact site) store :=
  observing_holds checkArtifact_observes running_settled here

theorem install_holds [DecidableEq Hash] {request : Request Tables} (sound : Sound site size store) :
    Holds (machine site size) (running site size store) (install site request) store := by
  apply holds_bind
  have start : Sound site size store ∧ Same site store store := ⟨sound,rfl,rfl⟩
  have settled : Settled site fun next => Sound site size next ∧ Same site store next :=
    fun store next out recorded here => ⟨sound_same out recorded here.1,same_settled store next out recorded here.2⟩
  have looked : Holds (machine site size) _ (existing site) store := observing_holds existing_observes settled start
  refine holds_weaken looked (fun _ here => ⟨here.1,.inr here.2⟩) ?_ fun _ _ here => ⟨here.1,.inr here.2⟩
  intro found next here
  cases found with
  | true => exact checkArtifact_holds ⟨here.1,.inr here.2⟩
  | false =>
      have kept : ∀ last, Sound site size last ∧ (Absent site next ∨ Same site next last) →
          Sound site size last ∧ (Absent site store ∨ Same site store last) := by
        intro last ends
        refine ⟨ends.1,?_⟩
        cases ends.2 with
        | inl absent => exact .inl (absent_same here.2.1.symm here.2.2.symm absent)
        | inr same => exact .inr ⟨same.1.trans here.2.1,same.2.trans here.2.2⟩
      apply holds_bind
      exact holds_weaken (main_holds here.1) kept (fun _ last ends => checkArtifact_holds (kept last ends)) fun _ => kept

end Parts

section Verification
variable {site : Site Bytes Hash Tables} {size : Bytes → Nat} {store : Store Bytes} {art : Art Hash Tables}

def currentProvenance (site : Site Bytes Hash Tables) (store : Store Bytes) : Option (Provenance Hash) := do
  let lock ← store site.lockPath
  let identity ← site.lockJson lock.content
  let builder ← store site.builderPath
  return ⟨identity.modelId,identity.revision,site.digest lock.content,site.digest builder.content⟩

theorem artifactMetadata_view : Holds (alone (step size)) (viewing store fun provenance =>
    currentProvenance site store = some provenance) (artifactMetadata site) store := by
  refine viewing_bind (readJson_view site.lockJson) ?_
  intro identity read
  obtain ⟨lock,here,parsed⟩ := read
  refine viewing_bind (sha256_view site.digest) ?_
  intro manifest read
  obtain ⟨again,there,rfl⟩ := read
  cases here.symm.trans there
  refine viewing_bind (sha256_view site.digest) ?_
  intro builder read
  obtain ⟨source,found,rfl⟩ := read
  exact viewing_done (by simp [currentProvenance,here,parsed,found])

theorem artifactMetadata_returns {provenance : Provenance Hash} (current : currentProvenance site store = some provenance) :
    Execution (alone (step size)) (artifactMetadata site) store (.returned provenance) store := by
  simp only [currentProvenance,Option.bind_eq_bind,Option.bind_eq_some_iff] at current
  obtain ⟨lock,here,identity,parsed,builder,found,same⟩ := current
  cases same
  exact execution_bind (readJson_returns here parsed)
    (execution_bind (sha256_returns site.digest here) (execution_bind (sha256_returns site.digest found) .done))

theorem metadata_items (provenance expected : Provenance Hash) (bytes : Nat) (hash : Hash) :
    (∀ item ∈ expected.items, metadata provenance bytes hash item.1 = some item.2) ↔ expected = provenance := by
  constructor
  · intro items
    obtain ⟨modelId,revision,manifest,builder⟩ := expected
    cases items (.modelId,.text modelId) (by simp [Provenance.items])
    cases items (.revision,.text revision) (by simp [Provenance.items])
    cases items (.sourceManifestSha256,.hash manifest) (by simp [Provenance.items])
    cases items (.builderSha256,.hash builder) (by simp [Provenance.items])
    rfl
  · intro same item member
    rw [same] at member
    simp only [Provenance.items,List.mem_cons,List.not_mem_nil,or_false] at member
    rcases member with rfl | rfl | rfl | rfl | rfl | rfl <;> rfl

variable [DecidableEq Hash]

def Described (site : Site Bytes Hash Tables) (size : Bytes → Nat) (store : Store Bytes) (path : Path)
    (expected : List (Key × Value Hash)) (found : Metadata Hash) : Prop :=
  (∃ beside, store (sidecar path) = some beside ∧ site.sidecarJson.loads beside.content = some found) ∧
    (∀ item ∈ expected, found item.1 = some item.2) ∧
    ∃ file, store path = some file ∧ found .bytes = some (.number (size file.content)) ∧
      found .sha256 = some (.hash (site.digest file.content))

theorem verifyHash_view (path : Path) (found : Metadata Hash) : Holds (alone (step size)) (viewing store fun _ =>
    ∃ file, store path = some file ∧ found .sha256 = some (.hash (site.digest file.content)))
    (verifyHash site path found true) store := by
  refine viewing_bind (sha256_view site.digest) ?_
  intro hash read
  obtain ⟨file,here,rfl⟩ := read
  refine holds_weaken viewing_passed (fun _ same => same) ?_ fun _ _ same => same
  exact fun _ _ passed => ⟨passed.1,file,here,passed.2⟩

theorem verifyArtifact_view (path : Path) (expected : List (Key × Value Hash)) :
    Holds (alone (step size)) (viewing store (Described site size store path expected))
      (verifyArtifact site path expected true) store := by
  refine viewing_bind (readJson_view site.sidecarJson.loads) ?_
  intro found beside
  have once : ∀ item : Key × Value Hash, Holds (alone (step size)) (viewing store fun _ => found item.1 = some item.2)
      (verifyItem found item) store := fun _ => viewing_passed
  refine viewing_bind (viewing_each once expected) ?_
  intro results verified
  have items : ∀ item ∈ expected, found item.1 = some item.2 :=
    ((List.forall₂_and_left expected results).mp (verified.imp fun _ _ same => And.intro same trivial)).1
  refine viewing_call (fun _ => id) ?_
  intro stat seen
  obtain ⟨_,file,here,rfl⟩ := seen
  refine viewing_check ?_
  intro sized
  refine viewing_bind (verifyHash_view path found) ?_
  intro _ hashed
  obtain ⟨again,there,hashed⟩ := hashed
  cases here.symm.trans there
  exact viewing_done ⟨beside,items,file,here,of_decide_eq_true sized,hashed⟩

theorem verifyArtifact_returns {path : Path} {expected : List (Key × Value Hash)} {found : Metadata Hash}
    (described : Described site size store path expected found) :
    Execution (alone (step size)) (verifyArtifact site path expected true) store (.returned found) store := by
  obtain ⟨⟨beside,there,loaded⟩,items,file,here,sized,hashed⟩ := described
  have verified : ∃ results, Execution (alone (step size)) (each (verifyItem found) expected) store (.returned results) store :=
    execution_each fun item member => ⟨(),execution_check (decide_eq_true (items item member))⟩
  obtain ⟨results,verified⟩ := verified
  have stat : Execution (alone (step size)) (call (.stat path) : ToolProg Bytes Stamp) store
      (.returned (file.stamp size)) store :=
    execution_call ⟨rfl,file,here,rfl⟩
  have matched : Execution (alone (step size)) (verifyHash site path found true) store (.returned ()) store :=
    execution_bind (sha256_returns site.digest here) (execution_check (decide_eq_true hashed))
  exact execution_bind (readJson_returns there loaded) (execution_bind verified (execution_bind stat
    (execution_bind (execution_check (decide_eq_true sized)) (execution_bind matched .done))))

-- checkpoint.py artifact succeeds, if the file operations themselves do.
def Accepts (site : Site Bytes Hash Tables) (size : Bytes → Nat) (store : Store Bytes) : Prop :=
  ∃ last, Execution (alone (step size)) (checkArtifact site) store (.returned ()) last

theorem checkArtifact_view : Holds (alone (step size)) (viewing store fun _ => ∃ provenance found,
    currentProvenance site store = some provenance ∧ Described site size store site.out provenance.items found)
    (checkArtifact site) store :=
  viewing_bind artifactMetadata_view fun provenance current =>
    viewing_bind (verifyArtifact_view site.out provenance.items) fun found described =>
      viewing_done ⟨provenance,found,current,described⟩

theorem accepts_exact : Accepts site size store ↔ ∃ provenance found,
    currentProvenance site store = some provenance ∧ Described site size store site.out provenance.items found := by
  constructor
  · intro accepts
    obtain ⟨last,ran⟩ := accepts
    exact (holds_sound checkArtifact_view ran).2
  · intro good
    obtain ⟨provenance,found,current,described⟩ := good
    exact ⟨store,execution_bind (artifactMetadata_returns current)
      (execution_bind (verifyArtifact_returns described) .done)⟩

theorem sound_accepts (sound : Sound site size store) : Accepts site size store ↔
    ∃ art, Complete site art store ∧ Recorded site size art store ∧ currentProvenance site store = some art.provenance := by
  rw [accepts_exact]
  constructor
  · intro good
    obtain ⟨provenance,found,current,⟨beside,there,loaded⟩,items,file,here,_⟩ := good
    cases sound with
    | inl absent => cases here.symm.trans absent.1
    | inr made =>
        obtain ⟨art,complete,beside⟩ := made
        cases beside with
        | inl none => cases there.symm.trans none
        | inr recorded =>
            obtain ⟨written,same,whole⟩ := recorded
            cases there.symm.trans same
            rw [whole,site.sidecarJson.loads_dumps] at loaded
            cases loaded
            have equal := (metadata_items art.provenance provenance _ _).mp items
            exact ⟨art,complete,⟨beside,there,whole⟩,equal ▸ current⟩
  · intro good
    obtain ⟨art,⟨file,here,whole⟩,⟨beside,there,written⟩,current⟩ := good
    refine ⟨art.provenance,record site size art,current,⟨beside,there,?_⟩,?_,file,here,?_,?_⟩
    · rw [written,site.sidecarJson.loads_dumps]
    · exact (metadata_items art.provenance art.provenance _ _).mpr rfl
    · rw [whole]
      rfl
    · rw [whole]
      rfl

end Verification

-- One event of a history: an edit that leaves the two final names alone, or a
-- run of the builder or of the installer, which ends or is killed anywhere.
inductive Next [DecidableEq Hash] (site : Site Bytes Hash Tables) (size : Bytes → Nat) :
    Store Bytes → Store Bytes → Prop where
  | edited : Same site before after → Next site size before after
  | built : Execution (machine site size) (main site request) before outcome after → Next site size before after
  | installed : Execution (machine site size) (install site request) before outcome after → Next site size before after

section Histories
variable [DecidableEq Hash] {site : Site Bytes Hash Tables} {size : Bytes → Nat} {start store later : Store Bytes}

theorem next_sound (sound : Sound site size store) (next : Next site size store later) :
    Sound site size later ∧ (Absent site store ∨ Same site store later) := by
  cases next with
  | edited same => exact ⟨sound_same same.1 same.2 sound,.inr same⟩
  | built ran => exact running_meets (holds_sound (main_holds sound) ran)
  | installed ran => exact running_meets (holds_sound (install_holds sound) ran)

theorem history_sound (sound : Sound site size store) (history : ReflTransGen (Next site size) store later) :
    Sound site size later ∧ (Absent site store ∨ Same site store later) := by
  induction history with
  | refl => exact ⟨sound,.inr ⟨rfl,rfl⟩⟩
  | tail _ next ih =>
      obtain ⟨still,before⟩ := ih
      obtain ⟨sound,after⟩ := next_sound still next
      refine ⟨sound,?_⟩
      cases before with
      | inl absent => exact .inl absent
      | inr same =>
          cases after with
          | inl absent => exact .inl (absent_same same.1.symm same.2.symm absent)
          | inr again => exact .inr ⟨again.1.trans same.1,again.2.trans same.2⟩

theorem publication_sound (fresh : Absent site start) (history : ReflTransGen (Next site size) start store) :
    (∀ file, store site.out = some file → ∃ art, file.content = site.save art) ∧
    (∀ beside, store (sidecar site.out) = some beside → ∃ file art, store site.out = some file ∧
      file.content = site.save art ∧ beside.content =
        site.sidecarJson.dumps (metadata art.provenance (size file.content) (site.digest file.content))) ∧
    (Accepts site size store ↔ ∃ art, Complete site art store ∧ Recorded site size art store ∧
      currentProvenance site store = some art.provenance) ∧
    (store (sidecar site.out) = none → ¬ Accepts site size store) ∧
    ∀ later, ¬ Absent site store → ReflTransGen (Next site size) store later →
      later site.out = store site.out ∧ later (sidecar site.out) = store (sidecar site.out) := by
  have sound := (history_sound (.inl fresh) history).1
  refine ⟨?_,?_,sound_accepts sound,?_,?_⟩
  · intro file here
    cases sound with
    | inl absent => cases here.symm.trans absent.1
    | inr made =>
        obtain ⟨art,⟨saved,there,whole⟩,_⟩ := made
        cases here.symm.trans there
        exact ⟨art,whole⟩
  · intro beside here
    cases sound with
    | inl absent => cases here.symm.trans absent.2
    | inr made =>
        obtain ⟨art,⟨file,there,whole⟩,none | ⟨found,same,written⟩⟩ := made
        · cases here.symm.trans none
        · cases here.symm.trans same
          exact ⟨file,art,there,whole,by rw [written,whole]; rfl⟩
  · intro none accepts
    obtain ⟨_,_,⟨_,recorded,_⟩,_⟩ := (sound_accepts sound).mp accepts
    cases recorded.symm.trans none
  · intro later present future
    exact (history_sound sound future).2.resolve_left present

end Histories

section Sample

inductive SampleBytes where
  | plain (n : Nat)
  | saved (art : Art Nat Unit)
  | recorded (metadata : Metadata Nat)

instance : Inhabited SampleBytes := ⟨.plain 0⟩

def sampleSite : Site SampleBytes Nat Unit where
  root := []
  out := ⟨[],['p']⟩
  digest
    | .plain n => n
    | _ => 7
  lockJson
    | .plain 1 => some ⟨['m'],['v']⟩
    | _ => none
  sidecarJson := ⟨.recorded,fun | .recorded metadata => some metadata | _ => none,fun _ => rfl⟩
  save := .saved

def sampleStart : Files SampleBytes :=
  ⟨[(sampleSite.lockPath,⟨.plain 1,0,0,0o644⟩),(sampleSite.builderPath,⟨.plain 2,0,0,0o644⟩)]⟩

def sampleRun : Outcome ToolError Unit × Files SampleBytes :=
  (main sampleSite ⟨4,['m'],['v'],.ok ()⟩).run (perform (fun _ => 9) .osError) sampleStart

-- A run that publishes both files, which no later run changes.
theorem sample_kept : (sampleRun.2.store sampleSite.out).isSome ∧ (sampleRun.2.store (sidecar sampleSite.out)).isSome ∧
    ∀ later, ReflTransGen (Next sampleSite fun _ => 9) sampleRun.2.store later →
      later sampleSite.out = sampleRun.2.store sampleSite.out ∧
        later (sidecar sampleSite.out) = sampleRun.2.store (sidecar sampleSite.out) := by
  have ran : Execution (machine sampleSite fun _ => 9) (main sampleSite ⟨4,['m'],['v'],.ok ()⟩) sampleStart.store
      sampleRun.1 sampleRun.2.store := run_execution Files.store (perform_step _ _) _ _
  have fresh : (sampleStart.store sampleSite.out).isNone ∧ (sampleStart.store (sidecar sampleSite.out)).isNone := by
    decide +kernel
  have made : (sampleRun.2.store sampleSite.out).isSome ∧ (sampleRun.2.store (sidecar sampleSite.out)).isSome := by
    decide +kernel
  have absent : Absent sampleSite sampleStart.store :=
    ⟨Option.isNone_iff_eq_none.mp fresh.1,Option.isNone_iff_eq_none.mp fresh.2⟩
  refine ⟨made.1,made.2,?_⟩
  intro later future
  refine (publication_sound absent (.single (.built ran))).2.2.2.2 later ?_ future
  intro none
  rw [none.1] at made
  cases made.1

end Sample

end OneSpark.ArtifactRuns
