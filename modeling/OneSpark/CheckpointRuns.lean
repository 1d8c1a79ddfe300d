import OneSpark.Inspections

namespace OneSpark.CheckpointRuns
open Programs FileStore FileTables Checkpoint Inspections Relation
variable {Bytes Hash α β Reply : Type} {setting : Setting Bytes Hash} {before middle after start world : World Bytes}
  {path : Path} {stamp : Stamp} {hash : Hash} {entries : List (Path × File Bytes)}

theorem lock_private : Private setting setting.site.lockPath := .inl rfl

-- The lock that a run reads: nobody edits it while the run goes on.
def Locked (setting : Setting Bytes Hash) (world : World Bytes) (bytes : Bytes) (lock : Lock Hash) : Prop :=
  (∃ file, world.store setting.site.lockPath = some file ∧ file.content = bytes) ∧
    setting.site.lockJson bytes = some lock

-- What a run holds in its hands before it turns to the receipt.
def Gathered (setting : Setting Bytes Hash) (start : World Bytes) (selected : Lock Hash → List Name) (full : Bool)
    (result : Receipt Hash) (world : World Bytes) : Prop :=
  ∃ bytes lock, Locked setting start bytes lock ∧ result.sourceManifestSha256 = setting.site.digest bytes ∧
    Inspected setting start (selected lock) lock full result.inspection world

section Main
variable {selected : Lock Hash → List Name} {full : Bool} {result : Receipt Hash}
  (known : ∀ file, start.store setting.site.lockPath = some file → setting.locks file.content)
  (own : setting.selections selected)

theorem later_locked {content : Bytes} {lock : Lock Hash} (later : Later setting start before [])
    (stepped : step setting (.read setting.site.lockPath) before (.ok content) after)
    (parsed : setting.site.lockJson content = some lock) : Locked setting start content lock := by
  obtain ⟨file,here,whole⟩ := read_private lock_private stepped
  have same := (later_next later (later_read stepped)).same _ lock_private
  exact ⟨⟨file,same ▸ here,whole⟩,parsed⟩

include known own

theorem locked_shards {bytes : Bytes} {lock : Lock Hash} (locked : Locked setting start bytes lock) :
    ∀ spec ∈ lock.files, IsShard setting ⟨selected lock,spec.name⟩ := by
  intro spec member
  obtain ⟨⟨file,here,rfl⟩,parsed⟩ := locked
  exact ⟨file.content,lock,selected,known file here,own,parsed,spec,member,rfl⟩

theorem gathered_frame (full : Bool) (result : Receipt Hash) :
    Frame setting start (Gathered setting start selected full result) := by
  constructor
  · intro before after later gathered
    obtain ⟨bytes,lock,locked,manifest,inspected⟩ := gathered
    exact ⟨bytes,lock,locked,manifest,
      (inspected_frame (locked_shards known own locked)).kept before after later inspected⟩
  · intro world gathered
    obtain ⟨bytes,lock,locked,_,inspected⟩ := gathered
    exact (inspected_frame (locked_shards known own locked)).unchanged world inspected

theorem gather_holds [DecidableEq Hash] :
    Holds (machine setting) (inspecting setting start (Gathered setting start selected full))
      (gather setting.site selected full) start := by
  have since : Frame setting start fun world => Later setting start world [] :=
    ⟨kept_since,fun world later => later.same _ receipt_private⟩
  refine inspecting_json since ?_ (later_refl start)
  intro before content after lock earlier later stepped parsed
  have locked := later_locked earlier stepped parsed
  have shards := locked_shards known own locked
  refine inspecting_bind (inspectSnapshot_holds shards _ later) ?_
  intro inspection world inspected
  refine inspecting_hash (inspected_frame shards) ?_ inspected
  intro before manifest after _ inspected stepped
  have frame := gathered_frame known own full ⟨inspection,setting.site.digest manifest⟩
  have same : manifest = content := by
    obtain ⟨file,here,rfl⟩ := read_private lock_private stepped
    obtain ⟨⟨first,there,rfl⟩,_⟩ := locked
    obtain ⟨_,_,_,since⟩ := inspected.shards
    rw [since.same _ lock_private,there] at here
    cases here
    rfl
  have gathered : Gathered setting start selected full ⟨inspection,setting.site.digest manifest⟩ after :=
    ⟨content,lock,locked,congrArg setting.site.digest same,inspected⟩
  exact inspecting_done frame frame.kept gathered gathered

def Confirmed (setting : Setting Bytes Hash) (start : World Bytes) (result : Receipt Hash) : Prop :=
  ∃ file, start.store setting.site.receiptPath = some file ∧ setting.site.receiptJson.loads file.content = some result

theorem confirm_holds [DecidableEq Hash] (here : Gathered setting start selected full result world) :
    Holds (machine setting) (inspecting setting start fun _ world =>
      Gathered setting start selected full result world ∧ Confirmed setting start result)
      (confirm setting.site result) world := by
  have frame := gathered_frame known own full result
  refine inspecting_probe frame ?_ here
  intro present world here
  refine inspecting_check frame here fun _ => ?_
  refine inspecting_json frame ?_ here
  intro before content after receipt _ here stepped parsed
  refine inspecting_passed frame (kept_and frame.kept fun _ _ _ => id) here ?_
  intro same
  obtain ⟨file,there,rfl⟩ := read_private receipt_private stepped
  rw [of_decide_eq_true same] at parsed
  exact ⟨here,file,(frame.unchanged after here) ▸ there,parsed⟩

theorem light_holds [DecidableEq Hash] :
    Holds (machine setting) (inspecting setting start fun result world =>
      Gathered setting start selected false result world ∧ Confirmed setting start result)
      (main setting.site selected false) start := by
  refine inspecting_bind (gather_holds known own) ?_
  intro result world here
  refine inspecting_bind (confirm_holds known own here) ?_
  intro _ world ends
  have frame := gathered_frame known own false result
  exact inspecting_done frame (kept_and frame.kept fun _ _ _ => id) ends.1 ends

end Main

def Wrote (setting : Setting Bytes Hash) (result : Receipt Hash) (world : World Bytes) : Prop :=
  ∃ file, world.store setting.site.receiptPath = some file ∧ file.content = setting.site.receiptJson.dumps result

-- Every triple of the receipt stands for a content with the pinned hash.
def Justified (setting : Setting Bytes Hash) (result : Receipt Hash) (world : World Bytes) : Prop :=
  ∃ bytes lock selected, setting.locks bytes ∧ setting.selections selected ∧ setting.site.lockJson bytes = some lock ∧
    result.sourceManifestSha256 = setting.site.digest bytes ∧ result.inspection.snapshot = selected lock ∧
      List.Forall₂ (fun spec record => Pinned setting world ⟨selected lock,spec.name⟩ record.stamp spec.sha256)
        lock.files result.inspection.files

theorem justified_pins {result : Receipt Hash} (pins : ∀ path stamp hash, IsShard setting path →
      Pinned setting before path stamp hash → Pinned setting after path stamp hash)
    (justified : Justified setting result before) : Justified setting result after := by
  obtain ⟨bytes,lock,selected,known,own,parsed,manifest,snapshot,pinned⟩ := justified
  refine ⟨bytes,lock,selected,known,own,parsed,manifest,snapshot,?_⟩
  have shards : ∀ spec ∈ lock.files, IsShard setting ⟨selected lock,spec.name⟩ :=
    fun spec member => ⟨bytes,lock,selected,known,own,parsed,spec,member,rfl⟩
  refine ((List.forall₂_and_left _ _).mpr ⟨shards,pinned⟩).imp ?_
  exact fun spec record both => pins _ _ _ both.1 both.2

theorem step_pinned {op : FileOp Bytes Reply} {reply : Except ToolError Reply} (shard : IsShard setting path)
    (stepped : step setting op before reply after) (pinned : Pinned setting before path stamp hash) :
    Pinned setting after path stamp hash := by
  cases reply with
  | error error =>
      have aged : Aged setting before after := by
        cases op <;> exact stepped.2.2
      exact pinned_aged aged shard pinned
  | ok reply =>
      cases op
      case read => exact (later_read stepped).pins _ _ _ shard pinned
      case stat =>
        obtain ⟨_,_,later,_⟩ := later_stat stepped
        exact later.pins _ _ _ shard pinned
      all_goals exact pinned_aged stepped.2.2 shard pinned

theorem gathered_justified {selected : Lock Hash → List Name} {result : Receipt Hash}
    (known : ∀ file, start.store setting.site.lockPath = some file → setting.locks file.content)
    (own : setting.selections selected) (gathered : Gathered setting start selected true result world) :
    Justified setting result world := by
  obtain ⟨bytes,lock,locked,manifest,inspected⟩ := gathered
  obtain ⟨⟨file,here,rfl⟩,parsed⟩ := locked
  obtain ⟨entries,files,recorded,_⟩ := inspected.shards
  refine ⟨file.content,lock,selected,known file here,own,parsed,manifest,inspected.named.1,?_⟩
  rw [files,List.forall₂_map_right_iff]
  refine recorded.imp ?_
  intro spec entry recorded
  have pinned := recorded.2 rfl
  rw [recorded.1] at pinned
  exact pinned

def writing (setting : Setting Bytes Hash) (start : World Bytes) : Post ToolError (World Bytes) (Receipt Hash) where
  inv world := Unchanged setting start world ∨ ∃ result, Wrote setting result world ∧ Justified setting result world
  returns result world := Wrote setting result world ∧ Justified setting result world
  raises _ := Unchanged setting start

def privately (setting : Setting Bytes Hash) (before after : Store Bytes) : Prop :=
  ∀ path, Private setting path → after path = before path

theorem step_files {op : FileOp Bytes Reply} {reply : Except ToolError Reply} (publishes : op.publishes)
    (stepped : step setting op before reply after) :
    FileStore.step setting.size op before.store reply after.store := by
  cases op <;> first | exact stepped.1 | exact absurd publishes id

theorem replaceReceipt_holds (result : Receipt Hash) (start : World Bytes) :
    Holds (machine setting) ⟨fun world => Unchanged setting start world ∨ Wrote setting result world,
      fun _ => Wrote setting result,fun _ => Unchanged setting start⟩
      (replaceFile (some 0o600) setting.site.receiptPath (setting.site.receiptJson.dumps result)) start := by
  have quiet : Quiet (privately setting) (Private setting) := fun _ _ moved => moved
  have published : Holds (onFiles setting.size (privately setting)) (publishing (Private setting) setting.site.receiptPath
      (setting.site.receiptJson.dumps result) start.store : Post ToolError _ _)
      (replaceFile (some 0o600) setting.site.receiptPath (setting.site.receiptJson.dumps result)) start.store :=
    replaceFile_holds quiet (some 0o600) (fun _ temp => .inr (.inr temp)) receipt_private start.store
  have unchanged : ∀ world : World Bytes, Unpublished (Private setting) setting.site.receiptPath start.store world.store →
      Unchanged setting start world :=
    fun world same => same _ receipt_private fun temp => temp_ne temp rfl
  have moves : ∀ before after : World Bytes, (machine setting).moves before after →
      ReflTransGen (privately setting) before.store after.store := fun _ _ moved => .single moved.1
  have ran : Holds (machine setting) _ _ start := holds_project World.store (replaceFile_uses _ _ _)
    (fun _ _ _ _ => step_files) moves published
  refine holds_weaken ran ?_ (fun _ _ here => here.1) fun _ world => unchanged world
  intro world here
  cases here with
  | inl same => exact .inl (unchanged world same)
  | inr done => exact .inr done.1

theorem full_holds [DecidableEq Hash] {selected : Lock Hash → List Name}
    (known : ∀ file, start.store setting.site.lockPath = some file → setting.locks file.content)
    (own : setting.selections selected) :
    Holds (machine setting) (writing setting start) (main setting.site selected true) start := by
  apply holds_bind
  refine holds_weaken (gather_holds known own) (fun _ same => .inl same) ?_ fun _ _ same => same
  intro result world gathered
  have frame := gathered_frame known own true result
  have opened : (atomicJson setting.site.receiptJson setting.site.receiptPath result 0o600 >>= fun _ => pure result) =
      call (.mkdir setting.site.receiptPath.dir) >>= fun _ => replaceFile (some 0o600) setting.site.receiptPath
        (setting.site.receiptJson.dumps result) >>= fun _ => (pure result : ToolProg Bytes (Receipt Hash)) :=
    Programs.bind_assoc ..
  show Holds (machine setting) (writing setting start)
    (atomicJson setting.site.receiptJson setting.site.receiptPath result 0o600 >>= fun _ => pure result) world
  rw [opened]
  refine holds_call (kept_stable frame.kept) (fun world here => .inl (frame.unchanged world here)) ?_ ?_ gathered
  · intro before _ after here stepped
    have here := frame.kept before after (later_same stepped.1 stepped.2.1 stepped.2.2) here
    have unchanged := frame.unchanged after here
    have wrote : Holds (machine setting) _ _ after := holds_with (Justified setting result)
      (fun _ _ _ _ stepped => justified_pins fun _ _ _ shard => step_pinned shard stepped)
      (fun _ _ moved => justified_pins fun _ _ _ => pinned_aged moved.2.2)
      (replaceReceipt_holds result after) (gathered_justified known own here)
    apply holds_map
    refine holds_weaken wrote ?_ (fun _ _ here => here) fun _ _ here => here.1.trans unchanged
    intro world here
    cases here.1 with
    | inl same => exact .inl (same.trans unchanged)
    | inr there => exact .inr ⟨result,there,here.2⟩
  · intro before error after here stepped
    have here := frame.kept before after (later_same stepped.1 stepped.2.1 stepped.2.2) here
    refine holds_raise (kept_stable frame.kept) ?_ here
    exact fun world here => ⟨.inl (frame.unchanged world here),frame.unchanged world here⟩

def between (setting : Setting Bytes Hash) (before after : World Bytes) : Prop :=
  after.store setting.site.receiptPath = before.store setting.site.receiptPath ∧ Aged setting before after

def Starts (setting : Setting Bytes Hash) (selected : Lock Hash → List Name) (world : World Bytes) : Prop :=
  (∀ file, world.store setting.site.lockPath = some file → setting.locks file.content) ∧ setting.selections selected

-- A history, with the result of the full run that wrote the receipt; a full run
-- may be killed before or after it has replaced the receipt.
inductive Reached [DecidableEq Hash] (setting : Setting Bytes Hash) : World Bytes → Option (Receipt Hash) → Prop where
  | start {world : World Bytes} : world.store setting.site.receiptPath = none → Reached setting world none
  | moved {before after : World Bytes} : Reached setting before last → between setting before after → Reached setting after last
  | full {before after : World Bytes} : Reached setting before last → Starts setting selected before →
      Execution (machine setting) (main setting.site selected true) before.begin (.returned result) after →
      Reached setting after (some result)
  | light {before after : World Bytes} : Reached setting before last → Starts setting selected before →
      Execution (machine setting) (main setting.site selected false) before.begin (.returned result) after →
      Reached setting after last
  | failed {before after : World Bytes} : Reached setting before last → Starts setting selected before →
      Execution (machine setting) (main setting.site selected full) before.begin (.raised error) after →
      Reached setting after last
  | killed {before after : World Bytes} : Reached setting before last → Starts setting selected before →
      Execution (machine setting) (main setting.site selected full) before.begin .killed after →
      after.store setting.site.receiptPath = before.store setting.site.receiptPath → Reached setting after last
  | replaced {before after : World Bytes} : Reached setting before last → Starts setting selected before →
      Execution (machine setting) (main setting.site selected true) before.begin .killed after →
      Wrote setting result after → Reached setting after (some result)

-- The receipt is the last one written, and it is justified.
def Guarded (setting : Setting Bytes Hash) (world : World Bytes) : Option (Receipt Hash) → Prop
  | none => world.store setting.site.receiptPath = none
  | some result => Wrote setting result world ∧ Justified setting result world

variable {last : Option (Receipt Hash)} {result other : Receipt Hash}

theorem wrote_same (same : after.store setting.site.receiptPath = before.store setting.site.receiptPath)
    (wrote : Wrote setting result before) : Wrote setting result after := by
  obtain ⟨file,here,whole⟩ := wrote
  exact ⟨file,same.trans here,whole⟩

theorem wrote_once (wrote : Wrote setting result world) (again : Wrote setting other world) : result = other := by
  obtain ⟨file,here,whole⟩ := wrote
  obtain ⟨_,there,content⟩ := again
  cases here.symm.trans there
  have loaded := setting.site.receiptJson.loads_dumps result
  rw [← whole,content,setting.site.receiptJson.loads_dumps other] at loaded
  exact (Option.some.inj loaded).symm

theorem guarded_same (guarded : Guarded setting before last)
    (same : after.store setting.site.receiptPath = before.store setting.site.receiptPath)
    (pins : ∀ path stamp hash, IsShard setting path → Pinned setting before path stamp hash →
      Pinned setting after path stamp hash) : Guarded setting after last := by
  cases last with
  | none => exact same.trans guarded
  | some result => exact ⟨wrote_same same guarded.1,justified_pins pins guarded.2⟩

theorem guarded_begin (guarded : Guarded setting before last) : Guarded setting before.begin last := by
  cases last with
  | none => exact guarded
  | some result => exact guarded

theorem run_pinned {program : ToolProg Bytes α} {outcome : Outcome ToolError α}
    (ran : Execution (machine setting) program before outcome after) (path : Path) (stamp : Stamp) (hash : Hash)
    (shard : IsShard setting path) (pinned : Pinned setting before path stamp hash) :
    Pinned setting after path stamp hash := by
  induction ran with
  | done => exact pinned
  | raise => exact pinned
  | killed => exact pinned
  | moved moved _ ih => exact ih (pinned_aged moved.2.2 shard pinned)
  | performed stepped _ ih => exact ih (step_pinned shard stepped pinned)

section Histories
variable [DecidableEq Hash] {selected : Lock Hash → List Name} {full : Bool} {error : ToolError}
  (starts : Starts setting selected before)
include starts

theorem light_gathered (ran : Execution (machine setting) (main setting.site selected false) before.begin
    (.returned result) after) :
    Gathered setting before.begin selected false result after ∧ Confirmed setting before.begin result := by
  have known : ∀ file, before.begin.store setting.site.lockPath = some file → setting.locks file.content := starts.1
  exact holds_sound (light_holds known starts.2) ran

theorem full_writes (ran : Execution (machine setting) (main setting.site selected true) before.begin outcome after) :
    (writing setting before.begin).meets outcome after := by
  have known : ∀ file, before.begin.store setting.site.lockPath = some file → setting.locks file.content := starts.1
  exact holds_sound (full_holds known starts.2) ran

theorem failed_unchanged
    (ran : Execution (machine setting) (main setting.site selected full) before.begin (.raised error) after) :
    after.store setting.site.receiptPath = before.store setting.site.receiptPath := by
  have known : ∀ file, before.begin.store setting.site.lockPath = some file → setting.locks file.content := starts.1
  cases full with
  | false => exact holds_sound (light_holds known starts.2) ran
  | true => exact holds_sound (full_holds known starts.2) ran

theorem light_unchanged
    (ran : Execution (machine setting) (main setting.site selected false) before.begin (.returned result) after) :
    after.store setting.site.receiptPath = before.store setting.site.receiptPath := by
  have known : ∀ file, before.begin.store setting.site.lockPath = some file → setting.locks file.content := starts.1
  exact (gathered_frame known starts.2 false result).unchanged after (light_gathered starts ran).1

theorem replaced_justified (guarded : Guarded setting before last)
    (ran : Execution (machine setting) (main setting.site selected true) before.begin .killed after)
    (wrote : Wrote setting result after) : Justified setting result after := by
  cases full_writes starts ran with
  | inr fresh =>
      obtain ⟨other,there,justified⟩ := fresh
      cases wrote_once wrote there
      exact justified
  | inl same =>
      have guarded := guarded_same (guarded_begin guarded) same (run_pinned ran)
      cases last with
      | none =>
          obtain ⟨file,here,_⟩ := wrote
          cases here.symm.trans guarded
      | some other =>
          cases wrote_once wrote guarded.1
          exact guarded.2

end Histories

theorem reached_guarded [DecidableEq Hash] (reached : Reached setting world last) : Guarded setting world last := by
  induction reached with
  | start absent => exact absent
  | moved _ moved ih => exact guarded_same ih moved.1 fun _ _ _ => pinned_aged moved.2
  | full _ starts ran _ => exact full_writes starts ran
  | light _ starts ran ih => exact guarded_same (guarded_begin ih) (light_unchanged starts ran) (run_pinned ran)
  | failed _ starts ran ih => exact guarded_same (guarded_begin ih) (failed_unchanged starts ran) (run_pinned ran)
  | killed _ _ ran same ih => exact guarded_same (guarded_begin ih) same (run_pinned ran)
  | replaced _ starts ran wrote ih => exact ⟨wrote,replaced_justified starts ih ran wrote⟩

def Vouched (setting : Setting Bytes Hash) (before : World Bytes) (last : Option (Receipt Hash))
    (selected : Lock Hash → List Name) (result : Receipt Hash) (after : World Bytes) : Prop :=
  last = some result ∧ ∃ bytes lock, Locked setting before bytes lock ∧
    List.Forall₂ (fun spec entry => entry.1 = ⟨selected lock,spec.name⟩ ∧
      setting.site.digest entry.2.content = spec.sha256) lock.files (stats after.log) ∧
    Hashed setting after ⟨selected lock,configName⟩ lock.configSha256 ∧
    Hashed setting after ⟨selected lock,indexName⟩ lock.indexSha256 ∧
    List.Forall₂ (fun name entry => entry.1 = name ∧ Hashed setting after ⟨selected lock,name⟩ entry.2)
      tokenizerNames result.inspection.tokenizers

theorem stated_digests {dir : List Name} {specs : List (ShardSpec Hash)}
    (shards : ∀ spec ∈ specs, IsShard setting ⟨dir,spec.name⟩)
    (pinned : List.Forall₂ (fun spec record => Pinned setting before ⟨dir,spec.name⟩ record.stamp spec.sha256)
      specs (entries.map (recordOf setting.size)))
    (named : List.Forall₂ (fun spec entry => entry.1 = ⟨dir,spec.name⟩) specs entries)
    (later : Later setting before after entries) :
    List.Forall₂ (fun spec entry => entry.1 = ⟨dir,spec.name⟩ ∧ setting.site.digest entry.2.content = spec.sha256)
      specs entries := by
  rw [List.forall₂_map_right_iff] at pinned
  have own := (List.forall₂_and_left specs entries).mpr ⟨shards,List.Forall₂.mp (fun _ _ => And.intro) named pinned⟩
  have members := (List.forall₂_and_left entries specs).mpr ⟨fun _ => id,own.flip⟩
  refine members.flip.imp ?_
  intro spec entry both
  obtain ⟨member,shard,same,pinned⟩ := both
  refine ⟨same,later.stated entry member spec.sha256 ?_ ?_⟩
  · exact same ▸ shard
  · rw [same]
    exact pinned

theorem light_vouches [DecidableEq Hash] {selected : Lock Hash → List Name} (injective : Function.Injective setting.site.digest)
    (reached : Reached setting before last) (starts : Starts setting selected before) :
    (∀ result after, Execution (machine setting) (main setting.site selected false) before.begin (.returned result) after →
      Vouched setting before last selected result after) ∧
    ∀ error after, Execution (machine setting) (main setting.site selected true) before.begin (.raised error) after →
      after.store setting.site.receiptPath = before.store setting.site.receiptPath := by
  refine ⟨?_,fun error after => failed_unchanged starts⟩
  intro result after ran
  obtain ⟨⟨bytes,lock,locked,manifest,inspected⟩,receipt,here,loaded⟩ := light_gathered starts ran
  obtain ⟨entries,files,recorded,since⟩ := inspected.shards
  have guarded := guarded_begin (reached_guarded reached)
  cases last with
  | none => cases here.symm.trans guarded
  | some written =>
      have same : written = result := by
        obtain ⟨file,there,whole⟩ := guarded.1
        cases here.symm.trans there
        rw [whole,setting.site.receiptJson.loads_dumps] at loaded
        exact Option.some.inj loaded
      obtain ⟨first,old,chosen,_,_,parsed,hashed,snapshot,pinned⟩ := guarded.2
      rw [same] at hashed snapshot pinned
      cases injective (hashed.symm.trans manifest)
      cases locked.2.symm.trans parsed
      have shards := locked_shards starts.1 starts.2 locked
      rw [← snapshot,inspected.named.1,files] at pinned
      have digests := stated_digests shards pinned (recorded.imp fun _ _ here => here.1) since
      obtain ⟨events,log,shown⟩ := since.log
      refine ⟨congrArg some same,bytes,lock,locked,?_,inspected.pinned.1,inspected.pinned.2,inspected.tokenizers⟩
      rw [log]
      show List.Forall₂ _ lock.files (stats events)
      rw [shown]
      exact digests

section Sample

abbrev SampleBytes := Nat ⊕ Receipt Nat

instance : Inhabited SampleBytes := ⟨.inl 0⟩

def receiptCode (result : Receipt Nat) : Nat :=
  let files := result.inspection.files.map fun record =>
    (record.name,record.stamp.size,record.stamp.mtime,record.stamp.inode)
  Encodable.encode (result.sourceManifestSha256,result.inspection.snapshot,result.inspection.revision,files,
    result.inspection.tokenizers)

theorem receiptCode_injective : Function.Injective receiptCode := by
  intro first second same
  obtain ⟨⟨snapshot,revision,files,tokenizers⟩,manifest⟩ := first
  obtain ⟨⟨snapshot',revision',files',tokenizers'⟩,manifest'⟩ := second
  have parts := Encodable.encode_injective same
  simp only [Prod.mk.injEq] at parts
  obtain ⟨rfl,rfl,rfl,files_eq,rfl⟩ := parts
  have inj : Function.Injective fun record : Record => (record.name,record.stamp.size,record.stamp.mtime,record.stamp.inode) := by
    intro a b same
    obtain ⟨_,_,_,_⟩ := a
    simp only [Prod.mk.injEq] at same
    obtain ⟨rfl,rfl,rfl,rfl⟩ := same
    rfl
  cases List.map_injective_iff.mpr inj files_eq
  rfl

def sampleDigest : SampleBytes → Nat := Sum.elim (2 * ·) (2 * receiptCode · + 1)

def sampleSetting : Setting SampleBytes Nat where
  site := ⟨[],sampleDigest,
    fun content => if content = .inl 0 then some ⟨['r'],2,4,[⟨['w'],7,10⟩]⟩ else none,
    fun content => if content = .inl 2 then some [['w']] else none,
    ⟨.inr,Sum.elim (fun _ => none) some,fun _ => rfl⟩⟩
  size _ := 7
  locks content := content = .inl 0
  selections selected := selected = fun _ => [['s']]

def sampleStart : TableWorld SampleBytes where
  files := ⟨[(sampleSetting.site.lockPath,0),(⟨[['s']],configName⟩,1),(⟨[['s']],indexName⟩,2),
    (⟨[['s']],"tokenizer.json".toList⟩,3),(⟨[['s']],"tokenizer_config.json".toList⟩,4),(⟨[['s']],['w']⟩,5)].map
      fun entry => (entry.1,⟨.inl entry.2,0,0,0o644⟩)⟩
  seen _ _ := False
  log := []

def sampleShards : List Path := [⟨[['s']],['w']⟩]

def sampleRun (full : Bool) (state : TableWorld SampleBytes) :
    Outcome ToolError (Receipt Nat) × TableWorld SampleBytes :=
  (main sampleSetting.site (fun _ => [['s']]) full).run (perform sampleSetting.size sampleShards) state.begin

def sampleReceipt : Receipt Nat :=
  ⟨⟨[['s']],['r'],[⟨['w'],7,0,0⟩],[("tokenizer.json".toList,6),("tokenizer_config.json".toList,8)]⟩,0⟩

theorem sample_listed (path : Path) (shard : IsShard sampleSetting path) : path ∈ sampleShards := by
  obtain ⟨bytes,lock,selected,rfl,rfl,parsed,spec,member,rfl⟩ := shard
  cases parsed
  cases List.mem_singleton.mp member
  exact List.mem_singleton_self _

theorem sample_ran (full : Bool) (state : TableWorld SampleBytes) : Execution (machine sampleSetting)
    (main sampleSetting.site (fun _ => [['s']]) full) state.shown.begin (sampleRun full state).1
    (sampleRun full state).2.shown :=
  run_execution TableWorld.shown (Inspections.perform_step sample_listed) _ state.begin

theorem sample_injective : Function.Injective sampleDigest := by
  intro first second same
  cases first with
  | inl first =>
      cases second with
      | inl second =>
          have same : 2 * first = 2 * second := same
          exact congrArg Sum.inl (by omega)
      | inr second =>
          have same : 2 * first = 2 * receiptCode second + 1 := same
          omega
  | inr first =>
      cases second with
      | inl second =>
          have same : 2 * receiptCode first + 1 = 2 * second := same
          omega
      | inr second =>
          have same : 2 * receiptCode first + 1 = 2 * receiptCode second + 1 := same
          exact congrArg Sum.inr (receiptCode_injective (by omega))

-- A full run, and a light run after it.
theorem sample_vouched : Vouched sampleSetting (sampleRun true sampleStart).2.shown (some sampleReceipt)
    (fun _ => [['s']]) sampleReceipt (sampleRun false (sampleRun true sampleStart).2).2.shown := by
  have locked : ∀ state : TableWorld SampleBytes,
      (state.shown.store sampleSetting.site.lockPath).map (·.content) = some (.inl 0) →
      Starts sampleSetting (fun _ => [['s']]) state.shown := by
    intro state content
    refine ⟨?_,rfl⟩
    intro file here
    rw [here] at content
    exact Option.some.inj content
  have first : (sampleRun true sampleStart).1 = .returned sampleReceipt := by decide +kernel
  have second : (sampleRun false (sampleRun true sampleStart).2).1 = .returned sampleReceipt := by decide +kernel
  have wrote := sample_ran true sampleStart
  have checked := sample_ran false (sampleRun true sampleStart).2
  rw [first] at wrote
  rw [second] at checked
  have reached := Reached.full (.start (by decide +kernel)) (locked sampleStart (by decide +kernel)) wrote
  exact (light_vouches sample_injective reached (locked _ (by decide +kernel))).1 sampleReceipt _ checked

end Sample

end OneSpark.CheckpointRuns
