import OneSpark.Overlay
import OneSpark.FileTables

namespace OneSpark.OverlayRuns
open Programs FileStore FileTables TextEdits PatchTexts Overlay Relation
open Checkpoint hiding Site Receipt
variable {Bytes Hash α β : Type} {site : Site Bytes Hash} {size : Bytes → Nat}
  {start store next before after : Store Bytes} {path target : Path}

-- The items of a dict that maps every input to its hash.
def Hashes (site : Site Bytes Hash) (inputs : Path → Option Bytes) (items : List (Path × Hash)) : Prop :=
  ∀ path, items.lookup path = (inputs path).map site.digest

theorem sameItems_exact [DecidableEq Hash] {first second : List (Path × Hash)} :
    sameItems first second = true ↔ ∀ key, first.lookup key = second.lookup key := by
  simp only [sameItems,List.all_eq_true,decide_eq_true_eq]
  constructor
  · intro same key
    by_cases listed : key ∈ first.map (·.1) ++ second.map (·.1)
    · exact same key listed
    · have absent : ∀ items : List (Path × Hash), items ⊆ first ++ second → items.lookup key = none := by
        intro items part
        refine List.lookup_eq_none_iff.mpr ?_
        intro entry member
        refine bne_iff_ne.mpr fun equal => listed ?_
        rw [← List.map_append,equal]
        exact List.mem_map_of_mem (part member)
      rw [absent first (List.subset_append_left ..),absent second (List.subset_append_right ..)]
  · exact fun same key _ => same key

theorem hashed_lookup {paths : List Path} {items : List (Path × Hash)}
    (hashed : List.Forall₂ (fun path (entry : Path × Hash) => entry.1 = path ∧
      ∃ file, store path = some file ∧ site.digest file.content = entry.2) paths items) (path : Path) :
    items.lookup path = if path ∈ paths then (store path).map (fun file => site.digest file.content) else none := by
  induction hashed with
  | nil => simp
  | @cons first entry _ _ head _ ih =>
      obtain ⟨key,found⟩ := entry
      obtain ⟨rfl,file,here,whole⟩ := head
      by_cases same : path = key
      · simp [same,here,whole]
      · have apart : (path == key) = false := by simp [same]
        simp [List.lookup_cons,apart,same,ih]

theorem isInput_exact : isInput site path = true ↔ path = site.lockPath ∨ inPatches site path = true ∨
    inPatch site path = true ∨ path ∈ site.toolPaths := by
  simp [isInput,or_assoc]

theorem sourceHashes_view : Holds (alone (step size)) (viewing store (Hashes site (inputs site store)))
    (sourceHashes site) store := by
  have once : ∀ path, Holds (alone (step size)) (viewing store fun (entry : Path × Hash) => entry.1 = path ∧
      ∃ file, store path = some file ∧ site.digest file.content = entry.2) (hashPath site path) store := by
    intro path
    refine viewing_bind (sha256_view site.digest) ?_
    exact fun found read => viewing_done ⟨rfl,read⟩
  refine viewing_call (fun _ => id) ?_
  intro patches found
  refine viewing_call (fun _ => id) ?_
  intro patch others
  refine holds_weaken (viewing_each once _) (fun _ same => same) ?_ fun _ _ same => same
  intro items _ hashed
  refine ⟨hashed.1,fun path => ?_⟩
  rw [hashed_lookup hashed.2]
  have known : path ∈ [site.lockPath] ++ patches ++ patch ++ site.toolPaths → isInput site path = true := by
    intro member
    simp only [List.mem_append,List.mem_singleton] at member
    rw [isInput_exact]
    rcases member with ((lock | inside) | beside) | tool
    · exact .inl lock
    · exact .inr (.inl ((found.2 path).mp inside).1)
    · exact .inr (.inr (.inl ((others.2 path).mp beside).1))
    · exact .inr (.inr (.inr tool))
  unfold inputs
  by_cases listed : path ∈ [site.lockPath] ++ patches ++ patch ++ site.toolPaths
  · rw [if_pos listed,if_pos (known listed),Option.map_map]
    rfl
  · rw [if_neg listed]
    by_cases own : isInput site path = true
    · have absent : store path = none := by
        simp only [List.mem_append,List.mem_singleton,not_or] at listed
        obtain ⟨⟨⟨lock,inside⟩,beside⟩,tool⟩ := listed
        rw [found.2] at inside
        rw [others.2] at beside
        rcases isInput_exact.mp own with same | selected | selected | same
        · exact absurd same lock
        · simpa [selected] using inside
        · simpa [selected] using beside
        · exact absurd same tool
      simp [own,absent]
    · simp [own]

theorem checkRuntime_view [DecidableEq Hash] : Holds (alone (step size)) (viewing store fun id =>
    ∃ file receipt overlay, store site.runtimePath = some file ∧ site.receiptJson.loads file.content = some receipt ∧
      Hashes site (inputs site store) receipt.inputs ∧ store site.overlayPath = some overlay ∧
      receipt.overlaySha256 = site.digest overlay.content ∧ receipt.imageId = id) (checkRuntime site) store := by
  refine viewing_bind (readJson_view site.receiptJson.loads) ?_
  intro receipt read
  obtain ⟨file,here,loaded⟩ := read
  refine viewing_bind sourceHashes_view ?_
  intro items hashes
  refine viewing_check ?_
  intro same
  have recorded : Hashes site (inputs site store) receipt.inputs :=
    fun path => (sameItems_exact.mp same path).trans (hashes path)
  refine viewing_bind (sha256_view site.digest) ?_
  intro found read
  obtain ⟨overlay,there,rfl⟩ := read
  refine viewing_check ?_
  intro unchanged
  refine viewing_check fun _ => viewing_done ?_
  exact ⟨file,receipt,overlay,here,loaded,recorded,there,of_decide_eq_true unchanged,rfl⟩

-- Outside the state directory nothing has changed, and the receipt has not.
def Kept (site : Site Bytes Hash) (start store : Store Bytes) : Prop :=
  (∀ path, ¬ site.state <+: path.dir → store path = start path) ∧ store site.runtimePath = start site.runtimePath

theorem input_outside (own : isInput site path = true) : ¬ site.state <+: path.dir := by
  have first : ∀ {name : Name} {rest : List Name}, site.state <+: site.root ++ name :: rest → name = ".state".toList := by
    intro name rest inside
    have inside := (List.prefix_append_right_inj site.root).mp inside
    exact (List.cons_prefix_cons.mp inside).1.symm
  intro inside
  rcases isInput_exact.mp own with rfl | selected | selected | tool
  · exact absurd inside.length_le (by simp [Site.state,Overlay.Site.lockPath])
  · simp only [inPatches,Bool.and_eq_true,List.isPrefixOf_iff_prefix] at selected
    obtain ⟨rest,same⟩ := selected.1
    rw [← same,Site.patches,List.append_assoc] at inside
    exact absurd (first inside) (by decide)
  · simp only [inPatch,Bool.and_eq_true,decide_eq_true_eq] at selected
    rw [selected.1] at inside
    exact absurd (first inside) (by decide)
  · simp only [Site.toolPaths,List.mem_cons,List.not_mem_nil,or_false] at tool
    rcases tool with rfl | rfl | rfl
    all_goals exact absurd (first inside) (by decide)

theorem kept_input (kept : Kept site start store) (own : isInput site path = true) : store path = start path :=
  kept.1 path (input_outside own)

theorem kept_inputs (kept : Kept site start store) : inputs site store = inputs site start := by
  funext path
  by_cases own : isInput site path = true
  · simp [inputs,own,kept_input kept own]
  · simp [inputs,own]

theorem input_read {file : File Bytes} (own : isInput site path = true) (here : store path = some file) :
    inputs site store path = some file.content := by
  simp [inputs,own,here]

-- An operation on files of the state directory other than the receipt.
def Harmless (site : Site Bytes Hash) (op : FileOp Bytes β) : Prop :=
  ∀ path, op.touches path → site.state <+: path.dir ∧ path ≠ site.runtimePath

theorem kept_frame {op : FileOp Bytes β} {reply : Except ToolError β} (harmless : Harmless site op)
    (stepped : step size op store reply next) (kept : Kept site start store) : Kept site start next := by
  constructor
  · intro path outside
    exact (step_frame stepped path fun touched => outside (harmless path touched).1).trans (kept.1 path outside)
  · exact (step_frame stepped _ fun touched => (harmless _ touched).2 rfl).trans kept.2

def overlaying (site : Site Bytes Hash) (start : Store Bytes) (returns : α → Store Bytes → Prop) :
    Post ToolError (Store Bytes) α := ⟨Kept site start,returns,fun _ => Kept site start⟩

section Overlay
variable {returns : α → Store Bytes → Prop} {fact : Store Bytes → Prop}

theorem overlay_raise {error : ToolError} (kept : Kept site start store) :
    Holds (alone (step size)) (overlaying site start returns) (.raise error) store :=
  holds_raise (alone_stable (Kept site start)) (fun _ kept => ⟨kept,kept⟩) kept

theorem overlay_call {op : FileOp Bytes β} {f : β → ToolProg Bytes α} (kept : ∀ store, fact store → Kept site start store)
    (harmless : Harmless site op)
    (ends : ∀ store reply next, fact store → Kept site start next → completes size op store reply next →
      Holds (alone (step size)) (overlaying site start returns) (f reply) next)
    (here : fact store) : Holds (alone (step size)) (overlaying site start returns) (call op >>= f) store := by
  refine holds_call (alone_stable fact) kept ?_ ?_ here
  · intro store reply next here stepped
    have did : step size op store (.ok reply : Except ToolError β) next := stepped
    exact ends store reply next here (kept_frame harmless did (kept store here)) stepped
  · intro store error next here stepped
    have did : step size op store (.error error) next := stepped
    exact overlay_raise (kept_frame harmless did (kept store here))

theorem overlay_last {op : FileOp Bytes α} (kept : ∀ store, fact store → Kept site start store)
    (harmless : Harmless site op)
    (ends : ∀ store reply next, fact store → Kept site start next → completes size op store reply next → returns reply next)
    (here : fact store) : Holds (alone (step size)) (overlaying site start returns) (call op) store := by
  refine holds_last (alone_stable fact) kept ?_ ?_ here
  · intro store reply next here stepped
    have did : step size op store (.ok reply : Except ToolError α) next := stepped
    have kept := kept_frame harmless did (kept store here)
    refine holds_done (alone_stable fun store => store = next) ?_ rfl
    exact fun _ same => same ▸ ⟨kept,ends store reply next here kept stepped⟩
  · intro store error next here stepped
    have did : step size op store (.error error) next := stepped
    exact overlay_raise (kept_frame harmless did (kept store here))

theorem overlay_check {condition : Bool} {error : ToolError} {f : Unit → ToolProg Bytes α} (kept : Kept site start store)
    (passes : condition = true → Holds (alone (step size)) (overlaying site start returns) (f ()) store) :
    Holds (alone (step size)) (overlaying site start returns) (check condition error >>= f) store :=
  holds_check passes fun _ => overlay_raise kept

end Overlay

def Holding (site : Site Bytes Hash) (start : Store Bytes) (target : Path) (content : Bytes) (store : Store Bytes) : Prop :=
  Kept site start store ∧ ∃ file, store target = some file ∧ file.content = content

def Temporary (site : Site Bytes Hash) (target : Path) : Prop := ∃ made, target.dir = site.state ++ [made]

theorem patched_last {contents : Path → Option Bytes} (patchers : List Path) (patcher : Path) (text : Bytes) :
    patched site contents (patchers ++ [patcher]) text = (patched site contents patchers text).bind fun content =>
      (contents patcher).bind fun code => site.interpret code content := by
  induction patchers generalizing text with
  | nil => simp [patched]
  | cons first rest ih =>
      cases here : contents first with
      | none => simp [patched,here]
      | some code =>
          cases made : site.interpret code text with
          | none => simp [patched,here,made]
          | some next => simpa [patched,here,made] using ih next

theorem source_input : isInput site site.sourcePath = true := by
  refine isInput_exact.mpr (.inr (.inl ?_))
  have named : isPython "qwen4_exp_nvfp4.py".toList = true := by decide
  simp only [inPatches,Bool.and_eq_true,List.isPrefixOf_iff_prefix]
  exact ⟨List.prefix_refl _,named⟩

theorem patcher_input {patcher : Path} (member : patcher ∈ site.patchers) : isInput site patcher = true := by
  refine isInput_exact.mpr (.inr (.inr (.inl ?_)))
  have fp8 : isPython "patch_fp8.py".toList = true := by decide
  have pleOff : isPython "patch_ple_off.py".toList = true := by decide
  simp only [Site.patchers,List.mem_cons,List.not_mem_nil,or_false] at member
  rcases member with rfl | rfl
  · simp only [inPatch,Bool.and_eq_true,decide_eq_true_eq]
    exact ⟨trivial,fp8⟩
  · simp only [inPatch,Bool.and_eq_true,decide_eq_true_eq]
    exact ⟨trivial,pleOff⟩

section Making
variable (temporary : Temporary site target) {content : Bytes}
include temporary

theorem target_harmless : site.state <+: target.dir ∧ target ≠ site.runtimePath := by
  obtain ⟨made,inside⟩ := temporary
  refine ⟨⟨[made],inside.symm⟩,?_⟩
  intro same
  have lengths := congrArg (fun path : Path => path.dir.length) same
  simp [inside,Site.runtimePath] at lengths

theorem write_holds {text : Bytes} (kept : Kept site start store) :
    Holds (alone (step size)) (overlaying site start fun _ => Holding site start target text)
      (call (.write target text)) store := by
  refine overlay_last (fun _ kept => kept) (fun path same => same ▸ target_harmless temporary) ?_ kept
  intro store _ next _ kept written
  obtain ⟨file,rfl,whole,_⟩ := written
  exact ⟨kept,file,Function.update_self ..,whole⟩

theorem runPatcher_holds {patcher : Path} (own : isInput site patcher = true)
    (here : Holding site start target content store) :
    Holds (alone (step size)) (overlaying site start fun _ store => ∃ code patched,
      inputs site start patcher = some code ∧ site.interpret code content = some patched ∧
        Holding site start target patched store) (runPatcher site target patcher) store := by
  refine overlay_call (fun _ holding => holding.1) (fun _ => False.elim) ?_ here
  intro store code next holding _ read
  obtain ⟨rfl,source,found,rfl⟩ := read
  rw [kept_input holding.1 own] at found
  refine overlay_call (fun _ holding => holding.1) (fun _ => False.elim) ?_ holding
  intro store text next holding kept read
  obtain ⟨rfl,file,there,rfl⟩ := read
  obtain ⟨_,other,same,rfl⟩ := holding
  cases there.symm.trans same
  cases made : site.interpret source.content file.content with
  | none => exact overlay_raise kept
  | some patched =>
      refine holds_weaken (write_holds temporary kept) (fun _ kept => kept) ?_ fun _ _ kept => kept
      exact fun _ _ holding => ⟨source.content,patched,input_read own found,made,holding⟩

theorem patchers_holds (patchers : List Path) (own : ∀ patcher ∈ patchers, isInput site patcher = true)
    (here : Holding site start target content store) :
    Holds (alone (step size)) (overlaying site start fun _ store => ∃ text,
      patched site (inputs site start) patchers content = some text ∧ Holding site start target text store)
      (each (runPatcher site target) patchers) store := by
  refine holds_each (fun done _ store => ∃ text, patched site (inputs site start) done content = some text ∧
    Holding site start target text store) patchers ?_ ?_ ⟨content,rfl,here⟩
  · intro done patcher rest results store split made
    obtain ⟨text,before,holding⟩ := made
    refine holds_weaken (runPatcher_holds temporary (own patcher (by simp [split])) holding) (fun _ kept => kept) ?_
      fun _ _ kept => kept
    intro _ store ends
    obtain ⟨code,patched,found,after,holding⟩ := ends
    refine ⟨patched,?_,holding⟩
    rw [patched_last,before,found]
    exact after
  · intro results store made
    refine holds_done (alone_stable fun next => next = store) ?_ rfl
    intro next same
    rw [same]
    obtain ⟨text,before,holding⟩ := made
    exact ⟨holding.1,text,before,holding⟩

theorem editLoader_holds (here : Holding site start target content store) :
    Holds (alone (step size)) (overlaying site start fun _ store => ∃ overlay,
      loaderEdited site content = some overlay ∧ Holding site start target overlay store)
      (editLoader site target) store := by
  unfold editLoader readText
  rw [Programs.bind_assoc]
  refine overlay_call (fun _ holding => holding.1) (fun _ => False.elim) ?_ here
  intro store text next holding kept read
  obtain ⟨rfl,file,there,rfl⟩ := read
  obtain ⟨_,other,same,rfl⟩ := holding
  cases there.symm.trans same
  cases decoded : site.decode file.content with
  | none => exact overlay_raise kept
  | some source =>
      refine overlay_check kept ?_
      intro once
      refine overlay_check kept ?_
      intro parses
      refine holds_weaken (write_holds temporary kept) (fun _ kept => kept) ?_ fun _ _ kept => kept
      intro _ store holding
      refine ⟨_,?_,holding⟩
      have once := of_decide_eq_true once
      simp [loaderEdited,decoded,once,parses]

def Made (site : Site Bytes Hash) (start : Store Bytes) (overlay : Bytes) (store : Store Bytes) : Prop :=
  gen site (inputs site start) = some overlay ∧ Kept site start store ∧
    ∃ file, store site.overlayPath = some file ∧ file.content = overlay

theorem makeOverlay_holds (kept : Kept site start store) :
    Holds (alone (step size)) (overlaying site start fun _ store => ∃ overlay, Made site start overlay store)
      (makeOverlay site target) store := by
  refine overlay_call (fun _ kept => kept) (fun path same => same ▸ target_harmless temporary) ?_ kept
  intro store _ next before kept copied
  obtain ⟨source,copy,found,rfl,whole⟩ := copied
  rw [kept_input before source_input] at found
  have given := input_read source_input found
  have holding : Holding site start target source.content (Function.update store target (some copy)) :=
    ⟨kept,copy,Function.update_self ..,whole⟩
  apply holds_bind
  refine holds_weaken (patchers_holds temporary site.patchers (fun _ => patcher_input) holding) (fun _ kept => kept) ?_
    fun _ _ kept => kept
  intro _ store ends
  obtain ⟨text,made,holding⟩ := ends
  apply holds_bind
  refine holds_weaken (editLoader_holds temporary holding) (fun _ kept => kept) ?_ fun _ _ kept => kept
  intro _ store ends
  obtain ⟨overlay,edited,holding⟩ := ends
  have placed : Harmless site (.replace target site.overlayPath : FileOp Bytes Unit) := by
    intro path touched
    rcases touched with rfl | rfl
    · exact target_harmless temporary
    · have apart : "qwen4_exp.py".toList ≠ "runtime.json".toList := by decide
      exact ⟨List.prefix_refl _,fun same => apart (congrArg Path.name same)⟩
  refine overlay_last (fun _ holding => holding.1) placed ?_ holding
  intro store _ next holding kept renamed
  obtain ⟨_,other,same,rfl⟩ := holding
  obtain ⟨file,there,rfl⟩ := renamed
  cases there.symm.trans same
  refine ⟨_,?_,kept,_,Function.update_self ..,rfl⟩
  simp [gen,given,made,edited]

end Making

def Wrote (site : Site Bytes Hash) (receipt : Receipt Hash) (store : Store Bytes) : Prop :=
  ∃ file, store site.runtimePath = some file ∧ file.content = site.receiptJson.dumps receipt

def Justified (site : Site Bytes Hash) (receipt : Receipt Hash) : Prop :=
  ∃ inputs overlay, Hashes site inputs receipt.inputs ∧ gen site inputs = some overlay ∧
    receipt.overlaySha256 = site.digest overlay

-- A prepare run: the receipt is the old one until a justified one replaces it.
def Written (site : Site Bytes Hash) (imageId : Name) (store : Store Bytes) : Prop :=
  ∃ receipt, Wrote site receipt store ∧ receipt.imageId = imageId ∧ Justified site receipt

def Unwritten (site : Site Bytes Hash) (start store : Store Bytes) : Prop :=
  store site.runtimePath = start site.runtimePath

def preparing (site : Site Bytes Hash) (start : Store Bytes) (imageId : Name) : Post ToolError (Store Bytes) Unit where
  inv store := Unwritten site start store ∨ Written site imageId store
  returns _ := Written site imageId
  raises _ := Unwritten site start

section Prepare
variable {imageId imageRef : Name} {receipt : Receipt Hash}

theorem receipt_holds (named : receipt.imageId = imageId) (justified : Justified site receipt)
    (same : Unwritten site start store) : Holds (alone (step size)) (preparing site start imageId)
      (atomicJson site.receiptJson site.runtimePath receipt 0o600) store := by
  refine holds_call (alone_stable (Unwritten site start)) (fun _ => .inl) ?_ ?_ same
  · intro store _ next same made
    cases made
    have published : Holds (onFiles size fun _ _ => False) (publishing (fun _ => True) site.runtimePath
        (site.receiptJson.dumps receipt) store : Post ToolError _ _)
        (replaceFile (some 0o600) site.runtimePath (site.receiptJson.dumps receipt)) store :=
      replaceFile_holds (fun _ _ moved => moved.elim) (some 0o600) (fun _ _ => trivial) trivial store
    have unwritten : ∀ next, Unpublished (fun _ => True) site.runtimePath store next → Unwritten site start next :=
      fun next kept => (kept _ trivial fun temp => temp_ne temp rfl).trans same
    have written : ∀ next, Published (fun _ => True) site.runtimePath (site.receiptJson.dumps receipt) store next →
        Written site imageId next := fun next done => ⟨receipt,done.1,named,justified⟩
    refine holds_weaken published ?_ (fun _ => written) fun _ => unwritten
    intro next here
    cases here with
    | inl kept => exact .inl (unwritten next kept)
    | inr done => exact .inr (written next done)
  · intro store error next same kept
    cases kept
    exact holds_raise (alone_stable (Unwritten site start)) (fun _ same => ⟨.inl same,same⟩) same

theorem made_outside {tmp : List Name} (inside : ∃ made, tmp = site.state ++ [made]) : ¬ tmp <+: site.state := by
  obtain ⟨made,rfl⟩ := inside
  intro shorter
  have lengths := shorter.length_le
  simp only [List.length_append,List.length_singleton] at lengths
  omega

theorem rmtree_harmless {tmp : List Name} (inside : ∃ made, tmp = site.state ++ [made]) :
    Harmless site (.rmtree tmp : FileOp Bytes Unit) := by
  intro path touched
  constructor
  · obtain ⟨made,rfl⟩ := inside
    exact (List.prefix_append site.state [made]).trans touched
  · intro same
    rw [same] at touched
    exact made_outside inside touched

theorem cleared_holds {tmp : List Name} (inside : ∃ made, tmp = site.state ++ [made]) (kept : Kept site start store) :
    Holds (alone (step size)) (overlaying site start fun _ store => ∃ overlay, Made site start overlay store)
      (Prog.tryFinally (makeOverlay site ⟨tmp,"qwen4_exp.py".toList⟩) (call (.rmtree tmp))) store := by
  apply holds_finally
  refine holds_weaken (makeOverlay_holds inside kept) (fun _ kept => kept) ?_ ?_
  · intro _ store ends
    obtain ⟨overlay,made⟩ := ends
    refine overlay_last (fun _ made => made.2.1) (rmtree_harmless inside) ?_ made
    intro store _ next made kept removed
    obtain ⟨generated,_,file,here,whole⟩ := made
    refine ⟨overlay,generated,kept,file,?_,whole⟩
    rw [removed,if_neg (show ¬ tmp <+: site.overlayPath.dir from made_outside inside),here]
  · intro error store kept
    exact overlay_last (fun _ kept => kept) (rmtree_harmless inside) (fun _ _ _ _ kept _ => kept) kept

theorem prepare_holds : Holds (alone (step size)) (preparing site start imageId) (prepare site imageId imageRef) start := by
  have early : ∀ {store : Store Bytes} {error : ToolError}, Kept site start store →
      Holds (alone (step size)) (preparing site start imageId) (.raise error) store :=
    holds_raise (alone_stable (Kept site start)) fun _ kept => ⟨.inl kept.2,kept.2⟩
  have kept : Kept site start start := ⟨fun _ _ => rfl,rfl⟩
  refine holds_check (fun _ => ?_) fun _ => early kept
  refine holds_call (alone_stable (Kept site start)) (fun _ kept => .inl kept.2) ?_
    (fun _ _ _ kept same => early (same ▸ kept)) kept
  intro store _ next kept made
  cases made
  refine holds_call (alone_stable (Kept site start)) (fun _ kept => .inl kept.2) ?_
    (fun _ _ _ kept same => early (same ▸ kept)) kept
  intro store tmp next kept made
  obtain ⟨rfl,⟨random,_,named⟩,_⟩ := made
  apply holds_bind
  refine holds_weaken (cleared_holds ⟨_,named⟩ kept) (fun _ kept => .inl kept.2) ?_ fun _ _ kept => kept.2
  intro _ store ends
  obtain ⟨overlay,generated,kept,file,here,whole⟩ := ends
  refine holds_view sourceHashes_view (.inl kept.2) (fun _ => kept.2) ?_
  intro items hashes
  rw [kept_inputs kept] at hashes
  refine holds_view (sha256_view site.digest) (.inl kept.2) (fun _ => kept.2) ?_
  intro found read
  obtain ⟨other,there,rfl⟩ := read
  cases here.symm.trans there
  exact receipt_holds rfl ⟨_,overlay,hashes,generated,congrArg site.digest whole⟩ kept.2

end Prepare

-- A history of edits and prepare runs, with the id given to the last run that
-- wrote runtime.json; a run may be killed before or after it has written it.
inductive Reached (site : Site Bytes Hash) (size : Bytes → Nat) : Store Bytes → Option Name → Prop where
  | start {store : Store Bytes} : store site.runtimePath = none → Reached site size store none
  | edited {before after : Store Bytes} : Reached site size before last →
      after site.runtimePath = before site.runtimePath → Reached site size after last
  | prepared {before after : Store Bytes} : Reached site size before last →
      Execution (alone (step size)) (prepare site imageId imageRef) before (.returned ()) after →
      Reached site size after (some imageId)
  | failed {before after : Store Bytes} : Reached site size before last →
      Execution (alone (step size)) (prepare site imageId imageRef) before (.raised error) after →
      Reached site size after last
  | killed {before after : Store Bytes} : Reached site size before last →
      Execution (alone (step size)) (prepare site imageId imageRef) before .killed after →
      after site.runtimePath = before site.runtimePath → Reached site size after last
  | replaced {before after : Store Bytes} : Reached site size before last →
      Execution (alone (step size)) (prepare site imageId imageRef) before .killed after →
      after site.runtimePath ≠ before site.runtimePath → Reached site size after (some imageId)

def Guarded (site : Site Bytes Hash) (store : Store Bytes) : Option Name → Prop
  | none => store site.runtimePath = none
  | some imageId => Written site imageId store

theorem guarded_same {last : Option Name} (same : after site.runtimePath = before site.runtimePath)
    (guarded : Guarded site before last) : Guarded site after last := by
  cases last with
  | none => exact same.trans guarded
  | some imageId =>
      obtain ⟨receipt,⟨file,here,whole⟩,named,justified⟩ := guarded
      exact ⟨receipt,⟨file,same.trans here,whole⟩,named,justified⟩

theorem reached_guarded {last : Option Name} (reached : Reached site size store last) : Guarded site store last := by
  induction reached with
  | start absent => exact absent
  | edited _ same ih => exact guarded_same same ih
  | prepared _ ran _ => exact holds_sound prepare_holds ran
  | failed _ ran ih => exact guarded_same (holds_sound prepare_holds ran) ih
  | killed _ _ same ih => exact guarded_same same ih
  | replaced _ ran changed _ => exact (holds_sound prepare_holds ran).resolve_left changed

theorem checked_current [DecidableEq Hash] {last : Option Name} {id : Name} (injective : Function.Injective site.digest)
    (reached : Reached site size store last)
    (checked : Execution (alone (step size)) (checkRuntime site) store (.returned id) after) :
    last = some id ∧ ∃ overlay, store site.overlayPath = some overlay ∧
      gen site (inputs site store) = some overlay.content := by
  obtain ⟨_,file,receipt,overlay,here,loaded,current,standing,whole,rfl⟩ := holds_sound checkRuntime_view checked
  have guarded := reached_guarded reached
  cases last with
  | none => cases here.symm.trans guarded
  | some imageId =>
      obtain ⟨written,⟨other,there,content⟩,rfl,contents,generated,hashes,made,digest⟩ := guarded
      cases here.symm.trans there
      rw [content,site.receiptJson.loads_dumps] at loaded
      cases loaded
      have same : inputs site store = contents := by
        funext path
        exact Option.map_injective injective ((current path).symm.trans (hashes path))
      have equal := injective (whole.symm.trans digest)
      exact ⟨rfl,overlay,standing,by rw [same,made,equal]⟩

section Sample

abbrev SampleHash := Text ⊕ Nat
abbrev SampleBytes := Text ⊕ Receipt SampleHash

instance : Inhabited SampleBytes := ⟨.inl []⟩

def receiptCode (receipt : Receipt SampleHash) : Nat :=
  let inputs := receipt.inputs.map fun entry => (entry.1.dir,entry.1.name,entry.2)
  Encodable.encode (receipt.imageId,receipt.imageRef,inputs,receipt.overlaySha256)

theorem receiptCode_injective : Function.Injective receiptCode := by
  intro first second same
  obtain ⟨imageId,imageRef,inputs,overlay⟩ := first
  obtain ⟨imageId',imageRef',inputs',overlay'⟩ := second
  have parts := Encodable.encode_injective same
  simp only [Prod.mk.injEq] at parts
  obtain ⟨rfl,rfl,listed,rfl⟩ := parts
  have entries : Function.Injective fun entry : Path × SampleHash => (entry.1.dir,entry.1.name,entry.2) := by
    intro first second same
    obtain ⟨⟨_,_⟩,_⟩ := first
    simp only [Prod.mk.injEq] at same
    obtain ⟨rfl,rfl,rfl⟩ := same
    rfl
  cases List.map_injective_iff.mpr entries listed
  rfl

def sampleSite : Site SampleBytes SampleHash where
  root := []
  digest := Sum.map id receiptCode
  decode := Sum.elim some fun _ => none
  encode := .inl
  parses _ := true
  interpret
    | .inl code,.inl text => some (.inl (text ++ code))
    | _,_ => none
  receiptJson := ⟨.inr,Sum.elim (fun _ => none) some,fun _ => rfl⟩

def sampleStart : Files SampleBytes :=
  ⟨([(sampleSite.lockPath,['l']),(sampleSite.sourcePath,hashkAnchor)] ++
    sampleSite.patchers.map (fun path => (path,['p'])) ++ sampleSite.toolPaths.map fun path => (path,['t'])).map
      fun entry => (entry.1,⟨.inl entry.2,0,0,0o644⟩)⟩

def sampleId : Name := "sha256:".toList ++ List.replicate 64 'a'

def samplePrepared : Outcome ToolError Unit × Files SampleBytes :=
  (prepare sampleSite sampleId ['r']).run (perform (fun _ => 1) .osError) sampleStart

def sampleChecked : Outcome ToolError Name × Files SampleBytes :=
  (checkRuntime sampleSite).run (perform (fun _ => 1) .osError) samplePrepared.2

-- A prepare run and a check after it.
theorem sample_current : ∃ overlay, samplePrepared.2.store sampleSite.overlayPath = some overlay ∧
    gen sampleSite (inputs sampleSite samplePrepared.2.store) = some overlay.content := by
  have first : samplePrepared.1 = .returned () := by decide +kernel
  have second : sampleChecked.1 = .returned sampleId := by decide +kernel
  have fresh : (sampleStart.store sampleSite.runtimePath).isNone := by decide +kernel
  have agrees : ∀ {Reply : Type} (op : FileOp SampleBytes Reply) (files : Files SampleBytes),
      step (fun _ => 1) op files.store (perform (fun _ => 1) ToolError.osError op files).1
        (perform (fun _ => 1) ToolError.osError op files).2.store := perform_step _ _
  have ran : Execution (alone (step fun _ => 1)) (prepare sampleSite sampleId ['r']) sampleStart.store
      samplePrepared.1 samplePrepared.2.store := run_execution Files.store agrees _ _
  have looked : Execution (alone (step fun _ => 1)) (checkRuntime sampleSite) samplePrepared.2.store
      sampleChecked.1 sampleChecked.2.store := run_execution Files.store agrees _ _
  rw [first] at ran
  rw [second] at looked
  have injective : Function.Injective sampleSite.digest := Function.injective_id.sumMap receiptCode_injective
  exact (checked_current injective (.prepared (.start (Option.isNone_iff_eq_none.mp fresh)) ran) looked).2

end Sample

end OneSpark.OverlayRuns
