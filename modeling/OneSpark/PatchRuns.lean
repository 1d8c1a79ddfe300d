import OneSpark.FileStore
import OneSpark.Patchers

namespace OneSpark.PatchRuns
open TextEdits PatchTexts Patchers Programs FileStore

-- Path.suffix and Path.with_suffix on a file name.
def suffix (name : Name) : Name :=
  let last := (name.reverse.takeWhile (· ≠ '.')).reverse
  if last.length + 1 < name.length ∧ 0 < last.length then '.' :: last else []

def withSuffix (name new : Name) : Name := name.take (name.length - (suffix name).length) ++ new

variable {Bytes : Type}

abbrev PatchProg (Bytes : Type) := FileProg Bytes Failure

def readTarget (decode : Bytes → Option Text) (target : Path) : PatchProg Bytes Text := do
  let bytes ← call (.read target)
  match decode bytes with
  | some file => pure (readText file)
  | none => .raise .unicodeError

def keepBackup (target : Path) (new : Name) : PatchProg Bytes Unit := do
  let backup : Path := {target with name := withSuffix target.name new}
  let present ← call (.probe backup)
  match present with
  | true => pure ()
  | false => call (.copy target backup)

-- A FATAL line ends main with status 1; every other failure is an exception.
def orExit (result : Except Failure α) (continue_ : α → PatchProg Bytes Nat) : PatchProg Bytes Nat :=
  match result with
  | .ok a => continue_ a
  | .error (.fatal _) => .done 1
  | .error failure => .raise failure

def publish (encode : Text → Bytes) (target : Path) (out : Text) : PatchProg Bytes Nat := do
  replaceFile none target (encode out)
  return 0

namespace Fp8

def main (parses : Text → Bool) (decode : Bytes → Option Text) (encode : Text → Bytes) (target : Path) :
    PatchProg Bytes Nat := do
  let src ← readTarget decode target
  orExit (Fp8.inspect parses src) fun
    | true => .done 0
    | false => do
      keepBackup target ".py.orig".toList
      orExit (Fp8.rewrite parses src) (publish encode target)

end Fp8

namespace PleOff

def main (onlyCheck : Bool) (parses : Text → Bool) (decode : Bytes → Option Text) (encode : Text → Bytes)
    (target : Path) : PatchProg Bytes Nat := do
  let src ← readTarget decode target
  orExit (PleOff.inspect parses src) fun
    | true => .done 0
    | false => orExit (PleOff.rewrite parses src) fun out =>
      if onlyCheck then .done 0
      else do
        keepBackup target ".py.prestep2".toList
        publish encode target out

end PleOff

def main : Patcher → (Text → Bool) → (Bytes → Option Text) → (Text → Bytes) → Path → PatchProg Bytes Nat
  | .fp8 => Fp8.main
  | .pleOff => PleOff.main false

variable {patcher : Patcher} {parses : Text → Bool} {decode : Bytes → Option Text} {encode : Text → Bytes}
  {target : Path} {size : Bytes → Nat} {before store : Store Bytes} {content : Bytes} {out : Text}

def Succeeded (patcher : Patcher) (parses : Text → Bool) (decode : Bytes → Option Text) (encode : Text → Bytes)
    (target : Path) (before store : Store Bytes) : Prop :=
  ∃ source file, before target = some source ∧ decode source.content = some file ∧
    ((patcher.inspect parses (readText file) = .ok true ∧ store target = before target) ∨
      ∃ out edited, patcher.inspect parses (readText file) = .ok false ∧
        patcher.rewrite parses (readText file) = .ok out ∧ store target = some edited ∧ edited.content = encode out)

def atomicRun (patcher : Patcher) (parses : Text → Bool) (decode : Bytes → Option Text) (encode : Text → Bytes)
    (target : Path) (before : Store Bytes) : Post Failure (Store Bytes) Nat where
  inv store := store target = before target ∨ Succeeded patcher parses decode encode target before store
  returns code store := (code = 0 ∧ Succeeded patcher parses decode encode target before store) ∨
    (code ≠ 0 ∧ store target = before target)
  raises _ store := store target = before target

abbrev single (size : Bytes → Nat) : Machine (FileOp Bytes) Failure (Store Bytes) := onFiles size fun _ _ => False

theorem quiet_alone (kept : Path → Prop) : Quiet (fun _ _ : Store Bytes => False) kept := fun _ _ moved => nomatch moved

theorem exit_holds {result : Except Failure α} {next : α → PatchProg Bytes Nat} (same : store target = before target)
    (succeeds : ∀ a, result = .ok a →
      Holds (single size) (atomicRun patcher parses decode encode target before) (next a) store) :
    Holds (single size) (atomicRun patcher parses decode encode target before) (orExit result next) store := by
  cases result with
  | ok a => exact succeeds a rfl
  | error failure =>
      cases failure with
      | fatal message => exact holds_done (alone_stable _) (fun _ here => ⟨.inl here,.inr ⟨Nat.one_ne_zero,here⟩⟩) same
      | valueError | assertion | syntaxError | unicodeError =>
          exact holds_raise (alone_stable _) (fun _ here => ⟨.inl here,here⟩) same

theorem unpublished_same {last : Store Bytes} (start : Unpublished (fun _ => True) target store last) :
    last target = store target := start target trivial fun temp => temp_ne temp rfl

theorem publish_holds {source : File Bytes} {file : Text} (same : store target = before target)
    (present : before target = some source) (decoded : decode source.content = some file)
    (fresh : patcher.inspect parses (readText file) = .ok false)
    (rewritten : patcher.rewrite parses (readText file) = .ok out) :
    Holds (single size) (atomicRun patcher parses decode encode target before) (publish encode target out) store := by
  have succeeded : ∀ last, Published (fun _ => True) target (encode out) store last →
      Succeeded patcher parses decode encode target before last := by
    rintro last ⟨⟨edited,here,whole⟩,_⟩
    exact ⟨source,file,present,decoded,.inr ⟨out,edited,fresh,rewritten,here,whole⟩⟩
  have replaced : Holds (single size) (publishing (fun _ => True) target (encode out) store)
      (replaceFile none target (encode out)) store :=
    replaceFile_holds (quiet_alone _) none (fun _ _ => trivial) trivial store
  apply holds_bind
  refine holds_weaken replaced ?_ ?_ ?_
  · rintro last (unchanged | done)
    · exact .inl ((unpublished_same unchanged).trans same)
    · exact .inr (succeeded last done)
  · intro _ last done
    exact holds_done (alone_stable _) (fun _ here => ⟨.inr here,.inl ⟨rfl,here⟩⟩) (succeeded last done)
  · exact fun _ last unchanged => (unpublished_same unchanged).trans same

theorem backup_holds {next : Unit → PatchProg Bytes Nat} (new : Name) (present : (before target).isSome = true)
    (same : store target = before target)
    (followed : ∀ store, store target = before target →
      Holds (single size) (atomicRun patcher parses decode encode target before) (next ()) store) :
    Holds (single size) (atomicRun patcher parses decode encode target before) (keepBackup target new >>= next)
      store := by
  apply holds_bind
  refine holds_call (alone_stable fun store : Store Bytes => store target = before target) (fun _ => .inl) ?_ ?_ same
  · rintro store found _ same ⟨rfl,probed⟩
    cases found with
    | true => exact holds_done (alone_stable _) (fun last here => ⟨.inl here,followed last here⟩) same
    | false =>
        -- The copy cannot hit the target: the backup's name was free, the target is there.
        have apart : target ≠ {target with name := withSuffix target.name new} := by
          intro own
          rw [← own,same,present] at probed
          cases probed
        refine holds_last (alone_stable fun store : Store Bytes => store target = before target) (fun _ => .inl) ?_ ?_ same
        · rintro store _ _ same ⟨_,copied,_,rfl,_⟩
          have kept := (Function.update_of_ne apart (some copied) store).trans same
          exact holds_done (alone_stable _) (fun last here => ⟨.inl here,followed last here⟩) kept
        · rintro store error last same (rfl | ⟨torn,rfl⟩)
          · exact holds_raise (alone_stable _) (fun _ here => ⟨.inl here,here⟩) same
          · have kept := (Function.update_of_ne apart (some torn) store).trans same
            exact holds_raise (alone_stable _) (fun _ here => ⟨.inl here,here⟩) kept
  · rintro store error _ same rfl
    exact holds_raise (alone_stable _) (fun _ here => ⟨.inl here,here⟩) same

theorem read_holds {next : Text → PatchProg Bytes Nat}
    (followed : ∀ source file, before target = some source → decode source.content = some file →
      Holds (single size) (atomicRun patcher parses decode encode target before) (next (readText file)) before) :
    Holds (single size) (atomicRun patcher parses decode encode target before) (readTarget decode target >>= next)
      before := by
  apply holds_bind
  refine holds_call (alone_stable fun store : Store Bytes => before = store)
    (fun _ here => .inl (congrFun here.symm target)) ?_ ?_ rfl
  · rintro _ bytes last rfl ⟨same,source,present,rfl⟩
    rw [same]
    cases decoded : decode source.content with
    | none =>
        exact holds_raise (alone_stable fun store : Store Bytes => store target = before target)
          (fun _ here => ⟨.inl here,here⟩) rfl
    | some file =>
        refine holds_done (alone_stable fun store : Store Bytes => before = store) ?_ rfl
        rintro _ rfl
        exact ⟨.inl rfl,followed source file present decoded⟩
  · rintro _ error last rfl same
    exact holds_raise (alone_stable fun store : Store Bytes => store target = before target) (fun _ here => ⟨.inl here,here⟩)
      (congrFun same target)

theorem already_holds {source : File Bytes} {file : Text} (present : before target = some source)
    (decoded : decode source.content = some file) (already : patcher.inspect parses (readText file) = .ok true) :
    Holds (single size) (atomicRun patcher parses decode encode target before) (.done 0) before := by
  have succeeded : Succeeded patcher parses decode encode target before before :=
    ⟨source,file,present,decoded,.inl ⟨already,rfl⟩⟩
  exact holds_done (alone_stable fun store => Succeeded patcher parses decode encode target before store)
    (fun _ here => ⟨.inr here,.inl ⟨rfl,here⟩⟩) succeeded

theorem main_holds (patcher : Patcher) (before : Store Bytes) :
    Holds (single size) (atomicRun patcher parses decode encode target before)
      (main patcher parses decode encode target) before := by
  cases patcher with
  | fp8 =>
      refine read_holds fun source file present decoded => exit_holds rfl fun already inspected => ?_
      cases already with
      | true => exact already_holds present decoded inspected
      | false =>
          refine backup_holds _ (by rw [present]; rfl) rfl fun store same => exit_holds same fun out rewritten => ?_
          exact publish_holds same present decoded inspected rewritten
  | pleOff =>
      refine read_holds fun source file present decoded => exit_holds rfl fun already inspected => ?_
      cases already with
      | true => exact already_holds present decoded inspected
      | false =>
          refine exit_holds rfl fun out rewritten => ?_
          refine backup_holds _ (by rw [present]; rfl) rfl fun store same => ?_
          exact publish_holds same present decoded inspected rewritten

def Pristine (patcher : Patcher) (src : Text) : Prop := contains patcher.marker src = false ∧
  ∀ hook ∈ patcher.edits, count hook.edit.anchor src = 1 ∧ contains hook.counted src = false

variable {src : Text} {own : Signature} {chosen rest : List Signature}

theorem pristine_core (pristine : Pristine patcher src) : ∀ own ∈ patcher.signatures,
    occurrences own.core src = 0 := by
  intro own member
  have listed : own.hook ∈ patcher.edits := signatures_hooks patcher ▸ List.mem_map.mpr ⟨own,member,rfl⟩
  have counted := (pristine.2 own.hook listed).2
  cases patcher with
  | fp8 => exact core_absent (List.mem_of_mem_take member) counted (.inr pristine.1)
  | pleOff => exact core_absent (List.mem_of_mem_drop member) counted (.inl (pleOff_cores own member))

theorem missing_count (fit : Fit (own :: chosen))
    (once : ∀ edit ∈ editsOf (chosen.map (·.hook)), occurrences edit.anchor src = 1)
    (absent : occurrences own.core src = 0) :
    count own.hook.counted (simultaneous (editsOf (chosen.map (·.hook))) src) = 0 := by
  have separated := fit_separated (fit_sublist (List.sublist_cons_self own chosen) fit)
  obtain ⟨_,_,front,_⟩ := fits_parts (fit.1 own (List.mem_cons_self ..))
  have none := simultaneous_occurrences separated once (others_away fit)
  have few := (count_le own.hook.counted (simultaneous (editsOf (chosen.map (·.hook))) src)).trans
    (occurrences_longer front)
  omega

-- An edit that was made takes its anchor away, or leaves the marker.
theorem made_shows (fit : Fit (own :: rest))
    (once : ∀ edit ∈ editsOf ((own :: rest).map (·.hook)), occurrences edit.anchor src = 1)
    (absent : occurrences own.core src = 0) (shown : shows patcher.marker own.hook = true) :
    occurrences own.hook.edit.anchor (simultaneous (editsOf ((own :: rest).map (·.hook))) src) = 0 ∨
      contains patcher.marker (simultaneous (editsOf ((own :: rest).map (·.hook))) src) = true := by
  rcases Bool.or_eq_true_iff.mp shown with gone | marked
  · have separated := fit_separated fit
    have free : ∀ edit ∈ editsOf (rest.map (·.hook)),
        apart own.hook.edit.anchor edit.anchor = true ∧ apart own.hook.edit.anchor edit.repl = true := by
      intro edit member
      have clear := (List.pairwise_cons.mp separated.clear).1 edit member
      exact ⟨clear.1,clear.2.1⟩
    obtain ⟨l,r,_,left,right,seen⟩ := own_occurrences separated once free
    refine .inl (seen.trans ?_)
    change occurrences own.hook.edit.anchor (l ++ (own.hook.edit.repl ++ r)) = 0
    rw [occurrences_apart gone]
    exact Nat.add_eq_zero_iff.mpr ⟨left,right⟩
  · have nonempty := marker_nonempty patcher
    have settled := settled_count fit once absent rfl
    exact .inr ((contains_iff nonempty).mpr (((contains_iff nonempty).mp marked).trans settled.1))

theorem hooks_show (patcher : Patcher) : ∀ hook ∈ patcher.edits, shows patcher.marker hook = true := by
  cases patcher with
  | fp8 => exact edits_show.2
  | pleOff => exact edits_show.1

-- Some but not all of the edits: neither branch of main lets the text pass.
theorem partial_rejected {subset : List Hook} (pristine : Pristine patcher src) (part : subset.Sublist patcher.edits)
    (nonempty : subset ≠ []) (proper : subset ≠ patcher.edits)
    (edited : readText file = simultaneous (editsOf subset) src) :
    ¬ patcher.inspect parses (readText file) = .ok true ∧ ∀ out,
      ¬ (patcher.inspect parses (readText file) = .ok false ∧ patcher.rewrite parses (readText file) = .ok out) := by
  rw [← signatures_hooks] at part proper
  obtain ⟨chosen,inside,rfl⟩ := List.sublist_map_iff.mp part
  have fit := patcher_fit patcher
  have cores := pristine_core pristine
  have listed : ∀ own ∈ patcher.signatures, own.hook ∈ patcher.edits := fun own member =>
    signatures_hooks patcher ▸ List.mem_map.mpr ⟨own,member,rfl⟩
  have once : ∀ edit ∈ editsOf (chosen.map (·.hook)), occurrences edit.anchor src = 1 := by
    intro edit member
    simp only [editsOf,List.map_map,List.mem_map] at member
    obtain ⟨own,member,rfl⟩ := member
    have hook := listed own (inside.subset member)
    exact (anchor_counted (patcher_separated patcher) src own.hook hook).symm.trans (pristine.2 own.hook hook).1
  simp only [inspect_already,edit_exact,edited]
  constructor
  · rintro ⟨_,counts,_⟩
    obtain ⟨rest,same⟩ := inside.exists_perm_append
    cases rest with
    | nil =>
        rw [List.append_nil] at same
        exact proper (congrArg _ (inside.eq_of_length same.length_eq.symm))
    | cons own rest =>
        have middle : (chosen ++ own :: rest).Perm (own :: (chosen ++ rest)) := List.perm_middle
        have moved := same.trans middle
        have first : Fit (own :: chosen) :=
          fit_sublist ((List.sublist_append_left chosen rest).cons_cons own) (fit_perm moved fit)
        have member := moved.mem_iff.mpr (List.mem_cons_self ..)
        have none := missing_count first once (cores own member)
        have one := counts own.hook (listed own member)
        omega
  · rintro out ⟨unmarked,anchors,_⟩
    cases chosen with
    | nil => exact nonempty rfl
    | cons own rest =>
        have member := inside.subset (List.mem_cons_self ..)
        rcases made_shows (fit_sublist inside fit) once (cores own member) (hooks_show patcher own.hook (listed own member))
          with gone | marked
        · have one := anchors own.hook (listed own member)
          omega
        · rw [marked] at unmarked
          cases unmarked

-- The target's bytes as they were, or the fully edited text, and nothing else;
-- a killed run too leaves one of the two.
def AllOrNothing (patcher : Patcher) (decode : Bytes → Option Text) (encode : Text → Bytes) (target : Path)
    (before after : Store Bytes) : Outcome Failure Nat → Prop
  | .returned 0 => ∃ source file, before target = some source ∧ decode source.content = some file ∧
      ((after target = before target ∧ ∀ hook ∈ patcher.edits, count hook.counted (readText file) = 1) ∨
        (∀ hook ∈ patcher.edits, count hook.edit.anchor (readText file) = 1) ∧ ∃ edited, after target = some edited ∧
          edited.content = encode (simultaneous (editsOf patcher.edits) (readText file)))
  | .returned _ | .raised _ => after target = before target
  | .killed => after target = before target ∨ ∃ source file edited, before target = some source ∧
      decode source.content = some file ∧ after target = some edited ∧
      edited.content = encode (simultaneous (editsOf patcher.edits) (readText file))

theorem succeeded_parts {after : Store Bytes} (done : Succeeded patcher parses decode encode target before after) :
    AllOrNothing patcher decode encode target before after (.returned 0) := by
  obtain ⟨source,file,present,decoded,⟨already,same⟩ | ⟨out,edited,fresh,rewritten,here,whole⟩⟩ := done
  · exact ⟨source,file,present,decoded,.inl ⟨same,((inspect_already patcher).mp already).2.1⟩⟩
  · obtain ⟨_,anchors,rfl,_⟩ := (edit_exact patcher).mp ⟨fresh,rewritten⟩
    exact ⟨source,file,present,decoded,.inr ⟨(once_counted patcher _).mpr (once_edits.mp anchors),edited,here,whole⟩⟩

theorem run_parts {outcome : Outcome Failure Nat} {after : Store Bytes}
    (ran : Execution (single size) (main patcher parses decode encode target) before outcome after) :
    AllOrNothing patcher decode encode target before after outcome := by
  have meets := holds_sound (main_holds patcher before) ran
  cases outcome with
  | returned code =>
      rcases meets with ⟨rfl,done⟩ | ⟨failed,same⟩
      · exact succeeded_parts done
      · cases code with
        | zero => exact absurd rfl failed
        | succ code => exact same
  | raised error => exact meets
  | killed =>
      rcases meets with same | done
      · exact .inl same
      · obtain ⟨source,file,present,decoded,⟨same,_⟩ | ⟨_,edited,here,whole⟩⟩ := succeeded_parts done
        · exact .inl same
        · exact .inr ⟨source,file,edited,present,decoded,here,whole⟩

theorem partial_fails {subset : List Hook} {source : File Bytes} {file : Text} {after : Store Bytes}
    (pristine : Pristine patcher src) (part : subset.Sublist patcher.edits) (nonempty : subset ≠ [])
    (proper : subset ≠ patcher.edits) (present : before target = some source) (decoded : decode source.content = some file)
    (edited : readText file = simultaneous (editsOf subset) src) :
    ¬ Execution (single size) (main patcher parses decode encode target) before (.returned 0) after := by
  intro ran
  rcases holds_sound (main_holds patcher before) ran with ⟨_,done⟩ | ⟨failed,_⟩
  · obtain ⟨found,text,here,read,branch⟩ := done
    cases present.symm.trans here
    cases decoded.symm.trans read
    rcases branch with ⟨already,_⟩ | ⟨out,_,fresh,rewritten,_⟩
    · exact (partial_rejected pristine part nonempty proper edited).1 already
    · exact (partial_rejected pristine part nonempty proper edited).2 out ⟨fresh,rewritten⟩
  · exact failed rfl

theorem files_total (op : FileOp Bytes Reply) (store : Store Bytes) :
    ∃ reply next, (single size).step op store reply next := by
  cases op with
  | «exists» path => exact ⟨.ok false,store,rfl,fun present => nomatch present⟩
  | write target content => exact ⟨.error .unicodeError,store,.inl rfl⟩
  | copy source target => exact ⟨.error .unicodeError,store,.inl rfl⟩
  | rmtree dir => exact ⟨.error .unicodeError,store,fun _ => .inl rfl⟩
  | _ => exact ⟨.error .unicodeError,store,rfl⟩

-- A run ends, with the target edited in full or untouched; a text that holds a
-- part of a patcher's edits is never passed.
theorem run_all_or_nothing (patcher : Patcher) (parses : Text → Bool) (decode : Bytes → Option Text)
    (encode : Text → Bytes) (target : Path) (size : Bytes → Nat) (before : Store Bytes) :
    (∃ outcome after, Execution (single size) (main patcher parses decode encode target) before outcome after ∧
      ((∃ code, outcome = .returned code) ∨ ∃ error, outcome = .raised error)) ∧
    (∀ outcome after, Execution (single size) (main patcher parses decode encode target) before outcome after →
      AllOrNothing patcher decode encode target before after outcome) ∧
    ∀ pristine subset source file after, Pristine patcher pristine → subset.Sublist patcher.edits → subset ≠ [] →
      subset ≠ patcher.edits → before target = some source → decode source.content = some file →
      readText file = simultaneous (editsOf subset) pristine →
        ¬ Execution (single size) (main patcher parses decode encode target) before (.returned 0) after :=
  ⟨execution_ends files_total _ before,fun _ _ => run_parts,fun _ _ _ _ _ => partial_fails⟩

def hookOnly : Text := simultaneous (editsOf [replacing "hook" anchorHook replaceHook]) bareAnchors

theorem hook_only_fails : ∃ outcome after, Execution (single List.length)
    (main .fp8 (fun _ => true) some id ⟨[],"model.py".toList⟩)
    (fun _ => some ⟨hookOnly,0,0,0⟩ : Store Text) outcome after ∧ outcome ≠ .returned 0 := by
  obtain ⟨clean,unmarked,_,hooks⟩ := bare_facts
  have pristine : Pristine .fp8 bareAnchors :=
    ⟨unmarked,fun hook member => (hooks hook (List.mem_append_left _ member)).symm⟩
  have part : [replacing "hook" anchorHook replaceHook].Sublist (Patcher.fp8).edits := .cons_cons _ (List.nil_sublist _)
  have edited : readText hookOnly = simultaneous (editsOf [replacing "hook" anchorHook replaceHook]) bareAnchors := by
    have repl : ∀ edit ∈ editsOf [replacing "hook" anchorHook replaceHook], ∀ c ∈ edit.repl, c ≠ '\r' := by
      intro edit member
      cases List.mem_singleton.mp member
      exact (fits_parts (signatures_fit.1 _ (List.mem_cons_self ..))).2.2.2.2.2
    exact readText_clean _ (simultaneous_all repl bareAnchors (clean ▸ readText_free bareAnchors))
  obtain ⟨⟨outcome,after,ran,_⟩,_,fails⟩ := run_all_or_nothing .fp8 (fun _ => true) some id ⟨[],"model.py".toList⟩
    List.length (fun _ => some ⟨hookOnly,0,0,0⟩)
  refine ⟨outcome,after,ran,?_⟩
  rintro rfl
  exact fails bareAnchors _ _ hookOnly after pristine part (List.cons_ne_nil _ _) (fun same => nomatch same)
    rfl rfl edited ran

end OneSpark.PatchRuns
