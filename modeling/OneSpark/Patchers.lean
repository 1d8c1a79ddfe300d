import OneSpark.PatchTexts

namespace OneSpark.Patchers
open TextEdits PatchTexts

inductive Failure where
  | valueError (message : String)
  | fatal (message : String)
  | assertion
  | syntaxError
  | unicodeError
  deriving DecidableEq

-- read_text: universal newlines.
def readText : Text → Text
  | [] => []
  | '\r' :: '\n' :: s => '\n' :: readText s
  | c :: s => (if c = '\r' then '\n' else c) :: readText s

-- ast.parse, for its SyntaxError alone.
def parse (parses : Text → Bool) (src : Text) : Except Failure Unit :=
  if parses src then .ok () else .error .syntaxError

def ensure (condition : Bool) (failure : Failure) : Except Failure Unit :=
  if condition then .ok () else .error failure

namespace Fp8

-- main up to the backup: true where there is nothing to do.
def inspect (parses : Text → Bool) (src : Text) : Except Failure Bool :=
  if contains fp8Marker src then do
    ensure (count replaceHook src = 1 && count block src = 1)
      (.valueError "Partial or changed FP8 patch; restore pristine source")
    parse parses src
    return true
  else do
    ensure (count anchorHook src = 1) (.fatal "hook anchor not found -- refusing to guess")
    ensure (count anchorBlock src = 1) (.fatal "block anchor not found -- refusing to guess")
    return false

-- main from the backup to the temporary file.
def rewrite (parses : Text → Bool) (src : Text) : Except Failure Text := do
  let out := replaceFirst anchorHook replaceHook src
  ensure (out ≠ src) .assertion
  let out := replaceFirst anchorBlock (block ++ anchorBlock) out
  parse parses out
  return out

end Fp8

namespace PleOff

def inspect (parses : Text → Bool) (src : Text) : Except Failure Bool :=
  if contains pleOffMarker src then do
    ensure (pleOffEdits.all fun hook => count hook.counted src = 1)
      (.valueError "Partial or changed PLE-off patch; restore pristine source")
    parse parses src
    return true
  else return false

def applyEdits : List Hook → Text → Except Failure Text
  | [],out => .ok out
  | hook :: rest,out => do
    ensure (count hook.edit.anchor out = 1) (.fatal s!"anchor '{hook.name}' not found -- refusing to guess")
    applyEdits rest (replaceFirst hook.edit.anchor hook.edit.repl out)

def rewrite (parses : Text → Bool) (src : Text) : Except Failure Text := do
  let out ← applyEdits pleOffEdits src
  parse parses out
  return out

end PleOff

inductive Patcher where
  | fp8
  | pleOff

def Patcher.edits : Patcher → List Hook
  | .fp8 => fp8Edits
  | .pleOff => pleOffEdits

def Patcher.marker : Patcher → Text
  | .fp8 => fp8Marker
  | .pleOff => pleOffMarker

def Patcher.inspect : Patcher → (Text → Bool) → Text → Except Failure Bool
  | .fp8 => Fp8.inspect
  | .pleOff => PleOff.inspect

def Patcher.rewrite : Patcher → (Text → Bool) → Text → Except Failure Text
  | .fp8 => Fp8.rewrite
  | .pleOff => PleOff.rewrite

-- main on the text of the target: what it holds after a run that exits with 0.
def Patcher.patch (patcher : Patcher) (parses : Text → Bool) (file : Text) : Except Failure Text := do
  if ← patcher.inspect parses (readText file) then return file else patcher.rewrite parses (readText file)

def editsOf (hooks : List Hook) : List (Edit Char) := hooks.map (·.edit)

variable {parses : Text → Bool} {src out file : Text} {hooks : List Hook} {own : Signature} {chosen : List Signature}

theorem ensure_bind {condition : Bool} {failure : Failure} {next : Unit → Except Failure β} :
    (ensure condition failure >>= next) = .ok b ↔ condition = true ∧ next () = .ok b := by
  cases condition with
  | false => exact ⟨fun ran => (nomatch ran),fun ⟨ran,_⟩ => (nomatch ran)⟩
  | true => exact ⟨fun ran => ⟨rfl,ran⟩,fun ⟨_,ran⟩ => ran⟩

theorem parse_bind {next : Unit → Except Failure β} :
    (parse parses src >>= next) = .ok b ↔ parses src = true ∧ next () = .ok b := ensure_bind

theorem fits_parts (fit : fits own = true) : borderless own.hook.edit.anchor = true ∧ borderless own.core = true ∧
    own.core <+: own.hook.counted ∧ own.hook.counted <+: own.hook.edit.repl ∧
    (own.hook.edit.repl.drop own.core.length = [] ∨
      apart own.core (own.hook.edit.repl.drop own.core.length) = true) ∧
    ∀ c ∈ own.hook.edit.repl, c ≠ '\r' := by
  simpa [fits,List.isPrefixOf_iff_prefix,and_assoc] using fit

theorem away_parts {x : Text} {edit : Edit Char} (clear : away x edit = true) :
    apart x edit.anchor = true ∧ apart x edit.repl = true := by
  simpa [away] using clear

def Foreign (own other : Signature) : Prop := foreign own other = true

theorem foreign_parts {own other : Signature} (clear : Foreign own other) : away own.core other.hook.edit = true ∧
    away other.core own.hook.edit = true ∧ Clear own.hook.edit other.hook.edit := by
  simpa [Foreign,foreign,away,Clear,and_assoc] using clear

instance : Std.Symm Foreign := ⟨fun own other clear => by
  obtain ⟨left,right,edits⟩ := foreign_parts clear
  obtain ⟨anchors,repl,unhit⟩ := Std.Symm.symm _ _ edits
  simp [Foreign,foreign,left,right,show away other.hook.edit.anchor own.hook.edit = true by simp [away,anchors,repl],
    unhit]⟩

theorem fit_separated (fit : Fit chosen) : Separated (editsOf (chosen.map (·.hook))) := by
  refine ⟨?_,?_⟩
  · intro edit member
    simp only [editsOf,List.map_map,List.mem_map] at member
    obtain ⟨own,member,rfl⟩ := member
    exact (fits_parts (fit.1 own member)).1
  · simp only [editsOf,List.map_map,List.pairwise_map]
    exact fit.2.imp fun clear => (foreign_parts clear).2.2

theorem fit_perm {others : List Signature} (same : chosen.Perm others) (fit : Fit chosen) : Fit others :=
  ⟨fun own member => fit.1 own (same.mem_iff.mpr member),
    (same.pairwise_iff (R := Foreign) fun clear => Std.Symm.symm _ _ clear).mp fit.2⟩

theorem fit_sublist {others : List Signature} (part : others.Sublist chosen) (fit : Fit chosen) : Fit others :=
  ⟨fun own member => fit.1 own (part.subset member),fit.2.sublist part⟩

def Patcher.signatures : Patcher → List Signature
  | .fp8 => PatchTexts.signatures.take 2
  | .pleOff => PatchTexts.signatures.drop 2

theorem signatures_hooks (patcher : Patcher) : patcher.signatures.map (·.hook) = patcher.edits := by
  cases patcher <;> rfl

theorem patcher_fit (patcher : Patcher) : Fit patcher.signatures := by
  cases patcher with
  | fp8 => exact fit_sublist (List.take_sublist ..) signatures_fit
  | pleOff => exact fit_sublist (List.drop_sublist ..) signatures_fit

theorem patcher_separated (patcher : Patcher) : Separated (editsOf patcher.edits) := by
  rw [← signatures_hooks]
  exact fit_separated (patcher_fit patcher)

theorem anchor_counted (separated : Separated (editsOf hooks)) (src : Text) : ∀ hook ∈ hooks,
    count hook.edit.anchor src = occurrences hook.edit.anchor src := by
  intro hook member
  exact count_borderless (separated.borderless hook.edit (List.mem_map.mpr ⟨hook,member,rfl⟩)) src

theorem inspect_already (patcher : Patcher) : patcher.inspect parses src = .ok true ↔
    contains patcher.marker src = true ∧ (∀ hook ∈ patcher.edits, count hook.counted src = 1) ∧
      parses src = true := by
  cases patcher with
  | fp8 =>
      simp only [Patcher.inspect,Patcher.marker,Patcher.edits,Fp8.inspect]
      cases contains fp8Marker src with
      | false =>
          simp only [Bool.false_eq_true,if_false,ensure_bind,false_and,iff_false]
          rintro ⟨_,_,ran⟩
          cases ran
      | true => simp [ensure_bind,parse_bind,pure,Except.pure,fp8Edits,replacing,inserting,and_assoc]
  | pleOff =>
      simp only [Patcher.inspect,Patcher.marker,Patcher.edits,PleOff.inspect]
      cases contains pleOffMarker src with
      | false => simp [pure,Except.pure]
      | true => simp [ensure_bind,parse_bind,pure,Except.pure]

theorem applyEdits_exact (separated : Separated (editsOf hooks)) : PleOff.applyEdits hooks src = .ok out ↔
    (∀ hook ∈ hooks, occurrences hook.edit.anchor src = 1) ∧ out = simultaneous (editsOf hooks) src := by
  induction hooks generalizing src with
  | nil => simp [PleOff.applyEdits,editsOf,simultaneous_nil,eq_comm]
  | cons hook rest ih =>
      have counted := anchor_counted separated src hook (List.mem_cons_self ..)
      have border := separated.borderless hook.edit (List.mem_cons_self ..)
      rw [PleOff.applyEdits,ensure_bind,decide_eq_true_eq,counted,ih (separated_tail separated),List.forall_mem_cons,
        and_assoc]
      apply and_congr_right
      intro once
      have others : ∀ other ∈ rest, occurrences other.edit.anchor (replaceFirst hook.edit.anchor hook.edit.repl src) =
          occurrences other.edit.anchor src := by
        intro other member
        have clear := (List.pairwise_cons.mp separated.clear).1 other.edit (List.mem_map.mpr ⟨other,member,rfl⟩)
        exact replaced_occurrences border once (apart_symm clear.1) clear.2.2
      have step : simultaneous (editsOf (hook :: rest)) src =
          simultaneous (editsOf rest) (replaceFirst hook.edit.anchor hook.edit.repl src) :=
        replaced_first separated once
      rw [step]
      exact and_congr_left fun _ => forall₂_congr fun other member => by rw [others other member]

theorem fp8_edits (src : Text) (anchors : ∀ hook ∈ fp8Edits, occurrences hook.edit.anchor src = 1) :
    replaceFirst anchorHook replaceHook src ≠ src ∧
      replaceFirst anchorBlock (block ++ anchorBlock) (replaceFirst anchorHook replaceHook src) =
        simultaneous (editsOf fp8Edits) src := by
  have separated := patcher_separated .fp8
  have once : ∀ edit ∈ editsOf fp8Edits, occurrences edit.anchor src = 1 := by
    intro edit member
    obtain ⟨hook,listed,rfl⟩ := List.mem_map.mp member
    exact anchors hook listed
  have first : occurrences anchorHook src = 1 := once _ (List.mem_cons_self ..)
  have later := replaced_once separated once ⟨anchorBlock,block ++ anchorBlock⟩ (List.mem_cons_self ..)
  have border : borderless anchorHook = true := separated.borderless _ (List.mem_cons_self ..)
  refine ⟨?_,?_⟩
  · obtain ⟨l,r,rfl,left,_⟩ := once_split border first
    intro same
    have lengths := congrArg List.length ((replaceFirst_split border left).symm.trans same)
    simp only [List.length_append] at lengths
    have longer := hook_longer
    omega
  · rw [← simultaneous_nil (replaceFirst anchorBlock _ _)]
    exact ((replaced_first separated first).trans
      (replaced_first (separated_tail separated) later)).symm

theorem fp8_open : Fp8.inspect parses src = .ok false ↔ contains fp8Marker src = false ∧
    ∀ hook ∈ fp8Edits, occurrences hook.edit.anchor src = 1 := by
  have counted := anchor_counted (patcher_separated .fp8) src
  have hooks : (∀ hook ∈ fp8Edits, occurrences hook.edit.anchor src = 1) ↔
      count anchorHook src = 1 ∧ count anchorBlock src = 1 := by
    have own : count anchorHook src = occurrences anchorHook src := counted _ (List.mem_cons_self ..)
    have other : count anchorBlock src = occurrences anchorBlock src :=
      counted _ (List.mem_cons_of_mem _ (List.mem_cons_self ..))
    simp [own,other,fp8Edits,replacing,inserting]
  rw [hooks,Fp8.inspect]
  cases contains fp8Marker src with
  | true => simp [ensure_bind,parse_bind,pure,Except.pure]
  | false => simp [ensure_bind,pure,Except.pure]

theorem fp8_rewrite (anchors : ∀ hook ∈ fp8Edits, occurrences hook.edit.anchor src = 1) :
    Fp8.rewrite parses src = .ok out ↔ out = simultaneous (editsOf fp8Edits) src ∧ parses out = true := by
  obtain ⟨changed,edited⟩ := fp8_edits src anchors
  simp only [Fp8.rewrite,ensure_bind,parse_bind,edited,changed,ne_eq,not_false_eq_true,decide_true,true_and,pure,
    Except.pure,Except.ok.injEq]
  constructor
  · rintro ⟨parsed,rfl⟩
    exact ⟨rfl,parsed⟩
  · rintro ⟨rfl,parsed⟩
    exact ⟨parsed,rfl⟩

theorem pleOff_rewrite : PleOff.rewrite parses src = .ok out ↔
    (∀ hook ∈ pleOffEdits, occurrences hook.edit.anchor src = 1) ∧
      out = simultaneous (editsOf pleOffEdits) src ∧ parses out = true := by
  have exact : ∀ out, PleOff.applyEdits pleOffEdits src = .ok out ↔
      (∀ hook ∈ pleOffEdits, occurrences hook.edit.anchor src = 1) ∧
        out = simultaneous (editsOf pleOffEdits) src := fun _ => applyEdits_exact (patcher_separated .pleOff)
  unfold PleOff.rewrite
  cases applied : PleOff.applyEdits pleOffEdits src with
  | error failure =>
      constructor
      · intro ran
        cases ran
      · rintro ⟨once,whole,_⟩
        exact nomatch applied.symm.trans ((exact out).mpr ⟨once,whole⟩)
  | ok edited =>
      obtain ⟨once,rfl⟩ := (exact edited).mp applied
      constructor
      · intro ran
        obtain ⟨parsed,same⟩ := parse_bind.mp ran
        cases same
        exact ⟨once,rfl,parsed⟩
      · rintro ⟨_,rfl,parsed⟩
        exact parse_bind.mpr ⟨parsed,rfl⟩

theorem edit_exact (patcher : Patcher) :
    (patcher.inspect parses src = .ok false ∧ patcher.rewrite parses src = .ok out) ↔
      contains patcher.marker src = false ∧ (∀ hook ∈ patcher.edits, occurrences hook.edit.anchor src = 1) ∧
        out = simultaneous (editsOf patcher.edits) src ∧ parses out = true := by
  cases patcher with
  | fp8 =>
      simp only [Patcher.inspect,Patcher.rewrite,Patcher.marker,Patcher.edits,fp8_open,and_assoc]
      exact and_congr_right fun _ => and_congr_right fun once => fp8_rewrite once
  | pleOff =>
      simp only [Patcher.inspect,Patcher.rewrite,Patcher.marker,Patcher.edits,pleOff_rewrite]
      apply and_congr_left
      intro _
      rw [PleOff.inspect]
      cases contains pleOffMarker src with
      | true => simp [ensure_bind,parse_bind,pure,Except.pure]
      | false => simp [pure,Except.pure]

theorem patch_parts (patcher : Patcher) : patcher.patch parses file = .ok out ↔
    (patcher.inspect parses (readText file) = .ok true ∧ out = file) ∨
      (patcher.inspect parses (readText file) = .ok false ∧ patcher.rewrite parses (readText file) = .ok out) := by
  unfold Patcher.patch
  cases patcher.inspect parses (readText file) with
  | error failure => simp [bind,Except.bind]
  | ok already => cases already <;> simp [bind,Except.bind,pure,Except.pure,eq_comm]

theorem patch_unmarked (patcher : Patcher) (unmarked : contains patcher.marker (readText file) = false) :
    patcher.patch parses file = .ok out ↔
      (∀ hook ∈ patcher.edits, occurrences hook.edit.anchor (readText file) = 1) ∧
        out = simultaneous (editsOf patcher.edits) (readText file) ∧ parses out = true := by
  simp [patch_parts,inspect_already,edit_exact,unmarked]

theorem readText_free (file : Text) : ∀ c ∈ readText file, c ≠ '\r' := by
  fun_induction readText file with
  | case1 => simp
  | case2 s ih => simpa using ih
  | case3 c s other ih =>
      rw [List.forall_mem_cons]
      refine ⟨?_,ih⟩
      split
      · decide
      · assumption

theorem readText_clean (file : Text) (free : ∀ c ∈ file, c ≠ '\r') : readText file = file := by
  fun_induction readText file with
  | case1 => rfl
  | case2 s ih => exact absurd rfl (free '\r' (List.mem_cons_self ..))
  | case3 c s other ih =>
      obtain ⟨first,rest⟩ := List.forall_mem_cons.mp free
      rw [if_neg first,ih rest]

theorem marker_nonempty (patcher : Patcher) : patcher.marker ≠ [] := by
  cases patcher with
  | fp8 =>
      unfold Patcher.marker fp8Marker
      rw [String.toList_ofList]
      exact List.cons_ne_nil _ _
  | pleOff =>
      unfold Patcher.marker pleOffMarker
      rw [String.toList_ofList]
      exact List.cons_ne_nil _ _

variable {p q : Patcher}

theorem pair_fit (distinct : p ≠ q) : Fit (p.signatures ++ q.signatures) := by
  have whole : Fit (Patcher.fp8.signatures ++ Patcher.pleOff.signatures) := by
    have split := List.take_append_drop 2 PatchTexts.signatures
    exact split ▸ signatures_fit
  cases p <;> cases q
  · exact absurd rfl distinct
  · exact whole
  · exact fit_perm List.perm_append_comm whole
  · exact absurd rfl distinct

theorem pair_separated (distinct : p ≠ q) : Separated (editsOf p.edits ++ editsOf q.edits) := by
  have separated := fit_separated (pair_fit distinct)
  rwa [List.map_append,signatures_hooks,signatures_hooks,editsOf,List.map_append] at separated

theorem marker_away (distinct : p ≠ q) : ∀ edit ∈ editsOf p.edits, away q.marker edit = true := by
  intro edit member
  obtain ⟨hook,listed,rfl⟩ := List.mem_map.mp member
  cases p <;> cases q
  · exact absurd rfl distinct
  · exact markers_foreign.2 hook listed
  · exact markers_foreign.1 hook listed
  · exact absurd rfl distinct

theorem once_edits : (∀ hook ∈ hooks, occurrences hook.edit.anchor src = 1) ↔
    ∀ edit ∈ editsOf hooks, occurrences edit.anchor src = 1 := by simp [editsOf]

theorem edited_free (patcher : Patcher) (src : Text) (free : ∀ c ∈ src, c ≠ '\r') :
    ∀ c ∈ simultaneous (editsOf patcher.edits) src, c ≠ '\r' := by
  apply simultaneous_all _ src free
  intro edit member
  rw [← signatures_hooks] at member
  simp only [editsOf,List.map_map,List.mem_map] at member
  obtain ⟨own,listed,rfl⟩ := member
  exact (fits_parts ((patcher_fit patcher).1 own listed)).2.2.2.2.2

-- One patcher after the other sees its own anchors and marker as they were.
theorem both_exact (distinct : p ≠ q) (every : ∀ text, parses text = true)
    (unmarked : ∀ patcher : Patcher, contains patcher.marker (readText file) = false) :
    (p.patch parses file >>= q.patch parses) = .ok out ↔
      (∀ edit ∈ editsOf p.edits ++ editsOf q.edits, occurrences edit.anchor (readText file) = 1) ∧
        out = simultaneous (editsOf p.edits ++ editsOf q.edits) (readText file) := by
  have separated := pair_separated distinct
  have free := readText_free file
  -- What the second patcher reads once the first one has run.
  have second : (∀ edit ∈ editsOf p.edits, occurrences edit.anchor (readText file) = 1) → ∀ text,
      text = simultaneous (editsOf p.edits) (readText file) → (q.patch parses text = .ok out ↔
        (∀ edit ∈ editsOf q.edits, occurrences edit.anchor (readText file) = 1) ∧
          out = simultaneous (editsOf p.edits ++ editsOf q.edits) (readText file)) := by
    rintro once text rfl
    have clean := readText_clean _ (edited_free p _ free)
    have seen : ∀ x, (∀ edit ∈ editsOf p.edits, away x edit = true) →
        occurrences x (simultaneous (editsOf p.edits) (readText file)) = occurrences x (readText file) :=
      fun x clear => simultaneous_occurrences (patcher_separated p) once
        fun edit member => away_parts (clear edit member)
    have marker : contains q.marker (readText (simultaneous (editsOf p.edits) (readText file))) = false := by
      rw [contains_false (marker_nonempty q),clean,seen q.marker (marker_away distinct),
        ← contains_false (marker_nonempty q)]
      exact unmarked q
    have anchors : ∀ edit ∈ editsOf q.edits, occurrences edit.anchor
        (simultaneous (editsOf p.edits) (readText file)) = occurrences edit.anchor (readText file) := by
      intro edit member
      apply seen
      intro other listed
      have clear := (List.pairwise_append.mp separated.clear).2.2 other listed edit member
      simp [away,apart_symm clear.1,clear.2.2]
    rw [patch_unmarked q marker,clean,once_edits,simultaneous_append separated once,
      forall₂_congr fun edit member => by rw [anchors edit member]]
    simp [every]
  constructor
  · intro ran
    cases first : p.patch parses file with
    | error failure =>
        rw [first] at ran
        cases ran
    | ok text =>
        rw [first] at ran
        obtain ⟨once,whole,_⟩ := (patch_unmarked p (unmarked p)).mp first
        rw [once_edits] at once
        obtain ⟨others,result⟩ := (second once text whole).mp ran
        exact ⟨List.forall_mem_append.mpr ⟨once,others⟩,result⟩
  · rintro ⟨once,result⟩
    obtain ⟨own,others⟩ := List.forall_mem_append.mp once
    have first := (patch_unmarked p (unmarked p)).mpr ⟨once_edits.mpr own,rfl,every _⟩
    rw [first]
    exact (second own _ rfl).mpr ⟨others,result⟩

theorem core_parts : ∀ own ∈ PatchTexts.signatures,
    own.core = own.hook.counted ∨ fp8Marker <:+: own.core := by
  have marked : fp8Marker <:+: block.take 39 := (contains_iff (marker_nonempty .fp8)).mp markers_inside.1
  simp [PatchTexts.signatures,whole,headed,replacing,inserting,marked]

theorem pleOff_cores : ∀ own ∈ Patcher.pleOff.signatures, own.core = own.hook.counted := by
  simp [Patcher.signatures,PatchTexts.signatures,whole,replacing]

theorem core_absent (member : own ∈ PatchTexts.signatures)
    (counted : contains own.hook.counted src = false)
    (marker : own.core = own.hook.counted ∨ contains fp8Marker src = false) : occurrences own.core src = 0 := by
  have nonempty := (borderless_parts (fits_parts (signatures_fit.1 own member)).2.1).1
  apply Classical.byContradiction
  intro present
  have inside := (occurs_iff nonempty).mp present
  have counts : own.core ≠ own.hook.counted := fun same =>
    contains_absent (same ▸ nonempty) counted (same ▸ inside)
  rcases core_parts own member with same | marked
  · exact counts same
  · rcases marker with same | unmarked
    · exact counts same
    · exact contains_absent (marker_nonempty .fp8) unmarked (marked.trans inside)

theorem others_away {rest : List Signature} (fit : Fit (own :: rest)) : ∀ edit ∈ editsOf (rest.map (·.hook)),
    apart own.core edit.anchor = true ∧ apart own.core edit.repl = true := by
  intro edit member
  simp only [editsOf,List.map_map,List.mem_map] at member
  obtain ⟨other,listed,rfl⟩ := member
  exact away_parts (foreign_parts ((List.pairwise_cons.mp fit.2).1 other listed)).1

-- The replacement an edit leaves behind stays the only one of its kind.
theorem settled_count {rest : List Signature} (fit : Fit (own :: rest))
    (once : ∀ edit ∈ editsOf ((own :: rest).map (·.hook)), occurrences edit.anchor src = 1)
    (absent : occurrences own.core src = 0)
    (result : out = simultaneous (editsOf ((own :: rest).map (·.hook))) src) :
    own.hook.counted <:+: out ∧ count own.hook.counted out = 1 := by
  have separated := fit_separated fit
  obtain ⟨anchor,border,front,⟨after,repl⟩,ends,_⟩ := fits_parts (fit.1 own (List.mem_cons_self ..))
  obtain ⟨l,r,whole,_,_,seen⟩ := own_occurrences (x := own.core) separated once (others_away fit)
  have present : own.hook.counted <:+: out := by
    refine ⟨simultaneous (editsOf ((own :: rest).map (·.hook))) l,
      after ++ simultaneous (editsOf ((own :: rest).map (·.hook))) r,?_⟩
    rw [result,whole]
    refine Eq.trans ?_ (simultaneous_own separated).symm
    simp only [← repl,List.append_assoc]
    rfl
  have core : occurrences own.core out = 1 := by
    have left : occurrences own.core l = 0 := occurrences_part border ⟨[],_,whole.symm⟩ absent
    have right : occurrences own.core r = 0 :=
      occurrences_part border ⟨l ++ own.hook.edit.anchor,[],by simp [whole]⟩ absent
    obtain ⟨tail,split⟩ := front.trans ⟨after,repl⟩
    have drop : own.hook.edit.repl.drop own.core.length = tail := by simp [← split]
    rw [drop] at ends
    rw [result]
    refine seen.trans ?_
    change occurrences own.core (l ++ (own.hook.edit.repl ++ r)) = 1
    rw [← split,List.append_assoc,occurrences_own border,left]
    rcases ends with rfl | clear
    · simp [right]
    · have skipped := occurrences_apart (l := []) (r := r) clear
      simp only [List.nil_append] at skipped
      rw [skipped,right]
      rfl
  have nonempty : own.hook.counted ≠ [] := by
    intro none
    rw [none,List.prefix_nil] at front
    exact (borderless_parts border).1 front
  have few : count own.hook.counted out ≤ occurrences own.core out :=
    (count_le own.hook.counted out).trans (occurrences_longer front)
  have some := count_positive nonempty present
  exact ⟨present,by omega⟩

theorem settled_all (fit : Fit chosen)
    (once : ∀ edit ∈ editsOf (chosen.map (·.hook)), occurrences edit.anchor src = 1)
    (absent : ∀ own ∈ chosen, occurrences own.core src = 0)
    (result : out = simultaneous (editsOf (chosen.map (·.hook))) src) :
    ∀ own ∈ chosen, own.hook.counted <:+: out ∧ count own.hook.counted out = 1 := by
  intro own member
  obtain ⟨before,after,rfl⟩ := List.append_of_mem member
  have same : (before ++ own :: after).Perm (own :: (before ++ after)) := List.perm_middle
  have edits := (same.map (·.hook)).map (·.edit)
  have moved := simultaneous_perm edits (fit_separated fit) src
  exact settled_count (fit_perm same fit) (fun edit listed => once edit (edits.mem_iff.mpr listed))
    (absent own member) (result.trans moved)

theorem marker_inside (patcher : Patcher) : ∃ hook ∈ patcher.edits, patcher.marker <:+: hook.counted := by
  cases patcher with
  | fp8 =>
      have inside := (contains_iff (marker_nonempty .fp8)).mp markers_inside.1
      exact ⟨_,List.mem_cons_of_mem _ (List.mem_cons_self ..),inside.trans (List.take_prefix 39 block).isInfix⟩
  | pleOff =>
      exact ⟨_,List.mem_cons_self ..,(contains_iff (marker_nonempty .pleOff)).mp markers_inside.2⟩

theorem rerun_unchanged (patcher : Patcher) (every : ∀ text, parses text = true) (free : ∀ c ∈ out, c ≠ '\r')
    (settled : ∀ hook ∈ patcher.edits, hook.counted <:+: out ∧ count hook.counted out = 1) :
    patcher.patch parses out = .ok out := by
  obtain ⟨hook,member,inside⟩ := marker_inside patcher
  have marked : contains patcher.marker out = true :=
    (contains_iff (marker_nonempty patcher)).mpr (inside.trans (settled hook member).1)
  rw [patch_parts,readText_clean out free,inspect_already]
  exact .inl ⟨⟨marked,fun hook member => (settled hook member).2,every out⟩,rfl⟩

theorem reruns_unchanged (settled : ∀ patcher : Patcher, patcher.patch parses out = .ok out)
    (reruns : List Patcher) : reruns.foldlM (fun text patcher => patcher.patch parses text) out = .ok out := by
  induction reruns with
  | nil => rfl
  | cons patcher rest ih =>
      rw [List.foldlM_cons,settled patcher]
      exact ih

def inOrder (p q : Patcher) (parses : Text → Bool) (file : Text) : Except Failure Text :=
  p.patch parses file >>= q.patch parses

theorem once_counted (patcher : Patcher) (src : Text) :
    (∀ hook ∈ patcher.edits, count hook.edit.anchor src = 1) ↔
      ∀ edit ∈ editsOf patcher.edits, occurrences edit.anchor src = 1 := by
  rw [← once_edits]
  exact forall₂_congr fun hook member => by rw [anchor_counted (patcher_separated patcher) src hook member]

theorem order_free (every : ∀ text, parses text = true)
    (unmarked : ∀ patcher : Patcher, contains patcher.marker (readText file) = false) :
    inOrder .pleOff .fp8 parses file = .ok out ↔ inOrder .fp8 .pleOff parses file = .ok out := by
  have distinct : Patcher.fp8 ≠ Patcher.pleOff := fun same => nomatch same
  have moved : (editsOf pleOffEdits ++ editsOf fp8Edits).Perm (editsOf fp8Edits ++ editsOf pleOffEdits) :=
    List.perm_append_comm
  unfold inOrder
  rw [both_exact distinct every unmarked,both_exact distinct.symm every unmarked]
  simp only [Patcher.edits,simultaneous_perm moved (pair_separated distinct.symm),List.forall_mem_append]
  exact and_congr_left fun _ => and_comm

theorem all_once (src : Text) : (∀ patcher : Patcher, ∀ hook ∈ patcher.edits, count hook.edit.anchor src = 1) ↔
    ∀ edit ∈ editsOf fp8Edits ++ editsOf pleOffEdits, occurrences edit.anchor src = 1 := by
  simp only [once_counted,List.forall_mem_append]
  constructor
  · exact fun all => ⟨all .fp8,all .pleOff⟩
  · rintro ⟨left,right⟩ (_ | _)
    · exact left
    · exact right

theorem result_settled (every : ∀ text, parses text = true)
    (unmarked : ∀ patcher : Patcher, contains patcher.marker (readText file) = false)
    (unreplaced : ∀ patcher : Patcher, ∀ hook ∈ patcher.edits, contains hook.counted (readText file) = false)
    (once : ∀ edit ∈ editsOf fp8Edits ++ editsOf pleOffEdits, occurrences edit.anchor (readText file) = 1)
    (result : out = simultaneous (editsOf fp8Edits ++ editsOf pleOffEdits) (readText file)) (patcher : Patcher) :
    patcher.patch parses out = .ok out := by
  have free : ∀ c ∈ out, c ≠ '\r' := by
    have separated : Separated (editsOf fp8Edits ++ editsOf pleOffEdits) :=
      fit_separated signatures_fit
    rw [result,simultaneous_append separated fun edit member => once edit (List.mem_append_left _ member)]
    exact edited_free .pleOff _ (edited_free .fp8 _ (readText_free file))
  have absent : ∀ own ∈ PatchTexts.signatures, occurrences own.core (readText file) = 0 := by
    intro own member
    refine core_absent member ?_ (.inr (unmarked .fp8))
    have listed : own.hook ∈ fp8Edits ++ pleOffEdits := List.mem_map.mpr ⟨own,member,rfl⟩
    rcases List.mem_append.mp listed with left | right
    · exact unreplaced .fp8 _ left
    · exact unreplaced .pleOff _ right
  have settled := settled_all signatures_fit once absent result
  apply rerun_unchanged patcher every free
  intro hook member
  rw [← signatures_hooks] at member
  obtain ⟨own,listed,rfl⟩ := List.mem_map.mp member
  cases patcher with
  | fp8 => exact settled own (List.mem_of_mem_take listed)
  | pleOff => exact settled own (List.mem_of_mem_drop listed)

theorem orders_agree (parses : Text → Bool) (every : ∀ text, parses text = true) (file : Text)
    (unmarked : ∀ patcher : Patcher, contains patcher.marker (readText file) = false)
    (unreplaced : ∀ patcher : Patcher, ∀ hook ∈ patcher.edits, contains hook.counted (readText file) = false) :
    ((∃ out, inOrder .fp8 .pleOff parses file = .ok out) ↔
        ∃ out, inOrder .pleOff .fp8 parses file = .ok out) ∧
      ((∃ out, inOrder .fp8 .pleOff parses file = .ok out) ↔
        ∀ patcher : Patcher, ∀ hook ∈ patcher.edits, count hook.edit.anchor (readText file) = 1) ∧
      ∀ out, (inOrder .fp8 .pleOff parses file = .ok out ∨ inOrder .pleOff .fp8 parses file = .ok out) →
        inOrder .fp8 .pleOff parses file = .ok out ∧ inOrder .pleOff .fp8 parses file = .ok out ∧
        (∀ patcher : Patcher, ∀ hook ∈ patcher.edits, count hook.edit.anchor (readText file) = 1) ∧
        out = simultaneous (editsOf fp8Edits ++ editsOf pleOffEdits) (readText file) ∧
        ∀ reruns : List Patcher, reruns.foldlM (fun text patcher => patcher.patch parses text) out = .ok out := by
  have distinct : Patcher.fp8 ≠ Patcher.pleOff := fun same => nomatch same
  have forward : ∀ out, inOrder .fp8 .pleOff parses file = .ok out ↔
      (∀ edit ∈ editsOf fp8Edits ++ editsOf pleOffEdits, occurrences edit.anchor (readText file) = 1) ∧
        out = simultaneous (editsOf fp8Edits ++ editsOf pleOffEdits) (readText file) :=
    fun out => both_exact distinct every unmarked
  simp only [all_once,order_free every unmarked,or_self,iff_self,true_and]
  refine ⟨?_,?_⟩
  · constructor
    · rintro ⟨out,ran⟩
      exact ((forward out).mp ran).1
    · exact fun once => ⟨_,(forward _).mpr ⟨once,rfl⟩⟩
  · intro out ran
    obtain ⟨once,result⟩ := (forward out).mp ran
    exact ⟨ran,ran,once,result,reruns_unchanged (result_settled every unmarked unreplaced once result)⟩

def bareAnchors : Text :=
  helperAnchor ++ ('\n' :: initAnchor) ++ ('\n' :: gatherAnchor) ++ ('\n' :: loaderAnchor) ++ ('\n' :: anchorHook) ++
    anchorBlock

set_option maxRecDepth 20000 in
theorem bare_facts : readText bareAnchors = bareAnchors ∧ contains fp8Marker bareAnchors = false ∧
    contains pleOffMarker bareAnchors = false ∧
    ∀ hook ∈ fp8Edits ++ pleOffEdits, contains hook.counted bareAnchors = false ∧
      count hook.edit.anchor bareAnchors = 1 := by
  unfold bareAnchors fp8Edits pleOffEdits fp8Marker pleOffMarker block anchorHook replaceHook anchorBlock helper
    helperAnchor initAnchor initNew gatherAnchor gatherNew loaderAnchor loaderNew text
  simp only [List.map_cons,List.map_nil]
  repeat rw [String.toList_ofList]
  decide +kernel

theorem bare_patched : ∃ out, inOrder .fp8 .pleOff (fun _ => true) bareAnchors = .ok out ∧
    inOrder .pleOff .fp8 (fun _ => true) bareAnchors = .ok out := by
  obtain ⟨clean,fp8,pleOff,hooks⟩ := bare_facts
  rw [← clean] at fp8 pleOff hooks
  obtain ⟨_,done,fixed⟩ := orders_agree (fun _ => true) (fun _ => rfl) bareAnchors
    (fun patcher => by
      cases patcher with
      | fp8 => exact fp8
      | pleOff => exact pleOff)
    (fun patcher hook member => by
      cases patcher with
      | fp8 => exact (hooks hook (List.mem_append_left _ member)).1
      | pleOff => exact (hooks hook (List.mem_append_right _ member)).1)
  have once : ∀ patcher : Patcher, ∀ hook ∈ patcher.edits, count hook.edit.anchor (readText bareAnchors) = 1 := by
    intro patcher hook member
    cases patcher with
    | fp8 => exact (hooks hook (List.mem_append_left _ member)).2
    | pleOff => exact (hooks hook (List.mem_append_right _ member)).2
  obtain ⟨out,ran⟩ := done.mpr once
  exact ⟨out,ran,(fixed out (.inl ran)).2.1⟩

end OneSpark.Patchers
