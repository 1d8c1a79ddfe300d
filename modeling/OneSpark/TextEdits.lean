import Mathlib.Data.List.Find
import Mathlib.Data.List.Infix
import Mathlib.Data.List.Pairwise
import Mathlib.Data.List.Perm.Basic

namespace OneSpark.TextEdits
variable {α : Type} [DecidableEq α]

-- str.__contains__, str.count (non-overlapping, left to right) and
-- str.replace(.., 1), for a nonempty pattern.
def contains (x : List α) : List α → Bool
  | [] => false
  | c :: s => x.isPrefixOf (c :: s) || contains x s

def countFrom (x : List α) : Nat → List α → Nat
  | _,[] => 0
  | skip + 1,_ :: s => countFrom x skip s
  | 0,c :: s => if x.isPrefixOf (c :: s) then 1 + countFrom x (x.length - 1) s else countFrom x 0 s

def count (x s : List α) : Nat := countFrom x 0 s

def replaceFirst (x y : List α) : List α → List α
  | [] => []
  | c :: s => if x.isPrefixOf (c :: s) then y ++ (c :: s).drop x.length else c :: replaceFirst x y s

structure Edit (α : Type) where
  anchor : List α
  repl : List α

-- One pass that replaces every anchor where it starts and copies all the rest.
def simultaneousFrom (edits : List (Edit α)) : Nat → List α → List α
  | _,[] => []
  | skip + 1,_ :: s => simultaneousFrom edits skip s
  | 0,c :: s =>
    match edits.find? fun edit => edit.anchor.isPrefixOf (c :: s) with
    | some edit => edit.repl ++ simultaneousFrom edits (edit.anchor.length - 1) s
    | none => c :: simultaneousFrom edits 0 s

def simultaneous (edits : List (Edit α)) (s : List α) : List α := simultaneousFrom edits 0 s

-- All positions of a pattern, overlapping ones included.
def occurrences (x : List α) : List α → Nat
  | [] => 0
  | c :: s => (if x.isPrefixOf (c :: s) then 1 else 0) + occurrences x s

def agree : List α → List α → Bool
  | [],_ => true
  | _,[] => true
  | a :: u,b :: v => a == b && agree u v

-- A nonempty suffix of x, laid over the start of y, agrees with it.
def meets : List α → List α → Bool
  | [],_ => false
  | _ :: _,[] => true
  | a :: x,b :: y => a == b && agree x y || meets x (b :: y)

def apart (x y : List α) : Bool := !meets x y && !meets y x

def borderless (x : List α) : Bool := !x.isEmpty && !meets x.tail x

variable {x y k u v l r s p q : List α} {c : α} {edit other : Edit α} {edits : List (Edit α)}

theorem agree_prefixes (left : u <+: s) (right : v <+: s) : agree u v = true := by
  induction u generalizing v s with
  | nil => rfl
  | cons a u ih =>
      cases v with
      | nil => rfl
      | cons b v =>
          obtain ⟨rest,rfl⟩ := left
          obtain ⟨same,tail⟩ := List.cons_prefix_cons.mp right
          simp [agree,same,ih (List.prefix_append u rest) tail]

theorem meets_false (free : meets x y = false) (suffix : v <:+ x) (nonempty : v ≠ []) : agree v y = false := by
  induction x with
  | nil => exact absurd (List.suffix_nil.mp suffix) nonempty
  | cons a x ih =>
      cases y with
      | nil => cases free
      | cons b y =>
          obtain ⟨here,later⟩ := Bool.or_eq_false_iff.mp free
          rcases List.suffix_cons_iff.mp suffix with rfl | inside
          · exact here
          · exact ih later inside

theorem apart_parts (free : apart x y = true) : meets x y = false ∧ meets y x = false := by
  simpa [apart] using free

theorem apart_symm (free : apart x y = true) : apart y x = true := by
  obtain ⟨left,right⟩ := apart_parts free
  simp [apart,left,right]

theorem borderless_parts (free : borderless x = true) : x ≠ [] ∧ meets x.tail x = false := by
  cases x with
  | nil => cases free
  | cons a x => simpa [borderless] using free

-- A pattern that starts inside the nonempty left part ends inside it, unless
-- one of its suffixes reaches over the start of y.
theorem stays_left (free : ∀ v, v <:+ x.tail → v ≠ [] → agree v y = false)
    (starts : x <+: (c :: l) ++ (y ++ r)) : x <+: c :: l := by
  rcases List.prefix_or_prefix_of_prefix starts (List.prefix_append (c :: l) (y ++ r)) with inside | beyond
  · exact inside
  · obtain ⟨v,rfl⟩ := beyond
    have reach : v <+: y ++ r := (List.prefix_append_right_inj _).mp starts
    cases v with
    | nil => simp
    | cons d v =>
        have clash := free (d :: v) (List.suffix_append l (d :: v)) (by simp)
        rw [agree_prefixes reach (List.prefix_append y r)] at clash
        cases clash

omit [DecidableEq α] in
theorem suffix_of_tail (suffix : v <:+ x.tail) : v <:+ x := suffix.trans (List.tail_suffix x)

theorem prefix_inside (free : ∀ v, v <:+ x.tail → v ≠ [] → agree v y = false) :
    x.isPrefixOf ((c :: l) ++ (y ++ r)) = x.isPrefixOf (c :: l) := by
  rw [Bool.eq_iff_iff,List.isPrefixOf_iff_prefix,List.isPrefixOf_iff_prefix]
  exact ⟨stays_left free,fun inside => inside.trans (List.prefix_append _ _)⟩

theorem apart_free (free : apart x y = true) : ∀ v, v <:+ x.tail → v ≠ [] → agree v y = false :=
  fun _ suffix nonempty => meets_false (apart_parts free).1 (suffix_of_tail suffix) nonempty

theorem borderless_free (free : borderless x = true) : ∀ v, v <:+ x.tail → v ≠ [] → agree v x = false :=
  fun _ suffix nonempty => meets_false (borderless_parts free).2 suffix nonempty

theorem starts_nowhere (free : agree (c :: v) x = false) : x.isPrefixOf (c :: (v ++ r)) = false := by
  rw [Bool.eq_false_iff]
  intro starts
  have clash := agree_prefixes (List.prefix_append (c :: v) r) (List.isPrefixOf_iff_prefix.mp starts)
  rw [free] at clash
  cases clash

theorem skip_apart (free : ∀ v, v <:+ y → v ≠ [] → agree v x = false) :
    occurrences x (y ++ r) = occurrences x r := by
  induction y with
  | nil => rfl
  | cons c y ih =>
      have here : x.isPrefixOf (c :: (y ++ r)) = false :=
        starts_nowhere (free (c :: y) (List.suffix_refl _) (by simp))
      have rest := ih fun v suffix nonempty => free v (suffix.trans (List.suffix_cons c y)) nonempty
      simpa [occurrences,here] using rest

-- Where y overlaps no occurrence of x, the occurrences on its two sides add up.
theorem occurrences_around (free : ∀ v, v <:+ x.tail → v ≠ [] → agree v y = false) :
    occurrences x (l ++ (y ++ r)) = occurrences x l + occurrences x (y ++ r) := by
  induction l with
  | nil => simp [occurrences]
  | cons c l ih =>
      have here := prefix_inside (l := l) (c := c) (r := r) free
      simp only [List.cons_append] at here ⊢
      rw [occurrences,here,ih,occurrences,Nat.add_assoc]

theorem occurrences_apart (free : apart x y = true) :
    occurrences x (l ++ (y ++ r)) = occurrences x l + occurrences x r := by
  rw [occurrences_around (apart_free free),
    skip_apart fun v suffix nonempty => meets_false (apart_parts free).2 suffix nonempty]

theorem occurrences_own (free : borderless x = true) :
    occurrences x (l ++ (x ++ r)) = occurrences x l + 1 + occurrences x r := by
  rw [occurrences_around (borderless_free free),Nat.add_assoc]
  congr 1
  cases x with
  | nil => exact absurd rfl (borderless_parts free).1
  | cons a x =>
      have starts : (a :: x).isPrefixOf (a :: (x ++ r)) = true :=
        List.isPrefixOf_iff_prefix.mpr (List.prefix_append (a :: x) r)
      have rest : occurrences (a :: x) (x ++ r) = occurrences (a :: x) r := skip_apart (borderless_free free)
      rw [List.cons_append,occurrences,starts,rest]
      rfl

theorem occurs_iff (nonempty : x ≠ []) : occurrences x s ≠ 0 ↔ x <:+: s := by
  induction s with
  | nil => simp [occurrences,nonempty]
  | cons c s ih =>
      rw [List.infix_cons_iff,← ih,← List.isPrefixOf_iff_prefix,occurrences]
      cases x.isPrefixOf (c :: s) <;> simp

theorem contains_iff (nonempty : x ≠ []) : contains x s = true ↔ x <:+: s := by
  induction s with
  | nil => simp [contains,nonempty]
  | cons c s ih => rw [List.infix_cons_iff,← ih,← List.isPrefixOf_iff_prefix,contains,Bool.or_eq_true]

theorem contains_absent (nonempty : x ≠ []) (absent : contains x s = false) : ¬ x <:+: s := by
  rw [← contains_iff nonempty,absent]
  exact Bool.false_ne_true

theorem contains_false (nonempty : x ≠ []) : contains x s = false ↔ occurrences x s = 0 := by
  rw [← Bool.not_eq_true,contains_iff nonempty,← occurs_iff nonempty,not_not]

theorem countFrom_skip : ∀ skip (s : List α), countFrom x skip s = count x (s.drop skip)
  | 0,_ => rfl
  | skip + 1,[] => by simp [count,countFrom]
  | skip + 1,_ :: s => by rw [countFrom,countFrom_skip skip s,List.drop_succ_cons]

theorem count_cons : count x (c :: s) =
    if x.isPrefixOf (c :: s) then 1 + count x (s.drop (x.length - 1)) else count x s := by
  rw [count,countFrom,countFrom_skip]
  rfl

theorem prefix_split (nonempty : x ≠ []) (starts : x.isPrefixOf (c :: s) = true) :
    c :: s = x ++ s.drop (x.length - 1) := by
  obtain ⟨rest,whole⟩ := List.isPrefixOf_iff_prefix.mp starts
  cases x with
  | nil => exact absurd rfl nonempty
  | cons a x =>
      cases whole
      simp

-- str.count skips over each match; a borderless pattern loses none by it.
theorem count_borderless (free : borderless x = true) (s : List α) : count x s = occurrences x s := by
  match s with
  | [] => rfl
  | c :: s =>
    have nonempty := (borderless_parts free).1
    rw [count_cons]
    cases starts : x.isPrefixOf (c :: s) with
    | false => simp [occurrences,starts,count_borderless free s]
    | true =>
        have own := occurrences_own (l := []) (r := s.drop (x.length - 1)) free
        rw [List.nil_append,← prefix_split nonempty starts] at own
        simp [own,occurrences.eq_def x [],count_borderless free (s.drop (x.length - 1))]
termination_by s.length
decreasing_by all_goals simp only [List.length_cons,List.length_drop]; omega

theorem occurrences_drop (x : List α) : ∀ n (s : List α), occurrences x (s.drop n) ≤ occurrences x s
  | 0,_ => Nat.le_refl _
  | _ + 1,[] => Nat.le_refl _
  | n + 1,_ :: s => (occurrences_drop x n s).trans (Nat.le_add_left _ _)

theorem count_le (x s : List α) : count x s ≤ occurrences x s := by
  match s with
  | [] => exact Nat.le_refl _
  | c :: s =>
    rw [count_cons,occurrences]
    cases x.isPrefixOf (c :: s) with
    | false => simpa using count_le x s
    | true => exact Nat.add_le_add_left ((count_le x _).trans (occurrences_drop x _ s)) 1
termination_by s.length
decreasing_by all_goals simp only [List.length_cons,List.length_drop]; omega

theorem count_positive (nonempty : x ≠ []) (inside : x <:+: s) : 0 < count x s := by
  induction s with
  | nil => exact absurd (List.infix_nil.mp inside) nonempty
  | cons c s ih =>
      rw [count_cons]
      cases starts : x.isPrefixOf (c :: s) with
      | true => simp only [if_true]; omega
      | false =>
          rcases List.infix_cons_iff.mp inside with here | later
          · rw [List.isPrefixOf_iff_prefix.mpr here] at starts
            cases starts
          · simpa using ih later

theorem occurrences_longer (part : x <+: y) : occurrences y s ≤ occurrences x s := by
  induction s with
  | nil => exact Nat.le_refl _
  | cons c s ih =>
      apply Nat.add_le_add _ ih
      cases starts : y.isPrefixOf (c :: s) with
      | false => exact Nat.zero_le _
      | true =>
          rw [List.isPrefixOf_iff_prefix.mpr (part.trans (List.isPrefixOf_iff_prefix.mp starts))]

theorem skip_from : ∀ skip (s : List α), simultaneousFrom edits skip s = simultaneous edits (s.drop skip)
  | 0,_ => rfl
  | skip + 1,[] => by simp [simultaneous,simultaneousFrom]
  | skip + 1,_ :: s => by rw [simultaneousFrom,skip_from skip s,List.drop_succ_cons]

theorem simultaneous_match (found : edits.find? (fun edit => edit.anchor.isPrefixOf (c :: s)) = some edit) :
    simultaneous edits (c :: s) = edit.repl ++ simultaneous edits (s.drop (edit.anchor.length - 1)) := by
  rw [simultaneous,simultaneousFrom,found]
  exact congrArg (edit.repl ++ ·) (skip_from ..)

theorem simultaneous_copy (missed : edits.find? (fun edit => edit.anchor.isPrefixOf (c :: s)) = none) :
    simultaneous edits (c :: s) = c :: simultaneous edits s := by
  rw [simultaneous,simultaneousFrom,missed]
  rfl

-- The anchors overlap no other anchor and no other replacement.
def Clear (edit other : Edit α) : Prop :=
  apart edit.anchor other.anchor = true ∧ apart edit.anchor other.repl = true ∧ apart other.anchor edit.repl = true

instance : Std.Symm (@Clear α _) := ⟨fun _ _ ⟨anchors,left,right⟩ => ⟨apart_symm anchors,right,left⟩⟩

structure Separated (edits : List (Edit α)) : Prop where
  borderless : ∀ edit ∈ edits, borderless edit.anchor = true
  clear : edits.Pairwise Clear

theorem separated_tail (separated : Separated (edit :: edits)) : Separated edits :=
  ⟨fun other member => separated.borderless other (List.mem_cons_of_mem _ member),separated.clear.of_cons⟩

theorem simultaneous_skip (free : ∀ edit ∈ edits, ∀ v, v <:+ y → v ≠ [] → agree v edit.anchor = false) :
    simultaneous edits (y ++ r) = y ++ simultaneous edits r := by
  induction y with
  | nil => rfl
  | cons c y ih =>
      have missed : edits.find? (fun edit => edit.anchor.isPrefixOf (c :: (y ++ r))) = none := by
        rw [List.find?_eq_none]
        intro edit member
        rw [starts_nowhere (free edit member (c :: y) (List.suffix_refl _) (by simp))]
        simp
      have rest := ih fun edit member v suffix nonempty =>
        free edit member v (suffix.trans (List.suffix_cons c y)) nonempty
      rw [List.cons_append,simultaneous_copy missed,rest,List.cons_append]

theorem simultaneous_around (borders : ∀ edit ∈ edits, borderless edit.anchor = true)
    (free : ∀ edit ∈ edits, ∀ v, v <:+ edit.anchor.tail → v ≠ [] → agree v y = false) (l : List α) :
    simultaneous edits (l ++ (y ++ r)) = simultaneous edits l ++ simultaneous edits (y ++ r) := by
  match l with
  | [] => rfl
  | c :: l =>
    have same : edits.find? (fun edit => edit.anchor.isPrefixOf (c :: (l ++ (y ++ r)))) =
        edits.find? (fun edit => edit.anchor.isPrefixOf (c :: l)) :=
      List.find?_congr fun edit member => prefix_inside (free edit member)
    rw [List.cons_append]
    cases found : edits.find? (fun edit => edit.anchor.isPrefixOf (c :: l)) with
    | none =>
        rw [simultaneous_copy (same.trans found),simultaneous_copy found,simultaneous_around borders free l,
          List.cons_append]
    | some edit =>
        have starts := List.find?_some found
        have nonempty := (borderless_parts (borders edit (List.mem_of_find?_eq_some found))).1
        have inside : edit.anchor.length - 1 ≤ l.length := by
          have reach := (List.isPrefixOf_iff_prefix.mp starts).length_le
          simp only [List.length_cons] at reach
          omega
        rw [simultaneous_match (same.trans found),simultaneous_match found,List.drop_append_of_le_length inside,
          simultaneous_around borders free (l.drop (edit.anchor.length - 1)),List.append_assoc]
termination_by l.length
decreasing_by all_goals simp only [List.length_cons,List.length_drop]; omega

theorem simultaneous_apart (borders : ∀ edit ∈ edits, borderless edit.anchor = true)
    (free : ∀ edit ∈ edits, apart edit.anchor y = true) :
    simultaneous edits (l ++ (y ++ r)) = simultaneous edits l ++ (y ++ simultaneous edits r) := by
  rw [simultaneous_around borders fun edit member => apart_free (free edit member),
    simultaneous_skip fun edit member v suffix nonempty => meets_false (apart_parts (free edit member)).2 suffix nonempty]

theorem simultaneous_own (separated : Separated (edit :: edits)) :
    simultaneous (edit :: edits) (l ++ (edit.anchor ++ r)) =
      simultaneous (edit :: edits) l ++ (edit.repl ++ simultaneous (edit :: edits) r) := by
  have border := separated.borderless edit (List.mem_cons_self ..)
  have others := (List.pairwise_cons.mp separated.clear).1
  have free : ∀ other ∈ edit :: edits, ∀ v, v <:+ other.anchor.tail → v ≠ [] → agree v edit.anchor = false := by
    intro other member
    rcases List.mem_cons.mp member with rfl | later
    · exact borderless_free border
    · exact apart_free (apart_symm (others other later).1)
  rw [simultaneous_around separated.borderless free]
  congr 1
  cases anchored : edit.anchor with
  | nil => exact absurd anchored (borderless_parts border).1
  | cons a x =>
      have starts : edit.anchor.isPrefixOf (a :: (x ++ r)) = true := by
        rw [List.isPrefixOf_iff_prefix,anchored]
        exact List.prefix_append (a :: x) r
      have found : (edit :: edits).find? (fun edit => edit.anchor.isPrefixOf (a :: (x ++ r))) = some edit := by
        rw [List.find?_cons,starts]
      rw [List.cons_append,simultaneous_match found,anchored]
      simp

theorem simultaneous_absent (s : List α) (absent : occurrences edit.anchor s = 0) :
    simultaneous (edit :: edits) s = simultaneous edits s := by
  match s with
  | [] => rfl
  | c :: s =>
    rw [occurrences] at absent
    have here : edit.anchor.isPrefixOf (c :: s) = false := by
      cases starts : edit.anchor.isPrefixOf (c :: s) with
      | false => rfl
      | true => simp [starts] at absent
    have later : occurrences edit.anchor s = 0 := Nat.eq_zero_of_add_eq_zero_left absent
    have same : (edit :: edits).find? (fun edit => edit.anchor.isPrefixOf (c :: s)) =
        edits.find? (fun edit => edit.anchor.isPrefixOf (c :: s)) := by rw [List.find?_cons,here]
    cases found : edits.find? (fun edit => edit.anchor.isPrefixOf (c :: s)) with
    | none => rw [simultaneous_copy (same.trans found),simultaneous_copy found,simultaneous_absent s later]
    | some other =>
        have rest : occurrences edit.anchor (s.drop (other.anchor.length - 1)) = 0 :=
          Nat.eq_zero_of_le_zero ((occurrences_drop edit.anchor _ s).trans (Nat.le_of_eq later))
        rw [simultaneous_match (same.trans found),simultaneous_match found,simultaneous_absent _ rest]
termination_by s.length
decreasing_by all_goals simp only [List.length_cons,List.length_drop]; omega

theorem simultaneous_nil (s : List α) : simultaneous [] s = s := by
  induction s with
  | nil => rfl
  | cons c s ih => rw [simultaneous_copy rfl,ih]

theorem once_split (free : borderless x = true) (once : occurrences x s = 1) :
    ∃ l r, s = l ++ (x ++ r) ∧ occurrences x l = 0 ∧ occurrences x r = 0 := by
  have present : occurrences x s ≠ 0 := by omega
  obtain ⟨l,r,whole⟩ := (occurs_iff (borderless_parts free).1).mp present
  rw [List.append_assoc] at whole
  subst whole
  rw [occurrences_own free] at once
  exact ⟨l,r,rfl,by omega,by omega⟩

theorem replaceFirst_split (free : borderless x = true) (absent : occurrences x l = 0) :
    replaceFirst x y (l ++ (x ++ r)) = l ++ (y ++ r) := by
  induction l with
  | nil =>
      cases x with
      | nil => exact absurd rfl (borderless_parts free).1
      | cons a x =>
          have starts : (a :: x).isPrefixOf (a :: (x ++ r)) = true :=
            List.isPrefixOf_iff_prefix.mpr (List.prefix_append (a :: x) r)
          simp only [List.nil_append,List.cons_append,replaceFirst,starts]
          simp
  | cons c l ih =>
      rw [occurrences] at absent
      have here : x.isPrefixOf (c :: (l ++ (x ++ r))) = false := by
        have inside := prefix_inside (l := l) (c := c) (r := r) (borderless_free free)
        cases starts : x.isPrefixOf (c :: l) with
        | false => exact inside.trans starts
        | true => simp [starts] at absent
      have rest := ih (Nat.eq_zero_of_add_eq_zero_left absent)
      simp only [List.cons_append,replaceFirst,here,rest]
      rfl

-- One sequential step: what the first edit leaves for the others.
theorem replaced_first (separated : Separated (edit :: edits)) (once : occurrences edit.anchor s = 1) :
    simultaneous (edit :: edits) s = simultaneous edits (replaceFirst edit.anchor edit.repl s) := by
  have border := separated.borderless edit (List.mem_cons_self ..)
  obtain ⟨l,r,rfl,left,right⟩ := once_split border once
  rw [replaceFirst_split border left,simultaneous_own separated,simultaneous_absent l left,simultaneous_absent r right,
    simultaneous_apart (separated_tail separated).borderless fun other member =>
      ((List.pairwise_cons.mp separated.clear).1 other member).2.2]

theorem replaced_occurrences (border : borderless edit.anchor = true) (once : occurrences edit.anchor s = 1)
    (anchor : apart x edit.anchor = true) (repl : apart x edit.repl = true) :
    occurrences x (replaceFirst edit.anchor edit.repl s) = occurrences x s := by
  obtain ⟨l,r,rfl,left,right⟩ := once_split border once
  rw [replaceFirst_split border left,occurrences_apart anchor,occurrences_apart repl]

theorem replaced_once (separated : Separated (edit :: edits))
    (once : ∀ other ∈ edit :: edits, occurrences other.anchor s = 1) :
    ∀ other ∈ edits, occurrences other.anchor (replaceFirst edit.anchor edit.repl s) = 1 := by
  intro other member
  have clear := (List.pairwise_cons.mp separated.clear).1 other member
  rw [replaced_occurrences (separated.borderless edit (List.mem_cons_self ..)) (once edit (List.mem_cons_self ..))
    (apart_symm clear.1) clear.2.2]
  exact once other (List.mem_cons_of_mem _ member)

theorem simultaneous_occurrences (separated : Separated edits)
    (once : ∀ edit ∈ edits, occurrences edit.anchor s = 1)
    (free : ∀ edit ∈ edits, apart x edit.anchor = true ∧ apart x edit.repl = true) :
    occurrences x (simultaneous edits s) = occurrences x s := by
  induction edits generalizing s with
  | nil => rw [simultaneous_nil]
  | cons edit edits ih =>
      have first := once edit (List.mem_cons_self ..)
      have border := separated.borderless edit (List.mem_cons_self ..)
      have own := free edit (List.mem_cons_self ..)
      rw [replaced_first separated first,ih (separated_tail separated) (replaced_once separated once)
        (fun other member => free other (List.mem_cons_of_mem _ member))]
      exact replaced_occurrences border first own.1 own.2

theorem own_occurrences (separated : Separated (edit :: edits))
    (once : ∀ other ∈ edit :: edits, occurrences other.anchor s = 1)
    (free : ∀ edit ∈ edits, apart x edit.anchor = true ∧ apart x edit.repl = true) :
    ∃ l r, s = l ++ (edit.anchor ++ r) ∧ occurrences edit.anchor l = 0 ∧ occurrences edit.anchor r = 0 ∧
      occurrences x (simultaneous (edit :: edits) s) = occurrences x (l ++ (edit.repl ++ r)) := by
  have first := once edit (List.mem_cons_self ..)
  have border := separated.borderless edit (List.mem_cons_self ..)
  obtain ⟨l,r,whole,left,right⟩ := once_split border first
  refine ⟨l,r,whole,left,right,?_⟩
  rw [replaced_first separated first,
    simultaneous_occurrences (separated_tail separated) (replaced_once separated once) free,
    whole,replaceFirst_split border left]

theorem occurrences_part (free : borderless x = true) (part : l <:+: s) (absent : occurrences x s = 0) :
    occurrences x l = 0 := by
  apply Classical.byContradiction
  intro present
  have nonempty := (borderless_parts free).1
  exact (occurs_iff nonempty).mpr (((occurs_iff nonempty).mp present).trans part) absent

theorem simultaneous_all {P : α → Prop} (holds : ∀ edit ∈ edits, ∀ c ∈ edit.repl, P c) (s : List α) (all : ∀ c ∈ s, P c) :
    ∀ c ∈ simultaneous edits s, P c := by
  match s with
  | [] => exact all
  | c :: s =>
    have rest : ∀ d ∈ s, P d := fun d member => all d (List.mem_cons_of_mem c member)
    cases found : edits.find? (fun edit => edit.anchor.isPrefixOf (c :: s)) with
    | none =>
        rw [simultaneous_copy found]
        intro d member
        rcases List.mem_cons.mp member with rfl | later
        · exact all d (List.mem_cons_self ..)
        · exact simultaneous_all holds s rest d later
    | some edit =>
        rw [simultaneous_match found]
        intro d member
        rcases List.mem_append.mp member with own | later
        · exact holds edit (List.mem_of_find?_eq_some found) d own
        · exact simultaneous_all holds _ (fun d member => rest d (List.mem_of_mem_drop member)) d later
termination_by s.length
decreasing_by all_goals simp only [List.length_cons,List.length_drop]; omega

theorem simultaneous_append {more : List (Edit α)} (separated : Separated (edits ++ more))
    (once : ∀ edit ∈ edits, occurrences edit.anchor s = 1) :
    simultaneous (edits ++ more) s = simultaneous more (simultaneous edits s) := by
  induction edits generalizing s with
  | nil => rw [simultaneous_nil,List.nil_append]
  | cons edit edits ih =>
      have own : Separated (edit :: edits) :=
        ⟨fun other member => separated.borderless other (List.mem_append_left more member),
          (List.pairwise_append.mp separated.clear).1⟩
      have first := once edit (List.mem_cons_self ..)
      rw [List.cons_append] at separated ⊢
      rw [replaced_first separated first,replaced_first own first]
      exact ih (separated_tail separated) (replaced_once own once)

-- Anchors that are apart never start at one place, so their order is free.
theorem one_starts (separated : Separated edits) (left : edit ∈ edits) (right : other ∈ edits)
    (starts : edit.anchor.isPrefixOf s = true) (too : other.anchor.isPrefixOf s = true) : edit = other := by
  apply Classical.byContradiction
  intro different
  have clear := separated.clear.forall left right different
  have clash := meets_false (apart_parts clear.1).1 (List.suffix_refl _)
    (borderless_parts (separated.borderless edit left)).1
  rw [agree_prefixes (List.isPrefixOf_iff_prefix.mp starts) (List.isPrefixOf_iff_prefix.mp too)] at clash
  cases clash

theorem find_perm {others : List (Edit α)} (same : edits.Perm others) (separated : Separated edits) (s : List α) :
    edits.find? (fun edit => edit.anchor.isPrefixOf s) = others.find? (fun edit => edit.anchor.isPrefixOf s) := by
  cases found : others.find? (fun edit => edit.anchor.isPrefixOf s) with
  | none =>
      rw [List.find?_eq_none] at found ⊢
      exact fun edit member => found edit (same.mem_iff.mp member)
  | some edit =>
      have member := same.mem_iff.mpr (List.mem_of_find?_eq_some found)
      cases here : edits.find? (fun edit => edit.anchor.isPrefixOf s) with
      | none => exact absurd (List.find?_some found) (List.find?_eq_none.mp here edit member)
      | some other =>
          have starts := List.find?_some here
          have too := List.find?_some found
          rw [one_starts separated (List.mem_of_find?_eq_some here) member starts too]

theorem simultaneous_perm {others : List (Edit α)} (same : edits.Perm others) (separated : Separated edits)
    (s : List α) : simultaneous edits s = simultaneous others s := by
  match s with
  | [] => rfl
  | c :: s =>
    have both := find_perm same separated (c :: s)
    cases found : others.find? (fun edit => edit.anchor.isPrefixOf (c :: s)) with
    | none => rw [simultaneous_copy (both.trans found),simultaneous_copy found,simultaneous_perm same separated s]
    | some edit =>
        rw [simultaneous_match (both.trans found),simultaneous_match found,
          simultaneous_perm same separated (s.drop (edit.anchor.length - 1))]
termination_by s.length
decreasing_by all_goals simp only [List.length_cons,List.length_drop]; omega

end OneSpark.TextEdits
