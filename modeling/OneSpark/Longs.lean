import OneSpark.Tensors

namespace OneSpark.Longs

-- Elements of torch.int64 tensors: sums and products wrap, comparisons are signed.
abbrev Long := BitVec 64

-- A Python int as an int64 element; `none` is the overflow error.
def long (n : Int) : Option Long :=
  if -2 ^ 63 ≤ n ∧ n < 2 ^ 63 then some (BitVec.ofInt 64 n) else none

def longs (values : List Nat) : Option (List Long) := values.mapM fun (value : Nat) => long value

-- torch.tensor(values): an empty list makes a float tensor, which no index accepts.
def inferred (values : List Nat) : Option (List Long) := if values = [] then none else longs values

-- torch.arange(lo, hi); only the bounds can overflow.
def arange (lo hi : Nat) : Option (List Long) := do
  let _ ← long hi
  return (List.range' lo (hi - lo)).map (BitVec.ofNat 64)

-- torch.remainder takes the sign of the divisor.
def remainder (a b : Long) : Option Long :=
  if b = 0 then none else some (BitVec.ofInt 64 (a.toInt.fmod b.toInt))

-- torch.bucketize(value, boundaries, right=True) on sorted boundaries.
def bucketizeRight (boundaries : List Long) (value : Long) : Nat :=
  (boundaries.takeWhile fun boundary => decide (boundary.toInt ≤ value.toInt)).length

-- x[mask] for a boolean mask of the same length.
def compress (mask : List Bool) (values : List α) : List α :=
  ((mask.zip values).filter (·.1)).map Prod.snd

theorem long_exact (n : Int) (value : Long) : long n = some value ↔ value.toInt = n := by
  have bounds := BitVec.toInt_lt (x := value)
  have below := BitVec.le_toInt value
  unfold long
  split
  · rename_i fits
    rw [Option.some_inj]
    constructor
    · intro same
      rw [← same,BitVec.toInt_ofInt,Int.bmod_eq_of_le] <;> omega
    · intro same
      rw [← same,BitVec.ofInt_toInt]
  · rename_i outside
    simp only [reduceCtorEq,false_iff]
    intro same
    omega

theorem long_fits (n : Nat) (fits : n < 2 ^ 63) : long n = some (BitVec.ofNat 64 n) := by
  unfold long
  rw [if_pos (by omega),BitVec.ofInt_natCast]

theorem long_of_nat (n : Nat) : (long n).isSome ↔ n < 2 ^ 63 := by
  unfold long
  split <;> simp <;> omega

theorem toInt_ofNat (n : Nat) (fits : n < 2 ^ 63) : (BitVec.ofNat 64 n : Long).toInt = n :=
  (long_exact n _).mp (long_fits n fits)

theorem longs_fit (values : List Nat) (fit : ∀ value ∈ values, value < 2 ^ 63) :
    longs values = some (values.map (BitVec.ofNat 64)) :=
  Tensors.mapM_found _ _ values fun value member => long_fits value (fit value member)

theorem longs_parts (values : List Nat) (tensor : List Long) (made : longs values = some tensor) :
    tensor = values.map (BitVec.ofNat 64) ∧ ∀ value ∈ values, value < 2 ^ 63 := by
  induction values generalizing tensor with
  | nil => cases made; simp
  | cons value rest ih =>
      unfold longs at made
      rw [List.mapM_cons] at made
      simp only [Option.bind_eq_bind,Option.bind_eq_some_iff,Option.pure_def,Option.some_inj] at made
      obtain ⟨first,here,later,there,rfl⟩ := made
      have small := (long_of_nat value).mp (by simp [here])
      obtain ⟨rfl,fit⟩ := ih later there
      rw [long_fits value small] at here
      cases here
      exact ⟨rfl,by simpa using ⟨small,fit⟩⟩

theorem inferred_parts (values : List Nat) (tensor : List Long) (made : inferred values = some tensor) :
    values ≠ [] ∧ tensor = values.map (BitVec.ofNat 64) ∧ ∀ value ∈ values, value < 2 ^ 63 := by
  unfold inferred at made
  split at made
  · cases made
  · rename_i filled
    exact ⟨filled,longs_parts values tensor made⟩

theorem inferred_fit (values : List Nat) (filled : values ≠ []) (fit : ∀ value ∈ values, value < 2 ^ 63) :
    inferred values = some (values.map (BitVec.ofNat 64)) := by
  unfold inferred
  rw [if_neg filled,longs_fit values fit]

theorem arange_exact (lo hi : Nat) (fits : hi < 2 ^ 63) :
    arange lo hi = some ((List.range' lo (hi - lo)).map (BitVec.ofNat 64)) := by
  simp [arange,long_fits hi fits]

theorem arange_parts (lo hi : Nat) (tensor : List Long) (made : arange lo hi = some tensor) :
    hi < 2 ^ 63 := by
  unfold arange at made
  rw [← long_of_nat]
  cases known : long hi with
  | none => simp [known] at made
  | some _ => rfl

theorem bucketizeRight_exact (boundaries : List Nat) (value : Nat)
    (fit : ∀ boundary ∈ boundaries, boundary < 2 ^ 63) (fits : value < 2 ^ 63) :
    bucketizeRight (boundaries.map (BitVec.ofNat 64)) (BitVec.ofNat 64 value) =
      (boundaries.takeWhile fun boundary => decide (boundary ≤ value)).length := by
  induction boundaries with
  | nil => rfl
  | cons boundary rest ih =>
      have first := fit boundary (by simp)
      have tail := ih fun later member => fit later (List.mem_cons_of_mem _ member)
      unfold bucketizeRight at tail ⊢
      rw [toInt_ofNat value fits] at tail ⊢
      by_cases reached : boundary ≤ value
      · simp [toInt_ofNat boundary first,reached,tail]
      · simp [toInt_ofNat boundary first,reached]

theorem add_exact (a b : Long) (low : -2 ^ 63 ≤ a.toInt + b.toInt) (high : a.toInt + b.toInt < 2 ^ 63) :
    (a + b).toInt = a.toInt + b.toInt := by
  rw [BitVec.toInt_add,Int.bmod_eq_of_le] <;> omega

theorem remainder_bounds (a b : Long) (positive : 0 < b.toInt) :
    ∃ r, remainder a b = some r ∧ r.toInt = a.toInt.fmod b.toInt ∧ 0 ≤ r.toInt ∧ r.toInt < b.toInt := by
  have nonzero : b ≠ 0 := by
    intro zero
    rw [zero] at positive
    exact absurd positive (by decide)
  have low := Int.fmod_nonneg_of_pos a.toInt positive
  have high := Int.fmod_lt_of_pos a.toInt positive
  have bound := BitVec.toInt_lt (x := b)
  have value : (BitVec.ofInt 64 (a.toInt.fmod b.toInt)).toInt = a.toInt.fmod b.toInt := by
    rw [BitVec.toInt_ofInt,Int.bmod_eq_of_le] <;> omega
  exact ⟨_,if_neg nonzero,value,by omega,by omega⟩

theorem compress_map (test : α → Bool) (values : List α) (f : α → β) :
    compress (values.map test) (values.map f) = (values.filter test).map f := by
  induction values with
  | nil => rfl
  | cons value rest ih =>
      unfold compress at ih ⊢
      cases known : test value <;> simp [known,ih]

-- Signed integers of a kernel wrap, and wrapping a whole sum or product once is wrapping at every step.
@[irreducible] def wrapped (bits : Nat) (n : Int) : Int := n.bmod (2 ^ bits)

def int32 (n : Int) : Int := wrapped 32 n

-- An address the arithmetic of this width holds.
theorem wrapped_small (bits : Nat) (wide : 0 < bits) (n : Nat) (small : n < 2 ^ (bits - 1)) : wrapped bits n = n := by
  obtain ⟨less,rfl⟩ := Nat.exists_eq_succ_of_ne_zero (ne_of_gt wide)
  rw [Nat.succ_sub_one] at small
  have size : ((2 ^ less.succ : Nat) : Int) = ((2 ^ less : Nat) : Int) * 2 := by rw [Nat.pow_succ,Nat.cast_mul]; rfl
  rw [wrapped]
  exact Int.bmod_eq_of_le_mul_two (by omega) (by omega)

theorem int32_small (n : Nat) (small : n < 2 ^ 31) : int32 n = n := wrapped_small 32 (by decide) n small

theorem int32_negative (n : Nat) (above : 2 ^ 31 ≤ n) (below : n < 2 ^ 32) : int32 n < 0 := by
  unfold int32 wrapped Int.bmod
  rw [Int.emod_eq_of_lt (by omega) (by omega),if_neg (by omega)]
  omega

theorem int32_sub (n m : Int) : int32 (int32 n - int32 m) = int32 (n - m) := by
  simp only [int32,wrapped,Int.bmod_sub_bmod,Int.sub_bmod_bmod]

theorem int32_mul_add (n m rest : Int) : int32 (int32 n * m + rest) = int32 (n * m + rest) := by
  simp only [int32,wrapped]
  rw [← Int.bmod_add_bmod,Int.bmod_mul_bmod,Int.bmod_add_bmod]

theorem int32_below (n : Int) : int32 n < 2 ^ 31 := by
  rw [int32,wrapped]
  exact Int.bmod_lt (by decide)

theorem int32_exact (n address : Nat) (below : n < 2 ^ 32) (same : int32 n = address) : n = address := by
  by_cases small : n < 2 ^ 31
  · rw [int32_small n small] at same
    exact Int.ofNat_inj.mp same
  · have negative := int32_negative n (by omega) below
    omega

end OneSpark.Longs
