import OneSpark.Grids

namespace OneSpark.Fp8Codes
open Grids

-- A finite float8_e4m3fn: sign, exponent and mantissa; the all-ones code is the NaN.
structure Fp8 where
  negative : Bool
  exponent : Fin 16
  mantissa : Fin 8
  finite : ¬ (exponent = 15 ∧ mantissa = 7)
  deriving DecidableEq

def zero : Fp8 := ⟨false,0,0,by decide⟩
def tiny : Fp8 := ⟨false,0,1,by decide⟩
def lowest : Fp8 := ⟨true,15,6,by decide⟩

-- m * 2^-9 below the first exponent, (1 + m / 8) * 2^(e - 7) from it on.
def magnitude (exponent mantissa : Nat) : ℚ :=
  if exponent = 0 then mantissa / 512 else (8 + mantissa) * 2 ^ exponent / 1024

def Fp8.value (code : Fp8) : ℚ :=
  if code.negative then -magnitude code.exponent code.mantissa else magnitude code.exponent code.mantissa

def magnitudes : List ℚ := (List.range 127).map fun i => magnitude (i / 8) (i % 8)

theorem magnitude_nonneg (exponent mantissa : Nat) : 0 ≤ magnitude exponent mantissa := by
  unfold magnitude
  split <;> positivity

theorem Fp8.abs_value (code : Fp8) : |code.value| = magnitude code.exponent code.mantissa := by
  unfold Fp8.value
  split
  · rw [abs_neg,abs_of_nonneg (magnitude_nonneg _ _)]
  · rw [abs_of_nonneg (magnitude_nonneg _ _)]

theorem Fp8.value_bound (code : Fp8) : |code.value| ≤ 448 := by
  have all : ∀ (exponent : Fin 16) (mantissa : Fin 8), ¬ (exponent = 15 ∧ mantissa = 7) →
      magnitude exponent mantissa ≤ 448 := by decide +kernel
  rw [code.abs_value]
  exact all _ _ code.finite

theorem magnitude_coded (negative : Bool) (member : size ∈ magnitudes) :
    ∃ code : Fp8, code.value = if negative then -size else size := by
  obtain ⟨i,inside,rfl⟩ := List.mem_map.mp member
  have bound := List.mem_range.mp inside
  refine ⟨⟨negative,⟨i / 8,by omega⟩,⟨i % 8,by omega⟩,?_⟩,rfl⟩
  rintro ⟨top,ones⟩
  have exponent : i / 8 = 15 := congrArg Fin.val top
  have mantissa : i % 8 = 7 := congrArg Fin.val ones
  omega

-- Half of the gap above a magnitude: a sixteenth of it, or half of a subnormal step.
def half (size : ℚ) : ℚ := max (size / 16) (1 / 1024)

theorem half_grows (le : a ≤ b) : half a ≤ half b := max_le_max (by linarith) (le_refl _)

theorem half_positive (size : ℚ) : 0 ≤ half size := le_max_of_le_right (by norm_num)

theorem magnitude_gaps : magnitudes.IsChain fun a b => a ≤ b ∧ b - a ≤ 2 * half a := by decide +kernel

theorem magnitude_near (size : ℚ) (positive : 0 ≤ size) (bound : size ≤ 448) :
    ∃ near ∈ magnitudes, |size - near| ≤ half size :=
  grid_within half magnitudes magnitude_gaps size 0 448 (by decide +kernel) (by decide +kernel) positive bound
    (half_positive size) fun _ below _ => half_grows below

-- A conversion to the nearest finite code, whatever it does with ties.
def RoundsToNearest (toFp8 : ℚ → Fp8) : Prop := ∀ x (code : Fp8), |x - (toFp8 x).value| ≤ |x - code.value|

theorem rounding_error (toFp8 : ℚ → Fp8) (nearest : RoundsToNearest toFp8) (x : ℚ) (bound : |x| ≤ 448) :
    |x - (toFp8 x).value| ≤ half |x| := by
  obtain ⟨near,member,close⟩ := magnitude_near |x| (abs_nonneg x) bound
  rcases le_total 0 x with positive | negative
  · obtain ⟨code,value⟩ := magnitude_coded false member
    have step := nearest x code
    rw [value] at step
    rw [abs_of_nonneg positive] at close ⊢
    exact le_trans step close
  · obtain ⟨code,value⟩ := magnitude_coded true member
    have step := nearest x code
    have mirrored : |x - -near| = |-x - near| := by
      rw [← abs_neg]
      congr 1
      ring
    rw [value,if_pos rfl,mirrored] at step
    rw [abs_of_nonpos negative] at close ⊢
    exact le_trans step close

theorem zero_rounds (toFp8 : ℚ → Fp8) (nearest : RoundsToNearest toFp8) : (toFp8 0).value = 0 := by
  have step := nearest 0 zero
  have value : zero.value = 0 := by decide +kernel
  rw [value,sub_zero,abs_zero,zero_sub,abs_neg] at step
  exact abs_nonpos_iff.mp step

def codes : List Fp8 :=
  [false,true].flatMap fun negative => (List.finRange 16).flatMap fun exponent => (List.finRange 8).filterMap fun mantissa =>
    if finite : ¬ (exponent = 15 ∧ mantissa = 7) then some ⟨negative,exponent,mantissa,finite⟩ else none

theorem codes_all (code : Fp8) : code ∈ codes := by
  obtain ⟨negative,exponent,mantissa,finite⟩ := code
  refine List.mem_flatMap.mpr ⟨negative,by cases negative <;> simp,?_⟩
  refine List.mem_flatMap.mpr ⟨exponent,List.mem_finRange _,?_⟩
  exact List.mem_filterMap.mpr ⟨mantissa,List.mem_finRange _,dif_pos finite⟩

def distance (x : ℚ) (code : Fp8) : ℚ := |x - code.value|

def nearestFp8 (x : ℚ) : Fp8 := (codes.argmin (distance x)).getD ⟨false,0,0,by decide⟩

theorem nearestFp8_rounds : RoundsToNearest nearestFp8 := by
  intro x code
  have member := codes_all code
  unfold nearestFp8
  generalize codes = all at member
  cases found : all.argmin (distance x) with
  | none =>
      rw [List.argmin_eq_none.mp found] at member
      cases member
  | some best =>
      rw [Option.getD_some]
      exact List.le_of_mem_argmin (f := distance x) member (Option.mem_def.mpr found)

end OneSpark.Fp8Codes
