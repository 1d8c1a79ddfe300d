import OneSpark.Nvfp4Rows
import OneSpark.Fp8Codes

namespace OneSpark.GroupScales
open Grids Fp8Codes RowChunks Nvfp4Rows

-- What an entry of the given size comes back as, up to its sign, in a group of the given largest
-- magnitude whose scale is stored as given.
def cellSize (most size stored : ℚ) : ℚ := (mags[bucketize nvfp4GetMids (size / (most / 6))]?).getD 0 * stored

def cellError (most size stored : ℚ) : ℚ := |cellSize most size stored - size|

-- Largest magnitudes whose sixth no stored scale follows closely enough for themselves.
def lostMost : List ℚ := [1 / 512,2 / 512,3 / 512,4 / 512,9 / 512]

-- Sizes that are lost beside a largest magnitude that is not. 5 / 1024 lies halfway between two
-- stored scales; `tie` is the one it goes to.
def lostBeside (tie most : ℚ) : List ℚ :=
  if most = 10 / 512 then [9 / 512]
  else if most = 15 / 512 then if tie = 2 / 512 then [12 / 512] else [13 / 512,14 / 512]
  else []

def Kept (tie : ℚ) (x : Nat → ℚ) : Prop :=
  absMax 16 x ∉ lostMost ∧ ∀ place < 16, |x place| ∉ lostBeside tie (absMax 16 x)

section
variable (most size stored : ℚ)

theorem cell_reads : ∃ m, Lowest mags (size / (most / 6)) m ∧ cellSize most size stored = m * stored := by
  obtain ⟨m,found,lowest⟩ := bucketize_lowest mags mags_sorted (List.cons_ne_nil _ _) (size / (most / 6))
  rw [← mids_exact] at found
  exact ⟨m,lowest,by rw [cellSize,found,Option.getD_some]⟩

theorem mags_near (q : ℚ) (positive : 0 ≤ q) (bound : q ≤ 6) (m : ℚ) (nearest : Nearest mags q m) :
    |m - q| ≤ 1 ∧ 0 ≤ m ∧ m ≤ 6 := by
  obtain ⟨near,member,close⟩ := grid_within (fun _ => 1) mags (by decide +kernel) q 0 6 rfl rfl positive bound zero_le_one
    fun _ _ _ => le_refl _
  have range : ∀ m ∈ mags, 0 ≤ m ∧ m ≤ 6 := by decide +kernel
  rw [abs_sub_comm]
  exact ⟨le_trans (nearest.closest near member) close,range m nearest.member⟩

-- A scale stored within a twelfth of itself keeps every entry within a quarter of the largest.
theorem cell_within (some : 0 < most) (positive : 0 ≤ size) (bound : size ≤ most) (close : |most / 6 - stored| ≤ most / 72) :
    cellError most size stored ≤ most / 4 := by
  have scale : 0 < most / 6 := by linarith
  obtain ⟨m,lowest,value⟩ := cell_reads most size stored
  obtain ⟨near,low,high⟩ := mags_near (size / (most / 6)) (div_nonneg positive (le_of_lt scale))
    ((div_le_iff₀ scale).mpr (by linarith)) m lowest.toNearest
  have whole : size / (most / 6) * (most / 6) = size := div_mul_cancel₀ _ (ne_of_gt scale)
  have parts : m * stored - size = (m - size / (most / 6)) * (most / 6) - m * (most / 6 - stored) := by
    rw [sub_mul,whole]
    ring
  have coded : |(m - size / (most / 6)) * (most / 6)| ≤ 1 * (most / 6) := by
    rw [abs_mul,abs_of_pos scale]
    exact mul_le_mul_of_nonneg_right near (le_of_lt scale)
  have rounded : |m * (most / 6 - stored)| ≤ 6 * (most / 72) := by
    rw [abs_mul,abs_of_nonneg low]
    exact mul_le_mul high close (abs_nonneg _) (by norm_num)
  calc cellError most size stored
      = |(m - size / (most / 6)) * (most / 6) - m * (most / 6 - stored)| := by rw [cellError,value,parts]
    _ ≤ |(m - size / (most / 6)) * (most / 6)| + |m * (most / 6 - stored)| := abs_sub _ _
    _ ≤ 1 * (most / 6) + 6 * (most / 72) := add_le_add coded rounded
    _ = most / 4 := by ring

end

-- The stored scale's step is fine enough from 36 / 512 on.
theorem stored_close (toFp8 : ℚ → Fp8) (nearest : RoundsToNearest toFp8) (most : ℚ) (large : 36 / 512 ≤ most)
    (bound : most ≤ 448) :
    |most / 6 - (toFp8 (most / 6)).value| ≤ most / 72 := by
  have positive : |most / 6| = most / 6 := abs_of_nonneg (by linarith)
  have error := rounding_error toFp8 nearest (most / 6) (by rw [positive]; linarith)
  rw [positive] at error
  refine le_trans error (max_le ?_ ?_)
  · linarith
  · linarith

-- Below it a scale is stored as a multiple of 2^-9 under 8 * 2^-9.
def subnormals : List ℚ := (List.range 8).map fun m => (m : ℚ) / 512

def smallSizes : List ℚ := magnitudes.take 25

def NearestSubnormal (x stored : ℚ) : Prop := ∀ other ∈ subnormals, |x - stored| ≤ |x - other|

instance (x stored : ℚ) : Decidable (NearestSubnormal x stored) := inferInstanceAs (Decidable (∀ other ∈ subnormals, _))

theorem small_lost : ∀ most ∈ lostMost, ∀ stored ∈ subnormals, NearestSubnormal (most / 6) stored →
    ¬ cellError most most stored ≤ most / 4 := by decide +kernel

theorem small_kept : ∀ most ∈ smallSizes, 0 < most → most ∉ lostMost → ∀ stored ∈ subnormals,
    NearestSubnormal (most / 6) stored → ∀ size ∈ smallSizes, size ≤ most →
      (cellError most size stored ≤ most / 4 ↔ size ∉ lostBeside stored most) := by decide +kernel

theorem size_small (code : Fp8) (small : |code.value| < 36 / 512) : |code.value| ∈ smallSizes := by
  have all : ∀ (exponent : Fin 16) (mantissa : Fin 8), magnitude exponent mantissa < 36 / 512 →
      magnitude exponent mantissa ∈ smallSizes := by decide +kernel
  rw [code.abs_value] at small ⊢
  exact all _ _ small

theorem subnormal_coded (other : ℚ) (member : other ∈ subnormals) : ∃ code : Fp8, code.value = other := by
  have listed : ∀ other ∈ subnormals, other ∈ magnitudes := by decide +kernel
  exact magnitude_coded false (listed other member)

theorem stored_subnormal (toFp8 : ℚ → Fp8) (nearest : RoundsToNearest toFp8) (x : ℚ) (positive : 0 ≤ x) (small : x < 6 / 512) :
    (toFp8 x).value ∈ subnormals ∧ NearestSubnormal x (toFp8 x).value := by
  have closest : NearestSubnormal x (toFp8 x).value := by
    intro other member
    obtain ⟨code,rfl⟩ := subnormal_coded other member
    exact nearest x code
  refine ⟨?_,closest⟩
  have parts : ∀ (exponent : Fin 16) (mantissa : Fin 8),
      magnitude exponent mantissa ∈ subnormals ∨ 8 / 512 ≤ magnitude exponent mantissa := by decide +kernel
  have low := closest 0 (by decide +kernel)
  have high := closest (6 / 512) (by decide +kernel)
  rw [sub_zero,abs_of_nonneg positive] at low
  rw [abs_of_neg (by linarith : x - 6 / 512 < 0)] at high
  have size := (toFp8 x).abs_value
  rcases le_total 0 (toFp8 x).value with plus | minus
  · rw [abs_of_nonneg plus] at size
    rw [size] at high ⊢
    rcases parts (toFp8 x).exponent (toFp8 x).mantissa with listed | large
    · exact listed
    · have far := neg_le_abs (x - magnitude (toFp8 x).exponent (toFp8 x).mantissa)
      linarith
  · have zero : (toFp8 x).value = 0 := by
      have far := le_abs_self (x - (toFp8 x).value)
      linarith
    rw [zero]
    decide +kernel

-- Of the two stored scales around 5 / 1024 only the group's own one can beside it.
theorem beside_tie (toFp8 : ℚ → Fp8) (most : ℚ) :
    lostBeside (toFp8 (most / 6)).value most = lostBeside (toFp8 (5 / 1024)).value most := by
  unfold lostBeside
  split
  · rfl
  · split
    · rename_i fifteen
      rw [fifteen,show (15 : ℚ) / 512 / 6 = 5 / 1024 by norm_num]
    · rfl

theorem kept_large (tie : ℚ) (x : Nat → ℚ) (large : 36 / 512 ≤ absMax 16 x) : Kept tie x := by
  have small : ∀ most ∈ lostMost, most < 36 / 512 := by decide +kernel
  refine ⟨fun lost => absurd large (not_le.mpr (small _ lost)),?_⟩
  intro place _
  rw [lostBeside,if_neg (by intro same; norm_num [same] at large),if_neg (by intro same; norm_num [same] at large)]
  exact List.not_mem_nil

theorem kept_zero (tie : ℚ) (x : Nat → ℚ) (zero : absMax 16 x = 0) : Kept tie x := by
  rw [Kept,zero,lostBeside,if_neg (by norm_num),if_neg (by norm_num)]
  exact ⟨by decide +kernel,fun _ _ => List.not_mem_nil⟩

-- Of two equally near codes the one with the even mantissa.
def TiesToEven (toFp8 : ℚ → Fp8) : Prop :=
  ∀ x (code : Fp8), |x - code.value| = |x - (toFp8 x).value| → code.value ≠ (toFp8 x).value → (toFp8 x).mantissa.val % 2 = 0

theorem even_tie (toFp8 : ℚ → Fp8) (nearest : RoundsToNearest toFp8) (even : TiesToEven toFp8) :
    (toFp8 (5 / 1024)).value = 2 / 512 := by
  obtain ⟨stored,closest⟩ := stored_subnormal toFp8 nearest (5 / 1024) (by norm_num) (by norm_num)
  have two : ∀ stored ∈ subnormals, NearestSubnormal (5 / 1024) stored → stored = 2 / 512 ∨ stored = 3 / 512 := by
    decide +kernel
  rcases two _ stored closest with low | high
  · exact low
  · obtain ⟨code,value⟩ := subnormal_coded (2 / 512) (by decide +kernel)
    have mantissa := even (5 / 1024) code (by rw [value,high]; norm_num) (by rw [value,high]; norm_num)
    have odd : ∀ (exponent : Fin 16) (mantissa : Fin 8), magnitude exponent mantissa = 3 / 512 → mantissa.val % 2 = 1 := by
      decide +kernel
    have size := (toFp8 (5 / 1024)).abs_value
    rw [high,abs_of_pos (by norm_num)] at size
    have contrary := odd _ _ size.symm
    omega

def groupValues (code : Nat → Fp8) (place : Nat) : ℚ := (code place).value

theorem group_bound (code : Nat → Fp8) : absMax 16 (groupValues code) ≤ 448 := by
  obtain ⟨top,_,most⟩ := (absMax_greatest 16 (groupValues code) (by decide)).1
  rw [most]
  exact (code top).value_bound

theorem cells_kept (toFp8 : ℚ → Fp8) (nearest : RoundsToNearest toFp8) (code : Nat → Fp8)
    (some : 0 < absMax 16 (groupValues code)) :
    (∀ place < 16, cellError (absMax 16 (groupValues code)) |groupValues code place|
      (toFp8 (absMax 16 (groupValues code) / 6)).value ≤ absMax 16 (groupValues code) / 4) ↔
      Kept (toFp8 (5 / 1024)).value (groupValues code) := by
  have below := le_absMax 16 (groupValues code)
  have bound := group_bound code
  have kept_large := kept_large (toFp8 (5 / 1024)).value (groupValues code)
  have beside := beside_tie toFp8 (absMax 16 (groupValues code))
  obtain ⟨top,inside,most⟩ := (absMax_greatest 16 (groupValues code) (by decide)).1
  have listed : absMax 16 (groupValues code) < 36 / 512 → absMax 16 (groupValues code) ∈ smallSizes := by
    intro small
    rw [most] at small ⊢
    exact size_small (code top) small
  unfold Kept at kept_large ⊢
  generalize absMax 16 (groupValues code) = largest at *
  by_cases large : 36 / 512 ≤ largest
  · refine iff_of_true ?_ (kept_large large)
    intro place within
    exact cell_within largest _ _ some (abs_nonneg _) (below place within) (stored_close toFp8 nearest largest large bound)
  · have small := not_le.mp large
    obtain ⟨stored,closest⟩ := stored_subnormal toFp8 nearest (largest / 6) (by linarith) (by linarith)
    by_cases lost : largest ∈ lostMost
    · refine iff_of_false ?_ fun kept => kept.1 lost
      intro within
      have far := small_lost largest lost _ stored closest
      have near := within top inside
      rw [← most] at near
      exact far near
    · rw [and_iff_right lost,← beside]
      refine forall₂_congr fun place within => ?_
      have less := below place within
      exact small_kept largest (listed small) some lost _ stored closest _
        (size_small (code place) (lt_of_le_of_lt less small)) less

theorem lowest_unique (grid : List ℚ) (x a b : ℚ) (left : Lowest grid x a) (right : Lowest grid x b) : a = b := by
  have same : |x - a| = |x - b| := le_antisymm (left.closest b right.member) (right.closest a left.member)
  exact le_antisymm (left.lower b right.member same.symm) (right.lower a left.member same)

def groupAt (row : Nat → ℚ) (group place : Nat) : ℚ := row (group * 16 + place)

section
variable (round : ℚ → ℚ) (row : Nat → ℚ) (group place : Nat)

theorem restored_cell (inside : place < 16) (some : 0 < absMax 16 (groupAt row group)) :
    |restored round row (group * 16 + place) - groupAt row group place| =
      cellError (absMax 16 (groupAt row group)) |groupAt row group place| (round (absMax 16 (groupAt row group) / 6)) := by
  have scale : scaleAt row ((group * 16 + place) / 16) = absMax 16 (groupAt row group) / 6 := by
    rw [show (group * 16 + place) / 16 = group by omega,scaleAt,groupScale]
    exact if_pos some
  obtain ⟨m,lowest,value⟩ := restored_exact round row (group * 16 + place)
  obtain ⟨m',lowest',size⟩ := cell_reads (absMax 16 (groupAt row group)) |groupAt row group place|
    (round (absMax 16 (groupAt row group) / 6))
  rw [scale] at lowest value
  rw [cellError,value,size,lowest_unique mags _ m' m lowest' lowest]
  change |SignType.sign (groupAt row group place) * m * _ - _| = _
  change Lowest mags (|groupAt row group place| / _) m at lowest
  rcases lt_trichotomy (groupAt row group place) 0 with negative | zero | positive
  · rw [sign_neg negative,abs_of_neg negative,← abs_neg]
    congr 1
    simp
    ring
  · have none : m = 0 := zero_lowest m (by rwa [zero,abs_zero,zero_div] at lowest)
    rw [zero,none]
    simp
  · rw [sign_pos positive,abs_of_pos positive]
    simp

theorem restored_zero (zero : row (group * 16 + place) = 0) : restored round row (group * 16 + place) = 0 := by
  obtain ⟨m,_,value⟩ := restored_exact round row (group * 16 + place)
  rw [value,zero,sign_zero]
  simp

end

theorem entry_zero (x : Nat → ℚ) (zero : absMax 16 x = 0) (place : Nat) (inside : place < 16) : x place = 0 :=
  abs_nonpos_iff.mp (zero ▸ le_absMax 16 x place inside)

def tableAt (e : Nat → Nat → Fp8) (i j : Nat) : ℚ := (e i j).value

-- A group comes back within a quarter of its largest magnitude exactly when the stored scale serves it.
theorem group_kept (toFp8 : ℚ → Fp8) (nearest : RoundsToNearest toFp8) (e : Nat → Nat → Fp8) (i group : Nat) :
    (∀ place < 16, |restored (fun x => (toFp8 x).value) (tableAt e i) (group * 16 + place) - groupAt (tableAt e i) group place| ≤
      absMax 16 (groupAt (tableAt e i) group) / 4) ↔ Kept (toFp8 (5 / 1024)).value (groupAt (tableAt e i) group) := by
  rcases (absMax_nonneg 16 (groupAt (tableAt e i) group)).eq_or_lt with zero | some
  · refine iff_of_true ?_ (kept_zero _ _ zero.symm)
    intro place inside
    have entry := entry_zero _ zero.symm place inside
    rw [restored_zero _ _ _ _ entry,entry,← zero]
    simp
  · refine Iff.trans (forall₂_congr fun place inside => ?_)
      (cells_kept toFp8 nearest (fun place => e i (group * 16 + place)) some)
    rw [restored_cell _ _ _ _ inside some]
    rfl

theorem group_nonzero (restoredAt x : Nat → ℚ) (within : ∀ place < 16, |restoredAt place - x place| ≤ absMax 16 x / 4)
    (some : ∃ place < 16, x place ≠ 0) : ∃ place < 16, restoredAt place ≠ 0 := by
  obtain ⟨top,inside,most⟩ := (absMax_greatest 16 x (by decide)).1
  obtain ⟨place,there,entry⟩ := some
  have positive : 0 < absMax 16 x := lt_of_lt_of_le (abs_pos.mpr entry) (le_absMax 16 x place there)
  refine ⟨top,inside,?_⟩
  intro zero
  have near := within top inside
  rw [zero,zero_sub,abs_neg,← most] at near
  linarith

-- The stored scale of a group is its unrounded scale rounded to E4M3, so what comes back of a table
-- stays within a quarter of the largest magnitude of each group exactly when every group is kept.
theorem table_kept (toFp8 : ℚ → Fp8) (nearest : RoundsToNearest toFp8) (n d : Nat) (e : Nat → Nat → Fp8) (chunkRows : Nat)
    (positive : 0 < chunkRows) (groups : d % 16 = 0) (empty : Packed) :
    ∃ buffers, ∃ out : Nat → Nat → ℚ,
      nvfp4QuantizeRows (fun x => (toFp8 x).value) n d (tableAt e) chunkRows empty = some buffers ∧
      (∀ ids : List Nat, (∀ id ∈ ids, id < n) →
        nvfp4Gather buffers n (d / 2) ids = some (ids.map fun id => (List.range d).map (out id))) ∧
      (((∀ i < n, ∀ j < d, |out i j - tableAt e i j| ≤ absMax 16 (groupAt (tableAt e i) (j / 16)) / 4) ∧
        ∀ i < n, ∀ group < d / 16, (∃ place < 16, groupAt (tableAt e i) group place ≠ 0) →
          ∃ place < 16, groupAt (out i) group place ≠ 0) ↔
        ∀ i < n, ∀ group < d / 16, Kept (toFp8 (5 / 1024)).value (groupAt (tableAt e i) group)) := by
  obtain ⟨buffers,ran,rows⟩ := quantize_rows (fun x => (toFp8 x).value) n d (tableAt e) chunkRows positive groups empty
  refine ⟨buffers,fun i => restored (fun x => (toFp8 x).value) (tableAt e i),ran,?_,?_,?_⟩
  · intro ids inside
    exact gather_rows (fun x => (toFp8 x).value) n d (tableAt e) groups buffers rows ids inside
  · rintro ⟨within,_⟩ i inside group there
    rw [← group_kept toFp8 nearest e i group]
    intro place below
    have near := within i inside (group * 16 + place) (by omega)
    rwa [show (group * 16 + place) / 16 = group by omega] at near
  · intro kept
    have near := fun i inside group there => (group_kept toFp8 nearest e i group).mpr (kept i inside group there)
    refine ⟨?_,?_⟩
    · intro i inside j within
      have at_place := near i inside (j / 16) (by omega) (j % 16) (by omega)
      rwa [groupAt,Nat.div_add_mod'] at at_place
    · intro i inside group there
      exact group_nonzero _ _ (near i inside group there)

theorem sample_finite (col : Nat) : ¬ ((⟨col % 15,by omega⟩ : Fin 16) = 15 ∧ (⟨col % 8,by omega⟩ : Fin 8) = 7) := by
  rintro ⟨top,_⟩
  have exponent : col % 15 = 15 := congrArg Fin.val top
  omega

def sampleTable (_ col : Nat) : Fp8 :=
  ⟨decide (col % 2 = 1),⟨col % 15,by omega⟩,⟨col % 8,by omega⟩,sample_finite col⟩

theorem sample_groups_kept : ∃ buffers out, nvfp4QuantizeRows (fun x => (nearestFp8 x).value) 1 16 (tableAt sampleTable) 1
      ⟨fun _ _ => 255,fun _ _ => 7⟩ = some buffers ∧ nvfp4Gather buffers 1 8 [0] = some [(List.range 16).map out] ∧
    ∀ j < 16, |out j - tableAt sampleTable 0 j| ≤ 60 := by
  obtain ⟨buffers,out,ran,gathered,exact_when⟩ := table_kept nearestFp8 nearestFp8_rounds 1 16 sampleTable 1 (by decide)
    (by decide) ⟨fun _ _ => 255,fun _ _ => 7⟩
  have most : ∀ i < 1, ∀ group < 1, 36 / 512 ≤ absMax 16 (groupAt (tableAt sampleTable i) group) ∧
      absMax 16 (groupAt (tableAt sampleTable i) group) ≤ 240 := by decide +kernel
  obtain ⟨within,_⟩ := exact_when.mpr fun i inside group there => kept_large _ _ (most i inside group there).1
  refine ⟨buffers,out 0,ran,gathered [0] (by decide),?_⟩
  intro j inside
  have near := within 0 (by decide) j inside
  have bound := (most 0 (by decide) (j / 16) (by omega)).2
  linarith

-- One group whose only nonzero entry is the smallest code: its sixth is stored as zero.
def lowTable (_ col : Nat) : Fp8 := if col = 0 then tiny else zero

theorem low_lost : ∃ buffers, nvfp4QuantizeRows (fun x => (nearestFp8 x).value) 1 16 (tableAt lowTable) 262144
      ⟨fun _ _ => 0,fun _ _ => 0⟩ = some buffers ∧
    nvfp4Gather buffers 1 8 [0] = some [List.replicate 16 0] ∧ tableAt lowTable 0 0 ≠ 0 ∧
    ¬ |0 - tableAt lowTable 0 0| ≤ absMax 16 (groupAt (tableAt lowTable 0) 0) / 4 := by
  obtain ⟨buffers,ran,rows⟩ := quantize_rows (fun x => (nearestFp8 x).value) 1 16 (tableAt lowTable) 262144 (by norm_num)
    (by decide) ⟨fun _ _ => 0,fun _ _ => 0⟩
  refine ⟨buffers,ran,?_,by decide +kernel,by decide +kernel⟩
  rw [gather_rows (fun x => (nearestFp8 x).value) 1 16 (tableAt lowTable) (by decide) buffers rows [0] (by decide)]
  have scale : scaleAt (tableAt lowTable 0) 0 = 1 / 3072 := by decide +kernel
  have stored : (nearestFp8 (1 / 3072)).value = 0 := by
    obtain ⟨member,closest⟩ := stored_subnormal nearestFp8 nearestFp8_rounds (1 / 3072) (by norm_num) (by norm_num)
    exact (by decide +kernel : ∀ stored ∈ subnormals, NearestSubnormal (1 / 3072) stored → stored = 0) _ member closest
  have zeros : (List.range 16).map (restored (fun x => (nearestFp8 x).value) (tableAt lowTable 0)) =
      List.replicate 16 0 := by
    refine List.eq_replicate_iff.mpr ⟨by simp,?_⟩
    intro value member
    obtain ⟨col,inside,rfl⟩ := List.mem_map.mp member
    rw [restored,Nat.div_eq_of_lt (List.mem_range.mp inside),scale,stored,mul_zero]
  rw [List.map_singleton,zeros]

end OneSpark.GroupScales
