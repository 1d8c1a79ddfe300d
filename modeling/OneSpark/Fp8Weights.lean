import OneSpark.Fp8Codes
import OneSpark.RowChunks

namespace OneSpark.Fp8Weights
open Fp8Codes RowChunks

-- torch.empty((N, K)) and torch.empty((N, 1)): what they hold before the loop is anything.
structure Buffers where
  buf : Nat → Nat → Fp8
  scales : Nat → ℚ

-- blk.abs().amax(dim=1, keepdim=True).clamp_min(1e-12) / 448.0
def rowScale (k : Nat) (row : Nat → ℚ) : ℚ := max (absMax k row) (1 / 10 ^ 12) / 448

-- x.clamp_(-448.0, 448.0)
def clamp (x : ℚ) : ℚ := min (max x (-448)) 448

def quantizeStep (toFp8 : ℚ → Fp8) (n k : Nat) (w : Nat → Nat → ℚ) (chunk : Nat) (buffers : Buffers) (i : Nat) : Buffers :=
  let j := min (i + chunk) n
  let blk := blockAt w i
  let s := fun row => rowScale k (blk row)
  ⟨assignRows buffers.buf i j fun row col => toFp8 (clamp (blk row col / s row)),assignRows buffers.scales i j s⟩

-- The codes at (k, n) and the scales at n; a step of zero or a maximum over no entries raises.
def q4xQuantizeToFp8T (toFp8 : ℚ → Fp8) (n k : Nat) (w : Nat → Nat → ℚ) (chunk : Nat) (empty : Buffers) :
    Option ((Nat → Nat → Fp8) × (Nat → ℚ)) :=
  if chunk = 0 ∨ (0 < n ∧ k = 0) then none else
  let filled := (chunkStarts n chunk).foldl (quantizeStep toFp8 n k w chunk) empty
  some (fun col row => filled.buf row col,filled.scales)

def rowCodes (toFp8 : ℚ → Fp8) (k : Nat) (row : Nat → ℚ) (col : Nat) : Fp8 := toFp8 (clamp (row col / rowScale k row))

-- Whatever the chunk size, every row has its own codes and its own scale.
theorem quantize_rows (toFp8 : ℚ → Fp8) (n k : Nat) (w : Nat → Nat → ℚ) (chunk : Nat) (positive : 0 < chunk)
    (columns : 0 < k) (empty : Buffers) : ∃ out scales,
    q4xQuantizeToFp8T toFp8 n k w chunk empty = some (out,scales) ∧ ∀ row < n, scales row = rowScale k (w row) ∧
      ∀ col, out col row = rowCodes toFp8 k (w row) col := by
  unfold q4xQuantizeToFp8T
  rw [if_neg (by omega)]
  refine ⟨_,_,rfl,?_⟩
  intro row inside
  refine ⟨?_,?_⟩
  · exact loop_rows n chunk w (rowScale k) _ Buffers.scales (fun _ _ => rfl) positive empty row inside
  · intro col
    exact congrFun (loop_rows n chunk w (rowCodes toFp8 k) _ Buffers.buf (fun _ _ => rfl) positive empty row inside) col

section
variable (k : Nat) (row : Nat → ℚ)

theorem rowScale_positive : 0 < rowScale k row := by
  have floor : (0 : ℚ) < 1 / 10 ^ 12 := by norm_num
  exact div_pos (lt_of_lt_of_le floor (le_max_right _ _)) (by norm_num)

-- The row maximum sets the scale, so no entry of the row leaves the range of the codes.
theorem scaled_bound (col : Nat) (inside : col < k) : |row col / rowScale k row| ≤ 448 := by
  have positive := rowScale_positive k row
  rw [abs_div,abs_of_pos positive,div_le_iff₀ positive]
  have most := le_trans (le_absMax k row col inside) (le_max_left (absMax k row) (1 / 10 ^ 12))
  have scaled : 448 * rowScale k row = max (absMax k row) (1 / 10 ^ 12) := mul_div_cancel₀ _ (by norm_num)
  rwa [scaled]

theorem clamp_inside (x : ℚ) (bound : |x| ≤ 448) : clamp x = x := by
  obtain ⟨low,high⟩ := abs_le.mp bound
  rw [clamp,max_eq_left low,min_eq_left high]

theorem restored_error (toFp8 : ℚ → Fp8) (nearest : RoundsToNearest toFp8) (col : Nat) (inside : col < k) :
    |(rowCodes toFp8 k row col).value * rowScale k row - row col| ≤ max (|row col| / 16) (rowScale k row / 1024) := by
  have positive := rowScale_positive k row
  have bound := scaled_bound k row col inside
  have error := rounding_error toFp8 nearest _ bound
  have whole : row col / rowScale k row * rowScale k row = row col := div_mul_cancel₀ _ (ne_of_gt positive)
  unfold rowCodes
  rw [clamp_inside _ bound]
  calc |(toFp8 (row col / rowScale k row)).value * rowScale k row - row col|
      = |row col / rowScale k row - (toFp8 (row col / rowScale k row)).value| * rowScale k row := by
        rw [← abs_of_pos positive,← abs_mul,abs_of_pos positive,sub_mul,whole,abs_sub_comm]
    _ ≤ half |row col / rowScale k row| * rowScale k row := mul_le_mul_of_nonneg_right error (le_of_lt positive)
    _ = max (|row col| / 16) (rowScale k row / 1024) := by
        rw [half,max_mul_of_nonneg _ _ (le_of_lt positive),abs_div,abs_of_pos positive]
        congr 1
        · rw [div_right_comm,div_mul_cancel₀ _ (ne_of_gt positive)]
        · ring

theorem zero_restored (toFp8 : ℚ → Fp8) (nearest : RoundsToNearest toFp8) (col : Nat) (zero : row col = 0) :
    (rowCodes toFp8 k row col).value * rowScale k row = 0 := by
  unfold rowCodes
  rw [zero,zero_div,clamp_inside 0 (by rw [abs_zero]; norm_num),zero_rounds toFp8 nearest,zero_mul]

end

-- Every element has its code at (k, n) and its scale at n, cut as it may be; the scale is the
-- clamped row maximum over 448, and the restored value is within a sixteenth or half a step.
theorem restored_within (toFp8 : ℚ → Fp8) (nearest : RoundsToNearest toFp8) (n k : Nat) (w : Nat → Nat → ℚ) (chunk : Nat)
    (positive : 0 < chunk) (columns : 0 < k) (empty : Buffers) :
    ∃ out scales, q4xQuantizeToFp8T toFp8 n k w chunk empty = some (out,scales) ∧ ∀ row < n,
      (∃ rowmax, IsGreatest {size | ∃ col < k, size = |w row col|} rowmax ∧
        scales row = max rowmax (1 / 10 ^ 12) / 448) ∧
      (∀ col < k, |(out col row).value| ≤ 448 ∧
        |(out col row).value * scales row - w row col| ≤ max (|w row col| / 16) (scales row / 1024)) ∧
      ((∀ col < k, w row col = 0) → ∀ col < k, (out col row).value * scales row = 0) ∧
      ∀ otherChunk, 0 < otherChunk → ∀ otherEmpty otherOut otherScales,
        q4xQuantizeToFp8T toFp8 n k w otherChunk otherEmpty = some (otherOut,otherScales) →
          otherScales row = scales row ∧ ∀ col < k, otherOut col row = out col row := by
  obtain ⟨out,scales,ran,rows⟩ := quantize_rows toFp8 n k w chunk positive columns empty
  refine ⟨out,scales,ran,?_⟩
  intro row inside
  obtain ⟨scale,codes⟩ := rows row inside
  refine ⟨⟨absMax k (w row),absMax_greatest k (w row) columns,scale⟩,?_,?_,?_⟩
  · intro col within
    refine ⟨(out col row).value_bound,?_⟩
    rw [codes col,scale]
    exact restored_error k (w row) toFp8 nearest col within
  · intro zeros col within
    rw [codes col,scale]
    exact zero_restored k (w row) toFp8 nearest col (zeros col within)
  · intro otherChunk some_rows otherEmpty otherOut otherScales again
    obtain ⟨out',scales',ran',rows'⟩ := quantize_rows toFp8 n k w otherChunk some_rows columns otherEmpty
    cases ran'.symm.trans again
    obtain ⟨scale',codes'⟩ := rows' row inside
    exact ⟨scale'.trans scale.symm,fun col _ => (codes' col).trans (codes col).symm⟩

def sampleWeights (row col : Nat) : ℚ := if row = 0 then 31 / 10 ^ (2 * col) else 0

def sampleEmpty : Buffers := ⟨fun _ _ => lowest,fun _ => 7⟩

theorem sample_restored : ∃ out scales,
    q4xQuantizeToFp8T nearestFp8 2 3 sampleWeights 1 sampleEmpty = some (out,scales) ∧
    (∀ col < 3, |(out col 0).value * scales 0 - sampleWeights 0 col| ≤ max (|sampleWeights 0 col| / 16) (scales 0 / 1024)) ∧
    ∀ col < 3, (out col 1).value * scales 1 = 0 := by
  obtain ⟨out,scales,ran,rows⟩ := restored_within nearestFp8 nearestFp8_rounds 2 3 sampleWeights 1 (by decide) (by decide)
    sampleEmpty
  obtain ⟨_,within,_,_⟩ := rows 0 (by decide)
  obtain ⟨_,_,zeros,_⟩ := rows 1 (by decide)
  exact ⟨out,scales,ran,fun col inside => (within col inside).2,zeros fun _ _ => rfl⟩

end OneSpark.Fp8Weights
