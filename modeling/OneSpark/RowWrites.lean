import OneSpark.RowChunks
import OneSpark.Tensors

namespace OneSpark.RowWrites
open RowChunks

-- A two-dimensional tensor, and the row intervals its slice copies have filled, in order.
structure Tensor (V : Type) where
  rows : Nat
  width : Nat
  entry : Nat → Nat → V
  writes : List (Nat × Nat)

-- t[start:start + count].copy_(source). The slice ends with the tensor; a source dimension of one
-- is stretched, any other difference in shape raises.
def Tensor.copyRows (t : Tensor V) (start count rows width : Nat) (entry : Nat → Nat → V) : Option (Tensor V) :=
  let low := min start t.rows
  let high := min (start + count) t.rows
  if (rows = high - low ∨ rows = 1) ∧ (width = t.width ∨ width = 1) then
    some { t with
      entry := assignRows t.entry low high fun row col =>
        entry (if rows = 1 then 0 else row) (if width = 1 then 0 else col)
      writes := t.writes ++ [(low,high - low)] }
  else none

def spanned (spans : List (Nat × Nat)) : List Nat := spans.flatMap fun span => List.range' span.1 span.2

structure Filled (own : Nat → Nat → V) (before after : Tensor V) (spans : List (Nat × Nat)) : Prop where
  rows : after.rows = before.rows
  width : after.width = before.width
  writes : after.writes = before.writes ++ spans
  inside : ∀ row ∈ spanned spans, ∀ col < before.width, after.entry row col = own row col
  outside : ∀ row, row ∉ spanned spans → after.entry row = before.entry row

theorem Filled.refl (own : Nat → Nat → V) (t : Tensor V) : Filled own t t [] :=
  ⟨rfl,rfl,(List.append_nil _).symm,fun _ member => absurd member List.not_mem_nil,fun _ _ => rfl⟩

theorem Filled.trans {own : Nat → Nat → V} (first : Filled own before middle spans) (second : Filled own middle after more) :
    Filled own before after (spans ++ more) := by
  have parts : spanned (spans ++ more) = spanned spans ++ spanned more := List.flatMap_append
  refine ⟨second.rows.trans first.rows,second.width.trans first.width,?_,?_,?_⟩
  · rw [second.writes,first.writes,List.append_assoc]
  · intro row member col within
    by_cases again : row ∈ spanned more
    · exact second.inside row again col (within.trans_eq first.width.symm)
    · rw [second.outside row again]
      rw [parts] at member
      exact first.inside row ((List.mem_append.mp member).resolve_right again) col within
  · intro row absent
    rw [parts,List.mem_append,not_or] at absent
    rw [second.outside row absent.2,first.outside row absent.1]

theorem copyRows_filled (t : Tensor V) (start count : Nat) (wide : width = t.width) (entry own : Nat → Nat → V)
    (fits : start + count ≤ t.rows) (same : ∀ row < count, ∀ col < t.width, entry row col = own (start + row) col) :
    ∃ after, t.copyRows start count count width entry = some after ∧ Filled own t after [(start,count)] := by
  have low : min start t.rows = start := Nat.min_eq_left (by omega)
  have high : min (start + count) t.rows = start + count := Nat.min_eq_left fits
  have taken : start + count - start = count := by omega
  unfold Tensor.copyRows
  dsimp only
  rw [low,high,taken,wide,if_pos ⟨.inl rfl,.inl rfl⟩]
  refine ⟨_,rfl,rfl,rfl,rfl,?_,?_⟩
  · intro row member col within
    have span : start ≤ row ∧ row < start + count := by simpa [spanned,List.mem_range'_1] using member
    have stretched : (if count = 1 then 0 else row - start) = row - start := by split <;> omega
    have across : (if t.width = 1 then 0 else col) = col := by split <;> omega
    dsimp only
    rw [assignRows_inside _ _ span,stretched,across,same _ (by omega) _ within,Nat.add_sub_cancel' span.1]
  · intro row absent
    have apart : ¬ (start ≤ row ∧ row < start + count) := by simpa [spanned,List.mem_range'_1] using absent
    dsimp only
    rw [assignRows_outside _ _ apart]

-- The part of the rows [rowStart, rowEnd) that falls in [low, high), counted from low.
def overlap (rowStart rowEnd low high : Nat) : List (Nat × Nat) :=
  if max rowStart low < min rowEnd high then [(max rowStart low - low,min rowEnd high - max rowStart low)] else []

theorem mem_overlap (rowStart rowEnd low high row : Nat) :
    row ∈ spanned (overlap rowStart rowEnd low high) ↔ (rowStart ≤ low + row ∧ low + row < rowEnd) ∧ low + row < high := by
  unfold overlap spanned
  split
  · simp only [List.flatMap_cons,List.flatMap_nil,List.append_nil,List.mem_range'_1]
    omega
  · simp only [List.flatMap_nil,List.not_mem_nil,false_iff]
    omega

theorem overlap_nodup (rowStart rowEnd low high : Nat) : (spanned (overlap rowStart rowEnd low high)).Nodup := by
  unfold overlap spanned
  split
  · simpa using List.nodup_range'
  · exact List.nodup_nil

section
variable (parts stride low high : Nat) (count : Nat → Nat) (bounded : ∀ n < parts, count n ≤ stride)

theorem overlap_block (n row : Nat) (fits : count n ≤ stride)
    (member : row ∈ spanned (overlap (n * stride) (n * stride + count n) low high)) :
    (low + row) / stride = n ∧ low + row = n * stride + (low + row) % stride ∧ (low + row) % stride < count n := by
  obtain ⟨⟨above,below⟩,_⟩ := (mem_overlap _ _ _ _ _).mp member
  obtain ⟨place,same⟩ := Nat.exists_eq_add_of_le above
  have small : place < stride := by omega
  obtain ⟨quotient,rest⟩ := Tensors.place_parts n stride place small
  rw [same,quotient,rest]
  exact ⟨rfl,rfl,by omega⟩

include bounded in
-- Blocks that cover a range meet each of its rows once, in whatever order they come.
theorem overlaps_once (covered : ∀ row, low ≤ row → row < high → ∃ n < parts, n * stride ≤ row ∧ row < n * stride + count n)
    (order : List Nat) (perm : order.Perm (List.range parts)) :
    (spanned (order.flatMap fun n => overlap (n * stride) (n * stride + count n) low high)).Perm (List.range (high - low)) := by
  have distinct : order.Nodup := perm.nodup_iff.mpr List.nodup_range
  have inside : ∀ n ∈ order, n < parts := fun n member => List.mem_range.mp (perm.mem_iff.mp member)
  rw [spanned,List.flatMap_assoc]
  refine (List.perm_ext_iff_of_nodup ?_ List.nodup_range).mpr ?_
  · refine List.nodup_flatMap.mpr ⟨fun n _ => overlap_nodup _ _ _ _,?_⟩
    refine distinct.imp_of_mem ?_
    intro n m left right different row first second
    have one := (overlap_block stride low high count n row (bounded n (inside n left)) first).1
    have other := (overlap_block stride low high count m row (bounded m (inside m right)) second).1
    exact different (one.symm.trans other)
  · intro row
    rw [List.mem_flatMap,List.mem_range]
    constructor
    · rintro ⟨n,_,member⟩
      have below := ((mem_overlap _ _ _ _ _).mp member).2
      omega
    · intro below
      obtain ⟨n,part,block⟩ := covered (low + row) (Nat.le_add_right _ _) (by omega)
      exact ⟨n,perm.mem_iff.mpr (List.mem_range.mpr part),(mem_overlap _ _ _ _ _).mpr ⟨block,by omega⟩⟩

end

end OneSpark.RowWrites
