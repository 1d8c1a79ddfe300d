import Mathlib.Algebra.Order.Group.Abs
import Mathlib.Algebra.Order.Ring.Rat
import Mathlib.Order.Bounds.Basic

namespace OneSpark.RowChunks

-- range(0, n, chunk)
def chunkStarts (n chunk : Nat) : List Nat := (List.range ((n + chunk - 1) / chunk)).map (· * chunk)

-- buffer[i:j] = block
def assignRows (buffer : Nat → β) (i j : Nat) (block : Nat → β) : Nat → β :=
  fun row => if i ≤ row ∧ row < j then block (row - i) else buffer row

def blockAt (w : Nat → α) (i : Nat) : Nat → α := fun row => w (i + row)

theorem assignRows_inside (buffer : Nat → β) (block : Nat → β) (inside : i ≤ row ∧ row < j) :
    assignRows buffer i j block row = block (row - i) := if_pos inside

theorem assignRows_outside (buffer : Nat → β) (block : Nat → β) (outside : ¬ (i ≤ row ∧ row < j)) :
    assignRows buffer i j block row = buffer row := if_neg outside

theorem chunk_of (n chunk row : Nat) (inside : row < n) (positive : 0 < chunk) :
    ∃ i ∈ chunkStarts n chunk, i ≤ row ∧ row < min (i + chunk) n := by
  refine ⟨row / chunk * chunk,List.mem_map.mpr ⟨row / chunk,?_,rfl⟩,Nat.div_mul_le_self row chunk,?_⟩
  · rw [List.mem_range,Nat.lt_div_iff_mul_lt positive]
    have below := Nat.div_mul_le_self row chunk
    omega
  · have next := Nat.lt_div_mul_add positive (a := row)
    exact Nat.lt_min.mpr ⟨next,inside⟩

-- A loop over chunks that gives each row of a chunk its own result ends with every row's own
-- result, whatever the buffer held and however the rows were cut. `read` picks one buffer of a state.
theorem loop_rows (n chunk : Nat) (w : Nat → α) (own : α → β) (step : σ → Nat → σ) (read : σ → Nat → β)
    (assigns : ∀ s i, read (step s i) = assignRows (read s) i (min (i + chunk) n) fun row => own (blockAt w i row))
    (positive : 0 < chunk) (before : σ) (row : Nat) (inside : row < n) :
    read ((chunkStarts n chunk).foldl step before) row = own (w row) := by
  have run : ∀ (starts : List Nat) (s : σ),
      read s row = own (w row) ∨ (∃ i ∈ starts, i ≤ row ∧ row < min (i + chunk) n) →
        read (starts.foldl step s) row = own (w row) := by
    intro starts
    induction starts with
    | nil =>
        rintro s (done | ⟨i,impossible,_⟩)
        · exact done
        · cases impossible
    | cons i rest ih =>
        intro s reached
        apply ih
        rw [assigns]
        by_cases here : i ≤ row ∧ row < min (i + chunk) n
        · left
          rw [assignRows_inside _ _ here,blockAt,Nat.add_sub_cancel' here.1]
        · rw [assignRows_outside _ _ here]
          rcases reached with done | ⟨other,member,within⟩
          · exact .inl done
          · rcases List.mem_cons.mp member with rfl | later
            · exact absurd within here
            · exact .inr ⟨other,later,within⟩
  exact run _ before (.inr (chunk_of n chunk row inside positive))

-- x.abs().amax() over the first `count` entries.
def absMax (count : Nat) (x : Nat → ℚ) : ℚ := (List.range count).foldl (fun most i => max most |x i|) 0

theorem absMax_succ (count : Nat) (x : Nat → ℚ) : absMax (count + 1) x = max (absMax count x) |x count| := by
  unfold absMax
  rw [List.range_succ,List.foldl_append]
  rfl

theorem le_absMax (count : Nat) (x : Nat → ℚ) (i : Nat) (inside : i < count) : |x i| ≤ absMax count x := by
  induction count with
  | zero => cases inside
  | succ count ih =>
      rw [absMax_succ]
      rcases Nat.lt_succ_iff_lt_or_eq.mp inside with earlier | rfl
      · exact le_max_of_le_left (ih earlier)
      · exact le_max_right _ _

theorem absMax_nonneg (count : Nat) (x : Nat → ℚ) : 0 ≤ absMax count x := by
  induction count with
  | zero => exact le_refl _
  | succ count ih =>
      rw [absMax_succ]
      exact le_max_of_le_left ih

theorem absMax_greatest (count : Nat) (x : Nat → ℚ) (some : 0 < count) :
    IsGreatest {size | ∃ i < count, size = |x i|} (absMax count x) := by
  refine ⟨?_,?_⟩
  · induction count with
    | zero => cases some
    | succ count ih =>
        rw [absMax_succ]
        rcases Nat.eq_zero_or_pos count with rfl | more
        · exact ⟨0,by decide,max_eq_right (abs_nonneg _)⟩
        · rcases max_choice (absMax count x) |x count| with earlier | last
          · obtain ⟨i,inside,same⟩ := ih more
            rw [earlier]
            exact ⟨i,Nat.lt_succ_of_lt inside,same⟩
          · exact ⟨count,Nat.lt_succ_self _,last⟩
  · rintro size ⟨i,inside,rfl⟩
    exact le_absMax count x i inside

end OneSpark.RowChunks
