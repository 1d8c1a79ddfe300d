import Mathlib

namespace OneSpark.Grids
variable {K : Type} [Field K] [LinearOrder K]

structure Nearest (grid : List K) (x value : K) : Prop where
  member : value ∈ grid
  closest : ∀ other ∈ grid, |x - value| ≤ |x - other|

structure Lowest (grid : List K) (x value : K) : Prop extends Nearest grid x value where
  lower : ∀ other ∈ grid, |x - other| = |x - value| → value ≤ other

-- The number of leading boundaries below x.
def bucketize (boundaries : List K) (x : K) : Nat := boundaries.findIdx fun boundary => decide (x ≤ boundary)

def midpoints : List K → List K
  | a :: b :: rest => (a + b) / 2 :: midpoints (b :: rest)
  | _ => []

variable [IsStrictOrderedRing K]

theorem nearer_below {x a c : K} (below : x ≤ (a + c) / 2) (order : a ≤ c) : |x - a| ≤ |x - c| := by
  have upper := neg_le_abs (x - c)
  rw [abs_le]
  constructor <;> linarith

theorem nearer_above {x a b : K} (above : (a + b) / 2 < x) (order : a < b) : |x - b| < |x - a| := by
  have lower := le_abs_self (x - a)
  rw [abs_lt]
  constructor <;> linarith

omit [Field K] [IsStrictOrderedRing K] in
theorem chain_above {a : K} {rest : List K} (sorted : (a :: rest).IsChain (· < ·)) (other : K) (member : other ∈ rest) :
    a < other := by
  rw [List.isChain_iff_pairwise] at sorted
  exact (List.pairwise_cons.mp sorted).1 other member

-- The place among the midpoints is the place of the nearest value; a midpoint itself goes down.
theorem bucketize_lowest (grid : List K) (sorted : grid.IsChain (· < ·)) (nonempty : grid ≠ []) (x : K) :
    ∃ value, grid[bucketize (midpoints grid) x]? = some value ∧ Lowest grid x value := by
  induction grid with
  | nil => exact absurd rfl nonempty
  | cons a rest ih =>
      cases rest with
      | nil =>
          refine ⟨a,rfl,⟨List.mem_singleton_self a,?_⟩,?_⟩
          · intro other member
            rw [List.mem_singleton.mp member]
          · intro other member _
            rw [List.mem_singleton.mp member]
      | cons b rest =>
          have order : a < b := chain_above sorted b List.mem_cons_self
          by_cases below : x ≤ (a + b) / 2
          · have place : bucketize (midpoints (a :: b :: rest)) x = 0 := by
              simp [bucketize,midpoints,List.findIdx_cons,below]
            have above : ∀ other ∈ a :: b :: rest, a ≤ other := by
              intro other member
              rcases List.mem_cons.mp member with rfl | later
              · exact le_refl _
              · exact le_of_lt (chain_above sorted other later)
            rw [place]
            refine ⟨a,rfl,⟨List.mem_cons_self,?_⟩,fun other member _ => above other member⟩
            intro other member
            rcases List.mem_cons.mp member with rfl | later
            · exact le_refl _
            · refine nearer_below ?_ (above other member)
              have past : b ≤ other := by
                rcases List.mem_cons.mp later with rfl | last
                · exact le_refl _
                · exact le_of_lt (chain_above sorted.tail other last)
              linarith
          · have place : bucketize (midpoints (a :: b :: rest)) x = bucketize (midpoints (b :: rest)) x + 1 := by
              simp [bucketize,midpoints,List.findIdx_cons,below]
            obtain ⟨value,found,lowest⟩ := ih sorted.tail (List.cons_ne_nil _ _)
            have farther : |x - value| < |x - a| :=
              lt_of_le_of_lt (lowest.closest b List.mem_cons_self) (nearer_above (not_le.mp below) order)
            rw [place]
            refine ⟨value,found,⟨List.mem_cons_of_mem _ lowest.member,?_⟩,?_⟩
            · intro other member
              rcases List.mem_cons.mp member with rfl | later
              · exact le_of_lt farther
              · exact lowest.closest other later
            · intro other member same
              rcases List.mem_cons.mp member with rfl | later
              · exact absurd same (ne_of_gt farther)
              · exact lowest.lower other later same

theorem grid_within (bound : K → K) (grid : List K) (gaps : grid.IsChain fun a b => a ≤ b ∧ b - a ≤ 2 * bound a)
    (x low high : K) (first : grid.head? = some low) (last : grid.getLast? = some high) (above : low ≤ x) (below : x ≤ high)
    (positive : 0 ≤ bound x) (grows : ∀ a, a ≤ x → low ≤ a → bound a ≤ bound x) : ∃ value ∈ grid, |x - value| ≤ bound x := by
  induction grid generalizing low with
  | nil => cases first
  | cons a rest ih =>
      cases first
      cases rest with
      | nil =>
          have ends : a = high := Option.some_inj.mp last
          have same : x = a := le_antisymm (below.trans_eq ends.symm) above
          refine ⟨a,List.mem_singleton_self a,?_⟩
          rw [same,sub_self,abs_zero]
          rwa [same] at positive
      | cons b rest =>
          obtain ⟨order,gap⟩ := (List.isChain_cons_cons.mp gaps).1
          have half := grows a above (le_refl _)
          by_cases inside : x ≤ b
          · by_cases closer : x - a ≤ b - x
            · refine ⟨a,List.mem_cons_self,?_⟩
              rw [abs_of_nonneg (by linarith)]
              linarith
            · refine ⟨b,List.mem_cons_of_mem _ List.mem_cons_self,?_⟩
              rw [abs_sub_comm,abs_of_nonneg (by linarith)]
              linarith
          · obtain ⟨value,member,near⟩ := ih gaps.tail b rfl (by rwa [List.getLast?_cons_cons] at last)
              (le_of_lt (not_le.mp inside)) fun other small large => grows other small (le_trans order large)
            exact ⟨value,List.mem_cons_of_mem _ member,near⟩

end OneSpark.Grids
