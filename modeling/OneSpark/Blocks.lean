import Mathlib

namespace OneSpark.Blocks

-- Consecutive blocks of the given sizes over 0, 1, 2, ...: block h is
-- [offset sizes h, offset sizes h + sizes[h]).
def offset (sizes : List Nat) (h : Nat) : Nat := (sizes.take h).sum

def Within (sizes : List Nat) (h g : Nat) : Prop :=
  ∃ size, sizes[h]? = some size ∧ offset sizes h ≤ g ∧ g < offset sizes h + size

-- The block of a position; past the last block it counts all of them.
def blockOf : List Nat → Nat → Nat
  | [], _ => 0
  | size :: rest, g => if g < size then 0 else blockOf rest (g - size) + 1

@[simp] theorem offset_zero (sizes : List Nat) : offset sizes 0 = 0 := by simp [offset]

@[simp] theorem offset_cons (size : Nat) (rest : List Nat) (h : Nat) :
    offset (size :: rest) (h + 1) = size + offset rest h := by simp [offset]

theorem offset_length (sizes : List Nat) : offset sizes sizes.length = sizes.sum := by simp [offset]

theorem offset_next (sizes : List Nat) (h size : Nat) (found : sizes[h]? = some size) :
    offset sizes (h + 1) = offset sizes h + size := by
  obtain ⟨bound,rfl⟩ := List.getElem?_eq_some_iff.mp found
  unfold offset
  rw [List.take_succ_eq_append_getElem bound,List.sum_append]
  simp

theorem offset_mono (sizes : List Nat) : Monotone (offset sizes) := by
  intro h k le
  have parts := List.take_append_drop h (sizes.take k)
  rw [List.take_take,Nat.min_eq_left le] at parts
  unfold offset
  rw [← parts,List.sum_append]
  exact Nat.le_add_right _ _

theorem offset_le_sum (sizes : List Nat) (h : Nat) : offset sizes h ≤ sizes.sum := by
  by_cases inside : h ≤ sizes.length
  · rw [← offset_length]
    exact offset_mono sizes inside
  · simp [offset,List.take_of_length_le (Nat.le_of_not_le inside)]

theorem within_next (sizes : List Nat) (h g : Nat) (within : Within sizes h g) :
    g < offset sizes (h + 1) := by
  obtain ⟨size,found,_,below⟩ := within
  rw [offset_next sizes h size found]
  exact below

theorem within_sum (sizes : List Nat) (h g : Nat) (within : Within sizes h g) : g < sizes.sum :=
  Nat.lt_of_lt_of_le (within_next sizes h g within) (offset_le_sum sizes (h + 1))

theorem within_iff (sizes : List Nat) (h g : Nat) : Within sizes h g ↔ offset sizes h ≤ g ∧ g < offset sizes (h + 1) := by
  constructor
  · intro within
    obtain ⟨_,_,above,_⟩ := id within
    exact ⟨above,within_next sizes h g within⟩
  · rintro ⟨above,below⟩
    cases found : sizes[h]? with
    | none =>
        have past := List.getElem?_eq_none_iff.mp found
        rw [offset,List.take_of_length_le past] at above
        rw [offset,List.take_of_length_le (by omega)] at below
        omega
    | some size => exact ⟨size,found,above,offset_next sizes h size found ▸ below⟩

theorem within_place (sizes : List Nat) (h k : Nat) (inside : k < sizes.getD h 0) :
    Within sizes h (offset sizes h + k) := by
  cases found : sizes[h]? with
  | none =>
      rw [List.getD_eq_getElem?_getD,found,Option.getD_none] at inside
      cases inside
  | some size =>
      rw [List.getD_eq_getElem?_getD,found,Option.getD_some] at inside
      exact ⟨size,found,Nat.le_add_right _ _,Nat.add_lt_add_left inside _⟩

theorem within_apart (sizes : List Nat) (h k g other : Nat) (less : h < k)
    (first : Within sizes h g) (second : Within sizes k other) : g < other := by
  have ends := within_next sizes h g first
  have starts := offset_mono sizes less
  obtain ⟨_,_,above,_⟩ := second
  exact Nat.lt_of_lt_of_le ends (Nat.le_trans starts above)

theorem within_unique (sizes : List Nat) (h k g : Nat) (first : Within sizes h g)
    (second : Within sizes k g) : h = k := by
  rcases Nat.lt_trichotomy h k with less | same | more
  · exact absurd (within_apart sizes h k g g less first second) (Nat.lt_irrefl g)
  · exact same
  · exact absurd (within_apart sizes k h g g more second first) (Nat.lt_irrefl g)

theorem within_cons (size : Nat) (rest : List Nat) (h g : Nat) (above : size ≤ g) :
    Within (size :: rest) (h + 1) g ↔ Within rest h (g - size) := by
  unfold Within
  simp only [List.getElem?_cons_succ,offset_cons]
  constructor
  · intro ⟨found,value,low,high⟩
    exact ⟨found,value,by omega,by omega⟩
  · intro ⟨found,value,low,high⟩
    exact ⟨found,value,by omega,by omega⟩

theorem blockOf_within (sizes : List Nat) (g : Nat) (inside : g < sizes.sum) :
    Within sizes (blockOf sizes g) g := by
  induction sizes generalizing g with
  | nil => simp at inside
  | cons size rest ih =>
      unfold blockOf
      split
      · rename_i first
        exact ⟨size,by simp,by simp,by simpa using first⟩
      · rename_i later
        rw [List.sum_cons] at inside
        exact (within_cons size rest _ g (by omega)).mpr (ih (g - size) (by omega))

theorem blockOf_exact (sizes : List Nat) (h g : Nat) (within : Within sizes h g) :
    blockOf sizes g = h :=
  within_unique sizes _ h g (blockOf_within sizes g (within_sum sizes h g within)) within

theorem scanl_offset (sizes : List Nat) (start : Nat) :
    sizes.scanl (· + ·) start = (List.range (sizes.length + 1)).map fun h => start + offset sizes h := by
  induction sizes generalizing start with
  | nil => simp
  | cons size rest ih =>
      rw [List.scanl_cons,ih,List.length_cons,List.range_succ_eq_map (n := rest.length + 1)]
      simp [Function.comp_def,Nat.add_assoc]

-- How many block ends a position has reached is the number of its block.
theorem ends_reached (sizes : List Nat) (h g : Nat) (within : Within sizes h g) :
    (((List.range sizes.length).map fun k => offset sizes (k + 1)).takeWhile
      fun stop => decide (stop ≤ g)).length = h := by
  obtain ⟨size,found,above,_⟩ := id within
  obtain ⟨bound,_⟩ := List.getElem?_eq_some_iff.mp found
  obtain ⟨rest,split⟩ : ∃ rest, sizes.length = h + (rest + 1) := ⟨sizes.length - h - 1,by omega⟩
  rw [split,List.range_add,List.map_append,List.takeWhile_append_of_pos,List.range_succ_eq_map]
  · have stop : ¬ offset sizes (h + 0 + 1) ≤ g := Nat.not_le.mpr (within_next sizes h g within)
    simp [stop]
  · intro stop member
    obtain ⟨k,inside,rfl⟩ := List.mem_map.mp member
    have reached := offset_mono sizes (Nat.succ_le_of_lt (List.mem_range.mp inside))
    exact decide_eq_true (Nat.le_trans reached above)

theorem starts_reached (sizes : List Nat) (h g : Nat) (within : Within sizes h g) :
    ((sizes.scanl (· + ·) 0).takeWhile fun start => decide (start ≤ g)).length = h + 1 := by
  rw [scanl_offset,List.range_succ_eq_map,List.map_cons,List.takeWhile_cons,List.map_map]
  have ends := ends_reached sizes h g within
  simpa [Function.comp_def] using ends

theorem offset_replicate (count size h : Nat) (inside : h ≤ count) :
    offset (List.replicate count size) h = h * size := by
  simp [offset,List.take_replicate,Nat.min_eq_left inside]

theorem blockOf_replicate (count size g : Nat) (inside : g < count * size) :
    blockOf (List.replicate count size) g = g / size := by
  have positive : 0 < size := by
    rcases Nat.eq_zero_or_pos size with rfl | positive
    · simp at inside
    · exact positive
  have bound : g / size < count := Nat.div_lt_of_lt_mul (by rwa [Nat.mul_comm])
  have parts := Nat.div_add_mod g size
  have rest := Nat.mod_lt g positive
  apply blockOf_exact
  refine ⟨size,by simp [bound],?_,?_⟩
  · rw [offset_replicate _ _ _ (Nat.le_of_lt bound)]
    exact Nat.div_mul_le_self g size
  · rw [offset_replicate _ _ _ (Nat.le_of_lt bound),Nat.mul_comm]
    omega

def block (sizes : List Nat) (values : List α) (h : Nat) : List α :=
  (values.drop (offset sizes h)).take (sizes.getD h 0)

theorem block_length (sizes : List Nat) (values : List α) (whole : values.length = sizes.sum) (h : Nat) :
    (block sizes values h).length = sizes.getD h 0 := by
  have sum := offset_le_sum sizes (h + 1)
  cases found : sizes[h]? with
  | none => simp [block,List.getD_eq_getElem?_getD,found]
  | some size =>
      rw [offset_next sizes h size found] at sum
      simp only [block,List.getD_eq_getElem?_getD,found,Option.getD_some,List.length_take,List.length_drop]
      omega

theorem block_getElem? (sizes : List Nat) (values : List α) (h k : Nat) (inside : k < sizes.getD h 0) :
    (block sizes values h)[k]? = values[offset sizes h + k]? := by
  unfold block
  rw [List.getElem?_take_of_lt inside,List.getElem?_drop]

theorem block_singletons (values : List α) :
    values.map (fun value => [value]) =
      (List.range values.length).map (block (List.replicate values.length 1) values) := by
  apply List.ext_getElem
  · simp
  · intro h bound _
    have inside : h < values.length := by simpa using bound
    have start : offset (List.replicate values.length 1) h = h := by
      rw [offset_replicate _ _ _ (Nat.le_of_lt inside),Nat.mul_one]
    have width : (List.replicate values.length 1).getD h 0 = 1 := by simp [inside]
    simp only [List.getElem_map,List.getElem_range]
    unfold block
    rw [start,width,List.take_one_drop_eq_of_lt_length inside]
    rfl

theorem blocks_cover (sizes : List Nat) (f : Nat → Nat → α) :
    (List.range sizes.sum).map (fun g => f (blockOf sizes g) (g - offset sizes (blockOf sizes g))) =
      (List.range sizes.length).flatMap fun h => (List.range (sizes.getD h 0)).map (f h) := by
  induction sizes generalizing f with
  | nil => simp
  | cons size rest ih =>
      have later := ih fun h => f (h + 1)
      rw [List.sum_cons,List.range_add,List.map_append,List.length_cons,List.range_succ_eq_map,List.flatMap_cons,
        List.flatMap_map]
      congr 1
      · apply List.map_congr_left
        intro g member
        have first : blockOf (size :: rest) g = 0 := if_pos (List.mem_range.mp member)
        simp [first]
      · rw [List.map_map]
        simp only [List.getD_cons_succ]
        rw [← later]
        apply List.map_congr_left
        intro g _
        have next : blockOf (size :: rest) (size + g) = blockOf rest g + 1 := by
          rw [blockOf,if_neg (by omega),Nat.add_sub_cancel_left]
        simp only [Function.comp_apply,next,offset_cons,Nat.add_sub_add_left]

theorem flatMap_read (rows : List β) (f : β → List α) (h k : Nat) (row : β) (found : rows[h]? = some row)
    (inside : k < (f row).length) :
    (rows.flatMap f)[offset (rows.map fun row => (f row).length) h + k]? = (f row)[k]? := by
  induction rows generalizing h with
  | nil => cases found
  | cons first rest ih =>
      cases h with
      | zero =>
          cases found
          rw [offset_zero,Nat.zero_add,List.flatMap_cons,List.getElem?_append_left inside]
      | succ h =>
          rw [List.map_cons,offset_cons,List.flatMap_cons,List.getElem?_append_right (by omega)]
          rw [show (f first).length + offset (rest.map fun row => (f row).length) h + k - (f first).length =
            offset (rest.map fun row => (f row).length) h + k by omega]
          exact ih h found

theorem tiles_cover (tiles width : Nat) :
    (List.range tiles).flatMap (fun n => List.range' (n * width) width) = List.range (tiles * width) := by
  induction tiles with
  | zero => simp
  | succ tiles ih =>
      rw [List.range_succ,List.flatMap_append,ih,Nat.succ_mul,List.range_add]
      simp [List.range'_eq_map_range]

theorem segment_below (total bound : Nat) (covers : total ≤ bound) :
    (List.range bound).filter (fun g => decide (g < total)) = List.range total := by
  obtain ⟨rest,rfl⟩ := Nat.exists_eq_add_of_le covers
  rw [List.range_add,List.filter_append,List.filter_eq_self.mpr,List.filter_eq_nil_iff.mpr,List.append_nil]
  · intro g member
    obtain ⟨k,_,rfl⟩ := List.mem_map.mp member
    simp
  · intro g member
    exact decide_eq_true (List.mem_range.mp member)

theorem rounded_covers (total tiles : Nat) (positive : 0 < tiles) :
    total ≤ tiles * ((total + tiles - 1) / tiles) := by
  have parts := Nat.div_add_mod (total + tiles - 1) tiles
  have small := Nat.mod_lt (total + tiles - 1) positive
  omega

end OneSpark.Blocks
