import OneSpark.HashBuild

namespace OneSpark.HashMeans
open Blocks Scatter Longs HashBuild

def Shaped (c : Constants) (ss : Nat) (w : Weight V) : Prop :=
  w.dtype = .float8e4m3fn ∧ w.rows.length = ss ∧ w.width = c.dim

def globalRow [Zero V] (c : Constants) (ss : Nat) (shards : Nat → Weight V) (g : Nat) : Fin c.dim → V :=
  ((checked c ss (shards (g / ss))).getD []).getD (g % ss) 0

def realRows (total ss n : Nat) : List Nat := (List.range' (n * ss) ss).filter fun g => decide (g < total)

-- What the index_add_ calls receive for a list of global rows.
def rowAdds [Zero V] (c : Constants) (sizes : List Nat) (shards : Nat → Weight V) (rows : List Nat) : Adds c V :=
  ⟨rows.map (BitVec.ofNat 64),rows.map fun g => BitVec.ofNat 64 (slotAt c sizes subA g),
    rows.map fun g => BitVec.ofNat 64 (slotAt c sizes subB g),rows.map (globalRow c (shardRows c sizes.sum) shards)⟩

theorem mem_realRows (total ss n g : Nat) (member : g ∈ realRows total ss n) :
    g < total ∧ n * ss ≤ g ∧ g < n * ss + ss := by
  have parts := List.mem_filter.mp member
  have span := List.mem_range'_1.mp parts.1
  exact ⟨of_decide_eq_true parts.2,span⟩

section
variable (c : Constants) (sizes : List Nat) (shards : Nat → Weight V)

theorem shaped_checked [Zero V] (ss n : Nat) (shaped : Shaped c ss (shards n)) :
    checked c ss (shards n) = some ((List.range' (n * ss) ss).map (globalRow c ss shards)) := by
  cases ran : checked c ss (shards n) with
  | none => exact absurd ran (by simp [checked,shaped.1,shaped.2.1,shaped.2.2])
  | some rows =>
      have length : rows.length = ss := by
        unfold checked at ran
        split at ran
        · cases ran
          simpa using shaped.2.1
        · cases ran
      congr 1
      apply List.ext_getElem
      · simp [length]
      · intro i bound _
        have inside : i < ss := by omega
        obtain ⟨quotient,rest⟩ := Tensors.place_parts n ss i inside
        simp [globalRow,quotient,rest,ran,bound]

variable (positive : ∀ v ∈ sizes, 0 < v)
include positive

theorem slotAt_inside (sub : Fin 2) (g : Nat) (inside : g < sizes.sum) :
    slotAt c sizes sub g < (subSizes c sizes).sum :=
  within_sum _ _ _ (slotAt_within c sizes positive sub _ g (blockOf_within sizes g inside))

theorem shardAdds_exact [Zero V] (t : Index) (made : (layout c (laid sizes)).index = some t) (n : Nat)
    (shaped : Shaped c (shardRows c sizes.sum) (shards n))
    (fits : n * shardRows c sizes.sum + shardRows c sizes.sum < 2 ^ 63) :
    shardAdds c (layout c (laid sizes)) t n (shards n) =
      some (rowAdds c sizes shards (realRows sizes.sum (shardRows c sizes.sum) n)) := by
  have valid : ((List.range' (n * shardRows c sizes.sum) (shardRows c sizes.sum)).map (BitVec.ofNat 64)).map
      (fun g : Long => decide (g.toInt < (sizes.sum : Int))) =
      (List.range' (n * shardRows c sizes.sum) (shardRows c sizes.sum)).map (fun g => decide (g < sizes.sum)) := by
    rw [List.map_map]
    apply List.map_congr_left
    intro g member
    have span := List.mem_range'_1.mp member
    simp only [Function.comp_apply,toInt_ofNat g (by omega),Nat.cast_lt]
  have slots : ((realRows sizes.sum (shardRows c sizes.sum) n).map (BitVec.ofNat 64)).mapM (rowSlots t) =
      some ((realRows sizes.sum (shardRows c sizes.sum) n).map fun g =>
        (BitVec.ofNat 64 (slotAt c sizes 0 g),BitVec.ofNat 64 (slotAt c sizes 1 g))) := by
    rw [List.mapM_map]
    apply Tensors.mapM_found
    intro g member
    have inside := (mem_realRows _ _ _ _ member).1
    exact rowSlots_exact c sizes positive t made _ g (blockOf_within sizes g inside)
  have total : (laid sizes).total = sizes.sum := by rw [laid_exact]
  unfold shardAdds
  simp only [layout_exact,total]
  rw [shaped_checked c shards _ n shaped,shaped.2.1,arange_exact _ _ fits,Nat.add_sub_cancel_left]
  simp only [Option.bind_eq_bind,Option.bind_some]
  rw [valid,compress_map,compress_map,← realRows,slots]
  simp only [Option.bind_some,Option.pure_def,List.map_map]
  rfl
end

section
variable [Field V] (c : Constants) (sizes : List Nat) (shards : Nat → Weight V)

def slotRows (sub : Fin 2) (half : (Fin c.dim → V) → Fin c.half → V) (rows : List Nat) :
    List (Int × (Fin c.half → V)) :=
  rows.map fun g => ((slotAt c sizes sub g : Int),half (globalRow c (shardRows c sizes.sum) shards g))

def slotOnes (V : Type) [Field V] (c : Constants) (sizes : List Nat) (sub : Fin 2) (rows : List Nat) :
    List (Int × V) :=
  rows.map fun g => ((slotAt c sizes sub g : Int),1)

def Sums.grown (sums : Sums c V) (rows : List Nat) : Sums c V :=
  ⟨accumulated sums.sumA (slotRows c sizes shards subA (firstHalf c) rows),
    accumulated sums.sumB (slotRows c sizes shards subB (secondHalf c) rows),
    accumulated sums.cntA (slotOnes V c sizes subA rows),accumulated sums.cntB (slotOnes V c sizes subB rows)⟩

def Sized (sums : Sums c V) (csize : Nat) : Prop :=
  sums.sumA.length = csize ∧ sums.sumB.length = csize ∧ sums.cntA.length = csize ∧ sums.cntB.length = csize

theorem zeros_sized (csize : Nat) : Sized c (Sums.zeros c csize : Sums c V) csize := by
  simp [Sized,Sums.zeros]

theorem grown_sized (sums : Sums c V) (rows : List Nat) (sized : Sized c sums csize) :
    Sized c (Sums.grown c sizes shards sums rows) csize := by simpa [Sized,Sums.grown] using sized

theorem grown_nil (sums : Sums c V) : Sums.grown c sizes shards sums [] = sums := by
  simp [Sums.grown,slotRows,slotOnes,accumulated_nil]

theorem grown_append (sums : Sums c V) (left right : List Nat) :
    Sums.grown c sizes shards (Sums.grown c sizes shards sums left) right =
      Sums.grown c sizes shards sums (left ++ right) := by
  simp [Sums.grown,slotRows,slotOnes,accumulated_append]

theorem grown_perm (sums : Sums c V) (left right : List Nat) (shuffled : left.Perm right) :
    Sums.grown c sizes shards sums left = Sums.grown c sizes shards sums right := by
  unfold Sums.grown slotRows slotOnes
  rw [accumulated_perm _ _ _ (shuffled.map _),accumulated_perm _ _ _ (shuffled.map _),
    accumulated_perm _ _ _ (shuffled.map _),accumulated_perm _ _ _ (shuffled.map _)]

variable (positive : ∀ v ∈ sizes, 0 < v) (fits : sizes.sum < 2 ^ 63)
include positive fits

theorem slotAt_int (sub : Fin 2) (g : Nat) (inside : g < sizes.sum) :
    (BitVec.ofNat 64 (slotAt c sizes sub g) : Long).toInt = slotAt c sizes sub g := by
  have bound := slotAt_inside c sizes positive sub g inside
  have sum := subSizes_sum c sizes positive
  exact toInt_ofNat _ (by omega)

theorem indexAdd_exact (sums : Sums c V) (rows : List Nat) (sized : Sized c sums (subSizes c sizes).sum)
    (real : ∀ g ∈ rows, g < sizes.sum) :
    sums.indexAdd (rowAdds c sizes shards rows) = some (Sums.grown c sizes shards sums rows) := by
  have slots : ∀ (sub : Fin 2), ∀ g ∈ rows,
      (BitVec.ofNat 64 (slotAt c sizes sub g) : Long).toInt = slotAt c sizes sub g :=
    fun sub g member => slotAt_int c sizes positive fits sub g (real g member)
  have inside : ∀ (sub : Fin 2), ∀ g ∈ rows,
      0 ≤ (slotAt c sizes sub g : Int) ∧ (slotAt c sizes sub g : Int) < (subSizes c sizes).sum := by
    intro sub g member
    have bound := slotAt_inside c sizes positive sub g (real g member)
    omega
  have zipped : ∀ (sub : Fin 2) (half : (Fin c.dim → V) → Fin c.half → V),
      (rows.map fun g => (BitVec.ofNat 64 (slotAt c sizes sub g) : Long)).zipWith (fun s row => (s.toInt,half row))
        (rows.map (globalRow c (shardRows c sizes.sum) shards)) = slotRows c sizes shards sub half rows := by
    intro sub half
    unfold slotRows
    rw [List.zipWith_map,List.zipWith_self]
    exact List.map_congr_left fun g member => by rw [slots sub g member]
  have ones : ∀ (sub : Fin 2), (rows.map fun g => (BitVec.ofNat 64 (slotAt c sizes sub g) : Long)).map
      (fun s => (s.toInt,(1 : V))) = slotOnes V c sizes sub rows := by
    intro sub
    unfold slotOnes
    rw [List.map_map]
    exact List.map_congr_left fun g member => by simp [slots sub g member]
  obtain ⟨sumA,sumB,cntA,cntB⟩ := sized
  unfold Sums.indexAdd rowAdds
  simp only [zipped,ones]
  rw [scatterAdd_exact,scatterAdd_exact,scatterAdd_exact,scatterAdd_exact]
  · rfl
  all_goals
    intro add member
    obtain ⟨g,old,rfl⟩ := List.mem_map.mp member
    simpa only [sumA,sumB,cntA,cntB] using inside _ g old

theorem shardSteps_exact (t : Index) (made : (layout c (laid sizes)).index = some t) (order : List Nat)
    (shaped : ∀ n ∈ order, Shaped c (shardRows c sizes.sum) (shards n))
    (spans : ∀ n ∈ order, n * shardRows c sizes.sum + shardRows c sizes.sum < 2 ^ 63)
    (sums : Sums c V) (sized : Sized c sums (subSizes c sizes).sum) :
    order.foldlM (shardStep c (layout c (laid sizes)) t shards) sums =
      some (Sums.grown c sizes shards sums (order.flatMap (realRows sizes.sum (shardRows c sizes.sum)))) := by
  induction order generalizing sums with
  | nil =>
      rw [List.flatMap_nil,grown_nil]
      rfl
  | cons n rest ih =>
      have adds := shardAdds_exact c sizes shards positive t made n (shaped n (by simp)) (spans n (by simp))
      have step := indexAdd_exact c sizes shards positive fits sums
        (realRows sizes.sum (shardRows c sizes.sum) n) sized fun g member => (mem_realRows _ _ _ _ member).1
      have tail := ih (fun m member => shaped m (List.mem_cons_of_mem _ member))
        (fun m member => spans m (List.mem_cons_of_mem _ member)) _ (grown_sized c sizes shards sums
          (realRows sizes.sum (shardRows c sizes.sum) n) sized)
      rw [List.foldlM_cons,shardStep,adds]
      simp only [Option.bind_eq_bind,Option.bind_some]
      rw [step,Option.bind_some,tail,grown_append,List.flatMap_cons]
end

-- The shards in any order cover every row of the table once, and no padding row.
theorem order_covers (c : Constants) (total : Nat) (order : List Nat)
    (shuffled : order.Perm (List.range c.splitParts)) :
    (order.flatMap (realRows total (shardRows c total))).Perm (List.range total) := by
  have tiled : (List.range c.splitParts).flatMap (realRows total (shardRows c total)) = List.range total := by
    rw [← segment_below total _ (rounded_covers total c.splitParts c.partsPositive),← tiles_cover,List.filter_flatMap]
    rfl
  rw [← tiled]
  exact shuffled.flatMap_right _

section
variable [Field V] (c : Constants) (sizes : List Nat) (shards : Nat → Weight V)

-- The global rows that one sub-table sends to one compressed row.
def slotGroup (sub : Fin 2) (s : Nat) : Finset Nat :=
  (Finset.range sizes.sum).filter fun g => slotAt c sizes sub g = s

theorem group_landed {E : Type} [AddCommMonoid E] (sub : Fin 2) (s : Nat) (value : Nat → E) :
    landed ((List.range sizes.sum).map fun g => ((slotAt c sizes sub g : Int),value g)) s =
      ∑ g ∈ slotGroup c sizes sub s, value g := by
  have same : (fun g => (slotAt c sizes sub g : Int) == (s : Int)) = fun g => decide (slotAt c sizes sub g = s) := by
    funext g
    simp [beq_eq_decide]
  rw [landed_map,same]
  change _ = (Multiset.map value (Multiset.filter _ (List.range sizes.sum))).sum
  rw [Multiset.filter_coe,Multiset.map_coe,Multiset.sum_coe]

theorem group_counted (sub : Fin 2) (s : Nat) :
    landed (slotOnes V c sizes sub (List.range sizes.sum)) s = ((slotGroup c sizes sub s).card : V) := by
  unfold slotOnes
  rw [group_landed c sizes sub s fun _ => (1 : V)]
  simp

-- Their arithmetic mean over one half of the columns; the empty group has the zero row.
def groupMean (sub : Fin 2) (half : (Fin c.dim → V) → Fin c.half → V) (s : Nat) (column : Fin c.half) : V :=
  (∑ g ∈ slotGroup c sizes sub s, half (globalRow c (shardRows c sizes.sum) shards g) column) /
    (slotGroup c sizes sub s).card

theorem groupMean_empty (sub : Fin 2) (half : (Fin c.dim → V) → Fin c.half → V) (s : Nat)
    (empty : slotGroup c sizes sub s = ∅) : groupMean c sizes shards sub half s = 0 := by
  funext column
  simp [groupMean,empty]

variable [LinearOrder V] [IsStrictOrderedRing V]

theorem clamped_divides (rows : Finset Nat) (value : Nat → V) :
    (∑ g ∈ rows, value g) / max (rows.card : V) 1 = (∑ g ∈ rows, value g) / rows.card := by
  rcases Finset.eq_empty_or_nonempty rows with rfl | filled
  · simp
  · have counted : (1 : V) ≤ rows.card := by exact_mod_cast Finset.card_pos.mpr filled
    rw [max_eq_left counted]

theorem divided_exact (sub : Fin 2) (half : (Fin c.dim → V) → Fin c.half → V) (csize s : Nat) (bound : s < csize) :
    (divided (accumulated (List.replicate csize 0) (slotRows c sizes shards sub half (List.range sizes.sum)))
      (accumulated (List.replicate csize 0) (slotOnes V c sizes sub (List.range sizes.sum))))[s]? =
    some (groupMean c sizes shards sub half s) := by
  have summed := group_landed c sizes sub s fun g => half (globalRow c (shardRows c sizes.sum) shards g)
  have counted := group_counted (V := V) c sizes sub s
  unfold divided
  rw [List.getElem?_zipWith,accumulated_getElem?,accumulated_getElem?,counted,slotRows,summed]
  simp only [List.getElem?_replicate,if_pos bound,Option.map_some,zero_add]
  congr 1
  funext column
  rw [Finset.sum_apply]
  exact clamped_divides _ _

omit [IsStrictOrderedRing V] in
theorem means_numbered (order : List Nat) (shuffled : order.Perm (List.range c.splitParts))
    (shaped : ∀ n < c.splitParts, Shaped c (shardRows c sizes.sum) (shards n)) (out : Means c V)
    (ran : means c (laid sizes) shards order = some out) :
    c.splitParts * shardRows c sizes.sum < 2 ^ 63 := by
  have parts := c.partsPositive
  have last : c.splitParts - 1 < c.splitParts := by omega
  unfold means at ran
  simp only [Option.bind_eq_bind,Option.bind_eq_some_iff] at ran
  obtain ⟨t,_,sums,looped,_⟩ := ran
  obtain ⟨before,after,step⟩ := Tensors.foldlM_stepped _ _ _ _ looped (c.splitParts - 1)
    (shuffled.mem_iff.mpr (List.mem_range.mpr last))
  unfold shardStep shardAdds at step
  simp only [Option.bind_eq_bind,Option.bind_eq_some_iff,layout_exact] at step
  obtain ⟨_,⟨_,_,_,numbered,_⟩,_⟩ := step
  have bound := arange_parts _ _ _ numbered
  rw [(shaped _ last).2.1] at bound
  calc c.splitParts * shardRows c sizes.sum
      = (c.splitParts - 1 + 1) * shardRows c sizes.sum := by rw [Nat.sub_add_cancel parts]
    _ = (c.splitParts - 1) * shardRows c sizes.sum + shardRows c sizes.sum := Nat.succ_mul _ _
    _ < 2 ^ 63 := bound

variable (positive : ∀ v ∈ sizes, 0 < v)
include positive

omit [IsStrictOrderedRing V] in
theorem means_found (order : List Nat) (shuffled : order.Perm (List.range c.splitParts))
    (shaped : ∀ n < c.splitParts, Shaped c (shardRows c sizes.sum) (shards n)) (filled : sizes ≠ [])
    (fits : c.splitParts * shardRows c sizes.sum < 2 ^ 63) :
    ∃ t, (layout c (laid sizes)).index = some t ∧
      means c (laid sizes) shards order = some
        ⟨divided
          (accumulated (List.replicate (subSizes c sizes).sum 0)
            (slotRows c sizes shards 0 (firstHalf c) (List.range sizes.sum)))
          (accumulated (List.replicate (subSizes c sizes).sum 0) (slotOnes V c sizes 0 (List.range sizes.sum))),
        divided
          (accumulated (List.replicate (subSizes c sizes).sum 0)
            (slotRows c sizes shards 1 (secondHalf c) (List.range sizes.sum)))
          (accumulated (List.replicate (subSizes c sizes).sum 0) (slotOnes V c sizes 1 (List.range sizes.sum)))⟩ := by
  have total : sizes.sum < 2 ^ 63 :=
    Nat.lt_of_le_of_lt (rounded_covers sizes.sum c.splitParts c.partsPositive) fits
  have listed : ∀ n ∈ order, n < c.splitParts := fun n member => List.mem_range.mp (shuffled.mem_iff.mp member)
  have spans : ∀ n ∈ order, n * shardRows c sizes.sum + shardRows c sizes.sum < 2 ^ 63 := by
    intro n member
    have below := Nat.mul_le_mul_right (shardRows c sizes.sum) (listed n member)
    rw [Nat.succ_mul] at below
    omega
  obtain ⟨t,made⟩ : ∃ t, (layout c (laid sizes)).index = some t :=
    ⟨⟨_,_,_⟩,(index_exact c sizes positive ⟨_,_,_⟩).mpr ⟨filled,total,rfl,rfl,rfl⟩⟩
  have looped := shardSteps_exact c sizes shards positive total t made order
    (fun n member => shaped n (listed n member)) spans (Sums.zeros c (subSizes c sizes).sum) (zeros_sized c _)
  rw [grown_perm c sizes shards _ _ _ (order_covers c sizes.sum order shuffled)] at looped
  have csize : (layout c (laid sizes)).csize = (subSizes c sizes).sum := by rw [layout_exact]
  refine ⟨t,made,?_⟩
  unfold means shardLoop
  simp only [made,csize,looped,Option.bind_eq_bind,Option.bind_some,Option.pure_def]
  rfl

omit [IsStrictOrderedRing V] in
theorem means_filled (order : List Nat) (out : Means c V) (ran : means c (laid sizes) shards order = some out) :
    sizes ≠ [] := by
  unfold means at ran
  simp only [Option.bind_eq_bind,Option.bind_eq_some_iff] at ran
  obtain ⟨t,made,_⟩ := ran
  exact ((index_exact c sizes positive t).mp made).1

omit [IsStrictOrderedRing V] in
theorem means_returns (order : List Nat) (shuffled : order.Perm (List.range c.splitParts))
    (shaped : ∀ n < c.splitParts, Shaped c (shardRows c sizes.sum) (shards n)) :
    (means c (laid sizes) shards order).isSome ↔
      sizes ≠ [] ∧ c.splitParts * shardRows c sizes.sum < 2 ^ 63 := by
  constructor
  · intro returned
    obtain ⟨out,ran⟩ := Option.isSome_iff_exists.mp returned
    exact ⟨means_filled c sizes shards positive order out ran,
      means_numbered c sizes shards order shuffled shaped out ran⟩
  · intro ⟨filled,fits⟩
    obtain ⟨_,_,found⟩ := means_found c sizes shards positive order shuffled shaped filled fits
    simp [found]

omit [LinearOrder V] [IsStrictOrderedRing V] in
theorem added_once (t : Index) (made : (layout c (laid sizes)).index = some t) (order : List Nat)
    (shuffled : order.Perm (List.range c.splitParts))
    (shaped : ∀ n < c.splitParts, Shaped c (shardRows c sizes.sum) (shards n))
    (fits : c.splitParts * shardRows c sizes.sum < 2 ^ 63) :
    ∃ adds : Nat → Adds c V,
      (∀ n < c.splitParts, shardAdds c (layout c (laid sizes)) t n (shards n) = some (adds n)) ∧
      (order.flatMap fun n => (adds n).gidx).Perm ((List.range sizes.sum).map (BitVec.ofNat 64)) := by
  refine ⟨fun n => rowAdds c sizes shards (realRows sizes.sum (shardRows c sizes.sum) n),?_,?_⟩
  · intro n inside
    have below := Nat.mul_le_mul_right (shardRows c sizes.sum) inside
    rw [Nat.succ_mul] at below
    exact shardAdds_exact c sizes shards positive t made n (shaped n inside) (by omega)
  · have covered := (order_covers c sizes.sum order shuffled).map (BitVec.ofNat 64)
    rw [List.map_flatMap] at covered
    exact covered

-- The accumulated and normalised tables. The run returns exactly when the padded table's row
-- numbers are int64; every real row is added once, in whatever order the shards come, and
-- every compressed row is the mean of the rows its sub-table sends there.
theorem means_exact (order : List Nat) (shuffled : order.Perm (List.range c.splitParts))
    (shaped : ∀ n < c.splitParts, Shaped c (shardRows c sizes.sum) (shards n)) :
    ((means c (laid sizes) shards order).isSome ↔
      sizes ≠ [] ∧ c.splitParts * shardRows c sizes.sum < 2 ^ 63) ∧
    means c (laid sizes) shards order = means c (laid sizes) shards (List.range c.splitParts) ∧
    ∀ out, means c (laid sizes) shards order = some out →
      (∃ (t : Index) (adds : Nat → Adds c V), (layout c (laid sizes)).index = some t ∧
        (∀ n < c.splitParts, shardAdds c (layout c (laid sizes)) t n (shards n) = some (adds n)) ∧
        (order.flatMap fun n => (adds n).gidx).Perm ((List.range sizes.sum).map (BitVec.ofNat 64))) ∧
      out.meanA.length = (layout c (laid sizes)).csize ∧ out.meanB.length = (layout c (laid sizes)).csize ∧
      ∀ s < (layout c (laid sizes)).csize,
        out.meanA[s]? = some (groupMean c sizes shards 0 (firstHalf c) s) ∧
        out.meanB[s]? = some (groupMean c sizes shards 1 (secondHalf c) s) ∧
        (slotGroup c sizes 0 s = ∅ → out.meanA[s]? = some 0) ∧
        (slotGroup c sizes 1 s = ∅ → out.meanB[s]? = some 0) := by
  have returns := means_returns c sizes shards positive order shuffled shaped
  have sorted := means_returns c sizes shards positive (List.range c.splitParts) (List.Perm.refl _) shaped
  have csize : (layout c (laid sizes)).csize = (subSizes c sizes).sum := by rw [layout_exact]
  refine ⟨returns,?_,?_⟩
  · by_cases able : sizes ≠ [] ∧ c.splitParts * shardRows c sizes.sum < 2 ^ 63
    · obtain ⟨_,_,found⟩ := means_found c sizes shards positive order shuffled shaped able.1 able.2
      obtain ⟨_,_,again⟩ := means_found c sizes shards positive (List.range c.splitParts) (List.Perm.refl _)
        shaped able.1 able.2
      rw [found,again]
    · rw [← returns] at able
      have never := mt (fun some_run => returns.mpr (sorted.mp some_run)) able
      rw [Option.not_isSome_iff_eq_none.mp able,Option.not_isSome_iff_eq_none.mp never]
  · intro out ran
    obtain ⟨filled,fits⟩ := returns.mp (by simp [ran])
    obtain ⟨t,made,found⟩ := means_found c sizes shards positive order shuffled shaped filled fits
    obtain ⟨adds,each,once⟩ := added_once c sizes shards positive t made order shuffled shaped fits
    rw [found,Option.some_inj] at ran
    subst ran
    rw [csize]
    refine ⟨⟨t,adds,made,each,once⟩,by simp [divided,slotRows],by simp [divided,slotRows],?_⟩
    intro s bound
    have firsts := divided_exact c sizes shards 0 (firstHalf c) _ s bound
    have seconds := divided_exact c sizes shards 1 (secondHalf c) _ s bound
    refine ⟨firsts,seconds,?_,?_⟩
    · intro empty
      rw [firsts,groupMean_empty c sizes shards 0 (firstHalf c) s empty]
    · intro empty
      rw [seconds,groupMean_empty c sizes shards 1 (secondHalf c) s empty]

end

def sampleConstants : Constants := ⟨2,1,2,2,by decide,by decide,by decide⟩

def sampleShards (n : Nat) : Weight ℚ :=
  ⟨.float8e4m3fn,2,(List.range 3).map fun i column => (3 * n + i : ℚ) + column⟩

theorem sample_means : ∃ out, means sampleConstants (laid [3,2]) sampleShards [1,0] = some out ∧
    out.meanA.length = 3 ∧ out.meanA[0]? =
      some (groupMean sampleConstants [3,2] sampleShards 0 (firstHalf sampleConstants) 0) := by
  obtain ⟨returns,_,rows⟩ := means_exact sampleConstants [3,2] sampleShards (by decide) [1,0] (by decide)
    (fun n _ => ⟨rfl,by simp [sampleShards]; decide,rfl⟩)
  obtain ⟨out,ran⟩ := Option.isSome_iff_exists.mp (returns.mpr (by decide))
  obtain ⟨_,length,_,each⟩ := rows out ran
  exact ⟨out,ran,length,(each 0 (by decide)).1⟩

end OneSpark.HashMeans
