import OneSpark.DirectGather
import OneSpark.PackedGather
import OneSpark.StreamingSoftmax

namespace OneSpark.SparsePrefill
open Tensors Blocks Longs PackedGather StreamingSoftmax
open DirectGather (weighted total)

-- A block of columns, the warps and the stages up to a number of query rows; `none` is no limit.
def h20Configs : List (Option Nat × Nat × Nat × Nat) :=
  [(some 32,32,8,2),(some 64,64,8,2),(some 1024,32,4,2),(none,16,1,2)]
def l20Configs : List (Option Nat × Nat × Nat × Nat) :=
  [(some 32,32,8,2),(some 64,64,8,2),(some 128,64,4,2),(some 512,32,4,2),(none,16,1,2)]

-- The block size of _get_best_config; the warps and stages do not change what is computed.
def getBestConfig (h20 : Bool) (totalQ : Nat) : Option Nat :=
  let table := if h20 then h20Configs else l20Configs
  (table.find? fun config => config.1.all fun limit => decide (totalQ ≤ limit)).map fun config => config.2.1

theorem config_sizes (h20 : Bool) : (none,16,1,2) ∈ (if h20 then h20Configs else l20Configs) ∧
    ∀ config ∈ (if h20 then h20Configs else l20Configs), 0 < config.2.1 := by
  revert h20
  decide

theorem best_config (h20 : Bool) (totalQ : Nat) : ∃ blockN, getBestConfig h20 totalQ = some blockN ∧ 0 < blockN := by
  obtain ⟨last,positive⟩ := config_sizes h20
  have found : ((if h20 then h20Configs else l20Configs).find? fun config =>
      config.1.all fun limit => decide (totalQ ≤ limit)).isSome = true :=
    List.find?_isSome.mpr ⟨_,last,rfl⟩
  obtain ⟨config,same⟩ := Option.isSome_iff_exists.mp found
  exact ⟨config.2.1,by rw [getBestConfig,same]; rfl,positive config (List.mem_of_find?_eq_some same)⟩

structure Casts (K : Type) where
  query : K → K
  bfloat16 : K → K

-- The strides of a key or value tensor; the innermost one is 1, since every caller passes contiguous tensors.
structure Strides where
  n : Nat
  h : Nat

namespace Strides
variable (s : Strides)

-- The element a lane reads: the sequence starts at a 64-bit row, the other offsets are int32.
def address (base group : Nat) (token : Int) (d : Nat) : Int := base * s.n + int32 (group * s.h) + int32 (token * s.n) + d

def element (row group d : Nat) : Int := row * s.n + group * s.h + d

def Near (group token : Nat) : Prop := group * s.h < 2 ^ 31 ∧ token * s.n < 2 ^ 31

theorem address_near (base group token d : Nat) (near : s.Near group token) :
    s.address base group token d = s.element (base + token) group d := by
  have head := int32_small (group * s.h) near.1
  have row := int32_small (token * s.n) near.2
  rw [Nat.cast_mul] at head row
  rw [address,element,head,row,Nat.cast_add,Int.add_mul]
  omega

end Strides

-- The arguments both kernels share. Keys and values are the memory behind their pointers; an element of another
-- tensor is named by its indices. `indices` takes the query row, the key head and the column.
structure Arguments (K : Type) where
  q : Nat → Nat → Nat → K
  k : Int → K
  v : Int → K
  indices : Nat → Nat → Nat → Int
  sk : Strides
  sv : Strides
  scale : K
  topk : Nat
  numKvHeads : Nat
  groupSize : Nat
  blockM : Nat
  blockN : Nat
  headDim : Nat

namespace Arguments

-- row_limit, the end of the loop over the columns
def rowLimit (a : Arguments K) (visible : Int) : Nat :=
  let rowTopk := min (a.topk : Int) visible
  (min (a.topk : Int) ((rowTopk + a.blockN - 1).tdiv a.blockN * a.blockN)).toNat

-- What the loop's end leaves: it reaches every key the query may see, and stops at the last column or
-- at the end of a block.
theorem limit_parts (a : Arguments K) (positive : 0 < a.blockN) (visible : Int) : a.rowLimit visible ≤ a.topk ∧
    min (a.topk : Int) visible ≤ a.rowLimit visible ∧ (a.rowLimit visible = a.topk ∨ a.blockN ∣ a.rowLimit visible) := by
  unfold rowLimit
  simp only
  by_cases none : min (a.topk : Int) visible ≤ 0
  · have negative : (min (a.topk : Int) visible + a.blockN - 1).tdiv a.blockN ≤ 0 := by
      rcases le_or_gt 0 (min (a.topk : Int) visible + a.blockN - 1) with above | below
      · rw [Int.tdiv_eq_ediv_of_nonneg above,Int.ediv_eq_zero_of_lt above (by omega)]
      · have part := Int.tdiv_nonneg (a := -(min (a.topk : Int) visible + a.blockN - 1)) (b := a.blockN) (by omega) (by omega)
        rw [Int.neg_tdiv] at part
        omega
    have product : (min (a.topk : Int) visible + a.blockN - 1).tdiv a.blockN * a.blockN ≤ 0 :=
      Int.mul_nonpos_of_nonpos_of_nonneg negative (by omega)
    have zero : (min (a.topk : Int) ((min (a.topk : Int) visible + a.blockN - 1).tdiv a.blockN * a.blockN)).toNat = 0 := by omega
    rw [zero]
    exact ⟨Nat.zero_le _,by omega,.inr (Nat.dvd_zero _)⟩
  · obtain ⟨count,known⟩ := Int.eq_ofNat_of_zero_le (show 0 ≤ min (a.topk : Int) visible by omega)
    rw [known]
    have tiles : ((count : Int) + a.blockN - 1).tdiv a.blockN * a.blockN =
      (((count + a.blockN - 1) / a.blockN * a.blockN : Nat) : Int) := by
      rw [show (count : Int) + a.blockN - 1 = ((count + a.blockN - 1 : Nat) : Int) by omega,
        Int.tdiv_eq_ediv_of_nonneg (by omega),Nat.cast_mul,Int.natCast_ediv]
    have covers := rounded_covers count a.blockN positive
    rw [Nat.mul_comm] at covers
    rw [tiles]
    generalize (count + a.blockN - 1) / a.blockN = n at covers
    refine ⟨by omega,by omega,?_⟩
    rcases le_total a.topk (n * a.blockN) with whole | part
    · exact .inl (by omega)
    · refine .inr ?_
      rw [show (min (a.topk : Int) ((n * a.blockN : Nat) : Int)).toNat = n * a.blockN by omega]
      exact Nat.dvd_mul_left _ _

end Arguments

section
variable {K : Type} [Field K] [LinearOrder K]

def log2e : K := 14426950408 / 10000000000

namespace Arguments
variable (a : Arguments K) (e : Exponential K) (casts : Casts K)

def qValue (query group h d : Nat) : K :=
  casts.query (load (fun head => a.q query head d) (group * a.groupSize + h) (decide (h < a.groupSize)) 0 * a.scale * log2e)

-- One column of a block: a negative token is masked.
def column (query group base h current : Nat) : Column K Nat :=
  let token := load (a.indices query group) current (decide (current < a.topk)) (-1)
  { score := if 0 ≤ token then
      some (∑ d ∈ Finset.range a.headDim, a.qValue casts query group h d * casts.query (a.k (a.sk.address base group token d)))
    else none
    value := fun d => casts.bfloat16 (load a.v (a.sv.address base group token d) (decide (0 ≤ token)) 0) }

-- range(0, row_limit, BLOCK_N)
def blocks (query group base h : Nat) (visible : Int) : List (List (Column K Nat)) :=
  (List.range ((a.rowLimit visible + a.blockN - 1) / a.blockN)).map fun n =>
    (List.range' (n * a.blockN) a.blockN).map (a.column casts query group base h)

def output (query group base h : Nat) (visible : Int) (d : Nat) : Extended K :=
  Extended.map casts.query ((stream e casts.bfloat16 (a.blocks casts query group base h visible)).finish d)

def attend (query group base : Nat) (visible : Int) : List ((Nat × Nat × Nat) × Extended K) :=
  (List.range a.blockM).flatMap fun h => (List.range a.headDim).filterMap fun d =>
    if h < a.groupSize then some ((query,group * a.groupSize + h,d),a.output e casts query group base h visible d) else none

def program (cuQ base : Nat → Nat) (visible : Nat → Nat → Int) (program : Nat × Nat) :
    List ((Nat × Nat × Nat) × Extended K) :=
  let group := program.2 % a.numKvHeads
  let batch := program.2 / a.numKvHeads
  let query := cuQ batch + program.1
  if query ≥ cuQ (batch + 1) then [] else a.attend e casts query group (base batch) (visible batch program.1)

def sparseGqaPrefill (cuSeqlens : Nat → Nat) : Nat × Nat → List ((Nat × Nat × Nat) × Extended K) :=
  a.program e casts cuSeqlens cuSeqlens fun _ queryRelative => queryRelative + 1

def sparseGqaChunkPrefill (cuQ cuK kvLens : Nat → Nat) : Nat × Nat → List ((Nat × Nat × Nat) × Extended K) :=
  a.program e casts cuQ cuK fun batch queryRelative =>
    queryRelative + kvLens batch - ((cuQ (batch + 1) : Int) - cuQ batch) + 1

def counted (query group limit : Nat) : Finset Nat := (Finset.range limit).filter fun col => 0 ≤ a.indices query group col

def score (query group base h col : Nat) : K :=
  ∑ d ∈ Finset.range a.headDim,
    a.qValue casts query group h d * casts.query (a.k (a.sk.element (base + (a.indices query group col).toNat) group d))

def value (query group base col d : Nat) : K :=
  casts.bfloat16 (a.v (a.sv.element (base + (a.indices query group col).toNat) group d))

def Near (query group : Nat) : Prop := ∀ col < a.topk, 0 ≤ a.indices query group col →
  a.sk.Near group (a.indices query group col).toNat ∧ a.sv.Near group (a.indices query group col).toNat

section
omit [LinearOrder K]

theorem column_counts (query group base h col : Nat) (near : a.Near query group)
    (counts : col < a.topk ∧ 0 ≤ a.indices query group col) :
    a.column casts query group base h col = ⟨some (a.score casts query group base h col),a.value casts query group base col⟩ := by
  have token : load (a.indices query group) col (decide (col < a.topk)) (-1) = a.indices query group col :=
    if_pos (decide_eq_true counts.1)
  obtain ⟨keys,values⟩ := near col counts.1 counts.2
  have whole := Int.toNat_of_nonneg counts.2
  have key : ∀ d, a.sk.address base group (a.indices query group col) d =
      a.sk.element (base + (a.indices query group col).toNat) group d := by
    intro d
    rw [← a.sk.address_near base group _ d keys,whole]
  have value : ∀ d, a.sv.address base group (a.indices query group col) d =
      a.sv.element (base + (a.indices query group col).toNat) group d := by
    intro d
    rw [← a.sv.address_near base group _ d values,whole]
  unfold column
  simp only [token,if_pos counts.2,decide_eq_true counts.2,key,value]
  rfl

theorem column_masked (query group base h col : Nat) (masked : ¬ (col < a.topk ∧ 0 ≤ a.indices query group col)) :
    a.column casts query group base h col = ⟨none,fun _ => casts.bfloat16 0⟩ := by
  have token : ¬ 0 ≤ load (a.indices query group) col (decide (col < a.topk)) (-1) := by
    unfold load
    split
    · rename_i inside
      exact fun above => masked ⟨of_decide_eq_true inside,above⟩
    · omega
  unfold column
  simp only [if_neg token,decide_eq_false token]
  rfl

theorem live_columns (query group base h : Nat) (near : a.Near query group) (cols : List Nat) :
    live (cols.map (a.column casts query group base h)) =
      (cols.filter fun col => decide (col < a.topk ∧ 0 ≤ a.indices query group col)).map fun col =>
        (a.score casts query group base h col,a.value casts query group base col) := by
  induction cols with
  | nil => rfl
  | cons col rest ih =>
      rw [List.map_cons]
      by_cases counts : col < a.topk ∧ 0 ≤ a.indices query group col
      · rw [List.filter_cons_of_pos (by simpa using counts),List.map_cons,← ih,
          a.column_counts casts query group base h col near counts]
        exact live_counts _ _ _
      · rw [List.filter_cons_of_neg (by simpa using counts),← ih,a.column_masked casts query group base h col counts]
        exact live_masked _ _

end

omit [LinearOrder K] in
theorem columns_covered (positive : 0 < a.blockN) (query group base h : Nat) (near : a.Near query group) (visible : Int) :
    (a.blocks casts query group base h visible).flatMap live =
      ((List.range (a.rowLimit visible)).filter fun col => decide (0 ≤ a.indices query group col)).map fun col =>
        (a.score casts query group base h col,a.value casts query group base col) := by
  obtain ⟨within,_,last⟩ := a.limit_parts positive visible
  have covers := rounded_covers (a.rowLimit visible) a.blockN positive
  rw [Nat.mul_comm] at covers
  have flat : (a.blocks casts query group base h visible).flatMap live =
      live ((List.range ((a.rowLimit visible + a.blockN - 1) / a.blockN * a.blockN)).map
        (a.column casts query group base h)) := by
    rw [← tiles_cover,List.map_flatMap,blocks,List.flatMap_map]
    unfold live
    rw [List.filterMap_flatMap]
  rw [flat,a.live_columns casts query group base h near]
  congr 1
  obtain ⟨rest,parts⟩ := Nat.exists_eq_add_of_le covers
  rw [parts,List.range_add,List.filter_append]
  have tail : ((List.range rest).map (a.rowLimit visible + ·)).filter
      (fun col => decide (col < a.topk ∧ 0 ≤ a.indices query group col)) = [] := by
    rw [List.filter_eq_nil_iff]
    intro col member
    obtain ⟨k,inside,rfl⟩ := List.mem_map.mp member
    have small := List.mem_range.mp inside
    rcases last with whole | divides
    · simp only [decide_eq_true_iff]
      omega
    · obtain ⟨n,same⟩ := divides
      have exact_tiles : (a.rowLimit visible + a.blockN - 1) / a.blockN * a.blockN = a.rowLimit visible := by
        rw [same,Nat.add_sub_assoc positive,Nat.mul_add_div positive,Nat.div_eq_of_lt (by omega),Nat.add_zero,Nat.mul_comm]
      omega
  rw [tail,List.append_nil]
  apply List.filter_congr
  intro col member
  have inside : col < a.topk := Nat.lt_of_lt_of_le (List.mem_range.mp member) within
  simp [inside]

def firstCounted (query group : Nat) : Finset Nat := a.counted query group (min a.blockN a.topk)

omit [LinearOrder K] in
theorem first_columns (query group base h : Nat) (near : a.Near query group) :
    live ((List.range' (0 * a.blockN) a.blockN).map (a.column casts query group base h)) = [] ↔
      a.firstCounted query group = ∅ := by
  rw [a.live_columns casts query group base h near,List.map_eq_nil_iff,List.filter_eq_nil_iff,firstCounted,counted,
    Finset.filter_eq_empty_iff]
  simp only [Nat.zero_mul,List.mem_range'_1,decide_eq_true_iff,Finset.mem_range]
  constructor
  · intro none col inside above
    exact none col (by omega) ⟨by omega,above⟩
  · intro none col inside counts
    exact none (by omega) counts.2

omit [LinearOrder K] in
theorem blocks_head (positive : 0 < a.blockN) (query group base h : Nat) (visible : Int) (limit : 0 < a.rowLimit visible) :
    ∃ rest, a.blocks casts query group base h visible =
      (List.range' (0 * a.blockN) a.blockN).map (a.column casts query group base h) :: rest := by
  have some : 0 < (a.rowLimit visible + a.blockN - 1) / a.blockN := Nat.div_pos (by omega) positive
  obtain ⟨more,same⟩ := Nat.exists_eq_succ_of_ne_zero (ne_of_gt some)
  rw [blocks,same,List.range_succ_eq_map,List.map_cons]
  exact ⟨_,rfl⟩

theorem mean_weighted (query group base h limit : Nat) (f : K → K) (d : Nat) :
    mean e (((List.range limit).filter fun col => decide (0 ≤ a.indices query group col)).map fun col =>
        (a.score casts query group base h col,a.value casts query group base col)) (fun value => f (value d)) =
      weighted e.power (a.counted query group limit) (a.score casts query group base h)
        fun col => f (a.value casts query group base col d) := by
  have sums : ∀ g : Nat → K, (((List.range limit).filter fun col => decide (0 ≤ a.indices query group col)).map g).sum =
      ∑ col ∈ a.counted query group limit, g col := by
    intro g
    rw [← List.sum_toFinset g (List.nodup_range.filter _),List.toFinset_filter,List.toFinset_range]
    simp [counted]
  unfold mean weightedSum totalWeight weighted total
  simp only [List.map_map,Function.comp_def,sub_zero,sums]

-- A row whose first block has no column that counts, or that reads no block, is no number.
theorem output_lost (positive : 0 < a.blockN) (query group base h : Nat) (near : a.Near query group) (visible : Int) (d : Nat)
    (lost : a.rowLimit visible = 0 ∨ a.firstCounted query group = ∅) :
    a.output e casts query group base h visible d = .nan := by
  rw [output,finish_lost]
  · rfl
  · intro first head
    rcases Nat.eq_zero_or_pos (a.rowLimit visible) with zero | some
    · rw [blocks,zero,Nat.zero_add,Nat.div_eq_of_lt (by omega)] at head
      cases head
    · obtain ⟨rest,same⟩ := a.blocks_head casts positive query group base h visible some
      rw [same] at head
      cases head
      exact (a.first_columns casts query group base h near).mpr (lost.resolve_left (ne_of_gt some))

variable [IsStrictOrderedRing K] {relative absolute : K} (rounds : Rounds casts.bfloat16 relative absolute)
include rounds

theorem output_near (positive : 0 < a.blockN) (query group base h : Nat) (reached : a.Near query group) (visible : Int) (d : Nat)
    (limit : 0 < a.rowLimit visible) (first : a.firstCounted query group ≠ ∅) :
    ∃ value, a.output e casts query group base h visible d = .fin (casts.query value) ∧
      |value - weighted e.power (a.counted query group (a.rowLimit visible)) (a.score casts query group base h)
          fun col => a.value casts query group base col d| ≤
        relative * weighted e.power (a.counted query group (a.rowLimit visible)) (a.score casts query group base h)
          (fun col => |a.value casts query group base col d|) +
        absolute * ∑ col ∈ a.counted query group (a.rowLimit visible), |a.value casts query group base col d| := by
  obtain ⟨rest,same⟩ := a.blocks_head casts positive query group base h visible limit
  have covered := a.columns_covered casts positive query group base h reached visible
  have something := fun none => first ((a.first_columns casts query group base h reached).mp none)
  obtain ⟨value,finished,near⟩ := finish_near e rounds _ rest d something
  rw [← same] at finished near
  rw [covered,a.mean_weighted e casts query group base h _ (fun value => value) d,
    a.mean_weighted e casts query group base h _ (fun value => |value|) d] at near
  have sums : ((((List.range (a.rowLimit visible)).filter fun col => decide (0 ≤ a.indices query group col)).map fun col =>
      (a.score casts query group base h col,a.value casts query group base col)).map fun column => |column.2 d|).sum =
      ∑ col ∈ a.counted query group (a.rowLimit visible), |a.value casts query group base col d| := by
    rw [List.map_map,← List.sum_toFinset _ (List.nodup_range.filter _),List.toFinset_filter,List.toFinset_range]
    simp [counted]
  rw [sums] at near
  exact ⟨value,by rw [output,finished]; rfl,near⟩

end Arguments

end

-- What an indexer hands over for one query row: columns without a hole before one that counts, naming
-- keys of their own that the query may see.
structure Selects (indices : Nat → Nat → Nat → Int) (topk query group : Nat) (visible : Int) : Prop where
  front : ∀ col later, col < later → later < topk → 0 ≤ indices query group later → 0 ≤ indices query group col
  seen : ∀ col < topk, 0 ≤ indices query group col → indices query group col < visible
  distinct : ∀ col < topk, ∀ other < topk, 0 ≤ indices query group col →
    indices query group col = indices query group other → col = other

namespace Arguments
variable {K : Type} (a : Arguments K)

theorem counted_first (query group : Nat) (visible : Int) (selects : Selects a.indices a.topk query group visible) :
    ∃ count : Nat, count ≤ a.topk ∧ (count : Int) ≤ max visible 0 ∧
      ∀ limit ≤ a.topk, a.counted query group limit = Finset.range (min limit count) := by
  have columns := Step.front_columns (fun col => decide (0 ≤ a.indices query group col)) a.topk
    fun col later before inside counts => decide_eq_true (selects.front col later before inside (of_decide_eq_true counts))
  generalize known : ((List.range a.topk).filter fun col => decide (0 ≤ a.indices query group col)).length = count at columns
  have counts : ∀ col < a.topk, 0 ≤ a.indices query group col ↔ col < count := by
    intro col inside
    have same : col ∈ (List.range a.topk).filter (fun col => decide (0 ≤ a.indices query group col)) ↔
      col ∈ List.range count := by
      rw [columns]
    simpa [inside] using same
  have bound : count ≤ a.topk := by
    have length := List.length_filter_le (fun col => decide (0 ≤ a.indices query group col)) (List.range a.topk)
    rwa [known,List.length_range] at length
  refine ⟨count,bound,?_,?_⟩
  · have injects : (Finset.range count).card ≤ (Finset.range visible.toNat).card := by
      apply Finset.card_le_card_of_injOn fun col => (a.indices query group col).toNat
      · intro col member
        have inside := Nat.lt_of_lt_of_le (Finset.mem_range.mp member) bound
        have above := (counts col inside).mpr (Finset.mem_range.mp member)
        have below := selects.seen col inside above
        simp only [Finset.coe_range,Set.mem_Iio]
        omega
      · intro col member other member' same
        have inside := Nat.lt_of_lt_of_le (Finset.mem_range.mp member) bound
        have inside' := Nat.lt_of_lt_of_le (Finset.mem_range.mp member') bound
        have above := (counts col inside).mpr (Finset.mem_range.mp member)
        have above' := (counts other inside').mpr (Finset.mem_range.mp member')
        exact selects.distinct col inside other inside' above (by simp only at same; omega)
    rw [Finset.card_range,Finset.card_range] at injects
    omega
  · intro limit within
    ext col
    simp only [counted,Finset.mem_filter,Finset.mem_range]
    constructor
    · rintro ⟨below,above⟩
      exact lt_min below ((counts col (by omega)).mp above)
    · intro below
      exact ⟨by omega,(counts col (by omega)).mpr (by omega)⟩

theorem selected_exact (positive : 0 < a.blockN) (query group : Nat) (visible : Int)
    (selects : Selects a.indices a.topk query group visible) :
    a.counted query group (a.rowLimit visible) = a.counted query group a.topk ∧
      (a.rowLimit visible = 0 ∨ a.firstCounted query group = ∅ ↔ a.counted query group a.topk = ∅) := by
  obtain ⟨count,bound,seen,columns⟩ := a.counted_first query group visible selects
  obtain ⟨within,reaches,_⟩ := a.limit_parts positive visible
  rw [columns _ within,columns _ (le_refl _),firstCounted,columns _ (min_le_right _ _)]
  simp only [Finset.range_eq_empty_iff]
  exact ⟨by congr 1; omega,by omega⟩

end Arguments

def grid (rows batch numKvHeads : Nat) : List (Nat × Nat) :=
  (List.range rows).flatMap fun row => (List.range (batch * numKvHeads)).map fun group => (row,group)

theorem grid_exact (rows batch numKvHeads row group : Nat) :
    (row,group) ∈ grid rows batch numKvHeads ↔ row < rows ∧ group < batch * numKvHeads := by
  simp [grid]

section
variable {K : Type} [Field K] [LinearOrder K] (a : Arguments K) (e : Exponential K) (casts : Casts K)

theorem program_stores (tile : a.groupSize ≤ a.blockM) (cuQ base : Nat → Nat) (visible : Nat → Nat → Int) (row batch group : Nat)
    (small : group < a.numKvHeads) (store : (Nat × Nat × Nat) × Extended K) :
    store ∈ a.program e casts cuQ base visible (row,batch * a.numKvHeads + group) ↔
      cuQ batch + row < cuQ (batch + 1) ∧ ∃ h < a.groupSize, ∃ d < a.headDim,
        store = ((cuQ batch + row,group * a.groupSize + h,d),
          a.output e casts (cuQ batch + row) group (base batch) h (visible batch row) d) := by
  obtain ⟨quotient,rest⟩ := place_parts batch a.numKvHeads group small
  unfold Arguments.program
  simp only [quotient,rest]
  split
  · rename_i outside
    exact ⟨fun impossible => absurd impossible List.not_mem_nil,fun found => absurd found.1 (by omega)⟩
  · rename_i inside
    simp only [Arguments.attend,List.mem_flatMap,List.mem_filterMap,List.mem_range]
    constructor
    · rintro ⟨h,_,d,dims,made⟩
      split at made
      · rename_i member
        exact ⟨by omega,h,member,d,dims,(Option.some_inj.mp made).symm⟩
      · cases made
    · rintro ⟨_,h,member,d,dims,rfl⟩
      exact ⟨h,Nat.lt_of_lt_of_le member tile,d,dims,if_pos member⟩

variable (tile : a.groupSize ≤ a.blockM) (lens : List Nat) (cuQ base : Nat → Nat) (visible : Nat → Nat → Int)
  (starts : ∀ i ≤ lens.length, cuQ i = offset lens i) (rows : Nat) (covers : ∀ len ∈ lens, len ≤ rows)
  (programs : List (Nat × Nat)) (order : programs.Perm (grid rows lens.length a.numKvHeads))
include tile starts order

theorem stored_parts (store : (Nat × Nat × Nat) × Extended K)
    (member : store ∈ programs.flatMap (a.program e casts cuQ base visible)) :
    ∃ i j, Within lens i (offset lens i + j) ∧ ∃ group < a.numKvHeads, ∃ h < a.groupSize, ∃ d < a.headDim,
      store = ((offset lens i + j,group * a.groupSize + h,d),
        a.output e casts (offset lens i + j) group (base i) h (visible i j) d) := by
  obtain ⟨⟨row,place⟩,inside,made⟩ := List.mem_flatMap.mp member
  obtain ⟨_,bound⟩ := (grid_exact _ _ _ _ _).mp (order.mem_iff.mp inside)
  have heads : 0 < a.numKvHeads := by
    rcases Nat.eq_zero_or_pos a.numKvHeads with none | some
    · rw [none,Nat.mul_zero] at bound
      omega
    · exact some
  have batch : place / a.numKvHeads < lens.length := (Nat.div_lt_iff_lt_mul heads).mpr bound
  rw [← Nat.div_add_mod' place a.numKvHeads] at made
  obtain ⟨below,h,small,d,dims,rfl⟩ := (program_stores a e casts tile cuQ base visible row _ _ (Nat.mod_lt _ heads) store).mp made
  rw [starts _ (le_of_lt batch)] at below ⊢
  rw [starts _ (Nat.succ_le_of_lt batch)] at below
  exact ⟨_,row,(within_iff _ _ _).mpr ⟨Nat.le_add_right _ _,below⟩,_,Nat.mod_lt _ heads,h,small,d,dims,rfl⟩

-- Each query row and head is written with its own output, whatever the order of the programs.
include covers in
theorem launch_row (fresh : Nat × Nat × Nat → Extended K) (i j head d : Nat) (within : Within lens i (offset lens i + j))
    (heads : head < a.numKvHeads * a.groupSize) (dims : d < a.headDim) :
    put fresh (programs.flatMap (a.program e casts cuQ base visible)) (offset lens i + j,head,d) =
      a.output e casts (offset lens i + j) (head / a.groupSize) (base i) (head % a.groupSize) (visible i j) d := by
  have positive : 0 < a.groupSize := by
    rcases Nat.eq_zero_or_pos a.groupSize with none | some
    · rw [none,Nat.mul_zero] at heads
      omega
    · exact some
  have group : head / a.groupSize < a.numKvHeads := (Nat.div_lt_iff_lt_mul positive).mpr heads
  have place : head / a.groupSize * a.groupSize + head % a.groupSize = head := Nat.div_add_mod' head a.groupSize
  obtain ⟨size,found,_,room⟩ := id within
  have batch := (List.getElem?_eq_some_iff.mp found).1
  refine put_agreed fresh _ _ _ ⟨_,List.mem_flatMap.mpr ⟨(j,i * a.numKvHeads + head / a.groupSize),order.mem_iff.mpr ?_,
    (program_stores a e casts tile cuQ base visible j i _ group _).mpr
      ⟨?_,head % a.groupSize,Nat.mod_lt _ positive,d,dims,rfl⟩⟩,?_⟩ ?_
  · refine (grid_exact _ _ _ _ _).mpr ⟨?_,?_⟩
    · have bound := covers size (List.mem_of_getElem? found)
      omega
    · have next := Nat.mul_le_mul_right a.numKvHeads (Nat.succ_le_of_lt batch)
      rw [Nat.succ_mul] at next
      omega
  · rw [starts i (le_of_lt batch),starts _ (Nat.succ_le_of_lt batch)]
    exact within_next _ _ _ within
  · simp only [starts i (le_of_lt batch),place]
  · intro store member same
    obtain ⟨i',j',within',group',_,h',small',d',_,rfl⟩ := stored_parts a e casts tile lens cuQ base visible starts rows
      programs order store member
    simp only [Prod.mk.injEq] at same
    obtain ⟨row,head',rfl⟩ := same
    obtain rfl := within_unique lens i' i _ (row ▸ within') within
    obtain rfl : j' = j := by omega
    obtain ⟨rfl,rfl⟩ := place_unique group' h' _ _ _ small' (Nat.mod_lt head positive) (head'.trans place.symm)
    rfl

theorem launch_other (fresh : Nat × Nat × Nat → Extended K) (row head d : Nat)
    (outside : lens.sum ≤ row ∨ a.numKvHeads * a.groupSize ≤ head ∨ a.headDim ≤ d) :
    put fresh (programs.flatMap (a.program e casts cuQ base visible)) (row,head,d) = fresh (row,head,d) := by
  apply put_other
  intro store member same
  obtain ⟨i,j,within,group,below,h,small,d',dims,rfl⟩ := stored_parts a e casts tile lens cuQ base visible starts rows
    programs order store member
  simp only [Prod.mk.injEq] at same
  have inside := within_sum lens i _ within
  have next := Nat.mul_le_mul_right a.groupSize (Nat.succ_le_of_lt below)
  rw [Nat.succ_mul] at next
  omega

end

-- A whole launch, in any order of its programs. A row is no number exactly when it reads no block or its first
-- block has no column that counts; any other is the softmax mean of the columns up to its limit, but for the
-- casts of the weights; and no other place of the output is written.
theorem launch_exact {K : Type} [Field K] [LinearOrder K] [IsStrictOrderedRing K] (a : Arguments K) (e : Exponential K)
    (casts : Casts K) {relative absolute : K} (rounds : Rounds casts.bfloat16 relative absolute) (block : 0 < a.blockN)
    (tile : a.groupSize ≤ a.blockM) (lens : List Nat) (cuQ base : Nat → Nat) (visible : Nat → Nat → Int)
    (starts : ∀ i ≤ lens.length, cuQ i = offset lens i) (rows : Nat) (covers : ∀ len ∈ lens, len ≤ rows)
    (near : ∀ query < lens.sum, ∀ group < a.numKvHeads, a.Near query group) (programs : List (Nat × Nat))
    (order : programs.Perm (grid rows lens.length a.numKvHeads)) (fresh : Nat × Nat × Nat → Extended K) :
    let out := put fresh (programs.flatMap (a.program e casts cuQ base visible))
    (∀ i j, Within lens i (offset lens i + j) → ∀ head < a.numKvHeads * a.groupSize, ∀ d < a.headDim,
      let query := offset lens i + j
      let group := head / a.groupSize
      let limit := a.rowLimit (visible i j)
      let mean := weighted e.power (a.counted query group limit) (a.score casts query group (base i) (head % a.groupSize))
      let value := fun col => a.value casts query group (base i) col d
      (out (query,head,d) = .nan ↔ limit = 0 ∨ a.firstCounted query group = ∅) ∧
      (out (query,head,d) ≠ .nan → ∃ result, out (query,head,d) = .fin (casts.query result) ∧
        |result - mean value| ≤ relative * mean (fun col => |value col|) +
          absolute * ∑ col ∈ a.counted query group limit, |value col|)) ∧
    ∀ row head d, lens.sum ≤ row ∨ a.numKvHeads * a.groupSize ≤ head ∨ a.headDim ≤ d → out (row,head,d) = fresh (row,head,d) := by
  intro out
  constructor
  · intro i j within head heads d dims query group limit mean value
    have row : out (query,head,d) = a.output e casts query group (base i) (head % a.groupSize) (visible i j) d :=
      launch_row a e casts tile lens cuQ base visible starts rows covers programs order fresh i j head d within heads dims
    have positive : 0 < a.groupSize := by
      rcases Nat.eq_zero_or_pos a.groupSize with none | some
      · rw [none,Nat.mul_zero] at heads
        omega
      · exact some
    have reached := near query (within_sum _ _ _ within) group ((Nat.div_lt_iff_lt_mul positive).mpr heads)
    rw [row]
    by_cases lost : limit = 0 ∨ a.firstCounted query group = ∅
    · have none := a.output_lost e casts block query group (base i) (head % a.groupSize) reached (visible i j) d lost
      exact ⟨⟨fun _ => lost,fun _ => none⟩,fun some => absurd none some⟩
    · have parts := not_or.mp lost
      obtain ⟨result,stored,near⟩ := a.output_near e casts rounds block query group (base i)
        (head % a.groupSize) reached (visible i j) d
        (Nat.pos_of_ne_zero parts.1) parts.2
      refine ⟨⟨?_,fun impossible => absurd impossible lost⟩,fun _ => ⟨result,stored,near⟩⟩
      intro none
      rw [stored] at none
      cases none
  · exact launch_other a e casts tile lens cuQ base visible starts rows programs order fresh

noncomputable def exp2 : Exponential ℝ where
  power := fun x => ((2 : ℕ) : ℝ) ^ x
  positive := fun x => Real.rpow_pos_of_pos (Nat.cast_pos.mpr Nat.two_pos) x
  power_add := fun x y => Real.rpow_add (Nat.cast_pos.mpr Nat.two_pos) x y
  mono := fun _ _ below => Real.rpow_le_rpow_of_exponent_le (Nat.one_le_cast.mpr Nat.two_pos) below

-- Two rows of one sequence in one-column blocks: the hole in front of the second row's only column loses it.
def holeArguments (K : Type) [Field K] : Arguments K :=
  ⟨fun _ _ _ => 1,fun _ => 1,fun address => address,fun query _ col => if query = col then 0 else -1,⟨1,1⟩,⟨1,1⟩,1,2,1,1,16,1,1⟩

theorem hole_lost :
    let out := put (fun _ => .fin 3) ((grid 2 1 1).flatMap ((holeArguments ℝ).sparseGqaPrefill exp2
      ⟨id,id⟩ fun i => offset [2] i))
    out (0,0,0) ≠ .nan ∧ out (1,0,0) = .nan ∧ out (2,0,0) = .fin 3 := by
  have rounds : Rounds (id : ℝ → ℝ) 0 0 := ⟨rfl,by simp,le_refl _,le_refl _⟩
  have near : ∀ query < [2].sum, ∀ group < (holeArguments ℝ).numKvHeads, (holeArguments ℝ).Near query group := by
    intro query _ group small col _ _
    obtain rfl : group = 0 := Nat.lt_one_iff.mp small
    have token : ((holeArguments ℝ).indices query 0 col).toNat = 0 := by
      show (if query = col then (0 : Int) else -1).toNat = 0
      split <;> rfl
    rw [token]
    exact ⟨⟨by decide,by decide⟩,by decide,by decide⟩
  obtain ⟨rows,others⟩ := launch_exact (holeArguments ℝ) exp2 ⟨id,id⟩ rounds Nat.one_pos (show 1 ≤ 16 by decide) [2]
    (fun i => offset [2] i) (fun i => offset [2] i) (fun _ j => j + 1) (fun _ _ => rfl) 2 (by decide)
    near (grid 2 1 1) (List.Perm.refl _)
    (fun _ => .fin 3)
  refine ⟨?_,?_,others 2 0 0 (.inl (le_refl _))⟩
  · intro none
    rcases (rows 0 0 ⟨2,rfl,by decide⟩ 0 Nat.one_pos 0 Nat.one_pos).1.mp none with limit | first
    · cases limit
    · have member : 0 ∈ (holeArguments ℝ).firstCounted 0 0 :=
        Finset.mem_filter.mpr ⟨Finset.mem_range.mpr Nat.one_pos,le_refl _⟩
      rw [show (holeArguments ℝ).firstCounted 0 0 = ∅ from first] at member
      cases member
  · refine (rows 0 1 ⟨2,rfl,by decide⟩ 0 Nat.one_pos 0 Nat.one_pos).1.mpr (.inr ?_)
    show (Finset.range 1).filter (fun col => 0 ≤ if 1 = col then (0 : Int) else -1) = ∅
    decide

structure Tensor (K : Type) where
  rows : Nat
  heads : Nat
  dim : Nat
  entry : Nat → Nat → Nat → K

-- Selected positions of every query row: one list for all key heads, or one for each.
structure Indices where
  rows : Nat
  columns : Nat
  entry : (Nat → Nat → Int) ⊕ (Nat → Nat → Nat → Int)

def Indices.read (indices : Indices) : Nat → Nat → Nat → Int :=
  match indices.entry with
  | .inl shared => fun row _ col => shared row col
  | .inr grouped => grouped

-- What the kernels take from the device: its arithmetic, the order it runs programs in, and what
-- an uninitialised tensor and the memory in front of a tensor and behind it hold.
structure Device (K : Type) [Field K] [LinearOrder K] where
  exponential : Exponential K
  casts : Casts K
  h20 : Bool
  order : List (Nat × Nat) → List (Nat × Nat)
  complete : ∀ programs, (order programs).Perm programs
  fresh : Nat × Nat × Nat → Extended K
  before : Int → K
  beyond : Nat → Nat → K

section
variable {K : Type} [Field K] [LinearOrder K] (device : Device K)

def flat (before : Int → K) (heads dim : Nat) (entry : Nat → Nat → Nat → K) (address : Int) : K :=
  if address < 0 then before address
  else entry (address.toNat / (heads * dim)) (address.toNat % (heads * dim) / dim) (address.toNat % dim)

def strides (heads dim : Nat) : Strides := ⟨heads * dim,dim⟩

-- The launch arguments; `//` by zero heads raises.
def Device.arguments (q k v : Tensor K) (indices : Indices) (scale : K) : Option (Arguments K) :=
  if k.heads = 0 then none else
  (getBestConfig device.h20 q.rows).map fun blockN =>
    let groupSize := q.heads / k.heads
    ⟨q.entry,flat device.before k.heads k.dim k.entry,flat device.before v.heads v.dim v.entry,indices.read,strides k.heads k.dim,
      strides v.heads v.dim,scale,indices.columns,k.heads,groupSize,max 16 (nextPowerOf2 groupSize),blockN,q.dim⟩

def sparseGqaFwdInterfaceTriton (q k v : Tensor K) (maxSeqlenK : Nat) (indices : Indices) (cuSeqlens : List Nat) (scale : K) :
    Option (Nat × Nat × Nat → Extended K) :=
  (device.arguments q k v indices scale).map fun a =>
    put device.fresh ((device.order (grid maxSeqlenK (cuSeqlens.length - 1) k.heads)).flatMap
      (a.sparseGqaPrefill device.exponential device.casts fun i => cuSeqlens.getD i 0))

-- max_q is the maximum of a tensor of differences, which an empty tensor does not have.
def sparseGqaFwdInterfaceTritonCk (q k v : Tensor K) (indices : Indices) (cuQ cuK kvLens : List Nat) (scale : K) :
    Option (Nat × Nat × Nat → Extended K) := do
  let a ← device.arguments q k v indices scale
  let maxQ ← (cuQ.tail.zipWith (· - ·) cuQ).max?
  return put device.fresh ((device.order (grid maxQ (cuQ.length - 1) k.heads)).flatMap
    (a.sparseGqaChunkPrefill device.exponential device.casts (fun i => cuQ.getD i 0) (fun i => cuK.getD i 0)
      fun i => kvLens.getD i 0))

theorem arguments_parts (q k v : Tensor K) (indices : Indices) (scale : K) (heads : 0 < k.heads) :
    ∃ blockN, 0 < blockN ∧ device.arguments q k v indices scale =
      some ⟨q.entry,flat device.before k.heads k.dim k.entry,flat device.before v.heads v.dim v.entry,indices.read,
        strides k.heads k.dim,strides v.heads v.dim,scale,indices.columns,k.heads,q.heads / k.heads,
        max 16 (nextPowerOf2 (q.heads / k.heads)),blockN,q.dim⟩ := by
  obtain ⟨blockN,found,positive⟩ := best_config device.h20 q.rows
  exact ⟨blockN,positive,by rw [Device.arguments,if_neg (ne_of_gt heads),found]; rfl⟩

omit [Field K] [LinearOrder K] in
theorem flat_element (before : Int → K) (heads dim : Nat) (entry : Nat → Nat → Nat → K) (row group d : Nat)
    (head : group < heads) (small : d < dim) :
    flat before heads dim entry ((strides heads dim).element row group d) = entry row group d := by
  have place : ((strides heads dim).element row group d) = (row * (heads * dim) + (group * dim + d) : Nat) := by
    unfold strides Strides.element
    push_cast
    ring
  obtain ⟨tile,rest⟩ := place_parts row (heads * dim) (group * dim + d)
    (Step.row_below group d dim _ small (Nat.mul_le_mul_right _ head))
  obtain ⟨outer,inner⟩ := place_parts group dim d small
  have last : (row * (heads * dim) + (group * dim + d)) % dim = d := by
    rw [← Nat.mul_assoc,← Nat.add_assoc,← Nat.add_mul]
    exact (place_parts _ dim d small).2
  rw [flat,place,if_neg (by omega),Int.toNat_natCast,tile,rest,outer,last]

theorem tile_holds (groupSize : Nat) : groupSize ≤ max 16 (nextPowerOf2 groupSize) :=
  le_trans (Nat.le_pow_clog (by decide) groupSize) (le_max_right _ _)

end

end OneSpark.SparsePrefill
