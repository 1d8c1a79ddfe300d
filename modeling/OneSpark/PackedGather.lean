import OneSpark.Blocks
import OneSpark.Longs

namespace OneSpark.PackedGather
open Tensors Blocks Longs

-- A masked lane loads `other` and touches no memory.
def load (memory : ι → α) (address : ι) (mask : Bool) (other : α) : α := if mask then memory address else other

-- triton.next_power_of_2
def nextPowerOf2 (n : Nat) : Nat := 2 ^ Nat.clog 2 n

-- _fa2_valid_counts, the program of one row. A pointer and an int32 offset add up without wrapping.
def fa2ValidCounts (seqLens : Nat → Nat) (indices : Int → Int) (topk strideI blockTopk row : Nat) : Nat :=
  let length := seqLens row
  let positions := (List.range blockTopk).map fun (col : Nat) => load indices (int32 (row * strideI) + col)
    (decide (col < topk)) (-1)
  (positions.map fun (position : Int) => if 0 ≤ position ∧ position < length then 1 else 0).sum

theorem ones_counted (values : List α) (chosen : α → Bool) :
    (values.map fun value => if chosen value = true then 1 else 0).sum = (values.filter chosen).length := by
  induction values with
  | nil => rfl
  | cons value rest ih =>
      cases here : chosen value <;> simp [here,ih,Nat.add_comm]

-- The arguments of _compact_kv but for the two caches and their scratch. A tensor is the memory behind its
-- pointer; `reqBits` is the width of req_indices.
structure CompactKv where
  reqToToken : Int → Nat
  reqIndices : Nat → Nat
  indices : Int → Int
  seqLens : Nat → Nat
  cuK : Nat → Int
  topk : Nat
  heads : Nat
  dim : Nat
  reqStride : Nat
  idxStride : Nat
  blockTopk : Nat
  blockD : Nat
  reqBits : Nat

namespace CompactKv
variable (c : CompactKv)

-- The lane of a column: its position, whether it is stored and the slot it loads.
def positions (batch col : Nat) : Int := load c.indices (int32 (batch * c.idxStride) + col) (decide (col < c.topk)) (-1)

def valid (batch col : Nat) : Bool :=
  let packStart := c.cuK batch
  let validCount := int32 (c.cuK (batch + 1) - packStart)
  decide (col < validCount ∧ 0 ≤ c.positions batch col ∧ c.positions batch col < c.seqLens batch)

def slots (batch col : Nat) : Nat :=
  load c.reqToToken (wrapped c.reqBits (c.reqIndices batch * c.reqStride) +
    (if c.valid batch col then c.positions batch col else 0))
    (c.valid batch col) 0

-- The stores of one program to out_k; those to out_v are the same ones from v.
def stores (k : Int → α) (batch head block : Nat) : List (Int × α) :=
  (List.range c.blockTopk).flatMap fun lane =>
    let col := block * c.blockTopk + lane
    (List.range c.blockD).filterMap fun (d : Nat) =>
      let src := int32 (c.slots batch col * c.heads * c.dim + head * c.dim + d)
      let dst := int32 ((c.cuK batch + col) * c.heads * c.dim + head * c.dim + d)
      if c.valid batch col ∧ d < c.dim then some (dst,k src) else none

end CompactKv

def trtllmSparsePageSize : Nat := 64

-- What one decode step hands the sparse attention: the memory of its tables, the caches of shape [slots, heads, dim].
structure Step where
  batch : Nat
  topk : Nat
  heads : Nat
  dim : Nat
  topkIndices : Int → Int
  sequenceLens : Nat → Nat
  reqPoolIndices : Nat → Nat
  reqToToken : Int → Nat
  reqWidth : Nat
  isCudaGraph : Bool

namespace Step
variable (s : Step)

def pagesPerRow : Nat := (s.topk + trtllmSparsePageSize - 1) / trtllmSparsePageSize
def stride : Nat := s.pagesPerRow * trtllmSparsePageSize

-- The request indices are int32 rows in a graph, and the int64 ones of the batch otherwise.
def reqBits : Nat := if s.isCudaGraph then 32 else 64

-- _get_trtllm_sparse_tables
def cuStrided (row : Nat) : Int := int32 (row * s.stride)
def blockTables (row page : Nat) : Int := int32 (row * s.pagesPerRow + page)

-- qwen_sparse_valid_counts_triton
def validCounts (row : Nat) : Nat :=
  fa2ValidCounts s.sequenceLens s.topkIndices s.topk s.topk (nextPowerOf2 s.topk) row

-- qwen_sparse_kv_extraction_compact_triton
def compact : CompactKv :=
  ⟨s.reqToToken,s.reqPoolIndices,s.topkIndices,s.sequenceLens,s.cuStrided,s.topk,s.heads,s.dim,s.reqWidth,s.topk,16,
    nextPowerOf2 s.dim,s.reqBits⟩

def grid : List (Nat × Nat × Nat) :=
  (List.range s.batch).flatMap fun batch => (List.range s.heads).flatMap fun head =>
    (List.range ((s.topk + 16 - 1) / 16)).map fun block => (batch,head,block)

def packed (programs : List (Nat × Nat × Nat)) (k scratch : Int → α) : Int → α :=
  put scratch (programs.flatMap fun p => s.compact.stores k p.1 p.2.1 p.2.2)

-- packed.view(-1, page, heads, dim).permute(0, 2, 1, 3)
def pageView (buffer : Int → α) (page : Int) (head place d : Nat) : α :=
  buffer (((page * trtllmSparsePageSize + place) * s.heads + head) * s.dim + d)

def attended (buffer : Int → α) (row j : Nat) : List α :=
  (List.range (s.heads * s.dim)).map fun e =>
    s.pageView buffer (s.blockTables row (j / trtllmSparsePageSize)) (e / s.dim) (j % trtllmSparsePageSize) (e % s.dim)

-- The direct branch: which columns count, the slot each reads, and that slot's heads.
def position (row col : Nat) : Int := s.topkIndices (row * s.topk + col)
def valid (row col : Nat) : Bool := decide (0 ≤ s.position row col ∧ s.position row col < s.sequenceLens row)
def slot (row col : Nat) : Nat := s.reqToToken (s.reqPoolIndices row * s.reqWidth + max (s.position row col) 0)
def kvRow (buffer : Int → α) (slot : Nat) : List α :=
  (List.range (s.heads * s.dim)).map fun e => buffer (slot * (s.heads * s.dim) + e : Nat)

def validColumns (row : Nat) : List Nat := (List.range s.topk).filter (s.valid row)

def packedRows (k v : Int → α) (row : Nat) : List (List α × List α) :=
  (List.range (s.validCounts row)).map fun j => (s.attended k row j,s.attended v row j)
def directRows (k v : Int → α) (row : Nat) : List (List α × List α) :=
  (s.validColumns row).map fun col => (s.kvRow k (s.slot row col),s.kvRow v (s.slot row col))

def Front (row : Nat) : Prop := ∀ col later, col < later → later < s.topk → s.valid row later = true → s.valid row col = true

-- Every key that counts, and its place in the scratch, lie within the first 2^31 elements of their tensors.
def Near (row : Nat) : Prop := ∀ col < s.topk, s.valid row col = true →
  (row * s.stride + col + 1) * (s.heads * s.dim) ≤ 2 ^ 31 ∧ (s.slot row col + 1) * (s.heads * s.dim) ≤ 2 ^ 31

def Fits : Prop := ∀ row < s.batch, s.Front row ∧ s.Near row

-- Whatever the caches and the scratch held and in whatever order the programs ran, the packed rows are those the
-- direct branch gives weight.
def Packs (α : Type) : Prop :=
  ∀ (k v scratchK scratchV : Int → α) (programs : List (Nat × Nat × Nat)), programs.Perm s.grid → ∀ row < s.batch,
    s.packedRows (s.packed programs k scratchK) (s.packed programs v scratchV) row = s.directRows k v row

structure Addressed : Prop where
  segment : s.stride < 2 ^ 31
  pages : s.batch * s.pagesPerRow ≤ 2 ^ 31
  columns : s.batch * s.topk ≤ 2 ^ 31
  requests : ∀ row < s.batch, s.reqPoolIndices row * s.reqWidth < 2 ^ (s.reqBits - 1)

theorem topk_le_stride : s.topk ≤ s.stride := by
  have covers := rounded_covers s.topk trtllmSparsePageSize (by decide)
  rwa [Nat.mul_comm] at covers

theorem bits_positive : 0 < s.reqBits := by
  unfold reqBits
  split <;> decide

section
variable {s : Step} (addressed : s.Addressed)
include addressed

theorem column_address (row col : Nat) (inside : row < s.batch) (column : col < s.topk) :
    int32 (row * s.topk) = (row * s.topk : Nat) := by
  have next := Nat.mul_le_mul_right s.topk (Nat.succ_le_of_lt inside)
  have bound := addressed.columns
  rw [Nat.succ_mul] at next
  exact_mod_cast int32_small (row * s.topk) (by omega)

theorem page_address (row page : Nat) (inside : row < s.batch) (part : page < s.pagesPerRow) :
    s.blockTables row page = (row * s.pagesPerRow + page : Nat) := by
  have next := Nat.mul_le_mul_right s.pagesPerRow (Nat.succ_le_of_lt inside)
  have bound := addressed.pages
  rw [Nat.succ_mul] at next
  unfold blockTables
  exact_mod_cast int32_small (row * s.pagesPerRow + page) (by omega)

theorem counts_exact (row : Nat) (inside : row < s.batch) : s.validCounts row = (s.validColumns row).length := by
  have covers : s.topk ≤ nextPowerOf2 s.topk := Nat.le_pow_clog (by decide) s.topk
  have lanes : s.validColumns row = (List.range (nextPowerOf2 s.topk)).filter fun col =>
      s.valid row col && decide (col < s.topk) := by
    rw [validColumns,← segment_below s.topk _ covers,List.filter_filter]
  unfold validCounts fa2ValidCounts
  simp only
  rw [lanes,← ones_counted,List.map_map]
  congr 1
  apply List.map_congr_left
  intro col _
  by_cases column : col < s.topk
  · have read : s.topkIndices (int32 (row * s.topk) + col) = s.position row col := by
      rw [column_address addressed row col inside column,position,Nat.cast_mul]
    simp only [Function.comp_apply,column,decide_true,load,if_true,Bool.and_true,read,valid,decide_eq_true_iff]
  · simp [load,column]

theorem lane_position (row col : Nat) (inside : row < s.batch) :
    s.compact.positions row col = if col < s.topk then s.position row col else -1 := by
  show load s.topkIndices (int32 (row * s.topk) + col) (decide (col < s.topk)) (-1) = _
  unfold load
  by_cases column : col < s.topk
  · rw [if_pos (decide_eq_true column),if_pos column,column_address addressed row col inside column,position,Nat.cast_mul]
  · rw [if_neg (by simpa using column),if_neg column]

-- The packer's own test: the strided offsets leave every column its lane.
theorem lane_valid (row col : Nat) (inside : row < s.batch) :
    s.compact.valid row col = true ↔ col < s.topk ∧ s.valid row col = true := by
  have width : int32 (s.compact.cuK (row + 1) - s.compact.cuK row) = s.stride := by
    show int32 (int32 ((row + 1 : Nat) * s.stride) - int32 (row * s.stride)) = s.stride
    have parts : ((row + 1 : Nat) : Int) * s.stride - row * s.stride = s.stride := by
      rw [Nat.cast_add,Int.add_mul]
      omega
    rw [int32_sub,parts]
    exact int32_small s.stride addressed.segment
  have room := s.topk_le_stride
  rw [CompactKv.valid,decide_eq_true_iff,width,lane_position addressed row col inside,valid,decide_eq_true_iff]
  by_cases column : col < s.topk
  · rw [if_pos column]
    exact ⟨fun lane => ⟨column,lane.2⟩,fun counts => ⟨by omega,counts.2⟩⟩
  · rw [if_neg column]
    constructor
    · rintro ⟨_,above,_⟩
      omega
    · rintro ⟨within,_⟩
      exact absurd within column

theorem lane_slot (row col : Nat) (inside : row < s.batch) (stored : s.compact.valid row col = true) :
    s.compact.slots row col = s.slot row col := by
  obtain ⟨column,counts⟩ := (lane_valid addressed row col inside).mp stored
  have above := (of_decide_eq_true counts).1
  have address := wrapped_small s.reqBits s.bits_positive _ (addressed.requests row inside)
  rw [CompactKv.slots,stored,load,if_pos rfl,if_pos rfl,lane_position addressed row col inside,if_pos column,slot,
    max_eq_left above]
  show s.reqToToken (wrapped s.reqBits (s.reqPoolIndices row * s.reqWidth) + s.position row col) = _
  rw [← Nat.cast_mul,address,Nat.cast_mul]

end

theorem grid_exact (row head block : Nat) :
    (row,head,block) ∈ s.grid ↔ row < s.batch ∧ head < s.heads ∧ block < (s.topk + 16 - 1) / 16 := by
  simp [grid]

def place (row col e : Nat) : Nat := (row * s.stride + col) * (s.heads * s.dim) + e
def source (row col e : Nat) : Nat := s.slot row col * (s.heads * s.dim) + e

theorem place_apart (row col e row' col' e' : Nat) (column : col < s.topk) (column' : col' < s.topk)
    (small : e < s.heads * s.dim) (small' : e' < s.heads * s.dim) (same : s.place row col e = s.place row' col' e') :
    row = row' ∧ col = col' ∧ e = e' := by
  have room := s.topk_le_stride
  obtain ⟨tile,rfl⟩ := place_unique _ _ _ _ _ small small' same
  obtain ⟨rfl,rfl⟩ := place_unique _ _ _ _ _ (Nat.lt_of_lt_of_le column room) (Nat.lt_of_lt_of_le column' room) tile
  exact ⟨rfl,rfl,rfl⟩

theorem row_below (tile e width bound : Nat) (small : e < width) (fits : (tile + 1) * width ≤ bound) :
    tile * width + e < bound := by
  rw [Nat.succ_mul] at fits
  omega

section
variable {s : Step} (addressed : s.Addressed) (k scratch : Int → α)
include addressed

theorem stores_exact (row head block : Nat) (inside : row < s.batch) (address : Int) (value : α) :
    (address,value) ∈ s.compact.stores k row head block ↔
      ∃ lane < 16, ∃ d < s.dim, block * 16 + lane < s.topk ∧ s.valid row (block * 16 + lane) = true ∧
        address = int32 (s.place row (block * 16 + lane) (head * s.dim + d)) ∧
        value = k (int32 (s.source row (block * 16 + lane) (head * s.dim + d))) := by
  have dims : s.dim ≤ nextPowerOf2 s.dim := Nat.le_pow_clog (by decide) s.dim
  have dst : ∀ col d : Nat, int32 ((s.compact.cuK row + col) * s.heads * s.dim + head * s.dim + d) =
      int32 (s.place row col (head * s.dim + d)) := by
    intro col d
    show int32 ((int32 (row * s.stride) + col) * s.heads * s.dim + head * s.dim + d) = _
    have tiles : (int32 (row * s.stride) + col) * s.heads * s.dim + head * s.dim + d =
        int32 (row * s.stride) * (s.heads * s.dim) + (col * (s.heads * s.dim) + (head * s.dim + d)) := by ring
    have whole : (s.place row col (head * s.dim + d) : Int) =
        row * s.stride * (s.heads * s.dim) + (col * (s.heads * s.dim) + (head * s.dim + d)) := by
      unfold place
      push_cast
      ring
    rw [tiles,whole,int32_mul_add]
  have src : ∀ col d : Nat, int32 (s.slot row col * s.heads * s.dim + head * s.dim + d) =
      int32 (s.source row col (head * s.dim + d)) := by
    intro col d
    unfold source
    congr 1
    push_cast
    ring
  unfold CompactKv.stores
  simp only [List.mem_flatMap,List.mem_filterMap,List.mem_range]
  constructor
  · rintro ⟨lane,small,d,_,made⟩
    split at made
    · rename_i stored
      obtain ⟨counts,below⟩ := stored
      obtain ⟨column,valid⟩ := (lane_valid addressed row _ inside).mp counts
      rw [lane_slot addressed row _ inside counts] at made
      cases made
      exact ⟨lane,small,d,below,column,valid,dst _ d,congrArg k (src _ d)⟩
    · cases made
  · rintro ⟨lane,small,d,below,column,valid,rfl,rfl⟩
    have counts := (lane_valid addressed row _ inside).mpr ⟨column,valid⟩
    refine ⟨lane,small,d,Nat.lt_of_lt_of_le below dims,?_⟩
    rw [if_pos ⟨counts,below⟩,← dst,← src,← lane_slot addressed row _ inside counts]
    rfl

theorem stored_parts (programs : List (Nat × Nat × Nat)) (known : ∀ p ∈ programs, p ∈ s.grid) (address : Int) (value : α)
    (stored : (address,value) ∈ programs.flatMap fun p => s.compact.stores k p.1 p.2.1 p.2.2) :
    ∃ row < s.batch, ∃ col < s.topk, ∃ e < s.heads * s.dim, s.valid row col = true ∧
      address = int32 (s.place row col e) ∧ value = k (int32 (s.source row col e)) := by
  obtain ⟨⟨row,head,block⟩,member,made⟩ := List.mem_flatMap.mp stored
  obtain ⟨inside,heads,_⟩ := (s.grid_exact row head block).mp (known _ member)
  obtain ⟨lane,_,d,dims,column,valid,rfl,rfl⟩ := (stores_exact addressed k row head block inside address value).mp made
  exact ⟨row,inside,_,column,_,row_below head d s.dim _ dims (Nat.mul_le_mul_right _ heads),valid,rfl,rfl⟩

theorem stored_reached (programs : List (Nat × Nat × Nat)) (all : ∀ p ∈ s.grid, p ∈ programs) (row col e : Nat)
    (inside : row < s.batch) (column : col < s.topk) (small : e < s.heads * s.dim) (valid : s.valid row col = true) :
    (int32 (s.place row col e),k (int32 (s.source row col e))) ∈
      programs.flatMap fun p => s.compact.stores k p.1 p.2.1 p.2.2 := by
  have dims : 0 < s.dim := by
    rcases Nat.eq_zero_or_pos s.dim with none | some
    · rw [none,Nat.mul_zero] at small
      omega
    · exact some
  have head : e / s.dim < s.heads := (Nat.div_lt_iff_lt_mul dims).mpr small
  have block : col / 16 < (s.topk + 16 - 1) / 16 := by omega
  have lane : col / 16 * 16 + col % 16 = col := Nat.div_add_mod' col 16
  have element : e / s.dim * s.dim + e % s.dim = e := Nat.div_add_mod' e s.dim
  apply List.mem_flatMap.mpr
  refine ⟨(row,e / s.dim,col / 16),all _ ((s.grid_exact _ _ _).mpr ⟨inside,head,block⟩),?_⟩
  refine (stores_exact addressed k row _ _ inside _ _).mpr ⟨col % 16,Nat.mod_lt _ (by decide),e % s.dim,Nat.mod_lt _ dims,?_⟩
  rw [lane,element]
  exact ⟨column,valid,rfl,rfl⟩

theorem read_place (buffer : Int → α) (row j : Nat) (inside : row < s.batch) (column : j < s.topk) :
    s.attended buffer row j = (List.range (s.heads * s.dim)).map fun e => buffer (s.place row j e) := by
  have part : j / trtllmSparsePageSize < s.pagesPerRow := by
    have room := Nat.lt_of_lt_of_le column s.topk_le_stride
    exact (Nat.div_lt_iff_lt_mul (by decide)).mpr room
  apply List.map_congr_left
  intro e _
  have tile : (row * s.pagesPerRow + j / trtllmSparsePageSize) * trtllmSparsePageSize + j % trtllmSparsePageSize =
      row * s.stride + j := by
    rw [stride,Nat.add_mul,Nat.mul_assoc,Nat.add_assoc,Nat.div_add_mod']
  have whole : (((row * s.pagesPerRow + j / trtllmSparsePageSize) * trtllmSparsePageSize + j % trtllmSparsePageSize) * s.heads +
      e / s.dim) * s.dim + e % s.dim = s.place row j e := by
    rw [tile,place,Nat.add_mul,Nat.mul_assoc,Nat.add_assoc,Nat.div_add_mod']
  rw [pageView,page_address addressed row _ inside part]
  congr 1
  exact_mod_cast whole

-- Where no valid column's place is past the first 2^31 elements, the stores of one place all come from its own
-- column, and a place without one keeps the scratch.
theorem packed_place (programs : List (Nat × Nat × Nat)) (order : programs.Perm s.grid)
    (near : ∀ row < s.batch, ∀ col < s.topk, s.valid row col = true → (row * s.stride + col + 1) * (s.heads * s.dim) ≤ 2 ^ 31)
    (row col e : Nat) (inside : row < s.batch) (column : col < s.topk) (small : e < s.heads * s.dim) :
    s.packed programs k scratch (s.place row col e) =
      if s.valid row col then k (int32 (s.source row col e)) else scratch (s.place row col e) := by
  have settled : ∀ row < s.batch, ∀ col < s.topk, ∀ e < s.heads * s.dim, s.valid row col = true →
      int32 (s.place row col e) = s.place row col e := by
    intro row inside col column e small valid
    exact int32_small _ (row_below _ e _ _ small (near row inside col column valid))
  have own : ∀ store ∈ programs.flatMap (fun p => s.compact.stores k p.1 p.2.1 p.2.2),
      store.1 = s.place row col e → s.valid row col = true ∧ store.2 = k (int32 (s.source row col e)) := by
    rintro ⟨address,value⟩ member same
    obtain ⟨row',inside',col',column',e',small',valid,rfl,rfl⟩ := stored_parts addressed k programs
      (fun p member => order.mem_iff.mp member) address value member
    rw [settled row' inside' col' column' e' small' valid] at same
    obtain ⟨rfl,rfl,rfl⟩ := s.place_apart _ _ _ _ _ _ column column' small small' (Int.ofNat_inj.mp same).symm
    exact ⟨valid,rfl⟩
  unfold packed
  by_cases valid : s.valid row col = true
  · rw [if_pos valid]
    have reached := stored_reached addressed k programs (fun p member => order.mem_iff.mpr member) row col e inside column
      small valid
    rw [settled row inside col column e small valid] at reached
    exact put_agreed scratch _ _ _ ⟨_,reached,rfl⟩ fun store member same => (own store member same).2
  · rw [if_neg valid]
    exact put_other scratch _ _ fun store member same => valid (own store member same).1

end

theorem front_columns (chosen : Nat → Bool) (count : Nat)
    (front : ∀ col later, col < later → later < count → chosen later = true → chosen col = true) :
    (List.range count).filter chosen = List.range ((List.range count).filter chosen).length := by
  induction count with
  | zero => rfl
  | succ count ih =>
      rw [List.range_succ,List.filter_append]
      cases last : chosen count with
      | false =>
          have rest := ih fun col later before inside => front col later before (Nat.lt_succ_of_lt inside)
          rw [List.filter_cons_of_neg (by simp [last]),List.filter_nil,List.append_nil]
          exact rest
      | true =>
          have all : (List.range count).filter chosen = List.range count := by
            rw [List.filter_eq_self]
            intro col member
            exact front col count (List.mem_range.mp member) (Nat.lt_succ_self _) last
          rw [List.filter_cons_of_pos last,List.filter_nil,all,List.length_append,List.length_range,← List.range_succ]
          rfl

theorem first_columns (row : Nat) (first : ∀ col < (s.validColumns row).length, s.valid row col = true) :
    s.validColumns row = List.range (s.validColumns row).length := by
  have bound : (s.validColumns row).length ≤ s.topk := by
    have length := List.length_filter_le (s.valid row) (List.range s.topk)
    rwa [List.length_range] at length
  have part := (List.range_sublist.mpr bound).filter (s.valid row)
  rw [List.filter_eq_self.mpr fun col member => first col (List.mem_range.mp member)] at part
  exact (part.eq_of_length List.length_range).symm

theorem front_exact (row : Nat) : s.Front row ↔ ∀ col < (s.validColumns row).length, s.valid row col = true := by
  constructor
  · intro front col below
    have member : col ∈ s.validColumns row := by
      rw [validColumns,front_columns (s.valid row) s.topk front]
      exact List.mem_range.mpr below
    exact (List.mem_filter.mp member).2
  · intro first col later before inside valid
    have member : later ∈ s.validColumns row := List.mem_filter.mpr ⟨List.mem_range.mpr inside,valid⟩
    rw [s.first_columns row first] at member
    exact first col (Nat.lt_trans before (List.mem_range.mp member))

theorem counted_column (row col : Nat) (below : col < (s.validColumns row).length) : col < s.topk := by
  have length := List.length_filter_le (s.valid row) (List.range s.topk)
  rw [List.length_range] at length
  exact Nat.lt_of_lt_of_le below length

section
variable {s : Step} (addressed : s.Addressed)
include addressed

theorem fits_packs (fits : s.Fits) : s.Packs α := by
  have near := fun row inside col column valid => ((fits row inside).2 col column valid).1
  intro k v scratchK scratchV programs order row inside
  have first := (s.front_exact row).mp (fits row inside).1
  have packed : ∀ (k scratch : Int → α), ∀ col < (s.validColumns row).length,
      s.attended (s.packed programs k scratch) row col = s.kvRow k (s.slot row col) := by
    intro k scratch col below
    have column := s.counted_column row col below
    have slot := ((fits row inside).2 col column (first col below)).2
    rw [read_place addressed _ row col inside column]
    apply List.map_congr_left
    intro e member
    have small := List.mem_range.mp member
    rw [packed_place addressed k scratch programs order near row col e inside column small,if_pos (first col below),source,
      int32_small _ (row_below _ e _ _ small slot)]
  rw [packedRows,directRows,counts_exact addressed row inside,s.first_columns row first,List.length_range]
  apply List.map_congr_left
  intro col member
  have below := List.mem_range.mp member
  rw [packed k scratchK col below,packed v scratchV col below]

variable (packs : s.Packs α)
include packs

theorem packs_read (k v scratch : Int → α) (row j e other : Nat) (inside : row < s.batch) (small : e < s.heads * s.dim)
    (found : (s.validColumns row)[j]? = some other) :
    s.packed s.grid k scratch (s.place row j e) = k (s.source row other e) := by
  have below := (List.getElem?_eq_some_iff.mp found).1
  have rows := congrArg (fun rows => rows[j]?) (packs k v scratch v s.grid (List.Perm.refl _) row inside)
  simp only [packedRows,directRows,List.getElem?_map,counts_exact addressed row inside,List.getElem?_range below,found,
    Option.map_some,Option.some_inj,Prod.mk.injEq] at rows
  have element := congrArg (fun row : List α => row[e]?) rows.1
  simp only [read_place addressed _ row j inside (s.counted_column row j below),kvRow,List.getElem?_map,
    List.getElem?_range small,Option.map_some,Option.some_inj] at element
  exact element

variable [Nontrivial α]

-- Each place that counts is stored to, so it lies within the first 2^31 elements.
theorem place_stored (row j e : Nat) (inside : row < s.batch) (small : e < s.heads * s.dim)
    (below : j < (s.validColumns row).length) :
    s.place row j e < 2 ^ 31 ∧ ∃ row' < s.batch, ∃ col' < s.topk, ∃ e' < s.heads * s.dim, s.valid row' col' = true ∧
      int32 (s.place row' col' e') = s.place row j e := by
  obtain ⟨fresh,stale,apart⟩ := exists_pair_ne α
  have read := packs_read addressed packs (fun _ => fresh) (fun _ => fresh) (fun _ => stale) row j e _ inside small
    (List.getElem?_eq_getElem below)
  have stored : ∃ store ∈ s.grid.flatMap (fun p => s.compact.stores (fun _ => fresh) p.1 p.2.1 p.2.2),
      store.1 = s.place row j e := by
    by_contra none
    have kept : s.packed s.grid (fun _ => fresh) (fun _ => stale) (s.place row j e) = stale :=
      put_other _ _ _ fun store member same => none ⟨store,member,same⟩
    exact apart (read.symm.trans kept)
  obtain ⟨⟨address,value⟩,member,same⟩ := stored
  obtain ⟨row',inside',col',column',e',small',valid,rfl,_⟩ := stored_parts addressed _ _ (fun _ known => known) _ _ member
  have bound := int32_below (s.place row' col' e')
  rw [show int32 (s.place row' col' e') = s.place row j e from same] at bound
  exact ⟨by omega,row',inside',col',column',e',small',valid,same⟩

theorem place_own (heads : 0 < s.heads) (dim : 0 < s.dim) (short : s.stride * (s.heads * s.dim) ≤ 2 ^ 31) (row j : Nat)
    (inside : row < s.batch) (below : j < (s.validColumns row).length) : s.valid row j = true := by
  have width : 0 < s.heads * s.dim := Nat.mul_pos heads dim
  obtain ⟨_,row',inside',col',column',e',small',valid,same⟩ := place_stored addressed packs row j 0 inside width below
  have some : 0 < (s.validColumns row').length :=
    List.length_pos_of_mem (List.mem_filter.mpr ⟨List.mem_range.mpr column',valid⟩)
  have first := (place_stored addressed packs row' 0 0 inside' width some).1
  have end' : (row' * s.stride + col') * (s.heads * s.dim) + e' < row' * s.stride * (s.heads * s.dim) + 2 ^ 31 := by
    have room := Nat.mul_le_mul_right (s.heads * s.dim) (Nat.le_trans (Nat.succ_le_of_lt column') s.topk_le_stride)
    rw [Nat.add_mul,Nat.add_assoc]
    exact Nat.add_lt_add_left (row_below col' e' _ _ small' (Nat.le_trans room short)) _
  unfold place at first
  have bound : s.place row' col' e' < 2 ^ 32 := by
    rw [Nat.add_zero,Nat.add_zero] at first
    unfold place
    omega
  have whole := int32_exact _ _ bound same
  obtain ⟨rfl,rfl,_⟩ := s.place_apart _ _ _ _ _ _ column' (s.counted_column row j below) small' width whole
  exact valid

theorem packs_fits (heads : 0 < s.heads) (dim : 0 < s.dim) (short : s.stride * (s.heads * s.dim) ≤ 2 ^ 31) : s.Fits := by
  have width : 0 < s.heads * s.dim := Nat.mul_pos heads dim
  have front : ∀ row < s.batch, s.Front row := fun row inside =>
    (s.front_exact row).mpr fun col below => place_own addressed packs heads dim short row col inside below
  have counted : ∀ row < s.batch, ∀ col < s.topk, s.valid row col = true → (s.validColumns row)[col]? = some col := by
    intro row inside col column valid
    have first := s.first_columns row ((s.front_exact row).mp (front row inside))
    have member : col ∈ s.validColumns row := List.mem_filter.mpr ⟨List.mem_range.mpr column,valid⟩
    rw [first] at member ⊢
    exact List.getElem?_range (List.mem_range.mp member)
  -- the last element of a row stands for all of them
  have last : ∀ row < s.batch, ∀ col < s.topk, s.valid row col = true →
    (row * s.stride + col + 1) * (s.heads * s.dim) ≤ 2 ^ 31 := by
    intro row inside col column valid
    have below := (List.getElem?_eq_some_iff.mp (counted row inside col column valid)).1
    have bound := (place_stored addressed packs row col (s.heads * s.dim - 1) inside (by omega) below).1
    unfold place at bound
    rw [Nat.succ_mul]
    omega
  refine fun row inside => ⟨front row inside,fun col column valid => ⟨last row inside col column valid,?_⟩⟩
  obtain ⟨fresh,stale,apart⟩ := exists_pair_ne α
  have small : s.heads * s.dim - 1 < s.heads * s.dim := by omega
  -- a cache that holds the awaited element at its true address only
  have read := packs_read addressed packs (fun address => if address =
    s.source row col (s.heads * s.dim - 1) then fresh else stale)
    (fun _ => stale) (fun _ => stale) row col _ col inside small (counted row inside col column valid)
  rw [packed_place addressed _ _ s.grid (List.Perm.refl _) last row col _ inside column small,if_pos valid,if_pos rfl] at read
  have settled : int32 (s.source row col (s.heads * s.dim - 1)) = s.source row col (s.heads * s.dim - 1) := by
    by_contra moved
    rw [if_neg moved] at read
    exact apart read.symm
  have bound := int32_below (s.source row col (s.heads * s.dim - 1))
  rw [settled] at bound
  unfold source at bound
  rw [Nat.succ_mul]
  omega

end

end Step

def holeStep : Step := ⟨1,2,1,1,fun address => if address = 0 then -1 else 0,fun _ => 1,fun _ => 0,fun _ => 3,1,true⟩

def frontStep : Step := {holeStep with topkIndices := fun address => if address = 0 then 0 else -1}

end OneSpark.PackedGather
