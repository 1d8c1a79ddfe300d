import OneSpark.Blocks
import OneSpark.PleLayout
import OneSpark.RingSlots

namespace OneSpark.WritePlan
open Tensors RingSlots Blocks
open PleLayout (searchsortedRight isDecode)

-- A two-dimensional tensor of raw KV slots, one row of `width` columns for each metadata row.
structure Table where
  width : Nat
  rows : List (Nat → Nat)

-- table[row, column]; a negative column counts from the end.
def Table.slot (table : Table) (row : Nat) (column : Int) : Option Nat :=
  let column := if column < 0 then column + table.width else column
  if 0 ≤ column ∧ column < table.width then table.rows[row]?.map (· column.toNat) else none

theorem slot_column (table : Table) (row column : Nat) :
    table.slot row (column : Int) = if column < table.width then table.rows[row]?.map (· column) else none := by
  have whole : ¬ (column : Int) < 0 := by omega
  have bounds : (0 ≤ (column : Int) ∧ (column : Int) < table.width) ↔ column < table.width := by omega
  unfold Table.slot
  simp only [whole,if_false,bounds,Int.toNat_natCast]

-- table[indices, :width]
def Table.take (table : Table) (indices : List Nat) (width : Nat) : Option Table :=
  (gather table.rows indices).map fun rows => ⟨min width table.width,rows⟩

theorem take_parts (table taken : Table) (indices : List Nat) (width : Nat) (ran : table.take indices width = some taken) :
    taken.width = min width table.width ∧ ∀ i index : Nat, indices[i]? = some index → taken.rows[i]? = table.rows[index]? := by
  obtain ⟨rows,gathered,same⟩ := Option.map_eq_some_iff.mp ran
  cases same
  exact ⟨rfl,fun i index found => mapM_read _ _ rows gathered i index found⟩

def cumsum (values : List Nat) : List Nat := (values.scanl (· + ·) 0).tail

-- One entry of the plan's four tensors. `valid` is not handed on: an entry no row owns shows by
-- its write to the reserved slot.
structure Entry where
  valid : Bool
  writeLoc : Nat
  groupEndPosition : Int
  row : Nat
  memberRow : Option Int

structure Chunks where
  rowTokenStarts : List Nat
  prefixLens : List Nat

def memberRow (chunks : Option Chunks) (valid : Bool) (row : Nat) (block : Int) (compressRatio : Nat) :
    Option (Option Int) :=
  match chunks with
  | none => some none
  | some chunks => do
      let start ← chunks.rowTokenStarts[row]?
      let prefixLen ← chunks.prefixLens[row]?
      return some (if valid then start + block * compressRatio - prefixLen else 0)

def planEntry (table : Table) (startBlocks : List Int) (counts : List Nat) (compressRatio : Nat)
    (chunks : Option Chunks) (entry : Nat) : Option Entry := do
  let ends := cumsum counts
  let starts := ends.zipWith (· - ·) counts
  let valid := decide (entry < ends.getLast?.getD 0)
  let row := if valid then min (searchsortedRight ends entry) (counts.length - 1) else 0
  let startBlock ← startBlocks[row]?
  let start ← starts[row]?
  let block : Int := if valid then startBlock + entry - start else 0
  let slot ← table.slot row (block * compressRatio)
  let memberRow ← memberRow chunks valid row block compressRatio
  return {
    valid
    writeLoc := if valid then slot / compressRatio else 0
    groupEndPosition := block * compressRatio + (compressRatio - 1)
    row
    memberRow }

-- (end_blocks - start_blocks).clamp_min(0)
def blockCounts (startBlocks : List Int) (endBlocks : List Nat) : List Nat :=
  endBlocks.zipWith (fun (endBlock : Nat) (startBlock : Int) => ((endBlock : Int) - startBlock).toNat) startBlocks

-- The first check is an assertion on the device.
def qsaWritePlan (table : Table) (startBlocks : List Int) (endBlocks : List Nat) (capacity compressRatio : Nat)
    (chunks : Option Chunks) : Option (List Entry) :=
  if ∃ endBlock ∈ endBlocks, table.width < endBlock * compressRatio then none
  else if startBlocks.length ≠ endBlocks.length then none
  else
    let counts := blockCounts startBlocks endBlocks
    (List.range capacity).mapM (planEntry table startBlocks counts compressRatio chunks)

-- What the QSA metadata reads of a ForwardBatch without speculation.
structure ForwardBatch where
  forwardMode : ForwardMode
  reqPoolIndices : List Nat
  seqLens : List Nat
  seqLensCpu : Option (List Nat)
  extendSeqLens : Option (List Nat)
  positions : List Nat
  inputIds : Nat

def pagedWritePlan (table : Table) (lengths : List Nat) (compressRatio : Nat) : Option (List Entry) :=
  let endBlocks := lengths.map (· / compressRatio)
  let startBlocks := lengths.map fun length =>
    ((length / compressRatio : Nat) : Int) - (if length % compressRatio = 0 then 1 else 0)
  qsaWritePlan table startBlocks endBlocks lengths.length compressRatio none

def extendWritePlan (fb : ForwardBatch) (table : Table) (lengths : List Nat) (compressRatio : Nat) :
    Option (List Entry) := do
  let extendLens := (← fb.extendSeqLens).take lengths.length
  if extendLens.length ≠ lengths.length then none else
  let prefixLens := lengths.zipWith (· - ·) extendLens
  if ∃ prefixLen ∈ prefixLens, prefixLen % compressRatio ≠ 0 then none else
  let capacity := fb.inputIds / compressRatio + lengths.length
  let rowTokenStarts := (cumsum extendLens).zipWith (· - ·) extendLens
  qsaWritePlan table (prefixLens.map fun length => ((length / compressRatio : Nat) : Int))
    (lengths.map (· / compressRatio)) capacity compressRatio
    (some ⟨rowTokenStarts,prefixLens⟩)

def qsaBuildWritePlan (fb : ForwardBatch) (speculativePaged : Bool) (table : Table) (sequenceLengths : List Nat)
    (compressRatio : Nat) : Option (List Entry) :=
  if isDecode fb.forwardMode || speculativePaged then pagedWritePlan table sequenceLengths compressRatio
  else extendWritePlan fb table sequenceLengths compressRatio

theorem cumsum_offset (values : List Nat) :
    cumsum values = (List.range values.length).map fun h => offset values (h + 1) := by
  unfold cumsum
  rw [scanl_offset,List.range_succ_eq_map,List.map_cons,List.tail_cons,List.map_map]
  simp [Function.comp_def]

theorem cumsum_last (values : List Nat) : (cumsum values).getLast?.getD 0 = values.sum := by
  rw [cumsum_offset]
  cases values with
  | nil => rfl
  | cons value rest =>
      rw [List.length_cons,List.range_succ,List.map_append,List.map_singleton,List.getLast?_concat,Option.getD_some]
      exact offset_length (value :: rest)

theorem starts_offset (values : List Nat) :
    (cumsum values).zipWith (· - ·) values = (List.range values.length).map (offset values) := by
  rw [cumsum_offset]
  apply List.ext_getElem
  · simp
  · intro h bound _
    have inside : h < values.length := by simpa using bound
    have next := offset_next values h values[h] (List.getElem?_eq_getElem inside)
    simp [next]

def ownedEntry (table : Table) (compressRatio : Nat) (chunks : Option Chunks) (row : Nat) (block : Int) : Entry where
  valid := true
  writeLoc := (table.slot row (block * compressRatio)).getD 0 / compressRatio
  groupEndPosition := block * compressRatio + (compressRatio - 1)
  row := row
  memberRow := chunks.map fun chunks =>
    chunks.rowTokenStarts.getD row 0 + block * compressRatio - chunks.prefixLens.getD row 0

def paddingEntry (compressRatio : Nat) (chunks : Option Chunks) : Entry where
  valid := false
  writeLoc := 0
  groupEndPosition := compressRatio - 1
  row := 0
  memberRow := chunks.map fun _ => 0

theorem owned_end (table : Table) (compressRatio : Nat) (chunks : Option Chunks) (row block : Nat)
    (ratioPositive : 0 < compressRatio) : (ownedEntry table compressRatio chunks row block).groupEndPosition.toNat =
      block * compressRatio + (compressRatio - 1) := by
  simp only [ownedEntry]
  rw [← Int.natCast_mul]
  omega

section
variable (table : Table) (startBlocks : List Int) (counts : List Nat) (compressRatio : Nat) (chunks : Option Chunks)

theorem memberRow_exact (valid : Bool) (row : Nat) (block : Int) (out : Option Int)
    (ran : memberRow chunks valid row block compressRatio = some out) :
    out = chunks.map fun chunks => if valid then
      chunks.rowTokenStarts.getD row 0 + block * compressRatio - chunks.prefixLens.getD row 0 else 0 := by
  unfold memberRow at ran
  cases chunks with
  | none =>
      cases ran
      rfl
  | some chunks =>
      obtain ⟨start,first,ran⟩ := Option.bind_eq_some_iff.mp ran
      obtain ⟨prefixLen,second,same⟩ := Option.bind_eq_some_iff.mp ran
      cases same
      rw [Option.map_some,List.getD_eq_getElem?_getD,List.getD_eq_getElem?_getD,first,second]
      rfl

theorem planEntry_owned (entry : Nat) (inside : entry < counts.sum) (out : Entry)
    (ran : planEntry table startBlocks counts compressRatio chunks entry = some out) :
    out = ownedEntry table compressRatio chunks (blockOf counts entry)
      (startBlocks.getD (blockOf counts entry) 0 + (entry - offset counts (blockOf counts entry) : Nat)) := by
  have within := blockOf_within counts entry inside
  have reached := ends_reached counts _ entry within
  obtain ⟨size,found,above,_⟩ := within
  obtain ⟨bound,_⟩ := List.getElem?_eq_some_iff.mp found
  unfold planEntry at ran
  simp only [cumsum_last,inside,decide_true,if_true,starts_offset,Option.bind_eq_bind] at ran
  have row : min (searchsortedRight (cumsum counts) entry) (counts.length - 1) = blockOf counts entry := by
    unfold searchsortedRight
    rw [cumsum_offset,reached]
    omega
  rw [row] at ran
  obtain ⟨startBlock,first,ran⟩ := Option.bind_eq_some_iff.mp ran
  obtain ⟨start,second,ran⟩ := Option.bind_eq_some_iff.mp ran
  obtain ⟨slot,third,ran⟩ := Option.bind_eq_some_iff.mp ran
  obtain ⟨member,fourth,same⟩ := Option.bind_eq_some_iff.mp ran
  cases same
  rw [List.getElem?_map,List.getElem?_range bound,Option.map_some,Option.some_inj] at second
  subst second
  have block : startBlock + entry - offset counts (blockOf counts entry) =
      startBlocks.getD (blockOf counts entry) 0 + (entry - offset counts (blockOf counts entry) : Nat) := by
    rw [List.getD_eq_getElem?_getD,first,Option.getD_some]
    omega
  rw [block] at third fourth ⊢
  have member_exact := memberRow_exact compressRatio chunks _ _ _ _ fourth
  unfold ownedEntry
  rw [third,member_exact]
  rfl

theorem planEntry_padding (entry : Nat) (outside : counts.sum ≤ entry) (out : Entry)
    (ran : planEntry table startBlocks counts compressRatio chunks entry = some out) :
    out = paddingEntry compressRatio chunks := by
  have beyond : ¬ entry < counts.sum := Nat.not_lt.mpr outside
  unfold planEntry at ran
  simp only [cumsum_last,beyond,decide_false,Option.bind_eq_bind] at ran
  obtain ⟨startBlock,_,ran⟩ := Option.bind_eq_some_iff.mp ran
  obtain ⟨start,_,ran⟩ := Option.bind_eq_some_iff.mp ran
  obtain ⟨slot,_,ran⟩ := Option.bind_eq_some_iff.mp ran
  obtain ⟨member,named,same⟩ := Option.bind_eq_some_iff.mp ran
  cases same
  have member_exact := memberRow_exact compressRatio chunks _ _ _ _ named
  unfold paddingEntry
  rw [member_exact]
  simp

end

-- The blocks of every row, row after row, then padding up to the capacity.
theorem plan_exact (table : Table) (startBlocks : List Int) (endBlocks : List Nat) (capacity compressRatio : Nat)
    (chunks : Option Chunks) (entries : List Entry)
    (fits : (blockCounts startBlocks endBlocks).sum ≤ capacity)
    (ran : qsaWritePlan table startBlocks endBlocks capacity compressRatio chunks = some entries) :
    entries = ((List.range endBlocks.length).flatMap fun row =>
        (List.range ((endBlocks.getD row 0 : Int) - startBlocks.getD row 0).toNat).map fun k =>
          ownedEntry table compressRatio chunks row (startBlocks.getD row 0 + (k : Nat))) ++
      List.replicate (capacity - (blockCounts startBlocks endBlocks).sum) (paddingEntry compressRatio chunks) := by
  unfold qsaWritePlan at ran
  split at ran
  · cases ran
  · split at ran
    · cases ran
    · rename_i same
      rw [not_not] at same
      obtain ⟨counts,counts_exact⟩ : ∃ counts, counts = blockCounts startBlocks endBlocks := ⟨_,rfl⟩
      simp only [← counts_exact] at ran fits ⊢
      have width : counts.length = endBlocks.length := by
        rw [counts_exact]
        simp [blockCounts,same]
      have sizes : ∀ row < counts.length, counts.getD row 0 = ((endBlocks.getD row 0 : Int) - startBlocks.getD row 0).toNat := by
        intro row bound
        have second : row < endBlocks.length := width ▸ bound
        have first : row < startBlocks.length := same ▸ second
        rw [counts_exact]
        simp [blockCounts,List.getD_eq_getElem?_getD,first,second]
      have each := mapM_known _ (fun entry => if entry < counts.sum then
          ownedEntry table compressRatio chunks (blockOf counts entry)
            (startBlocks.getD (blockOf counts entry) 0 + (entry - offset counts (blockOf counts entry) : Nat))
          else paddingEntry compressRatio chunks) _ entries ran (by
        intro entry _ out made
        split
        · rename_i inside
          exact planEntry_owned table startBlocks counts compressRatio chunks entry inside out made
        · rename_i outside
          exact planEntry_padding table startBlocks counts compressRatio chunks entry (Nat.not_lt.mp outside) out made)
      obtain ⟨rest,split⟩ := Nat.exists_eq_add_of_le fits
      rw [each,split,List.range_add,List.map_append]
      congr 1
      · have owned := blocks_cover counts fun row k =>
          ownedEntry table compressRatio chunks row (startBlocks.getD row 0 + (k : Nat))
        rw [List.map_congr_left (g := fun entry => ownedEntry table compressRatio chunks (blockOf counts entry)
          (startBlocks.getD (blockOf counts entry) 0 + (entry - offset counts (blockOf counts entry) : Nat)))]
        · rw [owned,width]
          apply List.flatMap_congr
          intro row member
          rw [sizes row (by rw [width]; exact List.mem_range.mp member)]
        · intro entry member
          exact if_pos (List.mem_range.mp member)
      · rw [Nat.add_sub_cancel_left,List.map_map]
        refine List.eq_replicate_iff.mpr ⟨by simp,?_⟩
        intro out member
        obtain ⟨k,_,rfl⟩ := List.mem_map.mp member
        exact if_neg (Nat.not_lt.mpr (Nat.le_add_right _ k))

theorem flatMap_chosen (values : List α) (chosen : α → Bool) (f : α → β) :
    (values.flatMap fun value => if chosen value then [f value] else []) = (values.filter chosen).map f := by
  induction values with
  | nil => rfl
  | cons value rest ih =>
      rw [List.flatMap_cons,ih,List.filter_cons]
      cases chosen value <;> rfl

def completing (lengths : List Nat) (compressRatio : Nat) : List Nat :=
  (List.range lengths.length).filter fun row => decide (lengths.getD row 0 % compressRatio = 0)

theorem paged_plan (table : Table) (lengths : List Nat) (compressRatio : Nat) (ratioPositive : 0 < compressRatio)
    (positive : ∀ length ∈ lengths, 0 < length) (entries : List Entry)
    (ran : pagedWritePlan table lengths compressRatio = some entries) :
    entries = ((completing lengths compressRatio).map fun row =>
        ownedEntry table compressRatio none row (lengths.getD row 0 / compressRatio - 1 : Nat)) ++
      List.replicate (lengths.length - (completing lengths compressRatio).length) (paddingEntry compressRatio none) := by
  have counts : blockCounts (lengths.map fun length =>
      ((length / compressRatio : Nat) : Int) - (if length % compressRatio = 0 then 1 else 0))
      (lengths.map (· / compressRatio)) = lengths.map fun length => if length % compressRatio = 0 then 1 else 0 := by
    unfold blockCounts
    rw [List.zipWith_map,List.zipWith_self]
    apply List.map_congr_left
    intro length _
    split <;> simp
  have total : (lengths.map fun length => if length % compressRatio = 0 then 1 else 0).sum =
      (completing lengths compressRatio).length := by
    have chosen := congrArg List.length (flatMap_chosen (List.range lengths.length)
      (fun row => decide (lengths.getD row 0 % compressRatio = 0)) id)
    rw [List.length_map,List.length_flatMap] at chosen
    rw [completing,← chosen]
    congr 1
    apply List.ext_getElem
    · simp
    · intro row bound _
      have inside : row < lengths.length := by simpa using bound
      by_cases whole : lengths[row] % compressRatio = 0 <;> simp [inside,whole]
  have small : (completing lengths compressRatio).length ≤ lengths.length := by
    have kept := List.length_filter_le (fun row => decide (lengths.getD row 0 % compressRatio = 0))
      (List.range lengths.length)
    rwa [List.length_range] at kept
  have exact := plan_exact table _ _ lengths.length compressRatio none entries (by rw [counts,total]; exact small) ran
  rw [counts,total] at exact
  rw [exact]
  congr 1
  rw [completing,← flatMap_chosen,List.length_map]
  apply List.flatMap_congr
  intro row member
  have inside := List.mem_range.mp member
  have above := positive lengths[row] (List.getElem_mem inside)
  have value : lengths.getD row 0 = lengths[row] := by simp [inside]
  simp only [List.getD_eq_getElem?_getD,List.getElem?_map,List.getElem?_eq_getElem inside,Option.map_some,
    Option.getD_some,decide_eq_true_eq]
  split
  · rename_i whole
    have block : 0 < lengths[row] / compressRatio :=
      Nat.div_pos (Nat.le_of_dvd above (Nat.dvd_of_mod_eq_zero whole)) ratioPositive
    have one : ((lengths[row] / compressRatio : Nat) : Int) - (((lengths[row] / compressRatio : Nat) : Int) - 1) = 1 := by
      omega
    rw [one,Int.toNat_one,List.range_one,List.map_singleton,Int.natCast_sub block]
    simp
  · simp

theorem planEntry_returns (table : Table) (startBlocks : List Int) (counts : List Nat) (compressRatio : Nat)
    (rows : table.rows.length = counts.length) (starts : startBlocks.length = counts.length) (nonempty : 0 < counts.length)
    (width : 0 < table.width) (covers : ∀ (h : Nat) (start : Int) (count : Nat), startBlocks[h]? = some start →
      counts[h]? = some count → ∀ k < count, ∃ block : Nat, start + (k : Nat) = block ∧ block * compressRatio < table.width)
    (entry : Nat) : ∃ out, planEntry table startBlocks counts compressRatio none entry = some out := by
  by_cases inside : entry < counts.sum
  · have within := blockOf_within counts entry inside
    have reached := ends_reached counts _ entry within
    obtain ⟨size,found,above,below⟩ := within
    obtain ⟨bound,_⟩ := List.getElem?_eq_some_iff.mp found
    have row : min (searchsortedRight (cumsum counts) entry) (counts.length - 1) = blockOf counts entry := by
      unfold searchsortedRight
      rw [cumsum_offset,reached]
      omega
    have start := List.getElem?_eq_getElem (starts ▸ bound : blockOf counts entry < startBlocks.length)
    have content := List.getElem?_eq_getElem (rows ▸ bound : blockOf counts entry < table.rows.length)
    obtain ⟨block,named,small⟩ := covers _ _ size start found (entry - offset counts (blockOf counts entry)) (by omega)
    have number : startBlocks[blockOf counts entry] + entry - offset counts (blockOf counts entry) = (block : Int) := by
      rw [← named]
      omega
    have column : (block : Int) * compressRatio = ((block * compressRatio : Nat) : Int) := by push_cast; rfl
    unfold planEntry
    simp only [cumsum_last,inside,decide_true,if_true,starts_offset,Option.bind_eq_bind,row,start,Option.bind_some,
      List.getElem?_map,List.getElem?_range bound,Option.map_some,number,column,slot_column,small,content,memberRow]
    exact ⟨_,rfl⟩
  · have start := List.getElem?_eq_getElem (starts ▸ nonempty : 0 < startBlocks.length)
    have content := List.getElem?_eq_getElem (rows ▸ nonempty : 0 < table.rows.length)
    have column : (0 : Int) * compressRatio = ((0 : Nat) : Int) := by simp
    unfold planEntry
    simp only [cumsum_last,inside,decide_false,if_false,Bool.false_eq_true,starts_offset,Option.bind_eq_bind,start,
      Option.bind_some,List.getElem?_map,List.getElem?_range nonempty,Option.map_some,column,slot_column,width,if_true,
      content,memberRow]
    exact ⟨_,rfl⟩

theorem paged_returns (table : Table) (lengths : List Nat) (compressRatio : Nat) (ratioPositive : 0 < compressRatio)
    (rows : table.rows.length = lengths.length) (positive : ∀ length ∈ lengths, 0 < length)
    (covers : ∀ length ∈ lengths, length ≤ table.width) :
    ∃ entries, pagedWritePlan table lengths compressRatio = some entries := by
  unfold pagedWritePlan qsaWritePlan
  simp only
  have room : ¬ ∃ endBlock ∈ lengths.map (· / compressRatio), table.width < endBlock * compressRatio := by
    rintro ⟨endBlock,member,beyond⟩
    obtain ⟨length,old,rfl⟩ := List.mem_map.mp member
    have whole := Nat.div_mul_le_self length compressRatio
    have bound := covers length old
    omega
  rw [if_neg room,if_neg (by simp)]
  refine Exists.imp (fun _ made => made.1) (mapM_returns _ _ ?_)
  intro entry member
  have some_row : 0 < lengths.length := Nat.lt_of_le_of_lt (Nat.zero_le _) (List.mem_range.mp member)
  have first := covers lengths[0] (List.getElem_mem some_row)
  have least := positive lengths[0] (List.getElem_mem some_row)
  apply planEntry_returns table _ _ compressRatio (by simp [blockCounts,rows]) (by simp [blockCounts])
    (by simpa [blockCounts] using some_row) (by omega)
  intro h start count atStart atCount k small
  rw [List.getElem?_map,Option.map_eq_some_iff] at atStart
  obtain ⟨length,found,rfl⟩ := atStart
  simp only [blockCounts,List.getElem?_zipWith,List.getElem?_map,found,Option.map_some,Option.some_inj] at atCount
  have above := positive length (List.mem_of_getElem? found)
  have bound := covers length (List.mem_of_getElem? found)
  by_cases whole : length % compressRatio = 0
  · rw [if_pos whole] at atCount ⊢
    have block := Nat.div_pos (Nat.le_of_dvd above (Nat.dvd_of_mod_eq_zero whole)) ratioPositive
    have last := Nat.div_mul_cancel (Nat.dvd_of_mod_eq_zero whole)
    refine ⟨length / compressRatio - 1,by omega,?_⟩
    rw [Nat.sub_mul,last]
    omega
  · rw [if_neg whole] at atCount
    omega

def chunksOf (lengths extendLens : List Nat) : Chunks :=
  ⟨(List.range extendLens.length).map (offset extendLens),lengths.zipWith (· - ·) extendLens⟩

theorem row_blocks (length extendLen compressRatio : Nat) (aligned : (length - extendLen) % compressRatio = 0) :
    length / compressRatio - (length - extendLen) / compressRatio ≤ extendLen / compressRatio := by
  have whole := Nat.dvd_of_mod_eq_zero aligned
  have bound : length / compressRatio ≤ ((length - extendLen) + extendLen) / compressRatio :=
    Nat.div_le_div_right (by omega)
  rw [Nat.add_div_of_dvd_right whole] at bound
  exact Nat.sub_le_of_le_add (Nat.add_comm _ _ ▸ bound)

theorem sum_div_le (values : List Nat) (divisor : Nat) : (values.map (· / divisor)).sum ≤ values.sum / divisor := by
  induction values with
  | nil => simp
  | cons value rest ih =>
      rw [List.map_cons,List.sum_cons,List.sum_cons]
      exact Nat.le_trans (Nat.add_le_add_left ih _) Nat.div_add_div_le_add_div

section
variable (lengths extendLens : List Nat) (compressRatio : Nat)

theorem chunk_counts :
    blockCounts ((lengths.zipWith (· - ·) extendLens).map fun length => ((length / compressRatio : Nat) : Int))
      (lengths.map (· / compressRatio)) = lengths.zipWith (fun length extendLen =>
        length / compressRatio - (length - extendLen) / compressRatio) extendLens := by
  apply List.ext_getElem
  · simp [blockCounts]
  · intro row _ _
    simp only [blockCounts,List.getElem_zipWith,List.getElem_map]
    omega

variable (same : extendLens.length = lengths.length)
include same

theorem prefix_read (row : Nat) (inside : row < lengths.length) :
    (lengths.zipWith (· - ·) extendLens)[row]? = some (lengths.getD row 0 - extendLens.getD row 0) := by
  have second : row < extendLens.length := same ▸ inside
  simp [inside,second]

theorem chunks_fit (tokens : extendLens.sum ≤ inputIds)
    (whole : ∀ row < lengths.length, (lengths.getD row 0 - extendLens.getD row 0) % compressRatio = 0) :
    (lengths.zipWith (fun length extendLen =>
      length / compressRatio - (length - extendLen) / compressRatio) extendLens).sum ≤
        inputIds / compressRatio + lengths.length := by
  have each : (lengths.zipWith (fun length extendLen =>
      length / compressRatio - (length - extendLen) / compressRatio) extendLens).sum ≤
        (extendLens.map (· / compressRatio)).sum := by
    apply List.Forall₂.sum_le_sum
    rw [List.forall₂_iff_get]
    refine ⟨by simp [same],?_⟩
    intro row bound _
    have inside : row < lengths.length := by simp at bound; omega
    have second : row < extendLens.length := same ▸ inside
    have aligned := whole row inside
    simp only [List.getD_eq_getElem?_getD,List.getElem?_eq_getElem inside,List.getElem?_eq_getElem second,
      Option.getD_some] at aligned
    simpa using row_blocks _ _ _ aligned
  have sum := sum_div_le extendLens compressRatio
  have room := Nat.div_le_div_right tokens (c := compressRatio)
  omega

end

-- An extend row owns the blocks of its chunk: from its last whole prefix block to the last one
-- its length completes. The token count bounds them all.
theorem extend_plan (fb : ForwardBatch) (table : Table) (lengths extendLens : List Nat) (compressRatio : Nat)
    (told : fb.extendSeqLens = some extendLens) (same : extendLens.length = lengths.length)
    (tokens : extendLens.sum ≤ fb.inputIds) (entries : List Entry)
    (ran : extendWritePlan fb table lengths compressRatio = some entries) :
    (∀ row < lengths.length, (lengths.getD row 0 - extendLens.getD row 0) % compressRatio = 0) ∧
    ∃ padding, entries = ((List.range lengths.length).flatMap fun row =>
        (List.range (lengths.getD row 0 / compressRatio -
          (lengths.getD row 0 - extendLens.getD row 0) / compressRatio)).map fun k =>
          ownedEntry table compressRatio (some (chunksOf lengths extendLens)) row
            ((lengths.getD row 0 - extendLens.getD row 0) / compressRatio + k : Nat)) ++
      List.replicate padding (paddingEntry compressRatio (some (chunksOf lengths extendLens))) := by
  unfold extendWritePlan at ran
  rw [told,Option.bind_eq_bind,Option.bind_some,List.take_of_length_le (Nat.le_of_eq same)] at ran
  simp only at ran
  rw [if_neg (not_not.mpr same)] at ran
  split at ran
  · cases ran
  · rename_i aligned
    have prefixes := prefix_read lengths extendLens same
    have whole : ∀ row < lengths.length, (lengths.getD row 0 - extendLens.getD row 0) % compressRatio = 0 := by
      intro row inside
      by_contra broken
      exact aligned ⟨_,List.mem_of_getElem? (prefixes row inside),broken⟩
    refine ⟨whole,?_⟩
    have counts := chunk_counts lengths extendLens compressRatio
    have fits := chunks_fit lengths extendLens compressRatio same tokens whole
    rw [starts_offset] at ran
    have exact := plan_exact table _ _ _ compressRatio _ entries (by rw [counts]; exact fits) ran
    rw [counts] at exact
    refine ⟨fb.inputIds / compressRatio + lengths.length - (lengths.zipWith (fun length extendLen =>
      length / compressRatio - (length - extendLen) / compressRatio) extendLens).sum,exact.trans ?_⟩
    congr 1
    rw [List.length_map]
    apply List.flatMap_congr
    intro row member
    have inside := List.mem_range.mp member
    have start : ((lengths.zipWith (· - ·) extendLens).map fun length => ((length / compressRatio : Nat) : Int)).getD row 0 =
        ((lengths.getD row 0 - extendLens.getD row 0) / compressRatio : Nat) := by
      rw [List.getD_eq_getElem?_getD,List.getElem?_map,prefixes row inside]
      rfl
    have stop : (lengths.map (· / compressRatio)).getD row 0 = lengths.getD row 0 / compressRatio := by simp [inside]
    rw [start,stop]
    have width : (((lengths.getD row 0 / compressRatio : Nat) : Int) -
        ((lengths.getD row 0 - extendLens.getD row 0) / compressRatio : Nat)).toNat =
          lengths.getD row 0 / compressRatio - (lengths.getD row 0 - extendLens.getD row 0) / compressRatio := by
      omega
    rw [width]
    rfl

end OneSpark.WritePlan
