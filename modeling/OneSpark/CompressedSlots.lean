import OneSpark.WritePlan

namespace OneSpark.CompressedSlots
open Tensors Blocks WritePlan

def buildQsaRowRanges (sequenceLengths queryPositions querySequenceIds : List Nat) (compressRatio : Nat) :
    Option (List Nat × List Nat × List Nat) := do
  let compressedLengths := sequenceLengths.map (· / compressRatio)
  let compressedCuSeqlens := compressedLengths.scanl (· + ·) 0
  let rowStarts ← gather compressedCuSeqlens querySequenceIds
  let visibleBlocks := queryPositions.map fun position => (position + 1) / compressRatio
  let maxBlocks ← gather compressedLengths querySequenceIds
  if visibleBlocks.length ≠ maxBlocks.length then none else
  return (rowStarts,rowStarts.zipWith (· + ·) (visibleBlocks.zipWith min maxBlocks),compressedCuSeqlens)

-- token_slot_table[sequence_id, : complete_blocks * ratio : ratio] // ratio
def compressedLocs (table : Table) (compressRatio sequenceId completeBlocks : Nat) : Option (List Nat) :=
  table.rows[sequenceId]?.map fun row =>
    (((List.range completeBlocks).map (· * compressRatio)).filter fun column => decide (column < table.width)).map
      fun column => row column / compressRatio

def packedLocs (table : Table) (compressRatio : Nat) (sequenceLengths : List Nat) : Option (List (List Nat)) :=
  (List.range sequenceLengths.length).mapM fun sequenceId =>
    let completeBlocks := sequenceLengths.getD sequenceId 0 / compressRatio
    if completeBlocks = 0 then some [] else compressedLocs table compressRatio sequenceId completeBlocks

def getPrefillMqaInputs (buffer : Nat → K) (table : Table) (compressRatio : Nat)
    (sequenceLengths tokenToBatchIdx positions : List Nat) : Option (List K × List Nat × List Nat × List Nat) := do
  let parts ← packedLocs table compressRatio sequenceLengths
  let compressedKeys := parts.flatten.map buffer
  if positions.length < tokenToBatchIdx.length then none else
  let (rowStarts, rowEnds, _) ← buildQsaRowRanges sequenceLengths (positions.take tokenToBatchIdx.length) tokenToBatchIdx
    compressRatio
  return (compressedKeys,rowStarts,rowEnds,sequenceLengths)

-- table[:, ::stride]
def Table.columns (table : Table) (stride : Nat) : Table :=
  ⟨(table.width + stride - 1) / stride,table.rows.map fun row column => row (column * stride)⟩

-- The full-KV page ids and the compressed lengths; slots are not negative, so the clamp keeps them.
def compressedDecodeView (compressedPageSize compressRatio : Nat) (sequenceLengths : List Nat) (table : Table) :
    Table × List Nat :=
  let fullPage := compressedPageSize * compressRatio
  let strided := Table.columns table fullPage
  (⟨strided.width,strided.rows.map fun row column => max (row column / fullPage) 0⟩,
    sequenceLengths.map (· / compressRatio))

-- The slot of position p of a row is page(p div P) * P + p mod P.
def PageAligned (table : Table) (page : Nat → Nat → Nat) (pageSize : Nat) : Prop :=
  ∀ h row, table.rows[h]? = some row → ∀ position < table.width,
    row position = page h (position / pageSize) * pageSize + position % pageSize

def address (page : Nat → Nat → Nat) (compressedPageSize h block : Nat) : Nat :=
  page h (block / compressedPageSize) * compressedPageSize + block % compressedPageSize

theorem address_apart (page : Nat → Nat → Nat) (compressedPageSize : Nat) (positive : 0 < compressedPageSize)
    (h b h' b' : Nat) (same : address page compressedPageSize h b = address page compressedPageSize h' b') :
    page h (b / compressedPageSize) = page h' (b' / compressedPageSize) ∧
      b % compressedPageSize = b' % compressedPageSize :=
  place_unique _ _ _ _ _ (Nat.mod_lt b positive) (Nat.mod_lt b' positive) same

section
variable (compressedPageSize compressRatio : Nat) (pagePositive : 0 < compressedPageSize)
  (ratioPositive : 0 < compressRatio) (table : Table) (page : Nat → Nat → Nat)
  (aligned : PageAligned table page (compressedPageSize * compressRatio))
include ratioPositive aligned

omit ratioPositive in
theorem member_slot (h b j : Nat) (row : Nat → Nat) (found : table.rows[h]? = some row) (small : j < compressRatio)
    (inside : b * compressRatio + j < table.width) :
    row (b * compressRatio + j) / compressRatio = address page compressedPageSize h b := by
  obtain ⟨block,member⟩ := place_parts b compressRatio j small
  have place : page h (b / compressedPageSize) * (compressedPageSize * compressRatio) +
      (j + compressRatio * (b % compressedPageSize)) = address page compressedPageSize h b * compressRatio + j := by
    unfold address
    rw [Nat.add_mul,Nat.mul_assoc,Nat.mul_comm compressRatio,Nat.add_comm j,Nat.add_assoc]
  rw [aligned h row found _ inside,Nat.mul_comm compressedPageSize compressRatio,← Nat.div_div_eq_div_mul,
    Nat.mod_mul,block,member,Nat.mul_comm compressRatio compressedPageSize,place]
  exact (place_parts _ compressRatio j small).1

theorem first_slot (h b : Nat) (row : Nat → Nat) (found : table.rows[h]? = some row)
    (inside : b * compressRatio < table.width) :
    row (b * compressRatio) / compressRatio = address page compressedPageSize h b :=
  member_slot compressedPageSize compressRatio table page aligned h b 0 row found ratioPositive inside

theorem plan_address (startBlocks : List Int) (endBlocks : List Nat) (capacity : Nat) (chunks : Option Chunks)
    (entries : List Entry) (ran : qsaWritePlan table startBlocks endBlocks capacity compressRatio chunks = some entries)
    (entry : Entry) (member : entry ∈ entries) (valid : entry.valid = true) (b : Nat)
    (block : entry.groupEndPosition = b * compressRatio + (compressRatio - 1)) :
    entry.writeLoc = address page compressedPageSize entry.row b := by
  unfold qsaWritePlan at ran
  split at ran
  · cases ran
  · split at ran
    · cases ran
    · obtain ⟨place,_,made⟩ := mapM_member _ _ entries ran entry member
      unfold planEntry at made
      simp only [Option.bind_eq_bind] at made
      obtain ⟨startBlock,_,made⟩ := Option.bind_eq_some_iff.mp made
      obtain ⟨start,_,made⟩ := Option.bind_eq_some_iff.mp made
      obtain ⟨slot,found,made⟩ := Option.bind_eq_some_iff.mp made
      obtain ⟨memberRow,_,same⟩ := Option.bind_eq_some_iff.mp made
      cases same
      simp only at valid block
      simp only [valid,if_true] at found block ⊢
      have number : startBlock + (place : Int) - (start : Int) = (b : Int) := by
        have scaled : (startBlock + (place : Int) - (start : Int)) * compressRatio = (b : Int) * compressRatio :=
          add_right_cancel block
        exact Int.eq_of_mul_eq_mul_right (by omega) scaled
      rw [number] at found
      rw [← Int.natCast_mul,slot_column] at found
      split at found
      · rename_i inside
        obtain ⟨row,named,read⟩ := Option.map_eq_some_iff.mp found
        rw [← read]
        exact first_slot compressedPageSize compressRatio ratioPositive table page aligned _ b row named inside
      · cases found

theorem locs_address (h completeBlocks : Nat) (row : Nat → Nat) (found : table.rows[h]? = some row)
    (covers : completeBlocks * compressRatio ≤ table.width) :
    compressedLocs table compressRatio h completeBlocks =
      some ((List.range completeBlocks).map (address page compressedPageSize h)) := by
  have inside : ∀ b < completeBlocks, b * compressRatio < table.width := by
    intro b below
    have next := Nat.mul_le_mul_right compressRatio (Nat.succ_le_of_lt below)
    rw [Nat.succ_mul] at next
    omega
  unfold compressedLocs
  rw [found,Option.map_some,List.filter_eq_self.mpr,List.map_map]
  · congr 1
    apply List.map_congr_left
    intro b member
    exact first_slot compressedPageSize compressRatio ratioPositive table page aligned h b row found
      (inside b (List.mem_range.mp member))
  · intro column member
    obtain ⟨b,old,rfl⟩ := List.mem_map.mp member
    exact decide_eq_true (inside b (List.mem_range.mp old))

include pagePositive in
theorem view_page (sequenceLengths : List Nat) (h b : Nat) (row : Nat → Nat) (found : table.rows[h]? = some row)
    (inside : b * compressRatio < table.width) :
    (compressedDecodeView compressedPageSize compressRatio sequenceLengths table).1.slot h
      ((b / compressedPageSize : Nat) : Int) = some (page h (b / compressedPageSize)) := by
  have full : 0 < compressedPageSize * compressRatio := Nat.mul_pos pagePositive ratioPositive
  have below : b / compressedPageSize * (compressedPageSize * compressRatio) < table.width := by
    rw [← Nat.mul_assoc]
    exact Nat.lt_of_le_of_lt (Nat.mul_le_mul_right _ (Nat.div_mul_le_self b compressedPageSize)) inside
  have column : b / compressedPageSize < (table.width + compressedPageSize * compressRatio - 1) /
      (compressedPageSize * compressRatio) := by
    rw [Nat.lt_div_iff_mul_lt full]
    omega
  rw [slot_column,if_pos (show b / compressedPageSize <
    (compressedDecodeView compressedPageSize compressRatio sequenceLengths table).1.width from column)]
  simp only [compressedDecodeView,Table.columns,List.map_map,List.getElem?_map,found,Option.map_some,Function.comp_apply,
    Nat.max_zero]
  rw [aligned h row found _ below,Nat.mul_div_cancel _ full,Nat.mul_mod_left,Nat.add_zero,Nat.mul_div_cancel _ full]

include pagePositive in
theorem view_address (sequenceLengths : List Nat) (h b : Nat) (row : Nat → Nat) (found : table.rows[h]? = some row)
    (inside : b * compressRatio < table.width) :
    ((compressedDecodeView compressedPageSize compressRatio sequenceLengths table).1.slot h
      ((b / compressedPageSize : Nat) : Int)).map (fun id => id * compressedPageSize + b % compressedPageSize) =
        some (address page compressedPageSize h b) := by
  rw [view_page compressedPageSize compressRatio pagePositive ratioPositive table page aligned sequenceLengths h b row found
    inside]
  rfl

theorem packed_address (sequenceLengths : List Nat) (covers : ∀ length ∈ sequenceLengths, length ≤ table.width)
    (parts : List (List Nat)) (ran : packedLocs table compressRatio sequenceLengths = some parts) :
    parts = (List.range sequenceLengths.length).map fun h =>
      (List.range (sequenceLengths.getD h 0 / compressRatio)).map (address page compressedPageSize h) := by
  apply mapM_known _ _ _ parts ran
  intro h member part made
  simp only at made
  split at made
  · rename_i empty
    cases made
    rw [empty]
    rfl
  · obtain ⟨row,found,_⟩ := Option.map_eq_some_iff.mp made
    have inside := List.mem_range.mp member
    have length : sequenceLengths.getD h 0 ≤ table.width := by
      rw [List.getD_eq_getElem?_getD,List.getElem?_eq_getElem inside,Option.getD_some]
      exact covers _ (List.getElem_mem inside)
    rw [locs_address compressedPageSize compressRatio ratioPositive table page aligned h _ row found
      (Nat.le_trans (Nat.div_mul_le_self _ _) length),Option.some_inj] at made
    exact made.symm

end

theorem part_slice (parts : List (List α)) (h : Nat) (part : List α) (found : parts[h]? = some part) (count : Nat) :
    (parts.flatten.drop (offset (parts.map List.length) h)).take (min count part.length) = part.take count := by
  apply List.ext_getElem?
  intro k
  by_cases small : k < min count part.length
  · have inside : k < part.length := by omega
    have read := flatMap_read parts id h k part found inside
    rw [List.flatMap_id] at read
    rw [List.getElem?_take_of_lt small,List.getElem?_drop,List.getElem?_take_of_lt (by omega)]
    exact read
  · rw [List.getElem?_eq_none,List.getElem?_eq_none]
    · simp
      omega
    · simp
      omega

def visible (compressRatio length position : Nat) : List Nat :=
  (List.range (length / compressRatio)).filter fun b => decide (∀ j < compressRatio, b * compressRatio + j ≤ position)

theorem visible_exact (compressRatio length position : Nat) (positive : 0 < compressRatio) :
    visible compressRatio length position = List.range (min ((position + 1) / compressRatio) (length / compressRatio)) := by
  have reached : ∀ b, (∀ j < compressRatio, b * compressRatio + j ≤ position) ↔ b < (position + 1) / compressRatio := by
    intro b
    rw [Nat.lt_iff_add_one_le,Nat.le_div_iff_mul_le positive,Nat.add_mul,Nat.one_mul]
    constructor
    · intro all
      have last := all (compressRatio - 1) (by omega)
      omega
    · intro below j small
      omega
  unfold visible
  simp only [reached]
  by_cases more : (position + 1) / compressRatio ≤ length / compressRatio
  · rw [Nat.min_eq_left more]
    exact segment_below _ _ more
  · rw [Nat.min_eq_right (by omega),List.filter_eq_self]
    intro b member
    have below := List.mem_range.mp member
    exact decide_eq_true (by omega)

theorem ranges_exact (sequenceLengths positions ids : List Nat) (compressRatio : Nat) (starts ends sums : List Nat)
    (ran : buildQsaRowRanges sequenceLengths positions ids compressRatio = some (starts,ends,sums)) (i h position : Nat)
    (atId : ids[i]? = some h) (atPosition : positions[i]? = some position) :
    ∃ length, sequenceLengths[h]? = some length ∧
      starts[i]? = some (offset (sequenceLengths.map (· / compressRatio)) h) ∧
      ends[i]? = some (offset (sequenceLengths.map (· / compressRatio)) h +
        min ((position + 1) / compressRatio) (length / compressRatio)) := by
  obtain ⟨rowStarts,gathered,ran⟩ := Option.bind_eq_some_iff.mp ran
  obtain ⟨maxBlocks,read,ran⟩ := Option.bind_eq_some_iff.mp ran
  split at ran
  · cases ran
  · cases ran
    obtain ⟨inside,_⟩ := List.getElem?_eq_some_iff.mp atId
    have count := (mapM_parts _ _ _ read).length_eq
    have atMax := mapM_read _ _ _ read i h atId
    obtain ⟨blocks,found⟩ : ∃ blocks, maxBlocks[i]? = some blocks :=
      ⟨_,List.getElem?_eq_getElem (count ▸ inside)⟩
    rw [found,List.getElem?_map] at atMax
    obtain ⟨length,named,rfl⟩ := Option.map_eq_some_iff.mp atMax.symm
    obtain ⟨bound,_⟩ := List.getElem?_eq_some_iff.mp named
    have atStart := mapM_read _ _ _ gathered i h atId
    rw [scanl_offset,List.getElem?_map,List.length_map,List.getElem?_range (by omega),Option.map_some,Nat.zero_add] at atStart
    refine ⟨length,named,atStart,?_⟩
    rw [List.getElem?_zipWith,atStart,List.getElem?_zipWith,List.getElem?_map,atPosition,found]
    rfl

-- The write plan, the prefill gather and the decode view address one compressed slot, blocks on
-- different places have different slots, and a query's packed range is its own visible blocks.
theorem one_address (compressedPageSize compressRatio : Nat) (pagePositive : 0 < compressedPageSize)
    (ratioPositive : 0 < compressRatio) (table : Table) (page : Nat → Nat → Nat)
    (aligned : PageAligned table page (compressedPageSize * compressRatio)) (sequenceLengths : List Nat)
    (rows : sequenceLengths.length ≤ table.rows.length) (covers : ∀ length ∈ sequenceLengths, length ≤ table.width) :
    (∀ h length, sequenceLengths[h]? = some length → ∀ b < length / compressRatio,
      (∀ startBlocks endBlocks capacity chunks entries,
        qsaWritePlan table startBlocks endBlocks capacity compressRatio chunks = some entries → ∀ entry ∈ entries,
        entry.valid = true → entry.row = h → entry.groupEndPosition = b * compressRatio + (compressRatio - 1) →
        entry.writeLoc = address page compressedPageSize h b) ∧
      (compressedLocs table compressRatio h (length / compressRatio)).bind (·[b]?) =
        some (address page compressedPageSize h b) ∧
      ((compressedDecodeView compressedPageSize compressRatio sequenceLengths table).1.slot h
        ((b / compressedPageSize : Nat) : Int)).map (fun id => id * compressedPageSize + b % compressedPageSize) =
          some (address page compressedPageSize h b)) ∧
    (∀ h b h' b', address page compressedPageSize h b = address page compressedPageSize h' b' →
      page h (b / compressedPageSize) = page h' (b' / compressedPageSize) ∧
        b % compressedPageSize = b' % compressedPageSize) ∧
    ∀ (buffer : Nat → K) (ids positions : List Nat) (keys : List K) (starts ends sizes : List Nat),
      getPrefillMqaInputs buffer table compressRatio sequenceLengths ids positions = some (keys,starts,ends,sizes) →
      ∀ (i h position : Nat), ids[i]? = some h → positions[i]? = some position →
        ∃ length start stop, sequenceLengths[h]? = some length ∧ starts[i]? = some start ∧ ends[i]? = some stop ∧
          (keys.drop start).take (stop - start) = (visible compressRatio length position).map fun b =>
            buffer (address page compressedPageSize h b) := by
  refine ⟨?_,address_apart page compressedPageSize pagePositive,?_⟩
  · intro h length found b below
    obtain ⟨bound,_⟩ := List.getElem?_eq_some_iff.mp found
    have row := List.getElem?_eq_getElem (Nat.lt_of_lt_of_le bound rows)
    have width := covers length (List.mem_of_getElem? found)
    have complete := Nat.div_mul_le_self length compressRatio
    have inside : b * compressRatio < table.width := by
      have next := Nat.mul_le_mul_right compressRatio (Nat.succ_le_of_lt below)
      rw [Nat.succ_mul] at next
      omega
    refine ⟨?_,?_,view_address compressedPageSize compressRatio pagePositive ratioPositive table page aligned
      sequenceLengths h b _ row inside⟩
    · intro startBlocks endBlocks capacity chunks entries ran entry member valid named block
      subst named
      exact plan_address compressedPageSize compressRatio ratioPositive table page aligned startBlocks endBlocks capacity
        chunks entries ran entry member valid b block
    · rw [locs_address compressedPageSize compressRatio ratioPositive table page aligned h _ _ row
        (Nat.le_trans complete width),Option.bind_some,List.getElem?_map,List.getElem?_range below]
      rfl
  · intro buffer ids positions keys starts ends sizes ran i h position atId atPosition
    obtain ⟨parts,packed,ran⟩ := Option.bind_eq_some_iff.mp ran
    simp only at ran
    split at ran
    · cases ran
    · obtain ⟨⟨rowStarts,rowEnds,sums⟩,ranged,same⟩ := Option.bind_eq_some_iff.mp ran
      cases same
      obtain ⟨inside,_⟩ := List.getElem?_eq_some_iff.mp atId
      obtain ⟨length,found,atStart,atEnd⟩ := ranges_exact sequenceLengths _ ids compressRatio _ _ sums ranged i h
        position atId (by rw [List.getElem?_take_of_lt inside]; exact atPosition)
      refine ⟨length,_,_,found,atStart,atEnd,?_⟩
      obtain ⟨bound,_⟩ := List.getElem?_eq_some_iff.mp found
      have exact := packed_address compressedPageSize compressRatio ratioPositive table page aligned sequenceLengths covers
        parts packed
      have lengths : parts.map List.length = sequenceLengths.map (· / compressRatio) := by
        rw [exact,List.map_map]
        apply List.ext_getElem
        · simp
        · intro k _ small
          have within : k < sequenceLengths.length := by simpa using small
          simp [within]
      have part : parts[h]? = some ((List.range (length / compressRatio)).map (address page compressedPageSize h)) := by
        rw [exact,List.getElem?_map,List.getElem?_range bound,Option.map_some,List.getD_eq_getElem?_getD,found]
        rfl
      have slice := part_slice parts h _ part ((position + 1) / compressRatio)
      rw [List.length_map,List.length_range,lengths] at slice
      rw [Nat.add_sub_cancel_left,visible_exact _ _ _ ratioPositive,← List.map_drop,← List.map_take,slice,← List.map_take,
        List.take_range,List.map_map]
      rfl

def samplePage (h number : Nat) : Nat := 3 + 5 * h - number

def sampleTable : Table :=
  ⟨6,[fun column => samplePage 0 (column / 4) * 4 + column % 4,
    fun column => samplePage 1 (column / 4) * 4 + column % 4]⟩

theorem sample_address :
    (∃ entries entry, qsaWritePlan sampleTable [1,1] [2,2] 2 2 none = some entries ∧ entry ∈ entries ∧ entry.row = 1 ∧
      entry.groupEndPosition = 3 ∧ entry.writeLoc = address samplePage 2 1 1) ∧
    (compressedLocs sampleTable 2 1 2).bind (·[1]?) = some (address samplePage 2 1 1) ∧
    ((compressedDecodeView 2 2 [5,4] sampleTable).1.slot 1 ((1 / 2 : Nat) : Int)).map (fun id => id * 2 + 1 % 2) =
      some (address samplePage 2 1 1) ∧
    ∃ keys starts ends sizes, getPrefillMqaInputs id sampleTable 2 [5,4] [0,1,1] [4,2,3] =
        some (keys,starts,ends,sizes) ∧
      ∃ length start stop, [5,4][1]? = some length ∧ starts[2]? = some start ∧ ends[2]? = some stop ∧
        (keys.drop start).take (stop - start) = [16,17] := by
  have aligned : PageAligned sampleTable samplePage (2 * 2) := by
    intro h row found position _
    match h with
    | 0 | 1 =>
        cases found
        rfl
    | h + 2 => cases found
  obtain ⟨slots,_,ranges⟩ := one_address (K := Nat) 2 2 (by decide) (by decide) sampleTable samplePage aligned [5,4]
    (by decide) (by decide)
  obtain ⟨stored,gathered,viewed⟩ := slots 1 4 rfl 1 (by decide)
  have planned : qsaWritePlan sampleTable [1,1] [2,2] 2 2 none = some [⟨true,7,3,0,none⟩,⟨true,17,3,1,none⟩] := rfl
  refine ⟨⟨_,⟨true,17,3,1,none⟩,planned,.tail _ (.head _),rfl,rfl,?_⟩,gathered,viewed,_,_,_,_,rfl,?_⟩
  · exact stored [1,1] [2,2] 2 none _ planned ⟨true,17,3,1,none⟩ (.tail _ (.head _)) rfl rfl rfl
  obtain ⟨length,start,stop,found,atStart,atEnd,slice⟩ := ranges id [0,1,1] [4,2,3] _ _ _ _ rfl 2 1 3 rfl rfl
  refine ⟨length,start,stop,found,atStart,atEnd,slice.trans ?_⟩
  cases found
  decide

end OneSpark.CompressedSlots
