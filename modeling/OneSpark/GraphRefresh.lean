import OneSpark.CompressedSlots

namespace OneSpark.GraphRefresh
open Tensors RingSlots Blocks WritePlan CompressedSlots
open PleLayout (isDecode)

def ceilDiv (value divisor : Nat) : Nat := (value + divisor - 1) / divisor

def graphPages (maxContextLen compressRatio compressedPageSize : Nat) : Nat :=
  max 1 (ceilDiv (ceilDiv maxContextLen compressRatio) compressedPageSize)

structure GraphMetadata where
  compressedLengths : List Nat
  writeLocs : List Nat
  logicalPositions : List Nat
  pendingRingSlots : List Nat
  ringGroupLocs : List (List Nat)
  pageTable : Table

-- page_table[:, :num_pages].copy_(table): the columns behind keep what they held.
def refreshPages (reqToToken : Table) (reqIndices : List Nat) (fullPage : Nat) (before : Table) : Option Table := do
  let numPages := min before.width (reqToToken.width / fullPage)
  let rows ← gather reqToToken.rows reqIndices
  if rows.length ≠ before.rows.length then none else
  return ⟨before.width,before.rows.zipWith (fun held row column =>
    if column < numPages then max (row (column * fullPage) / fullPage) 0 else held column) rows⟩

-- _update_qsa_cuda_graph_metadata; every buffer but the page table is overwritten whole.
def updateQsaCudaGraphMetadata (ring : Ring) (compressedPageSize : Nat) (reqToToken : Table)
    (sequenceLengths reqPoolIndices : List Nat) (before : Table) : Option GraphMetadata := do
  let ratio := ring.compressRatio
  let tokenToBatchIdx := List.range sequenceLengths.length
  let currentPositions := sequenceLengths.map (· - 1)
  let lastLocs ← (reqPoolIndices.zip currentPositions).mapM fun place => reqToToken.slot place.1 (place.2 : Nat)
  let writeLocs := sequenceLengths.zipWith (fun length loc => if length % ratio = 0 ∧ 0 < length then loc / ratio else 0)
    lastLocs
  let slots ← buildPendingRingSlots ring tokenToBatchIdx reqPoolIndices sequenceLengths currentPositions false
  let groups ← buildGroupRingSlots ring reqPoolIndices currentPositions tokenToBatchIdx
  let pageTable ← refreshPages reqToToken reqPoolIndices (compressedPageSize * ratio) before
  return ⟨sequenceLengths.map (· / ratio),writeLocs,currentPositions,slots,groups,pageTable⟩

structure Eager where
  entries : List Entry
  pendingRingSlots : List Nat
  groupRingLocs : List (List Nat)
  view : Table × List Nat

-- `maxLength` bounds the columns of the gathered table.
def eagerMetadata (ring : Ring) (compressedPageSize : Nat) (reqToToken : Table) (fb : ForwardBatch)
    (sequenceLengths reqPoolIndices : List Nat) (maxLength : Nat) : Option Eager := do
  let table ← reqToToken.take reqPoolIndices maxLength
  let entries ← qsaBuildWritePlan fb true table sequenceLengths ring.compressRatio
  let slots ← buildPendingRingSlots ring (List.range sequenceLengths.length) reqPoolIndices sequenceLengths
    (sequenceLengths.map (· - 1)) false
  let groups ← buildGroupRingSlots ring reqPoolIndices (entries.map fun entry => entry.groupEndPosition.toNat)
    (entries.map fun entry => entry.row)
  return ⟨entries,slots,groups,compressedDecodeView compressedPageSize ring.compressRatio sequenceLengths table⟩

structure Agree (compressRatio compressedPageSize : Nat) (sequenceLengths : List Nat) (eager : Eager)
    (graph : GraphMetadata) : Prop where
  writes : (eager.entries.filter fun entry => entry.valid).map (fun entry => (entry.row,some entry.writeLoc)) =
    (completing sequenceLengths compressRatio).map fun row => (row,graph.writeLocs[row]?)
  inert : (∀ entry ∈ eager.entries, entry.valid = false → entry.writeLoc = 0) ∧
    ∀ row length : Nat, sequenceLengths[row]? = some length → length % compressRatio ≠ 0 → graph.writeLocs[row]? = some 0
  slots : eager.pendingRingSlots = graph.pendingRingSlots
  members : ∀ (i : Nat) (entry : Entry), eager.entries[i]? = some entry → entry.valid = true →
    ∃ locs, eager.groupRingLocs[i]? = some locs ∧ graph.ringGroupLocs[entry.row]? = some locs
  lengths : eager.view.2 = graph.compressedLengths
  pages : ∀ row length : Nat, sequenceLengths[row]? = some length → ∀ b < length / compressRatio,
    ∃ id, eager.view.1.slot row ((b / compressedPageSize : Nat) : Int) = some id ∧
      graph.pageTable.slot row ((b / compressedPageSize : Nat) : Int) = some id

structure Paged (reqToToken : Table) (maxContextLen maxLength : Nat) (sequenceLengths reqPoolIndices : List Nat) :
    Prop where
  rows : reqPoolIndices.length = sequenceLengths.length
  requests : ∀ request ∈ reqPoolIndices, request < reqToToken.rows.length
  positive : ∀ length ∈ sequenceLengths, 1 ≤ length
  within : ∀ length ∈ sequenceLengths, length ≤ min reqToToken.width maxContextLen
  covers : ∀ length ∈ sequenceLengths, length ≤ maxLength

section
variable (ring : Ring) (compressedPageSize : Nat) (reqToToken : Table) (sequenceLengths reqPoolIndices : List Nat)

structure Refreshed (before : Table) (graph : GraphMetadata) : Prop where
  compressedLengths : graph.compressedLengths = sequenceLengths.map (· / ring.compressRatio)
  writeLocs : ∀ (row length request : Nat) (content : Nat → Nat), sequenceLengths[row]? = some length →
    reqPoolIndices[row]? = some request → reqToToken.rows[request]? = some content →
    graph.writeLocs[row]? = some (if length % ring.compressRatio = 0 ∧ 0 < length then
      content (length - 1) / ring.compressRatio else 0)
  slots : graph.pendingRingSlots = reqPoolIndices.zipWith (ringSlot ring) (sequenceLengths.map (· - 1))
  groups : ∀ (row length request : Nat), sequenceLengths[row]? = some length → reqPoolIndices[row]? = some request →
    graph.ringGroupLocs[row]? = some ((List.range ring.compressRatio).reverse.map fun offset =>
      ringSlot ring request (length - 1 - offset))
  pages : graph.pageTable.width = before.width ∧ ∀ (row request : Nat) (content held : Nat → Nat),
    reqPoolIndices[row]? = some request → reqToToken.rows[request]? = some content → before.rows[row]? = some held →
    graph.pageTable.rows[row]? = some fun column =>
      if column < min before.width (reqToToken.width / (compressedPageSize * ring.compressRatio)) then
        max (content (column * (compressedPageSize * ring.compressRatio)) / (compressedPageSize * ring.compressRatio)) 0
      else held column

structure Built (maxLength : Nat) (table : Table) (eager : Eager) : Prop where
  width : table.width = min maxLength reqToToken.width
  height : table.rows.length = sequenceLengths.length
  rows : ∀ row request : Nat, reqPoolIndices[row]? = some request → table.rows[row]? = reqToToken.rows[request]?
  entries : eager.entries = ((completing sequenceLengths ring.compressRatio).map fun row =>
      ownedEntry table ring.compressRatio none row (sequenceLengths.getD row 0 / ring.compressRatio - 1 : Nat)) ++
    List.replicate (sequenceLengths.length - (completing sequenceLengths ring.compressRatio).length)
      (paddingEntry ring.compressRatio none)
  slots : eager.pendingRingSlots = reqPoolIndices.zipWith (ringSlot ring) (sequenceLengths.map (· - 1))
  groups : ∀ (i request : Nat) (entry : Entry), eager.entries[i]? = some entry → reqPoolIndices[entry.row]? = some request →
    eager.groupRingLocs[i]? = some ((List.range ring.compressRatio).reverse.map fun offset =>
      ringSlot ring request (entry.groupEndPosition.toNat - offset))
  view : eager.view = compressedDecodeView compressedPageSize ring.compressRatio sequenceLengths table

end

section
variable (ring : Ring) (compressedPageSize : Nat) {maxContextLen maxLength : Nat} {reqToToken : Table}
  {page : Nat → Nat → Nat} {sequenceLengths reqPoolIndices : List Nat} (pagePositive : 0 < compressedPageSize)
  (aligned : PageAligned reqToToken page (compressedPageSize * ring.compressRatio))
  (paged : Paged reqToToken maxContextLen maxLength sequenceLengths reqPoolIndices)
include paged

theorem taken_returns : ∃ table, reqToToken.take reqPoolIndices maxLength = some table ∧
    table.rows.length = sequenceLengths.length := by
  obtain ⟨rows,gathered,length⟩ := mapM_returns (fun i => reqToToken.rows[i]?) reqPoolIndices fun request member =>
    ⟨_,List.getElem?_eq_getElem (paged.requests request member)⟩
  exact ⟨⟨_,rows⟩,by rw [Table.take,gather,gathered]; rfl,length.trans paged.rows⟩

theorem row_parts (row length : Nat) (found : sequenceLengths[row]? = some length) : ∃ request content,
    reqPoolIndices[row]? = some request ∧ reqToToken.rows[request]? = some content ∧ 1 ≤ length ∧
      length ≤ reqToToken.width ∧ length ≤ maxContextLen ∧ length ≤ maxLength := by
  obtain ⟨inside,_⟩ := List.getElem?_eq_some_iff.mp found
  have own : row < reqPoolIndices.length := paged.rows ▸ inside
  have member := List.mem_of_getElem? found
  have bound := paged.within length member
  exact ⟨_,_,List.getElem?_eq_getElem own,
    List.getElem?_eq_getElem (paged.requests _ (List.getElem_mem own)),paged.positive length member,
    Nat.le_trans bound (Nat.min_le_left _ _),Nat.le_trans bound (Nat.min_le_right _ _),paged.covers length member⟩

omit paged in
theorem group_returns (requests groupEnds rows : List Nat) (named : ∀ row ∈ rows, row < requests.length) :
    ∃ groups, buildGroupRingSlots ring requests groupEnds rows = some groups := by
  obtain ⟨gathered,read,_⟩ := mapM_returns (fun i => requests[i]?) rows fun row member =>
    ⟨_,List.getElem?_eq_getElem (named row member)⟩
  exact ⟨_,by rw [buildGroupRingSlots,gather,read]; rfl⟩

theorem paged_row_slots : buildPendingRingSlots ring (List.range sequenceLengths.length) reqPoolIndices sequenceLengths
    (sequenceLengths.map (· - 1)) false = some (reqPoolIndices.zipWith (ringSlot ring) (sequenceLengths.map (· - 1))) := by
  have slots := paged_slots ring reqPoolIndices sequenceLengths (sequenceLengths.map (· - 1)) (by simp [paged.rows])
  rwa [List.length_map] at slots

theorem graph_returns (before : Table) (shape : before.rows.length = sequenceLengths.length) :
    ∃ graph, updateQsaCudaGraphMetadata ring compressedPageSize reqToToken sequenceLengths reqPoolIndices before =
      some graph ∧ Refreshed ring compressedPageSize reqToToken sequenceLengths reqPoolIndices before graph := by
  obtain ⟨lastLocs,located,count⟩ := mapM_returns (fun place : Nat × Nat => reqToToken.slot place.1 (place.2 : Nat))
    (reqPoolIndices.zip (sequenceLengths.map (· - 1))) (by
      intro place member
      obtain ⟨i,zipped⟩ := List.getElem?_of_mem member
      obtain ⟨atRequest,atPosition⟩ := List.getElem?_zip_eq_some.mp zipped
      rw [List.getElem?_map,Option.map_eq_some_iff] at atPosition
      obtain ⟨length,found,position⟩ := atPosition
      obtain ⟨request,content,own,row,least,width,_,_⟩ := row_parts paged i length found
      rw [atRequest,Option.some_inj] at own
      rw [slot_column,if_pos (by omega),own,row]
      exact ⟨_,rfl⟩)
  obtain ⟨groups,grouped⟩ := group_returns ring reqPoolIndices (sequenceLengths.map (· - 1))
    (List.range sequenceLengths.length) (by
      intro row member
      rw [paged.rows]
      exact List.mem_range.mp member)
  obtain ⟨rows,gathered,height⟩ := mapM_returns (fun i => reqToToken.rows[i]?) reqPoolIndices fun request member =>
    ⟨_,List.getElem?_eq_getElem (paged.requests request member)⟩
  refine ⟨⟨sequenceLengths.map (· / ring.compressRatio),sequenceLengths.zipWith (fun length loc =>
        if length % ring.compressRatio = 0 ∧ 0 < length then loc / ring.compressRatio else 0) lastLocs,
      sequenceLengths.map (· - 1),reqPoolIndices.zipWith (ringSlot ring) (sequenceLengths.map (· - 1)),groups,
      ⟨before.width,before.rows.zipWith (fun held row column =>
        if column < min before.width (reqToToken.width / (compressedPageSize * ring.compressRatio)) then
          max (row (column * (compressedPageSize * ring.compressRatio)) / (compressedPageSize * ring.compressRatio)) 0
        else held column) rows⟩⟩,?_,?_⟩
  · unfold updateQsaCudaGraphMetadata refreshPages
    simp only [Option.bind_eq_bind,located,Option.bind_some,
      paged_row_slots ring paged,grouped,gather,gathered]
    rw [if_neg (by rw [height,paged.rows,shape]; simp)]
    rfl
  · refine ⟨rfl,?_,rfl,?_,rfl,?_⟩
    · intro row length request content found own content_row
      obtain ⟨_,_,_,_,least,width,_,_⟩ := row_parts paged
        row length found
      have place : (reqPoolIndices.zip (sequenceLengths.map (· - 1)))[row]? = some (request,length - 1) :=
        List.getElem?_zip_eq_some.mpr ⟨own,by rw [List.getElem?_map,found]; rfl⟩
      have loc := mapM_read _ _ lastLocs located row _ place
      simp only at loc
      rw [slot_column,if_pos (by omega),content_row] at loc
      rw [List.getElem?_zipWith,found,loc]
      rfl
    · intro row length request found own
      obtain ⟨inside,_⟩ := List.getElem?_eq_some_iff.mp found
      exact group_read ring reqPoolIndices _ _ groups grouped row row (length - 1) request (List.getElem?_range inside)
        (by rw [List.getElem?_map,found]; rfl) own
    · intro row request content held own content_row old
      have gathered_row := mapM_read _ _ rows gathered row request own
      rw [content_row] at gathered_row
      rw [List.getElem?_zipWith,old,gathered_row]

theorem eager_returns (fb : ForwardBatch) : ∃ eager table,
    eagerMetadata ring compressedPageSize reqToToken fb sequenceLengths reqPoolIndices maxLength = some eager ∧
      Built ring compressedPageSize reqToToken sequenceLengths reqPoolIndices maxLength table eager := by
  obtain ⟨table,taken,height⟩ := taken_returns paged
  obtain ⟨width,rows⟩ := take_parts reqToToken table reqPoolIndices maxLength taken
  have bounds : ∀ length ∈ sequenceLengths, length ≤ table.width := by
    intro length member
    have within := Nat.le_trans (paged.within length member) (Nat.min_le_left _ _)
    have covers := paged.covers length member
    omega
  obtain ⟨entries,planned⟩ := paged_returns table sequenceLengths ring.compressRatio ring.ratioPositive height
    paged.positive bounds
  have exact := paged_plan table sequenceLengths ring.compressRatio ring.ratioPositive paged.positive entries planned
  obtain ⟨groups,grouped⟩ := group_returns ring reqPoolIndices (entries.map fun entry => entry.groupEndPosition.toNat)
    (entries.map fun entry => entry.row) (by
      intro row member
      obtain ⟨entry,old,rfl⟩ := List.mem_map.mp member
      rw [exact] at old
      rw [paged.rows]
      rcases List.mem_append.mp old with owned | padding
      · obtain ⟨row,chosen,rfl⟩ := List.mem_map.mp owned
        exact List.mem_range.mp (List.mem_filter.mp chosen).1
      · have room := List.length_pos_of_mem padding
        rw [List.length_replicate] at room
        rw [List.eq_of_mem_replicate padding]
        exact Nat.lt_of_lt_of_le room (Nat.sub_le _ _))
  refine ⟨⟨entries,reqPoolIndices.zipWith (ringSlot ring) (sequenceLengths.map (· - 1)),groups,
    compressedDecodeView compressedPageSize ring.compressRatio sequenceLengths table⟩,table,?_,width,height,rows,exact,rfl,?_,rfl⟩
  · unfold eagerMetadata qsaBuildWritePlan
    rw [taken,Option.bind_eq_bind,Option.bind_some,Bool.or_true,if_pos rfl,planned,Option.bind_eq_bind,Option.bind_some,
      paged_row_slots ring paged,Option.bind_eq_bind,
      Option.bind_some,grouped]
    rfl
  · intro i request entry found own
    exact group_read ring reqPoolIndices _ _ groups grouped i entry.row entry.groupEndPosition.toNat request
      (by rw [List.getElem?_map]; simp only at found; rw [found]; rfl)
      (by rw [List.getElem?_map]; simp only at found; rw [found]; rfl) own

section
variable {ring compressedPageSize} {table before : Table} {eager : Eager} {graph : GraphMetadata}
  (built : Built ring compressedPageSize reqToToken sequenceLengths reqPoolIndices maxLength table eager)
  (refreshed : Refreshed ring compressedPageSize reqToToken sequenceLengths reqPoolIndices before graph)
include built

omit paged built in
theorem completing_parts (row : Nat) (member : row ∈ completing sequenceLengths ring.compressRatio) :
    ∃ length, sequenceLengths[row]? = some length ∧ sequenceLengths.getD row 0 = length ∧
      length % ring.compressRatio = 0 := by
  obtain ⟨inside,whole⟩ := List.mem_filter.mp member
  obtain ⟨length,found⟩ : ∃ length, sequenceLengths[row]? = some length :=
    ⟨_,List.getElem?_eq_getElem (List.mem_range.mp inside)⟩
  have read : sequenceLengths.getD row 0 = length := by
    rw [List.getD_eq_getElem?_getD,found,Option.getD_some]
  exact ⟨length,found,read,read ▸ of_decide_eq_true whole⟩

omit paged built in
theorem last_position (length : Nat) (least : 1 ≤ length) (whole : length % ring.compressRatio = 0) :
    0 < length / ring.compressRatio ∧
      length - 1 = (length / ring.compressRatio - 1) * ring.compressRatio + (ring.compressRatio - 1) := by
  have divides := Nat.dvd_of_mod_eq_zero whole
  have some_block := Nat.div_pos (Nat.le_of_dvd least divides) ring.ratioPositive
  have product := Nat.div_mul_cancel divides
  have block := Nat.le_mul_of_pos_left ring.compressRatio some_block
  have positive := ring.ratioPositive
  refine ⟨some_block,?_⟩
  rw [Nat.sub_mul,product,Nat.one_mul]
  omega

omit paged in
-- The valid entries are those of the completing rows, in order.
theorem valid_entries : (eager.entries.filter fun entry => entry.valid) =
    (completing sequenceLengths ring.compressRatio).map fun row =>
      ownedEntry table ring.compressRatio none row (sequenceLengths.getD row 0 / ring.compressRatio - 1 : Nat) := by
  rw [built.entries,List.filter_append,List.filter_eq_self.mpr,List.filter_eq_nil_iff.mpr,List.append_nil]
  · intro entry member
    rw [List.eq_of_mem_replicate member]
    exact Bool.false_ne_true
  · intro entry member
    obtain ⟨row,_,rfl⟩ := List.mem_map.mp member
    rfl

include aligned refreshed

-- Both sides store a completing row's block to one slot: every raw slot of the block divides to it.
theorem writes_agree : (eager.entries.filter fun entry => entry.valid).map (fun entry => (entry.row,some entry.writeLoc)) =
    (completing sequenceLengths ring.compressRatio).map fun row => (row,graph.writeLocs[row]?) := by
  rw [valid_entries built,List.map_map]
  apply List.map_congr_left
  intro row member
  obtain ⟨length,found,read,whole⟩ := completing_parts row member
  obtain ⟨request,content,own,content_row,least,width,_,covers⟩ := row_parts paged row length found
  obtain ⟨some_block,last⟩ := last_position length least whole
  have positive := ring.ratioPositive
  have inside : (length / ring.compressRatio - 1) * ring.compressRatio < table.width := by
    rw [built.width]
    omega
  have first := first_slot compressedPageSize ring.compressRatio positive reqToToken page aligned request
    (length / ring.compressRatio - 1) content content_row (by omega)
  have final := member_slot compressedPageSize ring.compressRatio reqToToken page aligned request
    (length / ring.compressRatio - 1) (ring.compressRatio - 1) content content_row (by omega) (by omega)
  simp only [Function.comp_apply,ownedEntry,read]
  rw [← Int.natCast_mul,slot_column,if_pos inside,built.rows row request own,content_row,
    refreshed.writeLocs row length request content found own content_row,if_pos ⟨whole,least⟩,last,final,← first]
  rfl

omit aligned refreshed paged in
theorem padding_inert : ∀ entry ∈ eager.entries, entry.valid = false → entry.writeLoc = 0 := by
  intro entry member invalid
  rw [built.entries] at member
  rcases List.mem_append.mp member with owned | padding
  · obtain ⟨row,_,rfl⟩ := List.mem_map.mp owned
    cases invalid
  · rw [List.eq_of_mem_replicate padding]
    rfl

omit aligned in
theorem members_agree (i : Nat) (entry : Entry) (found : eager.entries[i]? = some entry) (valid : entry.valid = true) :
    ∃ locs, eager.groupRingLocs[i]? = some locs ∧ graph.ringGroupLocs[entry.row]? = some locs := by
  have member : entry ∈ eager.entries.filter fun entry => entry.valid :=
    List.mem_filter.mpr ⟨List.mem_of_getElem? found,valid⟩
  rw [valid_entries built] at member
  obtain ⟨row,chosen,rfl⟩ := List.mem_map.mp member
  obtain ⟨length,atRow,read,whole⟩ := completing_parts row chosen
  obtain ⟨request,content,own,_,least,_,_,_⟩ := row_parts paged row length atRow
  obtain ⟨some_block,last⟩ := last_position length least whole
  have ends : (ownedEntry table ring.compressRatio none row
      (sequenceLengths.getD row 0 / ring.compressRatio - 1 : Nat)).groupEndPosition.toNat = length - 1 := by
    rw [owned_end table _ none row _ ring.ratioPositive,read]
    have positive := ring.ratioPositive
    omega
  refine ⟨_,built.groups i request _ found own,?_⟩
  rw [ends]
  exact refreshed.groups row length request atRow own

omit refreshed in
theorem taken_aligned : PageAligned table (fun row => page (reqPoolIndices.getD row 0))
    (compressedPageSize * ring.compressRatio) := by
  intro row content found position inside
  obtain ⟨bound,_⟩ := List.getElem?_eq_some_iff.mp found
  rw [built.height,← paged.rows] at bound
  have own := List.getElem?_eq_getElem bound
  rw [built.rows row _ own] at found
  simp only [List.getD_eq_getElem?_getD,own,Option.getD_some]
  have width := built.width
  exact aligned _ content found position (by omega)

include pagePositive in
omit refreshed in
theorem eager_page (row length request b : Nat) (found : sequenceLengths[row]? = some length)
    (own : reqPoolIndices[row]? = some request) (below : b < length / ring.compressRatio) :
    eager.view.1.slot row ((b / compressedPageSize : Nat) : Int) = some (page request (b / compressedPageSize)) := by
  obtain ⟨same,content,atRow,content_row,least,width,_,covers⟩ := row_parts paged row length found
  cases own.symm.trans atRow
  have next := (Nat.le_div_iff_mul_le ring.ratioPositive).mp (Nat.succ_le_of_lt below)
  rw [Nat.succ_mul] at next
  have positive := ring.ratioPositive
  have inside : b * ring.compressRatio < table.width := by
    rw [built.width]
    omega
  rw [built.view,view_page compressedPageSize ring.compressRatio pagePositive positive table _
    (taken_aligned aligned paged built) sequenceLengths row b content ((built.rows row request own).trans content_row) inside,
    List.getD_eq_getElem?_getD,own,Option.getD_some]

omit built in
include pagePositive in
-- The graph's page id of a block: copied where a whole page holds it, otherwise what was there.
theorem graph_page (row length request b : Nat) (held : Nat → Nat) (found : sequenceLengths[row]? = some length)
    (own : reqPoolIndices[row]? = some request) (old : before.rows[row]? = some held)
    (columns : before.width = graphPages maxContextLen ring.compressRatio compressedPageSize)
    (below : b < length / ring.compressRatio) :
    graph.pageTable.slot row ((b / compressedPageSize : Nat) : Int) =
      some (if b / compressedPageSize < reqToToken.width / (compressedPageSize * ring.compressRatio) then
        page request (b / compressedPageSize) else held (b / compressedPageSize)) := by
  obtain ⟨same,content,atRow,content_row,least,width,context,_⟩ := row_parts paged row length found
  cases own.symm.trans atRow
  have positive := ring.ratioPositive
  have full : 0 < compressedPageSize * ring.compressRatio := Nat.mul_pos pagePositive positive
  have blocks : b < ceilDiv maxContextLen ring.compressRatio :=
    Nat.lt_of_lt_of_le below (Nat.div_le_div_right (by omega))
  have inside : b / compressedPageSize < before.width := by
    rw [columns,graphPages,lt_max_iff]
    right
    rw [ceilDiv,Nat.lt_div_iff_mul_lt pagePositive]
    have whole := Nat.div_mul_le_self b compressedPageSize
    omega
  obtain ⟨samewidth,rows⟩ := refreshed.pages
  rw [slot_column,samewidth,if_pos inside,rows row request content held own content_row old,Option.map_some]
  simp only [lt_min_iff,inside,true_and,Nat.max_zero]
  split
  · rename_i whole
    have room := (Nat.le_div_iff_mul_le full).mp (Nat.succ_le_of_lt whole)
    rw [Nat.succ_mul] at room
    rw [aligned request content content_row _ (by omega),Nat.mul_div_cancel _ full,Nat.mul_mod_left,Nat.add_zero,
      Nat.mul_div_cancel _ full]
  · rfl

end

end

-- The columns behind the table's whole pages hold the ids of the complete blocks there.
def HeldRight (compressRatio compressedPageSize : Nat) (reqToToken : Table) (page : Nat → Nat → Nat)
    (sequenceLengths reqPoolIndices : List Nat) (before : Table) : Prop :=
  ∀ (row length request : Nat) (held : Nat → Nat), sequenceLengths[row]? = some length →
    reqPoolIndices[row]? = some request → before.rows[row]? = some held → ∀ b < length / compressRatio,
    reqToToken.width / (compressedPageSize * compressRatio) ≤ b / compressedPageSize →
    held (b / compressedPageSize) = page request (b / compressedPageSize)

def BothAgree (ring : Ring) (compressedPageSize : Nat) (reqToToken : Table) (fb : ForwardBatch)
    (sequenceLengths reqPoolIndices : List Nat) (maxLength : Nat) (before : Table) : Prop :=
  ∃ eager graph, eagerMetadata ring compressedPageSize reqToToken fb sequenceLengths reqPoolIndices maxLength = some eager ∧
    updateQsaCudaGraphMetadata ring compressedPageSize reqToToken sequenceLengths reqPoolIndices before = some graph ∧
    Agree ring.compressRatio compressedPageSize sequenceLengths eager graph

section
variable (ring : Ring) (compressedPageSize maxContextLen maxLength : Nat) (pagePositive : 0 < compressedPageSize)
  (reqToToken : Table) (page : Nat → Nat → Nat) (sequenceLengths reqPoolIndices : List Nat)
  (aligned : PageAligned reqToToken page (compressedPageSize * ring.compressRatio))
  (paged : Paged reqToToken maxContextLen maxLength sequenceLengths reqPoolIndices) (fb : ForwardBatch)
include pagePositive aligned paged

theorem agrees_where_held (before : Table)
    (columns : before.width = graphPages maxContextLen ring.compressRatio compressedPageSize)
    (height : before.rows.length = sequenceLengths.length) :
    BothAgree ring compressedPageSize reqToToken fb sequenceLengths reqPoolIndices maxLength before ↔
      HeldRight ring.compressRatio compressedPageSize reqToToken page sequenceLengths reqPoolIndices before := by
  obtain ⟨graph,updated,refreshed⟩ := graph_returns ring compressedPageSize paged before height
  obtain ⟨eager,table,ran,built⟩ := eager_returns ring compressedPageSize paged fb
  constructor
  · rintro ⟨_,_,again,anew,agree⟩ row length request held found own old b below beyond
    cases ran.symm.trans again
    cases updated.symm.trans anew
    obtain ⟨id,viewed,stored⟩ := agree.pages row length found b below
    rw [eager_page pagePositive aligned paged built row length request b found own below] at viewed
    rw [graph_page pagePositive aligned paged refreshed row length request b held found own old columns below,
      if_neg (Nat.not_lt.mpr beyond)] at stored
    exact Option.some_inj.mp (stored.trans viewed.symm)
  · intro right
    refine ⟨eager,graph,ran,updated,⟨?_,⟨?_,?_⟩,?_,?_,?_,?_⟩⟩
    · exact writes_agree aligned paged built refreshed
    · exact padding_inert built
    · intro row length found partial_block
      obtain ⟨request,content,own,content_row,_⟩ := row_parts paged row length found
      rw [refreshed.writeLocs row length request content found own content_row,if_neg]
      rintro ⟨whole,_⟩
      exact partial_block whole
    · exact built.slots.trans refreshed.slots.symm
    · exact members_agree paged built refreshed
    · rw [built.view,refreshed.compressedLengths]
      rfl
    · intro row length found b below
      obtain ⟨request,content,own,_⟩ := row_parts paged row length found
      obtain ⟨inside,_⟩ := List.getElem?_eq_some_iff.mp found
      obtain ⟨held,old⟩ : ∃ held, before.rows[row]? = some held :=
        ⟨_,List.getElem?_eq_getElem (height ▸ inside)⟩
      refine ⟨page request (b / compressedPageSize),
        eager_page pagePositive aligned paged built row length request b found own below,?_⟩
      rw [graph_page pagePositive aligned paged refreshed row length request b held found own old columns below]
      split
      · rfl
      · rename_i beyond
        rw [right row length request held found own old b below (Nat.not_lt.mp beyond)]

omit aligned paged in
-- Rows inside the table's whole pages leave no column to what the buffer held.
theorem inside_held (before : Table)
    (inside : ∀ length ∈ sequenceLengths, length / ring.compressRatio ≤
      reqToToken.width / (compressedPageSize * ring.compressRatio) * compressedPageSize) :
    HeldRight ring.compressRatio compressedPageSize reqToToken page sequenceLengths reqPoolIndices before := by
  intro row length request held found own old b below beyond
  have bound := inside length (List.mem_of_getElem? found)
  have far := (Nat.le_div_iff_mul_le pagePositive).mp beyond
  omega

-- The two paths agree whatever the page table held exactly when no row's complete blocks pass the
-- table's whole pages; over one content, exactly when it held the right ids behind them.
theorem refresh_agrees_exactly :
    (∀ before : Table, before.width = graphPages maxContextLen ring.compressRatio compressedPageSize →
      before.rows.length = sequenceLengths.length →
      (BothAgree ring compressedPageSize reqToToken fb sequenceLengths reqPoolIndices maxLength before ↔
        HeldRight ring.compressRatio compressedPageSize reqToToken page sequenceLengths reqPoolIndices before)) ∧
    ((∀ before : Table, before.width = graphPages maxContextLen ring.compressRatio compressedPageSize →
      before.rows.length = sequenceLengths.length →
      BothAgree ring compressedPageSize reqToToken fb sequenceLengths reqPoolIndices maxLength before) ↔
      ∀ length ∈ sequenceLengths, length / ring.compressRatio ≤
        reqToToken.width / (compressedPageSize * ring.compressRatio) * compressedPageSize) := by
  have held := agrees_where_held ring compressedPageSize maxContextLen maxLength pagePositive reqToToken page
    sequenceLengths reqPoolIndices aligned paged fb
  refine ⟨held,?_,?_⟩
  · intro always length member
    by_contra passes
    obtain ⟨row,found⟩ := List.getElem?_of_mem member
    obtain ⟨request,content,own,_⟩ := row_parts paged row length found
    obtain ⟨bound,_⟩ := List.getElem?_eq_some_iff.mp found
    -- the first block behind the whole pages, over a buffer that held another id
    have right := (held ⟨graphPages maxContextLen ring.compressRatio compressedPageSize,
      List.replicate sequenceLengths.length fun _ =>
        page request (reqToToken.width / (compressedPageSize * ring.compressRatio)) + 1⟩ rfl
      List.length_replicate).mp (always _ rfl List.length_replicate)
    have same := right row length request _ found own (by simp [bound]; rfl)
      (reqToToken.width / (compressedPageSize * ring.compressRatio) * compressedPageSize) (by omega)
      (by rw [Nat.mul_div_cancel _ pagePositive])
    rw [Nat.mul_div_cancel _ pagePositive] at same
    exact Nat.succ_ne_self _ same
  · intro inside before columns height
    exact (held before columns height).mpr (inside_held ring compressedPageSize pagePositive reqToToken page sequenceLengths
      reqPoolIndices before inside)

end

def narrowPage (_h number : Nat) : Nat := number + 1

def narrowTable : Table := ⟨12,[fun column => narrowPage 0 (column / 8) * 8 + column % 8]⟩

def zeroPages : Table := ⟨2,[fun _ => 0]⟩

def decodeForward (length : Nat) : ForwardBatch := ⟨.decode,[0],[length],some [length],none,[length - 1],1⟩

theorem narrow_aligned : PageAligned narrowTable narrowPage (2 * 4) := by
  intro h row found position _
  match h with
  | 0 =>
      cases found
      rfl
  | h + 1 => cases found

-- The third block of a row of twelve keys: page 2 on the eager side, page 0 on the graph's.
theorem half_page_left_out : PageAligned narrowTable narrowPage (2 * 4) ∧ Paged narrowTable 12 12 [12] [0] ∧
    zeroPages.width = graphPages 12 4 2 ∧ ∃ eager graph,
      eagerMetadata stockRing 2 narrowTable (decodeForward 12) [12] [0] 12 = some eager ∧
      updateQsaCudaGraphMetadata stockRing 2 narrowTable [12] [0] zeroPages = some graph ∧
      eager.view.1.slot 0 1 = some 2 ∧ graph.pageTable.slot 0 1 = some 0 ∧ ¬ Agree 4 2 [12] eager graph := by
  refine ⟨narrow_aligned,⟨rfl,by decide,by decide,by decide,by decide⟩,rfl,_,_,rfl,rfl,rfl,rfl,?_⟩
  intro agree
  obtain ⟨id,viewed,stored⟩ := agree.pages 0 12 rfl 2 (by decide)
  cases viewed
  cases stored

theorem whole_page_agrees : BothAgree stockRing 2 narrowTable (decodeForward 8) [8] [0] 12 zeroPages :=
  (refresh_agrees_exactly stockRing 2 12 12 (by decide) narrowTable narrowPage [8] [0] narrow_aligned
    ⟨rfl,by decide,by decide,by decide,by decide⟩ (decodeForward 8)).2.mpr (by decide) zeroPages rfl rfl

end OneSpark.GraphRefresh
