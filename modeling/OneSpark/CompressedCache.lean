import OneSpark.CompressedSlots
import OneSpark.PlanRuns

namespace OneSpark.CompressedCache
open Tensors Blocks RingSlots WritePlan PlanForwards CompressedSlots
open PlanRuns (Invariant Idle forward_sound groups_planned step_sound)
open PleLayout (isDecode)

-- The pool's pages: `compressedPageSize` blocks to a page, a ratio of tokens to a block.
structure Layout where
  ring : Ring
  compressedPageSize : Nat
  pagePositive : 0 < compressedPageSize

namespace Layout
variable (layout : Layout)

def ratio : Nat := layout.ring.compressRatio
def pageSize : Nat := layout.compressedPageSize * layout.ratio

theorem ratio_positive : 0 < layout.ratio := layout.ring.ratioPositive

theorem page_positive : 0 < layout.pageSize := Nat.mul_pos layout.pagePositive layout.ring.ratioPositive

def blockSlot (pages : List Nat) (block : Nat) : Nat :=
  pages.getD (block / layout.compressedPageSize) 0 * layout.compressedPageSize + block % layout.compressedPageSize

def members (keys : List K) (block : Nat) : List K := (keys.drop (block * layout.ratio)).take layout.ratio

-- The complete blocks of a key sequence are in the cache, each on its own page.
def Holds (compress : List K → C) (cache : Nat → C) (keys : List K) (pages : List Nat) : Prop :=
  ∀ b < keys.length / layout.ratio, cache (layout.blockSlot pages b) = compress (layout.members keys b)

def Paged (content : Nat → Nat) (pages : List Nat) (length : Nat) : Prop :=
  ∀ position < length, content position = pages.getD (position / layout.pageSize) 0 * layout.pageSize + position % layout.pageSize

theorem block_page (b length count : Nat) (inside : b < length / layout.ratio) (covers : length ≤ count * layout.pageSize) :
    b / layout.compressedPageSize < count := by
  rw [Nat.div_lt_iff_lt_mul layout.pagePositive]
  have below : b * layout.ratio < count * layout.compressedPageSize * layout.ratio := by
    have whole : (b + 1) * layout.ratio ≤ length :=
      Nat.le_trans (Nat.mul_le_mul_right _ (Nat.succ_le_of_lt inside)) (Nat.div_mul_le_self _ _)
    rw [Nat.add_mul,Nat.one_mul] at whole
    have positive := layout.ratio_positive
    rw [pageSize,← Nat.mul_assoc] at covers
    omega
  exact Nat.lt_of_mul_lt_mul_right below

-- Two blocks share a slot only where they share a page and the place on it.
theorem slot_shared (pages pages' : List Nat) (b b' : Nat) (inside : b / layout.compressedPageSize < pages.length)
    (inside' : b' / layout.compressedPageSize < pages'.length) (same : layout.blockSlot pages b = layout.blockSlot pages' b') :
    ∃ p, pages[b / layout.compressedPageSize]? = some p ∧ pages'[b' / layout.compressedPageSize]? = some p ∧
      b % layout.compressedPageSize = b' % layout.compressedPageSize := by
  obtain ⟨page,place⟩ := place_unique _ _ _ _ _ (Nat.mod_lt b layout.pagePositive) (Nat.mod_lt b' layout.pagePositive) same
  rw [List.getD_eq_getElem?_getD,List.getD_eq_getElem?_getD,List.getElem?_eq_getElem inside,
    List.getElem?_eq_getElem inside'] at page
  refine ⟨pages[b / layout.compressedPageSize],List.getElem?_eq_getElem inside,?_,place⟩
  rw [List.getElem?_eq_getElem inside',Option.some_inj]
  exact page.symm

theorem slot_nonzero (pages : List Nat) (b : Nat) (inside : b / layout.compressedPageSize < pages.length) (nonzero : 0 ∉ pages) :
    layout.blockSlot pages b ≠ 0 := by
  intro zero
  have page := (Nat.mul_eq_zero.mp (Nat.add_eq_zero_iff.mp zero).1).resolve_right (ne_of_gt layout.pagePositive)
  rw [List.getD_eq_getElem?_getD,List.getElem?_eq_getElem inside,Option.getD_some] at page
  exact nonzero (page ▸ List.getElem_mem inside)

theorem slot_prefix (pages pages' : List Nat) (b : Nat) (longer : pages <+: pages')
    (inside : b / layout.compressedPageSize < pages.length) : layout.blockSlot pages' b = layout.blockSlot pages b := by
  obtain ⟨rest,rfl⟩ := longer
  unfold blockSlot
  rw [List.getD_eq_getElem?_getD,List.getD_eq_getElem?_getD,List.getElem?_append_left inside]

theorem members_prefix (keys keys' : List K) (b : Nat) (longer : keys <+: keys') (inside : b < keys.length / layout.ratio) :
    layout.members keys' b = layout.members keys b := by
  obtain ⟨rest,rfl⟩ := longer
  have whole : (b + 1) * layout.ratio ≤ keys.length :=
    Nat.le_trans (Nat.mul_le_mul_right _ (Nat.succ_le_of_lt inside)) (Nat.div_mul_le_self _ _)
  rw [Nat.add_mul,Nat.one_mul] at whole
  unfold members
  rw [List.drop_append_of_le_length (by omega),List.take_append_of_le_length]
  rw [List.length_drop]
  omega

theorem holds_prefix (compress : List K → C) (cache : Nat → C) (keys keys' : List K) (pages pages' : List Nat)
    (shorter : keys <+: keys') (fewer : pages <+: pages') (covers : keys.length ≤ pages.length * layout.pageSize)
    (holds : layout.Holds compress cache keys' pages') : layout.Holds compress cache keys pages := by
  intro b inside
  have blocks := Nat.div_le_div_right shorter.length_le (c := layout.ratio)
  rw [← layout.slot_prefix pages pages' b fewer (layout.block_page b _ _ inside covers),
    ← layout.members_prefix keys keys' b shorter inside]
  exact holds b (Nat.lt_of_lt_of_le inside blocks)

theorem first_slot (content : Nat → Nat) (pages : List Nat) (length b : Nat) (paged : layout.Paged content pages length)
    (inside : b < length / layout.ratio) : content (b * layout.ratio) / layout.ratio = layout.blockSlot pages b := by
  have aligned : PageAligned ⟨length,[content]⟩ (fun _ n => pages.getD n 0)
    (layout.compressedPageSize * layout.ring.compressRatio) := by
    intro h row found position below
    cases h with
    | zero =>
        cases found
        exact paged position below
    | succ h => cases found
  have whole : (b + 1) * layout.ratio ≤ length :=
    Nat.le_trans (Nat.mul_le_mul_right _ (Nat.succ_le_of_lt inside)) (Nat.div_mul_le_self _ _)
  have positive := layout.ratio_positive
  rw [Nat.add_mul,Nat.one_mul] at whole
  exact CompressedSlots.first_slot layout.compressedPageSize layout.ring.compressRatio layout.ring.ratioPositive
    ⟨length,[content]⟩
    (fun _ n => pages.getD n 0) aligned 0 b content rfl (show b * layout.ratio < length by omega)

end Layout

structure Shared (K : Type) where
  keys : List K
  pages : List Nat

-- One layer's ring and compressed cache with the live requests, their pages and the prefix cache.
structure Store (K C : Type) where
  world : World K
  cache : Nat → C
  pages : Nat → List Nat
  tree : List (Shared K)

-- The pages a forward's rows are given: a new request begins on whole pages of a cached prefix, and every
-- further page is one that nobody holds.
structure Allocated (layout : Layout) (store : Store K C) (batch : Batch K) (pages added : Nat → List Nat) : Prop where
  free : ∀ row ∈ batch.rows, row.fresh = true → store.world.requests row.slot = none
  going : ∀ row ∈ batch.rows, row.fresh = false → pages row.slot = store.pages row.slot ++ added row.slot
  matched : ∀ row ∈ batch.rows, row.fresh = true → ∃ first, pages row.slot = first ++ added row.slot ∧
    row.history.length = first.length * layout.pageSize ∧
    (first = [] ∨ ∃ entry ∈ store.tree, row.history <+: entry.keys ∧ first <+: entry.pages)
  others : ∀ slot, (∀ row ∈ batch.rows, row.slot ≠ slot) → pages slot = store.pages slot
  room : ∀ row ∈ batch.rows, row.keys.length ≤ (pages row.slot).length * layout.pageSize
  unused : ∀ row ∈ batch.rows, ∀ p ∈ added row.slot, p ≠ 0 ∧
    (∀ slot request, store.world.requests slot = some request → p ∉ store.pages slot) ∧ ∀ entry ∈ store.tree, p ∉ entry.pages
  once : ∀ row ∈ batch.rows, (added row.slot).Nodup
  apart : ∀ row ∈ batch.rows, ∀ other ∈ batch.rows, row.slot ≠ other.slot → ∀ p ∈ added row.slot, p ∉ added other.slot
  table : ∀ row ∈ batch.rows, ∃ content, batch.reqToToken.rows[row.slot]? = some content ∧
    layout.Paged content (pages row.slot) row.keys.length
  width : ∀ row ∈ batch.rows, row.keys.length ≤ batch.reqToToken.width
  mirror : ∀ lens, batch.seqLensCpu = some lens → lens = batch.rows.map fun row => row.keys.length

-- set_qsa_compressed_k_buffer of the planned groups and of what the padding entries hold, in some order.
structure Landed (compress : List K → C) (metadata : Metadata) (planned : List (Entry × List K)) (writes : List (Nat × C)) :
    Prop where
  order : ∃ padding : List (Nat × C), padding.map Prod.fst = ((metadata.entries.filter fun entry => !entry.valid).map fun entry =>
    entry.writeLoc) ∧ writes.Perm ((planned.map fun pair => (pair.1.writeLoc,compress pair.2)) ++ padding)

inductive Step (layout : Layout) (compress : List K → C) : Store K C → Store K C → Prop where
  | forward (admitted : Admitted store.world batch) (allocated : Allocated layout store batch pages added)
      (made : metadataFromForwardBatch layout.ring batch.reqToToken batch.forwardBatch = some metadata)
      (compressed : plannedGroups layout.ring.compressRatio metadata
        (put store.world.buffer (metadata.pendingRingSlots.zip batch.tokenKeys)) batch.tokenKeys = some planned)
      (ran : runForward layout.ring store.world batch = some world) (landed : Landed compress metadata planned writes) :
      Step layout compress store ⟨world,put store.cache writes,pages,store.tree⟩
  -- a finished request; its pages are free unless the prefix cache has them
  | finish (slot : Nat) :
      Step layout compress store
        {store with world := {store.world with requests := Function.update store.world.requests slot none}}
  -- whole pages of a request enter the prefix cache
  | insert (slot count : Nat) (live : store.world.requests slot = some request)
    (whole : count * layout.pageSize ≤ request.keys.length) :
      Step layout compress store
        {store with tree := ⟨request.keys.take (count * layout.pageSize),(store.pages slot).take count⟩ :: store.tree}
  -- a request gives up pages of its own for those of a cached sequence with the same keys
  | adopt (slot count : Nat) (live : store.world.requests slot = some request) (cached : entry ∈ store.tree)
      (whole : count * layout.pageSize ≤ request.keys.length)
        (agreed : request.keys.take (count * layout.pageSize) <+: entry.keys) :
      Step layout compress store
        {store with pages := Function.update store.pages slot (entry.pages.take count ++ (store.pages slot).drop count)}
  | evict (tree : List (Shared K)) (fewer : tree.Sublist store.tree) : Step layout compress store {store with tree}

structure Own (store : Store K C) (slot i p : Nat) : Prop where
  others : ∀ other request, other ≠ slot → store.world.requests other = some request → p ∉ store.pages other
  cached : ∀ entry ∈ store.tree, p ∉ entry.pages
  once : ∀ j, (store.pages slot)[j]? = some p → j = i

-- Every complete block of a live request and of the prefix cache is in the compressed cache, and the pages a
-- request may still write to are its own.
structure Coherent (layout : Layout) (compress : List K → C) (store : Store K C) : Prop where
  sound : Invariant layout.ring store.world
  live : ∀ slot request, store.world.requests slot = some request →
    layout.Holds compress store.cache request.keys (store.pages slot) ∧
      request.keys.length ≤ (store.pages slot).length * layout.pageSize ∧ 0 ∉ store.pages slot
  own : ∀ slot request, store.world.requests slot = some request → ∀ i p, request.keys.length / layout.pageSize ≤ i →
    (store.pages slot)[i]? = some p → Own store slot i p
  tree : ∀ entry ∈ store.tree, layout.Holds compress store.cache entry.keys entry.pages ∧
    entry.keys.length ≤ entry.pages.length * layout.pageSize ∧ 0 ∉ entry.pages

section
variable (ring : Ring) (batch : Batch K)

theorem metadata_table (nonempty : batch.rows ≠ []) (metadata : Metadata)
    (made : metadataFromForwardBatch ring batch.reqToToken batch.forwardBatch = some metadata) :
    ∃ table, batch.reqToToken.take (batch.rows.map fun row => row.slot) (maxLength batch.forwardBatch) = some table ∧
      qsaBuildWritePlan batch.forwardBatch false table batch.forwardBatch.seqLens ring.compressRatio = some metadata.entries := by
  unfold metadataFromForwardBatch at made
  have some_rows : ¬ batch.forwardBatch.seqLens = [] := by simpa [Batch.forwardBatch] using nonempty
  have requests : batch.forwardBatch.reqPoolIndices.take batch.forwardBatch.seqLens.length =
    batch.rows.map fun row => row.slot := by
    simp [Batch.forwardBatch]
  rw [if_neg some_rows,requests] at made
  obtain ⟨table,taken,made⟩ := Option.bind_eq_some_iff.mp made
  obtain ⟨laid,_,made⟩ := Option.bind_eq_some_iff.mp made
  obtain ⟨entries,planned,made⟩ := Option.bind_eq_some_iff.mp made
  obtain ⟨slots,_,made⟩ := Option.bind_eq_some_iff.mp made
  obtain ⟨groups,_,same⟩ := Option.bind_eq_some_iff.mp made
  cases same
  exact ⟨table,taken,planned⟩

theorem longest_row (mirror : ∀ lens, batch.seqLensCpu = some lens → lens = batch.rows.map fun row => row.keys.length)
    (row : Row K)
    (member : row ∈ batch.rows) : row.keys.length ≤ maxLength batch.forwardBatch := by
  have listed : row.keys.length ∈ batch.rows.map fun row => row.keys.length := List.mem_map_of_mem member
  have most : ∀ lens : List Nat, row.keys.length ∈ lens → row.keys.length ≤ lens.foldl max 0 := by
    intro lens inside
    rw [List.foldl_eq_foldr]
    induction lens with
    | nil => cases inside
    | cons first rest ih =>
        rw [List.foldr_cons]
        rcases List.mem_cons.mp inside with same | later
        · omega
        · have tail := ih later
          omega
  unfold maxLength
  have device : batch.forwardBatch.seqLens = batch.rows.map fun row => row.keys.length := rfl
  have cpu : batch.forwardBatch.seqLensCpu = batch.seqLensCpu := rfl
  rw [cpu,device]
  cases known : batch.seqLensCpu with
  | none => exact most _ listed
  | some lens =>
      rw [mirror lens known]
      simp only [List.take_length]
      exact most _ listed

end

section
variable {layout : Layout} {compress : List K → C} {store : Store K C} {batch : Batch K} {pages added : Nat → List Nat}
  (allocated : Allocated layout store batch pages added)
include allocated

theorem owned_loc (table : Table)
    (taken : batch.reqToToken.take (batch.rows.map fun row => row.slot) (maxLength batch.forwardBatch) = some table)
    (chunks : Option Chunks) (h : Nat) (row : Row K) (found : batch.rows[h]? = some row) (b : Nat)
    (block : b ∈ newBlocks layout.ring row) :
    (ownedEntry table layout.ring.compressRatio chunks h b).writeLoc = layout.blockSlot (pages row.slot) b := by
  have member := List.mem_of_getElem? found
  obtain ⟨_,complete⟩ := newBlocks_bounds layout.ring row b block
  obtain ⟨width,rows⟩ := take_parts _ _ _ _ taken
  obtain ⟨content,atTable,paged⟩ := allocated.table row member
  have here : table.rows[h]? = some content := by
    rw [rows h row.slot (by rw [List.getElem?_map,found]; rfl),atTable]
  have reach := longest_row batch allocated.mirror row member
  have room := allocated.width row member
  have positive := layout.ring.ratioPositive
  have inside : b < row.keys.length / layout.ratio := by
    rw [Nat.lt_iff_add_one_le]
    exact (Nat.le_div_iff_mul_le positive).mpr complete
  rw [Nat.add_mul,Nat.one_mul] at complete
  have column : b * layout.ring.compressRatio < table.width := by
    rw [width]
    omega
  simp only [ownedEntry]
  rw [← Int.natCast_mul,slot_column,if_pos column,here,Option.map_some,Option.getD_some]
  exact layout.first_slot content (pages row.slot) row.keys.length b paged inside

-- What a forward writes: each new block of each row to its own slot, and padding to slot zero.
theorem landed_exact (sound : Invariant layout.ring store.world) (admitted : Admitted store.world batch)
    (nonempty : batch.rows ≠ [])
    (metadata : Metadata) (made : metadataFromForwardBatch layout.ring batch.reqToToken batch.forwardBatch = some metadata)
    (planned : List (Entry × List K)) (compressed : plannedGroups layout.ring.compressRatio metadata
      (put store.world.buffer (metadata.pendingRingSlots.zip batch.tokenKeys)) batch.tokenKeys = some planned)
    (writes : List (Nat × C)) (landed : Landed compress metadata planned writes) :
    (∀ row ∈ batch.rows, ∀ b ∈ newBlocks layout.ring row,
      (layout.blockSlot (pages row.slot) b,compress (layout.members row.keys b)) ∈ writes) ∧
    ∀ write ∈ writes, write.1 = 0 ∨ ∃ row ∈ batch.rows, ∃ b ∈ newBlocks layout.ring row,
      write = (layout.blockSlot (pages row.slot) b,compress (layout.members row.keys b)) := by
  obtain ⟨table,taken,planRan⟩ := metadata_table layout.ring batch nonempty metadata made
  obtain ⟨chunks,plan⟩ : ∃ chunks, Planned layout.ring batch table chunks metadata.entries := by
    cases mode : isDecode batch.mode with
    | true =>
        have decoding := admitted.decoding (by simpa [isDecode] using mode)
        exact ⟨none,decode_planned layout.ring batch mode (fun row member => (decoding row member).2) table metadata.entries
          planRan⟩
    | false => exact ⟨_,(extend_planned layout.ring batch mode table metadata.entries planRan).1⟩
  have stored := forward_stored layout.ring batch store.world admitted nonempty metadata made
  obtain ⟨_,_,_,_,groups⟩ := groups_planned store.world sound batch admitted nonempty metadata made _ stored planned compressed
  obtain ⟨valid,invalid⟩ := planned_valid layout.ring batch table chunks metadata.entries plan
  obtain ⟨padding,zeros,order⟩ := landed.order
  have own : ∀ h row, batch.rows[h]? = some row → ∀ b ∈ newBlocks layout.ring row,
      ((ownedEntry table layout.ring.compressRatio chunks h b).writeLoc,
        compress (membersOf layout.ring batch (ownedEntry table layout.ring.compressRatio chunks h b))) =
      (layout.blockSlot (pages row.slot) b,compress (layout.members row.keys b)) := by
    intro h row found b block
    rw [owned_loc allocated table taken chunks h row found b block,membersOf_owned layout.ring batch table chunks h b row found]
    rfl
  constructor
  · intro row member b block
    obtain ⟨h,found⟩ := List.getElem?_of_mem member
    obtain ⟨inside,_⟩ := List.getElem?_eq_some_iff.mp found
    refine order.mem_iff.mpr (List.mem_append_left _ ?_)
    rw [groups,List.map_map,valid]
    refine List.mem_map.mpr ⟨ownedEntry table layout.ring.compressRatio chunks h b,List.mem_flatMap.mpr
      ⟨h,List.mem_range.mpr inside,?_⟩,own h row found b block⟩
    rw [found]
    exact List.mem_map.mpr ⟨b,block,rfl⟩
  · intro write member
    rcases List.mem_append.mp (order.mem_iff.mp member) with first | last
    · right
      rw [groups,List.map_map] at first
      obtain ⟨entry,chosen,rfl⟩ := List.mem_map.mp first
      obtain ⟨belongs,counts⟩ := List.mem_filter.mp chosen
      obtain ⟨h,row,b,found,block,rfl⟩ := valid_owned layout.ring batch table chunks metadata.entries plan entry belongs counts
      exact ⟨row,List.mem_of_getElem? found,b,block,own h row found b block⟩
    · left
      have listed : write.1 ∈ padding.map Prod.fst := List.mem_map_of_mem last
      rw [zeros] at listed
      obtain ⟨entry,chosen,same⟩ := List.mem_map.mp listed
      obtain ⟨belongs,masked⟩ := List.mem_filter.mp chosen
      rw [← same]
      exact (invalid entry belongs (by simpa using masked)).1

end

theorem forward_requests (ring : Ring) (world next : World K) (batch : Batch K) (ran : runForward ring world batch = some next)
    (slot : Nat) (request : Request K) (live : next.requests slot = some request) :
    (∃ row ∈ batch.rows, row.slot = slot ∧ request.keys = row.keys) ∨
      (∀ row ∈ batch.rows, row.slot ≠ slot) ∧ world.requests slot = some request := by
  obtain ⟨metadata,_,ran⟩ := Option.bind_eq_some_iff.mp ran
  obtain ⟨groups,_,same⟩ := Option.bind_eq_some_iff.mp ran
  cases same
  simp only [requestsAfter] at live
  cases place : batch.rows.findIdx? fun row => row.slot == slot with
  | some h =>
      rw [place] at live
      obtain ⟨row,found,rfl⟩ := Option.map_eq_some_iff.mp live
      obtain ⟨inside,here,_⟩ := List.findIdx?_eq_some_iff_getElem.mp place
      rw [List.getElem?_eq_getElem inside,Option.some_inj] at found
      exact .inl ⟨row,List.mem_of_getElem? (List.getElem?_eq_getElem inside ▸ congrArg some found),
        by rw [← found]; exact beq_iff_eq.mp here,rfl⟩
  | none =>
      rw [place] at live
      refine .inr ⟨?_,live⟩
      intro row member same
      have other := List.findIdx?_eq_none_iff.mp place row member
      rw [same,beq_self_eq_true] at other
      cases other

theorem row_live (ring : Ring) (world next : World K) (batch : Batch K) (ran : runForward ring world batch = some next)
    (row : Row K)
    (member : row ∈ batch.rows) : ∃ request, next.requests row.slot = some request := by
  obtain ⟨metadata,_,ran⟩ := Option.bind_eq_some_iff.mp ran
  obtain ⟨groups,_,same⟩ := Option.bind_eq_some_iff.mp ran
  cases same
  simp only [requestsAfter]
  cases place : batch.rows.findIdx? fun other => other.slot == row.slot with
  | some h =>
      obtain ⟨inside,_⟩ := List.findIdx?_eq_some_iff_getElem.mp place
      exact ⟨_,Option.map_eq_some_iff.mpr ⟨_,List.getElem?_eq_getElem inside,rfl⟩⟩
  | none =>
      have other := List.findIdx?_eq_none_iff.mp place row member
      rw [beq_self_eq_true] at other
      cases other

section
variable {layout : Layout} {compress : List K → C} {store : Store K C} {batch : Batch K} {pages added : Nat → List Nat}
  (coherent : Coherent layout compress store) (admitted : Admitted store.world batch)
  (allocated : Allocated layout store batch pages added)
include coherent admitted allocated

structure Brought (layout : Layout) (compress : List K → C) (store : Store K C) (pages added : Nat → List Nat) (row : Row K)
    (kept : List Nat) : Prop where
  joined : pages row.slot = kept ++ added row.slot
  holds : layout.Holds compress store.cache row.history kept
  covers : row.history.length ≤ kept.length * layout.pageSize
  nonzero : 0 ∉ kept
  -- a page that is not full yet
  opened : ∀ i p, row.history.length / layout.pageSize ≤ i → kept[i]? = some p → Own store row.slot i p ∧
    kept = store.pages row.slot ∧ ∃ request, store.world.requests row.slot = some request
  -- the pages of a live request or of the prefix cache
  known : ∀ p ∈ kept, (∃ request, store.world.requests row.slot = some request ∧ p ∈ store.pages row.slot) ∨
    ∃ entry ∈ store.tree, p ∈ entry.pages

theorem row_brought (row : Row K) (member : row ∈ batch.rows) : ∃ kept, Brought layout compress store pages added row kept := by
  cases fresh : row.fresh with
  | false =>
      obtain ⟨request,live,same⟩ := admitted.live row member fresh
      obtain ⟨holds,covers,nonzero⟩ := coherent.live row.slot request live
      rw [same] at holds covers
      refine ⟨store.pages row.slot,allocated.going row member fresh,holds,covers,nonzero,?_,
        fun p inside => .inl ⟨request,live,inside⟩⟩
      intro i p above found
      exact ⟨coherent.own row.slot request live i p (by rwa [same]) found,rfl,request,live⟩
  | true =>
      obtain ⟨first,joined,whole,source⟩ := allocated.matched row member fresh
      have closed : ∀ i p, row.history.length / layout.pageSize ≤ i → first[i]? = some p → False := by
        intro i p above found
        rw [whole,Nat.mul_div_cancel _ layout.page_positive] at above
        rw [List.getElem?_eq_none above] at found
        cases found
      rcases source with rfl | ⟨entry,cached,shorter,fewer⟩
      · refine ⟨[],joined,?_,by omega,List.not_mem_nil,fun i p above found => (closed i p above found).elim,by simp⟩
        intro b inside
        rw [whole] at inside
        simp at inside
      · obtain ⟨holds,covers,nonzero⟩ := coherent.tree entry cached
        exact ⟨first,joined,layout.holds_prefix compress store.cache _ _ _ _ shorter fewer (le_of_eq whole) holds,le_of_eq whole,
          fun zero => nonzero (fewer.subset zero),fun i p above found => (closed i p above found).elim,
          fun p inside => .inr ⟨entry,cached,fewer.subset inside⟩⟩

theorem forward_own (world : World K) (ran : runForward layout.ring store.world batch = some world) (cache : Nat → C)
    (row : Row K)
    (member : row ∈ batch.rows) (i p : Nat) (above : row.history.length / layout.pageSize ≤ i)
    (found : (pages row.slot)[i]? = some p) : Own ⟨world,cache,pages,store.tree⟩ row.slot i p ∧ p ≠ 0 := by
  obtain ⟨kept,brought⟩ := row_brought coherent admitted allocated row member
  obtain ⟨joined,_,_,nonzero,opened,_⟩ := id brought
  by_cases old : i < kept.length
  · rw [joined,List.getElem?_append_left old] at found
    obtain ⟨own,same,request,live⟩ := opened i p above found
    have here : p ∈ store.pages row.slot := same ▸ List.mem_of_getElem? found
    -- a page of a live request is nobody's new page
    have never : ∀ other ∈ batch.rows, p ∉ added other.slot := fun other belongs inside =>
      (allocated.unused other belongs p inside).2.1 row.slot request live here
    refine ⟨⟨?_,own.cached,?_⟩,fun zero => nonzero (zero ▸ List.mem_of_getElem? found)⟩
    · intro slot later apart next inside
      rcases forward_requests layout.ring store.world world batch ran slot later next with ⟨other,belongs,rfl,_⟩ | ⟨absent,before⟩
      · obtain ⟨kept',joined',_,_,_,_,known'⟩ := row_brought coherent admitted allocated other belongs
        change p ∈ pages other.slot at inside
        rw [joined'] at inside
        rcases List.mem_append.mp inside with brought | new
        · rcases known' p brought with ⟨request',live',there⟩ | ⟨entry,cached,there⟩
          · exact own.others other.slot request' apart live' there
          · exact own.cached entry cached there
        · exact never other belongs new
      · change p ∈ pages slot at inside
        rw [allocated.others slot absent] at inside
        exact own.others slot later apart before inside
    · intro j again
      change (pages row.slot)[j]? = some p at again
      rw [joined] at again
      by_cases early : j < kept.length
      · rw [List.getElem?_append_left early,same] at again
        exact own.once j again
      · rw [List.getElem?_append_right (by omega)] at again
        exact absurd (List.mem_of_getElem? again) (never row member)
  · rw [joined,List.getElem?_append_right (by omega)] at found
    have new := List.mem_of_getElem? found
    obtain ⟨positive,requests,tree⟩ := allocated.unused row member p new
    -- a new page is on nobody's list
    have unknown : ∀ other ∈ batch.rows, ∀ list, Brought layout compress store pages added other list → p ∉ list := by
      intro other belongs list brought inside
      rcases brought.known p inside with ⟨request,live,there⟩ | ⟨entry,cached,there⟩
      · exact requests other.slot request live there
      · exact tree entry cached there
    refine ⟨⟨?_,tree,?_⟩,positive⟩
    · intro slot later apart next inside
      rcases forward_requests layout.ring store.world world batch ran slot later next with ⟨other,belongs,rfl,_⟩ | ⟨absent,before⟩
      · obtain ⟨kept',brought⟩ := row_brought coherent admitted allocated other belongs
        change p ∈ pages other.slot at inside
        rw [brought.joined] at inside
        rcases List.mem_append.mp inside with first | second
        · exact unknown other belongs kept' brought first
        · exact allocated.apart row member other belongs (Ne.symm apart) p new second
      · change p ∈ pages slot at inside
        rw [allocated.others slot absent] at inside
        exact requests slot later before inside
    · intro j again
      change (pages row.slot)[j]? = some p at again
      rw [joined] at again
      by_cases early : j < kept.length
      · rw [List.getElem?_append_left early] at again
        exact absurd (List.mem_of_getElem? again) (unknown row member kept brought)
      · rw [List.getElem?_append_right (by omega)] at again
        have same := (allocated.once row member).getElem_inj_iff.mp
          (Option.some_inj.mp ((List.getElem?_eq_getElem (List.getElem?_eq_some_iff.mp again).1).symm.trans
            (again.trans (found.symm.trans (List.getElem?_eq_getElem (List.getElem?_eq_some_iff.mp found).1)))))
        omega

omit coherent admitted allocated in
-- A new block is complete, and its page is not behind the history.
theorem new_block_page (row : Row K) (b : Nat) (block : b ∈ newBlocks layout.ring row) :
    b < row.keys.length / layout.ratio ∧ row.history.length / layout.pageSize ≤ b / layout.compressedPageSize := by
  obtain ⟨low,complete⟩ := newBlocks_bounds layout.ring row b block
  constructor
  · rw [Nat.lt_iff_add_one_le]
    exact (Nat.le_div_iff_mul_le layout.ring.ratioPositive).mpr complete
  · rw [Layout.pageSize,Nat.mul_comm,← Nat.div_div_eq_div_mul]
    exact Nat.div_le_div_right low

theorem pages_nonzero (row : Row K) (member : row ∈ batch.rows) : 0 ∉ pages row.slot := by
  intro zero
  obtain ⟨kept,brought⟩ := row_brought coherent admitted allocated row member
  rw [brought.joined] at zero
  rcases List.mem_append.mp zero with old | new
  · exact brought.nonzero old
  · exact (allocated.unused row member 0 new).1 rfl

-- A forward writes to no slot of a block that is on none of its rows' own pages.
theorem forward_spares (world : World K) (ran : runForward layout.ring store.world batch = some world) (writes : List (Nat × C))
    (wrote : ∀ write ∈ writes, write.1 = 0 ∨ ∃ row ∈ batch.rows, ∃ b ∈ newBlocks layout.ring row,
      write = (layout.blockSlot (pages row.slot) b,compress (layout.members row.keys b)))
    (list : List Nat) (b : Nat) (inside : b / layout.compressedPageSize < list.length) (nonzero : 0 ∉ list)
    (apart : ∀ row ∈ batch.rows, ∀ b' ∈ newBlocks layout.ring row, ∀ p, Own ⟨world,store.cache,pages,store.tree⟩ row.slot
      (b' / layout.compressedPageSize) p → (pages row.slot)[b' / layout.compressedPageSize]? = some p →
      list[b / layout.compressedPageSize]? = some p → b % layout.compressedPageSize ≠ b' % layout.compressedPageSize) :
    put store.cache writes (layout.blockSlot list b) = store.cache (layout.blockSlot list b) := by
  apply put_other
  intro write member same
  rcases wrote write member with zero | ⟨row,belongs,b',block,rfl⟩
  · exact layout.slot_nonzero list b inside nonzero (same.symm.trans zero)
  · obtain ⟨below,page⟩ := new_block_page row b' block
    obtain ⟨p,here,there,place⟩ := layout.slot_shared (pages row.slot) list b' b
      (layout.block_page b' _ _ below (allocated.room row belongs)) inside same
    exact apart row belongs b' block p
      (forward_own coherent admitted allocated world ran store.cache row belongs _ p page here).1 here there place.symm

omit coherent allocated in
theorem same_block (world : World K) (row other : Row K)
    (member : row ∈ batch.rows) (belongs : other ∈ batch.rows) (live : ∃ request, world.requests row.slot = some request)
      (b b' p : Nat)
    (own : Own ⟨world,store.cache,pages,store.tree⟩ other.slot (b' / layout.compressedPageSize) p)
    (here : (pages row.slot)[b / layout.compressedPageSize]? = some p)
    (place : b % layout.compressedPageSize = b' % layout.compressedPageSize) : other = row ∧ b' = b := by
  obtain ⟨request,live⟩ := live
  have slots : other.slot = row.slot := by
    by_contra apart
    exact own.others row.slot request (fun same => apart same.symm) live (List.mem_of_getElem? here)
  cases row_unique batch admitted.distinct other row belongs member slots
  have page := own.once _ here
  refine ⟨rfl,?_⟩
  rw [← Nat.div_add_mod b' layout.compressedPageSize,← Nat.div_add_mod b layout.compressedPageSize,page,place]

theorem new_block_written (world : World K) (ran : runForward layout.ring store.world batch = some world)
    (writes : List (Nat × C)) (row : Row K) (member : row ∈ batch.rows) (b : Nat) (block : b ∈ newBlocks layout.ring row)
    (written : (layout.blockSlot (pages row.slot) b,compress (layout.members row.keys b)) ∈ writes)
    (wrote : ∀ write ∈ writes, write.1 = 0 ∨ ∃ row ∈ batch.rows, ∃ b ∈ newBlocks layout.ring row,
      write = (layout.blockSlot (pages row.slot) b,compress (layout.members row.keys b))) :
    put store.cache writes (layout.blockSlot (pages row.slot) b) = compress (layout.members row.keys b) := by
  have page := layout.block_page b _ _ (new_block_page row b block).1 (allocated.room row member)
  apply put_agreed _ _ _ _ ⟨_,written,rfl⟩
  -- only this block's own write goes to its slot
  intro write present there
  rcases wrote write present with zero | ⟨other,belongs,b',block',rfl⟩
  · exact absurd (there.symm.trans zero)
      (layout.slot_nonzero _ b page (pages_nonzero coherent admitted allocated row member))
  · obtain ⟨below,above⟩ := new_block_page other b' block'
    obtain ⟨p,first,second,place⟩ := layout.slot_shared (pages other.slot) (pages row.slot) b' b
      (layout.block_page b' _ _ below (allocated.room other belongs)) page there
    have own := (forward_own coherent admitted allocated world ran store.cache other belongs _ p above first).1
    obtain ⟨rfl,rfl⟩ := same_block admitted world row other member belongs
      (row_live layout.ring store.world world batch ran row member) b b' p own second place.symm
    rfl

theorem old_block_kept (world : World K) (ran : runForward layout.ring store.world batch = some world)
    (writes : List (Nat × C)) (row : Row K) (member : row ∈ batch.rows) (b : Nat) (old : b < row.history.length / layout.ratio)
    (wrote : ∀ write ∈ writes, write.1 = 0 ∨ ∃ row ∈ batch.rows, ∃ b ∈ newBlocks layout.ring row,
      write = (layout.blockSlot (pages row.slot) b,compress (layout.members row.keys b))) :
    put store.cache writes (layout.blockSlot (pages row.slot) b) = compress (layout.members row.keys b) := by
  obtain ⟨kept,brought⟩ := row_brought coherent admitted allocated row member
  have longer : row.history <+: row.keys := List.prefix_append _ _
  have inside := Nat.lt_of_lt_of_le old (Nat.div_le_div_right longer.length_le)
  have page := layout.block_page b _ _ inside (allocated.room row member)
  rw [forward_spares coherent admitted allocated world ran writes wrote (pages row.slot) b page
    (pages_nonzero coherent admitted allocated row member) fun other belongs b' block p owned _ second place => by
      obtain ⟨rfl,rfl⟩ := same_block admitted world row other member belongs
        (row_live layout.ring store.world world batch ran row member) b b' p owned second place
      exact absurd (newBlocks_bounds layout.ring other b' block).1 (Nat.not_le.mpr old)]
  rw [brought.joined,layout.slot_prefix kept _ b (List.prefix_append _ _) (layout.block_page b _ _ old brought.covers),
    layout.members_prefix row.history row.keys b longer old]
  exact brought.holds b old

-- A request of no row keeps the pages that were its own.
theorem absent_own (world : World K) (ran : runForward layout.ring store.world batch = some world) (cache : Nat → C)
    (slot : Nat) (request : Request K) (absent : ∀ row ∈ batch.rows, row.slot ≠ slot)
    (before : store.world.requests slot = some request) (i p : Nat) (above : request.keys.length / layout.pageSize ≤ i)
    (found : (pages slot)[i]? = some p) : Own ⟨world,cache,pages,store.tree⟩ slot i p := by
  rw [allocated.others slot absent] at found
  obtain ⟨others,cached,once⟩ := coherent.own slot request before i p above found
  refine ⟨?_,cached,?_⟩
  · intro other later apart next inside
    change p ∈ pages other at inside
    rcases forward_requests layout.ring store.world world batch ran other later next with ⟨row,member,rfl,_⟩ | ⟨absent',before'⟩
    · obtain ⟨kept,brought⟩ := row_brought coherent admitted allocated row member
      rw [brought.joined] at inside
      rcases List.mem_append.mp inside with old | new
      · rcases brought.known p old with ⟨request',live',there⟩ | ⟨entry,listed,there⟩
        · exact others row.slot request' apart live' there
        · exact cached entry listed there
      · exact (allocated.unused row member p new).2.1 slot request before (List.mem_of_getElem? found)
    · rw [allocated.others other absent'] at inside
      exact others other later apart before' inside
  · intro j again
    change (pages slot)[j]? = some p at again
    rw [allocated.others slot absent] at again
    exact once j again

theorem forward_coherent (nonempty : batch.rows ≠ []) (world : World K) (metadata : Metadata) (planned : List (Entry × List K))
    (made : metadataFromForwardBatch layout.ring batch.reqToToken batch.forwardBatch = some metadata)
    (compressed : plannedGroups layout.ring.compressRatio metadata
      (put store.world.buffer (metadata.pendingRingSlots.zip batch.tokenKeys)) batch.tokenKeys = some planned)
    (ran : runForward layout.ring store.world batch = some world) (writes : List (Nat × C))
    (landed : Landed compress metadata planned writes) : Coherent layout compress
      ⟨world,put store.cache writes,pages,store.tree⟩ := by
  obtain ⟨written,wrote⟩ := landed_exact allocated coherent.sound admitted nonempty metadata made planned compressed writes landed
  have spares := forward_spares coherent admitted allocated world ran writes wrote
  refine ⟨forward_sound _ _ coherent.sound batch admitted ran,?_,?_,?_⟩
  · intro slot request live
    rcases forward_requests layout.ring store.world world batch ran slot request live with ⟨row,member,rfl,same⟩ | ⟨absent,before⟩
    · rw [same]
      refine ⟨?_,allocated.room row member,pages_nonzero coherent admitted allocated row member⟩
      intro b inside
      by_cases new : b ∈ newBlocks layout.ring row
      · exact new_block_written coherent admitted allocated world ran writes row member b new (written row member b new) wrote
      · refine old_block_kept coherent admitted allocated world ran writes row member b ?_ wrote
        by_contra late
        refine new (List.mem_range'_1.mpr ⟨Nat.le_of_not_lt late,?_⟩)
        change b < row.keys.length / layout.ring.compressRatio at inside
        change ¬ b < row.history.length / layout.ring.compressRatio at late
        omega
    · obtain ⟨holds,covers,nonzero⟩ := coherent.live slot request before
      rw [show (⟨world,put store.cache writes,pages,store.tree⟩ : Store K C).pages slot = store.pages slot from
        allocated.others slot absent]
      refine ⟨?_,covers,nonzero⟩
      intro b inside
      refine (spares _ b (layout.block_page b _ _ inside covers) nonzero fun row belongs b' _ p owned _ second _ => ?_).trans
        (holds b inside)
      refine owned.others slot request (fun same => absent row belongs same.symm) live ?_
      change p ∈ pages slot
      rw [allocated.others slot absent]
      exact List.mem_of_getElem? second
  · intro slot request live i p above found
    rcases forward_requests layout.ring store.world world batch ran slot request live with ⟨row,member,rfl,same⟩ | ⟨absent,before⟩
    · rw [same] at above
      refine (forward_own coherent admitted allocated world ran _ row member i p
        (Nat.le_trans (Nat.div_le_div_right ?_) above) found).1
      rw [row_length]
      exact Nat.le_add_right _ _
    · exact absent_own coherent admitted allocated world ran _ slot request absent before i p above found
  · intro entry cached
    obtain ⟨holds,covers,nonzero⟩ := coherent.tree entry cached
    refine ⟨?_,covers,nonzero⟩
    intro b inside
    exact (spares _ b (layout.block_page b _ _ inside covers) nonzero fun row belongs b' _ p owned _ second _ =>
      absurd (List.mem_of_getElem? second) (owned.cached entry cached)).trans (holds b inside)

end

section
variable {layout : Layout} {compress : List K → C} {store : Store K C} (coherent : Coherent layout compress store)
include coherent

theorem fewer_coherent (world : World K) (sound : Invariant layout.ring world)
    (fewer : ∀ slot request, world.requests slot = some request → store.world.requests slot = some request) :
    Coherent layout compress {store with world} := by
  refine ⟨sound,fun slot request live => coherent.live slot request (fewer slot request live),?_,coherent.tree⟩
  intro slot request live i p above found
  obtain ⟨others,cached,once⟩ := coherent.own slot request (fewer slot request live) i p above found
  exact ⟨fun other later apart next => others other later apart (fewer other later next),cached,once⟩

theorem idle_coherent (batch : Batch K) (admitted : Admitted store.world batch) (empty : batch.rows = [])
    (pages added : Nat → List Nat)
    (allocated : Allocated layout store batch pages added) (metadata : Metadata) (planned : List (Entry × List K))
    (made : metadataFromForwardBatch layout.ring batch.reqToToken batch.forwardBatch = some metadata)
    (compressed : plannedGroups layout.ring.compressRatio metadata
      (put store.world.buffer (metadata.pendingRingSlots.zip batch.tokenKeys)) batch.tokenKeys = some planned) (world : World K)
    (ran : runForward layout.ring store.world batch = some world) (writes : List (Nat × C))
    (landed : Landed compress metadata planned writes) : Coherent layout compress
      ⟨world,put store.cache writes,pages,store.tree⟩ := by
  have none : batch.forwardBatch.seqLens = [] := by simp [Batch.forwardBatch,empty]
  unfold metadataFromForwardBatch at made
  rw [if_pos none,Option.some_inj] at made
  subst made
  cases compressed
  obtain ⟨padding,zeros,order⟩ := landed.order
  have nothing : writes = [] := by
    rw [List.map_eq_nil_iff.mp zeros] at order
    exact List.perm_nil.mp order
  have same : pages = store.pages := funext fun slot => allocated.others slot fun row member => by
    rw [empty] at member
    cases member
  rw [nothing,same]
  refine fewer_coherent coherent world (forward_sound _ _ coherent.sound batch admitted ran) ?_
  intro slot request live
  rcases forward_requests layout.ring store.world world batch ran slot request live with ⟨row,member,_⟩ | ⟨_,before⟩
  · rw [empty] at member
    cases member
  · exact before

theorem insert_coherent (slot count : Nat) (request : Request K) (live : store.world.requests slot = some request)
    (whole : count * layout.pageSize ≤ request.keys.length) :
    Coherent layout compress
      {store with tree := ⟨request.keys.take (count * layout.pageSize),(store.pages slot).take count⟩ :: store.tree} := by
  obtain ⟨holds,covers,nonzero⟩ := coherent.live slot request live
  have enough : count ≤ (store.pages slot).length := Nat.le_of_mul_le_mul_right (Nat.le_trans whole covers) layout.page_positive
  have room : (request.keys.take (count * layout.pageSize)).length ≤
    ((store.pages slot).take count).length * layout.pageSize := by
    rw [List.length_take,List.length_take,Nat.min_eq_left whole,Nat.min_eq_left enough]
  refine ⟨coherent.sound,coherent.live,?_,?_⟩
  · intro other later next i p above found
    obtain ⟨others,cached,once⟩ := coherent.own other later next i p above found
    refine ⟨others,?_,once⟩
    intro entry member
    rcases List.mem_cons.mp member with rfl | old
    · intro inside
      by_cases own : other = slot
      · -- an open page lies behind the inserted ones
        subst own
        obtain ⟨j,here⟩ := List.getElem?_of_mem inside
        have early : j < count := by
          have bound := (List.getElem?_eq_some_iff.mp here).1
          rw [List.length_take] at bound
          omega
        rw [List.getElem?_take_of_lt early] at here
        have place := once j here
        rw [live,Option.some_inj] at next
        subst next
        have behind : count ≤ request.keys.length / layout.pageSize := (Nat.le_div_iff_mul_le layout.page_positive).mpr whole
        omega
      · exact others slot request (Ne.symm own) live (List.mem_of_mem_take inside)
    · exact cached entry old
  · intro entry member
    rcases List.mem_cons.mp member with rfl | old
    · exact ⟨layout.holds_prefix compress store.cache _ _ _ _ (List.take_prefix _ _) (List.take_prefix _ _) room holds,room,
        fun zero => nonzero (List.mem_of_mem_take zero)⟩
    · exact coherent.tree entry old

omit coherent in
-- Behind the adopted pages the request keeps its own.
theorem adopted_behind (pages own : List Nat) (count i : Nat) (enough : count ≤ pages.length) (late : count ≤ i) :
    (pages.take count ++ own.drop count)[i]? = own[i]? := by
  have head : (pages.take count).length = count := by rw [List.length_take,Nat.min_eq_left enough]
  rw [List.getElem?_append_right (by omega),head,List.getElem?_drop,Nat.add_sub_cancel' late]

omit coherent in
theorem adopted_holds (cache : Nat → C) (keys : List K) (pages : List Nat) (count : Nat) (entry : Shared K)
    (whole : count * layout.pageSize ≤ keys.length) (agreed : keys.take (count * layout.pageSize) <+: entry.keys)
    (enough : count ≤ entry.pages.length) (covers : keys.length ≤ pages.length * layout.pageSize)
    (shared : layout.Holds compress cache entry.keys entry.pages) (holds : layout.Holds compress cache keys pages) :
    layout.Holds compress cache keys (entry.pages.take count ++ pages.drop count) := by
  have head : (entry.pages.take count).length = count := by rw [List.length_take,Nat.min_eq_left enough]
  intro b inside
  have page := layout.block_page b _ _ inside covers
  by_cases early : b / layout.compressedPageSize < count
  · have below : b < (keys.take (count * layout.pageSize)).length / layout.ratio := by
      rw [List.length_take,Nat.min_eq_left whole,Layout.pageSize,← Nat.mul_assoc,Nat.mul_div_cancel _ layout.ratio_positive]
      exact (Nat.div_lt_iff_lt_mul layout.pagePositive).mp early
    have blocks := Nat.div_le_div_right agreed.length_le (c := layout.ratio)
    rw [layout.slot_prefix (entry.pages.take count) _ b (List.prefix_append _ _) (by omega),
      ← layout.slot_prefix (entry.pages.take count) entry.pages b (List.take_prefix _ _) (by omega),
      layout.members_prefix _ keys b (List.take_prefix (count * layout.pageSize) _) below,
      ← layout.members_prefix _ entry.keys b agreed below]
    exact shared b (Nat.lt_of_lt_of_le below blocks)
  · have kept : layout.blockSlot (entry.pages.take count ++ pages.drop count) b = layout.blockSlot pages b := by
      unfold Layout.blockSlot
      rw [List.getD_eq_getElem?_getD,List.getD_eq_getElem?_getD,adopted_behind _ _ _ _ enough (Nat.le_of_not_lt early)]
    rw [kept]
    exact holds b inside

-- The pages of a cached sequence are nobody's own, so what was a request's own stays so.
theorem adopted_own (slot count : Nat) (request : Request K) (entry : Shared K)
    (live : store.world.requests slot = some request) (cached : entry ∈ store.tree)
    (whole : count * layout.pageSize ≤ request.keys.length) (enough : count ≤ entry.pages.length) (other : Nat)
    (later : Request K) (next : store.world.requests other = some later) (i p : Nat)
    (above : later.keys.length / layout.pageSize ≤ i)
    (found : (Function.update store.pages slot (entry.pages.take count ++ (store.pages slot).drop count) other)[i]? = some p) :
    Own {store with pages := Function.update store.pages slot (entry.pages.take count ++ (store.pages slot).drop count)}
      other i p := by
  have elsewhere : ∀ third, third ≠ slot → Function.update store.pages slot
      (entry.pages.take count ++ (store.pages slot).drop count) third = store.pages third :=
        fun third apart => Function.update_of_ne apart _ _
  by_cases same : other = slot
  · subst same
    simp only [Function.update_self] at found
    rw [live,Option.some_inj] at next
    subst next
    have late : count ≤ i := Nat.le_trans ((Nat.le_div_iff_mul_le layout.page_positive).mpr whole) above
    rw [adopted_behind _ _ _ _ enough late] at found
    obtain ⟨others,cachedNot,once⟩ := coherent.own other request live i p above found
    refine ⟨?_,cachedNot,?_⟩
    · intro third stranger apart alive
      simp only [elsewhere third apart]
      exact others third stranger apart alive
    · intro j again
      simp only [Function.update_self] at again
      by_cases early : j < count
      · rw [List.getElem?_append_left (by rw [List.length_take]; omega)] at again
        exact absurd (List.mem_of_mem_take (List.mem_of_getElem? again)) (cachedNot entry cached)
      · rw [adopted_behind _ _ _ _ enough (Nat.le_of_not_lt early)] at again
        exact once j again
  · simp only [elsewhere other same] at found
    obtain ⟨others,cachedNot,once⟩ := coherent.own other later next i p above found
    refine ⟨?_,cachedNot,?_⟩
    · intro third stranger apart alive inside
      by_cases own : third = slot
      · subst own
        simp only [Function.update_self] at inside
        rcases List.mem_append.mp inside with first | second
        · exact cachedNot entry cached (List.mem_of_mem_take first)
        · exact others third stranger apart alive (List.mem_of_mem_drop second)
      · simp only [elsewhere third own] at inside
        exact others third stranger apart alive inside
    · intro j again
      simp only [elsewhere other same] at again
      exact once j again

theorem adopt_coherent (slot count : Nat) (request : Request K) (entry : Shared K)
    (live : store.world.requests slot = some request)
    (cached : entry ∈ store.tree) (whole : count * layout.pageSize ≤ request.keys.length)
    (agreed : request.keys.take (count * layout.pageSize) <+: entry.keys) :
    Coherent layout compress
      {store with pages := Function.update store.pages slot (entry.pages.take count ++ (store.pages slot).drop count)} := by
  obtain ⟨holds,covers,nonzero⟩ := coherent.live slot request live
  obtain ⟨shared,reach,positive⟩ := coherent.tree entry cached
  have enough : count ≤ entry.pages.length := by
    refine Nat.le_of_mul_le_mul_right (Nat.le_trans ?_ reach) layout.page_positive
    have length := agreed.length_le
    rwa [List.length_take,Nat.min_eq_left whole] at length
  have own_enough : count ≤ (store.pages slot).length := Nat.le_of_mul_le_mul_right
    (Nat.le_trans whole covers) layout.page_positive
  refine ⟨coherent.sound,?_,fun other later next i p above found => adopted_own coherent slot count request entry live cached
    whole enough other later next i p above found,coherent.tree⟩
  intro other later next
  by_cases same : other = slot
  · subst same
    rw [live,Option.some_inj] at next
    subst next
    simp only [Function.update_self]
    refine ⟨adopted_holds _ _ _ count entry whole agreed enough covers shared holds,?_,?_⟩
    · rw [List.length_append,List.length_take,Nat.min_eq_left enough,List.length_drop,Nat.add_sub_cancel' own_enough]
      exact covers
    · intro zero
      rcases List.mem_append.mp zero with first | second
      · exact positive (List.mem_of_mem_take first)
      · exact nonzero (List.mem_of_mem_drop second)
  · simp only [Function.update_of_ne same]
    exact coherent.live other later next

end

theorem step_coherent (layout : Layout) (compress : List K → C) (store next : Store K C)
    (coherent : Coherent layout compress store)
    (step : Step layout compress store next) : Coherent layout compress next := by
  cases step with
  | forward admitted allocated made compressed ran landed =>
      rename_i batch _ _ _ _ _ _
      by_cases empty : batch.rows = []
      · exact idle_coherent coherent batch admitted empty _ _ allocated _ _ made compressed _ ran _ landed
      · exact forward_coherent coherent admitted allocated empty _ _ _ made compressed ran _ landed
  | finish slot =>
      refine fewer_coherent coherent _ (step_sound _ _ coherent.sound (.finish slot)) ?_
      intro other request live
      by_cases same : other = slot
      · subst same
        simp at live
      · change Function.update store.world.requests slot none other = some request at live
        rwa [Function.update_of_ne same] at live
  | insert slot count live whole => exact insert_coherent coherent slot count _ live whole
  | adopt slot count live cached whole agreed => exact adopt_coherent coherent slot count _ _ live cached whole agreed
  | evict tree fewer =>
      refine ⟨coherent.sound,coherent.live,?_,fun entry member => coherent.tree entry (fewer.subset member)⟩
      intro slot request live i p above found
      obtain ⟨others,cached,once⟩ := coherent.own slot request live i p above found
      exact ⟨others,fun entry member => cached entry (fewer.subset member),once⟩

structure Empty (store : Store K C) : Prop where
  world : Idle store.world
  tree : store.tree = []

theorem run_coherent (layout : Layout) (compress : List K → C) (start store : Store K C) (empty : Empty start)
    (run : Relation.ReflTransGen (Step layout compress) start store) : Coherent layout compress store := by
  induction run with
  | refl =>
      have none : ∀ slot request, start.world.requests slot = some request → False := by
        intro slot request live
        rw [empty.world.requests] at live
        cases live
      refine ⟨⟨fun slot request live => (none slot request live).elim,by simp [empty.world.padded]⟩,
        fun slot request live => (none slot request live).elim,fun slot request live => (none slot request live).elim,?_⟩
      intro entry member
      rw [empty.tree] at member
      cases member
  | tail _ step ih => exact step_coherent layout compress _ _ ih step

end OneSpark.CompressedCache
