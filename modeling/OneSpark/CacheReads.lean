import OneSpark.CompressedCache

namespace OneSpark.CacheReads
open Tensors Blocks RingSlots WritePlan PlanForwards CompressedSlots CompressedCache

-- A metadata table whose rows are live requests, each over its own pages as far as its keys reach.
structure Viewed (layout : Layout) (store : Store K C) (slots : List Nat) (table : Table) (sequenceLengths : List Nat) :
    Prop where
  count : sequenceLengths.length = slots.length
  rows : ∀ h slot : Nat, slots[h]? = some slot → ∃ request content, store.world.requests slot = some request ∧
    table.rows[h]? = some content ∧ layout.Paged content (store.pages slot) request.keys.length ∧
    sequenceLengths[h]? = some request.keys.length
  width : ∀ length ∈ sequenceLengths, length ≤ table.width

section
variable (layout : Layout) (table : Table) (h : Nat) (content : Nat → Nat) (pages : List Nat) (length : Nat)
  (found : table.rows[h]? = some content) (paged : layout.Paged content pages length) (covers : length ≤ table.width)
include found paged covers

omit found paged in
theorem block_column (b : Nat) (inside : b < length / layout.ratio) : b * layout.ratio < table.width := by
  have whole : (b + 1) * layout.ratio ≤ length :=
    Nat.le_trans (Nat.mul_le_mul_right _ (Nat.succ_le_of_lt inside)) (Nat.div_mul_le_self _ _)
  have positive := layout.ratio_positive
  rw [Nat.add_mul,Nat.one_mul] at whole
  omega

theorem row_locs : compressedLocs table layout.ratio h (length / layout.ratio) =
    some ((List.range (length / layout.ratio)).map (layout.blockSlot pages)) := by
  unfold compressedLocs
  rw [found,Option.map_some,List.filter_eq_self.mpr,List.map_map]
  · congr 1
    apply List.map_congr_left
    intro b member
    exact layout.first_slot content pages length b paged (List.mem_range.mp member)
  · intro column member
    obtain ⟨b,old,rfl⟩ := List.mem_map.mp member
    exact decide_eq_true (block_column layout table length covers b (List.mem_range.mp old))

theorem view_page (sequenceLengths : List Nat) (b : Nat) (inside : b < length / layout.ratio) :
    (compressedDecodeView layout.compressedPageSize layout.ratio sequenceLengths table).1.slot h
      ((b / layout.compressedPageSize : Nat) : Int) = some (pages.getD (b / layout.compressedPageSize) 0) := by
  have full := layout.page_positive
  have first : b / layout.compressedPageSize * layout.pageSize < length := by
    have whole : (b + 1) * layout.ratio ≤ length :=
      Nat.le_trans (Nat.mul_le_mul_right _ (Nat.succ_le_of_lt inside)) (Nat.div_mul_le_self _ _)
    have below := Nat.mul_le_mul_right layout.ratio (Nat.div_mul_le_self b layout.compressedPageSize)
    have positive := layout.ratio_positive
    rw [Nat.add_mul,Nat.one_mul] at whole
    rw [Layout.pageSize,← Nat.mul_assoc]
    omega
  have column : b / layout.compressedPageSize < (table.width + layout.pageSize - 1) / layout.pageSize := by
    rw [Nat.lt_div_iff_mul_lt full]
    omega
  rw [slot_column,if_pos (show b / layout.compressedPageSize <
    (compressedDecodeView layout.compressedPageSize layout.ratio sequenceLengths table).1.width from column)]
  simp only [compressedDecodeView,Table.columns,List.map_map,List.getElem?_map,found,Option.map_some,Function.comp_apply,
    Nat.max_zero]
  have slot := paged _ first
  rw [Nat.mul_div_cancel _ full,Nat.mul_mod_left,Nat.add_zero] at slot
  rw [show layout.compressedPageSize * layout.ratio = layout.pageSize from rfl,slot,Nat.mul_div_cancel _ full]

end

section
variable (layout : Layout) (compress : List K → C) (store : Store K C) (slots : List Nat) (table : Table)
    (sequenceLengths : List Nat)
  (coherent : Coherent layout compress store) (viewed : Viewed layout store slots table sequenceLengths)
include viewed

theorem packed_rows (parts : List (List Nat)) (ran : packedLocs table layout.ratio sequenceLengths = some parts) :
    parts.map List.length = sequenceLengths.map (· / layout.ratio) ∧
      ∀ h slot : Nat, slots[h]? = some slot → ∃ request, store.world.requests slot = some request ∧
        sequenceLengths[h]? = some request.keys.length ∧
        parts[h]? = some ((List.range (request.keys.length / layout.ratio)).map (layout.blockSlot (store.pages slot))) := by
  have each : ∀ h slot : Nat, slots[h]? = some slot → ∃ request, store.world.requests slot = some request ∧
      sequenceLengths[h]? = some request.keys.length ∧
      parts[h]? = some ((List.range (request.keys.length / layout.ratio)).map (layout.blockSlot (store.pages slot))) := by
    intro h slot named
    obtain ⟨request,content,live,found,paged,length⟩ := viewed.rows h slot named
    obtain ⟨bound,_⟩ := List.getElem?_eq_some_iff.mp length
    refine ⟨request,live,length,?_⟩
    rw [mapM_read _ _ parts ran h h (List.getElem?_range bound)]
    simp only [List.getD_eq_getElem?_getD,length,Option.getD_some]
    split
    · rename_i empty
      rw [empty]
      rfl
    · exact row_locs layout table h content (store.pages slot) _ found paged (viewed.width _ (List.mem_of_getElem? length))
  refine ⟨?_,each⟩
  have count : parts.length = sequenceLengths.length := by
    have parts_length := (mapM_parts _ _ _ ran).length_eq
    rw [List.length_range] at parts_length
    exact parts_length.symm
  apply List.ext_getElem?
  intro h
  rw [List.getElem?_map,List.getElem?_map]
  by_cases inside : h < slots.length
  · obtain ⟨request,_,length,part⟩ := each h _ (List.getElem?_eq_getElem inside)
    rw [length,part,Option.map_some,Option.map_some,List.length_map,List.length_range]
  · have few := viewed.count
    rw [List.getElem?_eq_none (by omega),List.getElem?_eq_none (by omega)]
    rfl

include coherent

-- A query's share of the packed keys is the compressed form of its request's visible blocks.
theorem prefill_reads (ids positions : List Nat) (keys : List C) (starts ends sizes : List Nat)
    (ran : getPrefillMqaInputs store.cache table layout.ratio sequenceLengths ids positions = some (keys,starts,ends,sizes))
    (i h position slot : Nat) (atId : ids[i]? = some h) (atPosition : positions[i]? = some position)
      (named : slots[h]? = some slot) :
    ∃ request start stop, store.world.requests slot = some request ∧ starts[i]? = some start ∧ ends[i]? = some stop ∧
      (keys.drop start).take (stop - start) = (visible layout.ratio request.keys.length position).map fun b =>
        compress (layout.members request.keys b) := by
  obtain ⟨parts,packed,ran⟩ := Option.bind_eq_some_iff.mp ran
  simp only at ran
  split at ran
  · cases ran
  · obtain ⟨⟨rowStarts,rowEnds,sums⟩,ranged,same⟩ := Option.bind_eq_some_iff.mp ran
    cases same
    obtain ⟨inside,_⟩ := List.getElem?_eq_some_iff.mp atId
    obtain ⟨length,known,atStart,atEnd⟩ := ranges_exact sequenceLengths _ ids layout.ratio _ _ sums ranged i h
      position atId (by rw [List.getElem?_take_of_lt inside]; exact atPosition)
    obtain ⟨lengths,rows⟩ := packed_rows layout store slots table sequenceLengths viewed parts packed
    obtain ⟨request,live,named_length,part⟩ := rows h slot named
    rw [named_length,Option.some_inj] at known
    subst known
    refine ⟨request,_,_,live,atStart,atEnd,?_⟩
    have slice := part_slice parts h _ part ((position + 1) / layout.ratio)
    rw [List.length_map,List.length_range,lengths] at slice
    rw [Nat.add_sub_cancel_left,visible_exact _ _ _ layout.ratio_positive,← List.map_drop,← List.map_take,slice,← List.map_take,
      List.take_range,List.map_map]
    apply List.map_congr_left
    intro b member
    exact (coherent.live slot request live).1 b (Nat.lt_of_lt_of_le (List.mem_range.mp member) (min_le_right _ _))

theorem decode_reads (h slot : Nat) (named : slots[h]? = some slot) : ∃ request, store.world.requests slot = some request ∧
    ∀ b < request.keys.length / layout.ratio, ∃ id,
      (compressedDecodeView layout.compressedPageSize layout.ratio sequenceLengths table).1.slot h
        ((b / layout.compressedPageSize : Nat) : Int) = some id ∧
      store.cache (id * layout.compressedPageSize + b % layout.compressedPageSize) =
        compress (layout.members request.keys b) := by
  obtain ⟨request,content,live,found,paged,length⟩ := viewed.rows h slot named
  refine ⟨request,live,fun b inside => ⟨_,view_page layout table h content (store.pages slot) _ found paged
    (viewed.width _ (List.mem_of_getElem? length)) sequenceLengths b inside,?_⟩⟩
  exact (coherent.live slot request live).1 b inside

end

-- Over any run of forwards, finished requests, insertions into the prefix cache, adoptions from it and evictions, every
-- complete block of a live request and of a cached prefix is in the compressed cache, on the page the request has for
-- it, compressed from the request's own keys.
theorem blocks_cached (layout : Layout) (compress : List K → C) (start store : Store K C) (empty : Empty start)
    (run : Relation.ReflTransGen (Step layout compress) start store) :
    (∀ slot request, store.world.requests slot = some request → ∀ b < request.keys.length / layout.ratio,
      store.cache (layout.blockSlot (store.pages slot) b) = compress (layout.members request.keys b)) ∧
    ∀ entry ∈ store.tree, ∀ b < entry.keys.length / layout.ratio,
      store.cache (layout.blockSlot entry.pages b) = compress (layout.members entry.keys b) := by
  have coherent := run_coherent layout compress start store empty run
  exact ⟨fun slot request live => (coherent.live slot request live).1,fun entry member => (coherent.tree entry member).1⟩

-- After any such run the prefill gather hands every query the compressed blocks of its own request that end at or before it,
-- and the decode view's page table leads to every complete block.
theorem reads_own (layout : Layout) (compress : List K → C) (start store : Store K C) (empty : Empty start)
    (run : Relation.ReflTransGen (Step layout compress) start store) (slots : List Nat) (table : Table)
      (sequenceLengths : List Nat)
    (viewed : Viewed layout store slots table sequenceLengths) :
    (∀ (ids positions : List Nat) (keys : List C) (starts ends sizes : List Nat),
      getPrefillMqaInputs store.cache table layout.ratio sequenceLengths ids positions = some (keys,starts,ends,sizes) →
      ∀ (i h position slot : Nat), ids[i]? = some h → positions[i]? = some position → slots[h]? = some slot →
        ∃ request start stop, store.world.requests slot = some request ∧ starts[i]? = some start ∧ ends[i]? = some stop ∧
          (keys.drop start).take (stop - start) = (visible layout.ratio request.keys.length position).map fun b =>
            compress (layout.members request.keys b)) ∧
    ∀ (h slot : Nat), slots[h]? = some slot → ∃ request, store.world.requests slot = some request ∧
      ∀ b < request.keys.length / layout.ratio, ∃ id,
        (compressedDecodeView layout.compressedPageSize layout.ratio sequenceLengths table).1.slot h
          ((b / layout.compressedPageSize : Nat) : Int) = some id ∧
        store.cache (id * layout.compressedPageSize + b % layout.compressedPageSize) =
          compress (layout.members request.keys b) := by
  have coherent := run_coherent layout compress start store empty run
  exact ⟨prefill_reads layout compress store slots table sequenceLengths coherent viewed,
    decode_reads layout compress store slots table sequenceLengths coherent viewed⟩

-- One block to a page: a request of three keys, the page of its first two cached, and a second request behind it.
def pairLayout : Layout := ⟨PlanRuns.pairRing,1,Nat.one_pos⟩

def sharedTable : Table := ⟨8,[fun _ => 0,fun column => 8 + column,fun column => if column < 2 then 8 + column else 14 + column]⟩

def firstBatch : Batch Nat := ⟨.extend,[⟨1,true,[],[10,11,12]⟩],[],none,sharedTable⟩
def secondBatch : Batch Nat := ⟨.extend,[⟨2,true,[10,11],[22]⟩],[],none,sharedTable⟩

def emptyStore : Store Nat Nat := ⟨PlanRuns.idleWorld,fun _ => 0,fun _ => [],[]⟩

def firstPages (slot : Nat) : List Nat := if slot = 1 then [4,5] else []
def secondPages (slot : Nat) : List Nat := if slot = 2 then [4,8] else firstPages slot

def firstWorld : World Nat := (runForward PlanRuns.pairRing PlanRuns.idleWorld firstBatch).getD PlanRuns.idleWorld
def secondWorld : World Nat := (runForward PlanRuns.pairRing firstWorld secondBatch).getD PlanRuns.idleWorld

def firstStore : Store Nat Nat := ⟨firstWorld,put emptyStore.cache [(0,9),(4,21)],firstPages,[]⟩
def cachedStore : Store Nat Nat := {firstStore with tree := [⟨[10,11],[4]⟩]}
def secondStore : Store Nat Nat := ⟨secondWorld,put cachedStore.cache [(0,7)],secondPages,cachedStore.tree⟩

theorem first_step : Step pairLayout List.sum emptyStore firstStore := by
  have only : ∀ row ∈ firstBatch.rows, row = ⟨1,true,[],[10,11,12]⟩ := fun row member => List.mem_singleton.mp member
  have admitted : Admitted emptyStore.world firstBatch := by
    refine ⟨.inl rfl,by decide,by decide,?_,fun mode => absurd mode (by decide)⟩
    intro row member fresh
    rw [only row member] at fresh
    cases fresh
  have allocated : Allocated pairLayout emptyStore firstBatch firstPages firstPages := by
    refine ⟨fun _ _ _ => rfl,?_,?_,?_,by decide,?_,by decide,?_,?_,by decide,fun lens known => by cases known⟩
    · intro row member fresh
      rw [only row member] at fresh
      cases fresh
    · intro row member _
      rw [only row member]
      exact ⟨[],rfl,rfl,.inl rfl⟩
    · intro slot absent
      exact if_neg fun same => absent _ (List.mem_singleton_self _) same.symm
    · intro row member p inside
      rw [only row member] at inside
      refine ⟨?_,?_,fun entry member => absurd member List.not_mem_nil⟩
      · rintro rfl
        exact absurd inside (by decide)
      · intro slot request live
        cases live
    · intro row member other belongs apart
      rw [only row member,only other belongs] at apart
      exact absurd rfl apart
    · intro row member
      rw [only row member]
      refine ⟨fun column => 8 + column,rfl,?_⟩
      show ∀ position < 3, 8 + position = [4,5].getD (position / 2) 0 * 2 + position % 2
      decide
  exact .forward admitted allocated rfl rfl rfl ⟨[(0,9)],rfl,List.Perm.swap _ _ _⟩

theorem cached_step : Step pairLayout List.sum firstStore cachedStore := by
  have live : firstStore.world.requests 1 = some ⟨[10,11,12],0,[(0,[10,11])]⟩ := rfl
  exact .insert 1 1 live (show 1 * 2 ≤ 3 by decide)

theorem second_step : Step pairLayout List.sum cachedStore secondStore := by
  have only : ∀ row ∈ secondBatch.rows, row = ⟨2,true,[10,11],[22]⟩ := fun row member => List.mem_singleton.mp member
  have admitted : Admitted cachedStore.world secondBatch := by
    refine ⟨.inl rfl,by decide,by decide,?_,fun mode => absurd mode (by decide)⟩
    intro row member fresh
    rw [only row member] at fresh
    cases fresh
  have allocated : Allocated pairLayout cachedStore secondBatch secondPages (fun slot => if slot = 2 then [8] else []) := by
    refine ⟨?_,?_,?_,?_,by decide,?_,by decide,?_,?_,by decide,fun lens known => by cases known⟩
    · intro row member _
      rw [only row member]
      rfl
    · intro row member fresh
      rw [only row member] at fresh
      cases fresh
    · intro row member _
      rw [only row member]
      exact ⟨[4],rfl,rfl,.inr ⟨_,List.mem_singleton_self _,List.prefix_refl _,List.prefix_refl _⟩⟩
    · intro slot absent
      exact if_neg fun same => absent _ (List.mem_singleton_self _) same.symm
    · intro row member p inside
      rw [only row member] at inside
      obtain rfl : p = 8 := List.mem_singleton.mp inside
      refine ⟨by decide,?_,by decide⟩
      intro slot request live
      rcases forward_requests PlanRuns.pairRing PlanRuns.idleWorld firstWorld firstBatch rfl slot request live with
        ⟨row,first,rfl,_⟩ | ⟨_,old⟩
      · rw [List.mem_singleton.mp first]
        decide
      · cases old
    · intro row member other belongs apart
      rw [only row member,only other belongs] at apart
      exact absurd rfl apart
    · intro row member
      rw [only row member]
      refine ⟨fun column => if column < 2 then 8 + column else 14 + column,rfl,?_⟩
      show ∀ position < 3, (if position < 2 then 8 + position else 14 + position) = [4,8].getD (position / 2) 0 * 2 + position % 2
      decide
  exact .forward admitted allocated rfl rfl rfl ⟨[(0,7)],rfl,List.Perm.refl _⟩

theorem sample_run : Relation.ReflTransGen (Step pairLayout List.sum) emptyStore secondStore :=
  .tail (.tail (.single first_step) cached_step) second_step

theorem sample_cached : secondStore.cache 4 = [10,11].sum ∧ secondStore.pages 1 = [4,5] ∧ secondStore.pages 2 = [4,8] := by
  obtain ⟨live,_⟩ := blocks_cached pairLayout List.sum emptyStore secondStore ⟨⟨fun _ => rfl,rfl⟩,rfl⟩ sample_run
  exact ⟨live 2 ⟨[10,11,22],2,[]⟩ rfl 0 (by decide),rfl,rfl⟩

theorem sample_reads : ∃ keys starts ends sizes,
    getPrefillMqaInputs secondStore.cache ⟨3,[sharedTable.rows.getD 2 id]⟩ 2 [3] [0] [2] = some (keys,starts,ends,sizes) ∧
    ∃ start stop : Nat, starts[0]? = some start ∧ ends[0]? = some stop ∧ (keys.drop start).take (stop - start) = [21] := by
  have viewed : Viewed pairLayout secondStore [2] ⟨3,[sharedTable.rows.getD 2 id]⟩ [3] := by
    refine ⟨rfl,?_,by decide⟩
    intro h slot named
    cases h with
    | zero =>
        cases named
        refine ⟨⟨[10,11,22],2,[]⟩,_,rfl,rfl,?_,rfl⟩
        show ∀ position < 3, (if position < 2 then 8 + position else 14 + position) =
          [4,8].getD (position / 2) 0 * 2 + position % 2
        decide
    | succ h => cases named
  obtain ⟨gathered,_⟩ := reads_own pairLayout List.sum emptyStore secondStore ⟨⟨fun _ => rfl,rfl⟩,rfl⟩ sample_run [2] _ [3] viewed
  refine ⟨_,_,_,_,rfl,?_⟩
  obtain ⟨request,start,stop,live,first,last,slice⟩ := gathered [0] [2] _ _ _ _ rfl 0 0 2 2 rfl rfl rfl
  refine ⟨start,stop,first,last,slice.trans ?_⟩
  cases live
  decide

end OneSpark.CacheReads
