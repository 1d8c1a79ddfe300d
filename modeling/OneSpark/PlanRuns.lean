import OneSpark.PlanForwards

namespace OneSpark.PlanRuns
open RingSlots WritePlan PlanForwards
open PleLayout (isDecode)
open VerifyRuns (pendingStart pendingStart_mod pendingStart_mono)

inductive Step (ring : Ring) : World K → World K → Prop where
  | forward : Admitted world batch → runForward ring world batch = some next → Step ring world next
  | finish (slot : Nat) : Step ring world {world with requests := Function.update world.requests slot none}

-- The complete blocks of a key sequence from a block on, each with its members in order.
def blocksOf (compressRatio first : Nat) (keys : List K) : List (Nat × List K) :=
  (List.range' first (keys.length / compressRatio - first)).map fun b =>
    (b,(keys.drop (b * compressRatio)).take compressRatio)

structure Sound (ring : Ring) (buffer : Nat → K) (slot : Nat) (request : Request K) : Prop where
  nonzero : slot ≠ 0
  aligned : request.matched % ring.compressRatio = 0
  longer : request.matched ≤ request.keys.length
  held : ∀ position, pendingStart ring request.keys.length ≤ position → position < request.keys.length →
    request.keys[position]? = some (buffer (ringSlot ring slot position))
  planned : request.planned = blocksOf ring.compressRatio (request.matched / ring.compressRatio) request.keys

section
variable (ring : Ring) (batch : Batch K)

theorem row_groups (table : Table) (chunks : Option Chunks) (entries : List Entry)
    (planned : Planned ring batch table chunks entries) (h : Nat) (row : Row K) (found : batch.rows[h]? = some row) :
    (((entries.filter fun entry => entry.valid).map fun entry => (entry,membersOf ring batch entry)).filter
      fun pair => pair.1.row == h).map (fun pair => (blockNumber ring.compressRatio pair.1,pair.2)) =
        (newBlocks ring row).map fun b => (b,(row.keys.drop (b * ring.compressRatio)).take ring.compressRatio) := by
  obtain ⟨inside,_⟩ := List.getElem?_eq_some_iff.mp found
  rw [(planned_valid ring batch table chunks entries planned).1,List.map_flatMap,List.filter_flatMap,List.map_flatMap]
  have others : ∀ k, k ≠ h → ((((((batch.rows[k]?.map (newBlocks ring)).getD []).map fun (b : Nat) =>
      ownedEntry table ring.compressRatio chunks k b).map fun entry => (entry,membersOf ring batch entry)).filter
        fun pair => pair.1.row == h).map fun pair => (blockNumber ring.compressRatio pair.1,pair.2)) = [] := by
    intro k other
    rw [List.filter_eq_nil_iff.mpr,List.map_nil]
    intro pair member
    obtain ⟨entry,old,rfl⟩ := List.mem_map.mp member
    obtain ⟨b,_,rfl⟩ := List.mem_map.mp old
    simpa [ownedEntry] using other
  have own : ((((((batch.rows[h]?.map (newBlocks ring)).getD []).map fun (b : Nat) =>
      ownedEntry table ring.compressRatio chunks h b).map fun entry => (entry,membersOf ring batch entry)).filter
        fun pair => pair.1.row == h).map fun pair => (blockNumber ring.compressRatio pair.1,pair.2)) =
          (newBlocks ring row).map fun b => (b,(row.keys.drop (b * ring.compressRatio)).take ring.compressRatio) := by
    rw [found,Option.map_some,Option.getD_some,List.filter_eq_self.mpr,List.map_map,List.map_map]
    · apply List.map_congr_left
      intro b _
      simp only [Function.comp_apply,owned_number,membersOf_owned ring batch table chunks h b row found]
    · intro pair member
      obtain ⟨entry,old,rfl⟩ := List.mem_map.mp member
      obtain ⟨b,_,rfl⟩ := List.mem_map.mp old
      exact beq_self_eq_true h
  obtain ⟨rest,split⟩ := Nat.exists_eq_add_of_lt inside
  rw [split,Nat.add_assoc,List.range_add,List.flatMap_append,List.flatMap_eq_nil_iff.mpr,List.nil_append,
    List.range_succ_eq_map,List.map_cons,List.flatMap_cons,Nat.add_zero,own,List.flatMap_eq_nil_iff.mpr,List.append_nil]
  · intro k member
    obtain ⟨j,later,rfl⟩ := List.mem_map.mp member
    obtain ⟨i,_,rfl⟩ := List.mem_map.mp later
    exact others _ (by omega)
  · intro k member
    exact others k (Nat.ne_of_lt (List.mem_range.mp member))

theorem blocks_extended (row : Row K) (first : Nat) (low : first ≤ row.history.length / ring.compressRatio) :
    blocksOf ring.compressRatio first row.history ++ (newBlocks ring row).map (fun b =>
      (b,(row.keys.drop (b * ring.compressRatio)).take ring.compressRatio)) =
        blocksOf ring.compressRatio first row.keys := by
  have total := row_length row
  have grown : row.history.length / ring.compressRatio ≤ row.keys.length / ring.compressRatio :=
    Nat.div_le_div_right (by omega)
  have old : blocksOf ring.compressRatio first row.history =
      (List.range' first (row.history.length / ring.compressRatio - first)).map fun b =>
        (b,(row.keys.drop (b * ring.compressRatio)).take ring.compressRatio) := by
    apply List.map_congr_left
    intro b member
    obtain ⟨_,below⟩ := List.mem_range'_1.mp member
    have inside : (b + 1) * ring.compressRatio ≤ row.history.length :=
      Nat.le_trans (Nat.mul_le_mul_right _ (by omega)) (Nat.div_mul_le_self row.history.length ring.compressRatio)
    rw [Nat.add_mul,Nat.one_mul] at inside
    rw [Row.keys,List.drop_append_of_le_length (by omega),List.take_append_of_le_length]
    rw [List.length_drop]
    omega
  have joined := List.range'_append_1 (s := first) (m := row.history.length / ring.compressRatio - first)
    (n := row.keys.length / ring.compressRatio - row.history.length / ring.compressRatio)
  rw [Nat.add_sub_cancel' low] at joined
  rw [old,newBlocks,← List.map_append,joined]
  unfold blocksOf
  congr 2
  omega

structure Invariant (world : World K) : Prop where
  sound : ∀ slot request, world.requests slot = some request → Sound ring world.buffer slot request
  padded : ∀ loc ∈ world.padded, loc = 0

end

section
variable {ring : Ring}

theorem before_parts (world : World K) (invariant : Invariant ring world) (batch : Batch K)
    (admitted : Admitted world batch) (row : Row K) (member : row ∈ batch.rows) :
    (row.before world).matched ≤ row.history.length ∧
      (row.history.length % ring.compressRatio = 0 ∨ row.fresh = false → (row.before world).matched % ring.compressRatio = 0 ∧
        (row.before world).planned = blocksOf ring.compressRatio ((row.before world).matched / ring.compressRatio) row.history) ∧
      (row.fresh = false → ∀ position, pendingStart ring row.history.length ≤ position → position < row.history.length →
        row.history[position]? = some (world.buffer (ringSlot ring row.slot position))) := by
  cases fresh : row.fresh with
  | true =>
      have begun : row.before world = ⟨row.history,row.history.length,[]⟩ := by rw [Row.before,fresh,if_pos rfl]
      rw [begun]
      refine ⟨Nat.le_refl _,?_,fun missing => absurd missing (by simp)⟩
      intro aligned
      rcases aligned with whole | missing
      · exact ⟨whole,by simp [blocksOf]⟩
      · cases missing
  | false =>
      obtain ⟨request,live,same⟩ := admitted.live row member fresh
      have going : row.before world = request := by
        rw [Row.before,fresh,if_neg Bool.false_ne_true,live,Option.getD_some]
      obtain ⟨_,aligned,longer,held,planned⟩ := invariant.sound row.slot request live
      rw [going,← same]
      exact ⟨longer,fun _ => ⟨aligned,planned⟩,fun _ => held⟩

-- The pending keys after a forward: its own, and on decode the older ones of the group.
theorem row_held (world : World K) (batch : Batch K) (buffer : Nat → K) (stored : Stored ring world batch buffer)
    (admitted : Admitted world batch) (row : Row K) (member : row ∈ batch.rows)
    (split : isDecode batch.mode = true ∨ row.history.length % ring.compressRatio = 0)
    (old : isDecode batch.mode = true → ∀ position, pendingStart ring row.history.length ≤ position →
      position < row.history.length → row.history[position]? = some (world.buffer (ringSlot ring row.slot position)))
    (position : Nat) (pending : pendingStart ring row.keys.length ≤ position) (inside : position < row.keys.length) :
    row.keys[position]? = some (buffer (ringSlot ring row.slot position)) := by
  have total := row_length row
  by_cases before : position < row.history.length
  · have decode : isDecode batch.mode = true := by
      rcases split with decode | aligned
      · exact decode
      · have grown := pendingStart_mono ring (show row.history.length ≤ row.keys.length by omega)
        have whole := pendingStart_mod ring row.history.length
        omega
    have kept := stored.kept row.slot position (admitted.nonzero row member) (by
      intro other belongs same
      cases row_unique batch admitted.distinct other row belongs member same
      have stride := ratio_le_stride ring
      have later := pendingStart_mod ring row.keys.length
      have tail := Nat.mod_lt row.keys.length ring.ratioPositive
      exact ⟨before,by omega⟩)
    have grown := pendingStart_mono ring (show row.history.length ≤ row.keys.length by omega)
    rw [kept,Row.keys,List.getElem?_append_left before]
    exact old decode position (Nat.le_trans grown pending) before
  · obtain ⟨k,rfl⟩ := Nat.exists_eq_add_of_le (Nat.le_of_not_lt before)
    have place : k < row.chunk.length := by omega
    have written := stored.written row member k row.chunk[k] (List.getElem?_eq_getElem place) (.inr pending)
    rw [written,Row.keys,List.getElem?_append_right (by omega),Nat.add_sub_cancel_left,List.getElem?_eq_getElem place]

theorem row_sound (world : World K) (invariant : Invariant ring world) (batch : Batch K) (admitted : Admitted world batch)
    (buffer : Nat → K) (stored : Stored ring world batch buffer) (table : Table) (chunks : Option Chunks)
    (entries : List Entry) (planned : Planned ring batch table chunks entries)
    (split : isDecode batch.mode = true ∨ ∀ row ∈ batch.rows, row.history.length % ring.compressRatio = 0) (h : Nat)
    (row : Row K) (found : batch.rows[h]? = some row) :
    Sound ring buffer row.slot (Row.after ring.compressRatio world
      ((entries.filter fun entry => entry.valid).map fun entry => (entry,membersOf ring batch entry)) h row) := by
  have member := List.mem_of_getElem? found
  have total := row_length row
  obtain ⟨longer,whole,held⟩ := before_parts world invariant batch admitted row member
  have going : isDecode batch.mode = true → row.fresh = false :=
    fun decode => (admitted.decoding (by simpa [isDecode] using decode) row member).1
  have ready : row.history.length % ring.compressRatio = 0 ∨ row.fresh = false := by
    rcases split with decode | aligned
    · exact .inr (going decode)
    · exact .inl (aligned row member)
  obtain ⟨aligned,plan⟩ := whole ready
  have low := Nat.div_le_div_right longer (c := ring.compressRatio)
  refine ⟨admitted.nonzero row member,aligned,Nat.le_trans longer (by simp [Row.after,total]),?_,?_⟩
  · apply row_held world batch buffer stored admitted row member
    · rcases split with decode | aligned
      · exact .inl decode
      · exact .inr (aligned row member)
    · exact fun decode => held (going decode)
  · rw [Row.after]
    simp only
    rw [row_groups ring batch table chunks entries planned h row found,plan]
    exact blocks_extended ring row _ low

theorem groups_planned (world : World K) (invariant : Invariant ring world) (batch : Batch K)
    (admitted : Admitted world batch) (nonempty : batch.rows ≠ []) (metadata : Metadata)
    (made : metadataFromForwardBatch ring batch.reqToToken batch.forwardBatch = some metadata) (buffer : Nat → K)
    (stored : Stored ring world batch buffer) (groups : List (Entry × List K))
    (compressed : plannedGroups ring.compressRatio metadata buffer batch.tokenKeys = some groups) :
    ∃ table chunks, Planned ring batch table chunks metadata.entries ∧
      (isDecode batch.mode = true ∨ ∀ row ∈ batch.rows, row.history.length % ring.compressRatio = 0) ∧
      groups = (metadata.entries.filter fun entry => entry.valid).map fun entry =>
        (entry,membersOf ring batch entry) := by
  obtain ⟨table,positions,_,planRan,_,grouped⟩ := metadata_parts ring batch nonempty metadata made
  cases mode : isDecode batch.mode with
  | true =>
      have decoding := admitted.decoding (by simpa [isDecode] using mode)
      have planned := decode_planned ring batch mode (fun row member => (decoding row member).2) table
        metadata.entries planRan
      refine ⟨table,none,planned,.inl rfl,decode_groups ring batch world _ stored admitted nonempty mode ?_ table metadata
        planned grouped groups compressed⟩
      intro row member
      exact (before_parts world invariant batch admitted row member).2.2 (decoding row member).1
  | false =>
      obtain ⟨planned,aligned⟩ := extend_planned ring batch mode table metadata.entries planRan
      exact ⟨table,_,planned,.inr aligned,
        extend_groups ring batch mode table metadata planned aligned grouped _ groups compressed⟩

-- A forward leaves the pending keys of a request that is not in it.
theorem absent_sound (world : World K) (batch : Batch K) (buffer : Nat → K) (stored : Stored ring world batch buffer)
    (slot : Nat) (absent : ∀ row ∈ batch.rows, row.slot ≠ slot) (request : Request K)
    (sound : Sound ring world.buffer slot request) : Sound ring buffer slot request := by
  obtain ⟨nonzero,aligned,longer,held,plan⟩ := sound
  refine ⟨nonzero,aligned,longer,?_,plan⟩
  intro position pending inside
  rw [held position pending inside]
  congr 1
  exact (stored.kept slot position nonzero fun row member same => absurd same (absent row member)).symm

theorem forward_sound (world next : World K) (invariant : Invariant ring world) (batch : Batch K)
    (admitted : Admitted world batch) (ran : runForward ring world batch = some next) : Invariant ring next := by
  obtain ⟨metadata,made,ran⟩ := Option.bind_eq_some_iff.mp ran
  obtain ⟨groups,compressed,same⟩ := Option.bind_eq_some_iff.mp ran
  cases same
  by_cases empty : batch.rows = []
  · have none : batch.forwardBatch.seqLens = [] := by simp [Batch.forwardBatch,empty]
    unfold metadataFromForwardBatch at made
    rw [if_pos none] at made
    cases made
    refine ⟨?_,?_⟩
    · intro slot request live
      simp only [requestsAfter,empty,List.findIdx?_nil] at live
      exact invariant.sound slot request live
    · simpa using invariant.padded
  · have stored := forward_stored ring batch world admitted empty metadata made
    obtain ⟨table,chunks,planned,split,exact⟩ :=
      groups_planned world invariant batch admitted empty metadata made _ stored groups compressed
    refine ⟨?_,?_⟩
    · intro slot request live
      simp only [requestsAfter] at live
      cases place : batch.rows.findIdx? fun row => row.slot == slot with
      | some h =>
          rw [place] at live
          obtain ⟨row,found,rfl⟩ := Option.map_eq_some_iff.mp live
          have own : row.slot = slot := by
            obtain ⟨inside,here,_⟩ := List.findIdx?_eq_some_iff_getElem.mp place
            rw [List.getElem?_eq_getElem inside,Option.some_inj] at found
            rw [← found]
            exact beq_iff_eq.mp here
          subst own
          rw [exact]
          exact row_sound world invariant batch admitted _ stored table chunks metadata.entries planned split h row found
      | none =>
          rw [place] at live
          have absent := List.findIdx?_eq_none_iff.mp place
          refine absent_sound world batch _ stored slot ?_ request (invariant.sound slot request live)
          intro row member same
          have other := absent row member
          rw [same,beq_self_eq_true] at other
          cases other
    · intro loc member
      rcases List.mem_append.mp member with old | new
      · exact invariant.padded loc old
      · obtain ⟨entry,chosen,rfl⟩ := List.mem_map.mp new
        obtain ⟨belongs,invalid⟩ := List.mem_filter.mp chosen
        exact ((planned_valid ring batch table chunks metadata.entries planned).2 entry belongs (by simpa using invalid)).1

theorem step_sound (world next : World K) (invariant : Invariant ring world) (step : Step ring world next) :
    Invariant ring next := by
  cases step with
  | forward admitted ran => exact forward_sound world next invariant _ admitted ran
  | finish slot =>
      refine ⟨?_,invariant.padded⟩
      intro other request live
      by_cases same : other = slot
      · subst same
        simp at live
      · change Function.update world.requests slot none other = some request at live
        rw [Function.update_of_ne same] at live
        exact invariant.sound other request live

theorem run_sound (start world : World K) (fresh : Invariant ring start)
    (run : Relation.ReflTransGen (Step ring) start world) : Invariant ring world := by
  induction run with
  | refl => exact fresh
  | tail _ step ih => exact step_sound _ _ ih step

end

structure Idle (world : World K) : Prop where
  requests : ∀ slot, world.requests slot = none
  padded : world.padded = []

-- Over any run every complete block at or beyond a request's matched prefix is planned once, in
-- order, with the keys of its own positions as members; padding entries write slot 0.
theorem blocks_planned_once (ring : Ring) (start world : World K) (idle : Idle start)
    (run : Relation.ReflTransGen (Step ring) start world) :
    (∀ slot request, world.requests slot = some request → request.planned =
      (List.range' (request.matched / ring.compressRatio) (request.keys.length / ring.compressRatio -
        request.matched / ring.compressRatio)).map fun b =>
          (b,(request.keys.drop (b * ring.compressRatio)).take ring.compressRatio)) ∧
      ∀ loc ∈ world.padded, loc = 0 := by
  have fresh : Invariant ring start := by
    refine ⟨?_,by simp [idle.padded]⟩
    intro slot request live
    rw [idle.requests] at live
    cases live
  have invariant := run_sound start world fresh run
  exact ⟨fun slot request live => (invariant.sound slot request live).planned,invariant.padded⟩

def pairRing : Ring := ⟨2,Nat.two_pos,some 4⟩

def idleWorld : World Nat := ⟨fun _ => 0,fun _ => none,[]⟩

def pagedTable : Table := ⟨8,[fun _ => 0,fun column => 8 + column,fun column => 16 + column]⟩

def chunkBatch : Batch Nat where
  mode := .extend
  rows := [⟨1,true,[],[10,11,12]⟩,⟨2,true,[20,21],[22]⟩]
  extra := []
  seqLensCpu := none
  reqToToken := pagedTable

def decodeBatch : Batch Nat where
  mode := .decode
  rows := [⟨2,false,[20,21,22],[23]⟩,⟨1,false,[10,11,12],[13]⟩]
  extra := []
  seqLensCpu := some [4,4]
  reqToToken := pagedTable

def afterChunk : World Nat := (runForward pairRing idleWorld chunkBatch).getD idleWorld
def afterDecode : World Nat := (runForward pairRing afterChunk decodeBatch).getD idleWorld

theorem sample_planned : ∃ request, afterDecode.requests 1 = some request ∧ request.keys = [10,11,12,13] ∧
    request.planned = [(0,[10,11]),(1,[12,13])] := by
  have first : Admitted idleWorld chunkBatch := by
    refine ⟨.inl rfl,by decide,by decide,?_,fun mode => absurd mode (by decide)⟩
    intro row member fresh
    rcases List.mem_pair.mp member with rfl | rfl <;> cases fresh
  have second : Admitted afterChunk decodeBatch := by
    refine ⟨.inr rfl,by decide,by decide,?_,fun _ => by decide⟩
    intro row member _
    rcases List.mem_pair.mp member with rfl | rfl
    · exact ⟨_,rfl,rfl⟩
    · exact ⟨_,rfl,rfl⟩
  have run : Relation.ReflTransGen (Step pairRing) idleWorld afterDecode :=
    .tail (.single (.forward first rfl)) (.forward second rfl)
  have planned := (blocks_planned_once pairRing idleWorld afterDecode ⟨fun _ => rfl,rfl⟩ run).1 1 _ rfl
  exact ⟨_,rfl,rfl,planned⟩

end OneSpark.PlanRuns
