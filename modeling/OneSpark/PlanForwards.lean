import OneSpark.VerifyRuns
import OneSpark.WritePlan

namespace OneSpark.PlanForwards
open Tensors RingSlots Blocks WritePlan
open PleLayout (isDecode)
open VerifyRuns (pendingStart pendingStart_le pendingStart_mod pendingStart_mono)

structure Metadata where
  tokenToBatchIdx : List Nat
  entries : List Entry
  pendingRingSlots : List Nat
  compressGroupRingLocs : Option (List (List Nat))

def maxLength (fb : ForwardBatch) : Nat :=
  match fb.seqLensCpu with
  | some lens => (lens.take fb.seqLens.length).foldl max 0
  | none => fb.seqLens.foldl max 0

def tokenRows (fb : ForwardBatch) : Option (List Nat × List Nat) :=
  if isDecode fb.forwardMode then
    if fb.positions.length = fb.seqLens.length then
      some (List.range fb.seqLens.length,fb.seqLens.map (· - 1))
    else none
  else do
    let tokenToBatchIdx ← repeatInterleave (List.range fb.seqLens.length) (← fb.extendSeqLens)
    if fb.positions.length < tokenToBatchIdx.length then none
    else some (tokenToBatchIdx,fb.positions.take tokenToBatchIdx.length)

def groupRingLocs (ring : Ring) (fb : ForwardBatch) (requests : List Nat) (entries : List Entry) :
    Option (Option (List (List Nat))) :=
  if isDecode fb.forwardMode && !entries.isEmpty then
    (buildGroupRingSlots ring requests (entries.map fun entry => entry.groupEndPosition.toNat)
      (entries.map fun entry => entry.row)).map some
  else some none

-- _metadata_from_forward_batch of a decode or extend forward; speculative rows are laid out
-- by another branch.
def metadataFromForwardBatch (ring : Ring) (reqToToken : Table) (fb : ForwardBatch) : Option Metadata :=
  if fb.seqLens = [] then some ⟨[],[],[],none⟩
  else do
    let requests := fb.reqPoolIndices.take fb.seqLens.length
    let table ← reqToToken.take requests (maxLength fb)
    let (tokenToBatchIdx, ringPositions) ← tokenRows fb
    let entries ← qsaBuildWritePlan fb false table fb.seqLens ring.compressRatio
    let slots ← buildPendingRingSlots ring tokenToBatchIdx requests fb.seqLens ringPositions (!isDecode fb.forwardMode)
    let groups ← groupRingLocs ring fb requests entries
    return ⟨tokenToBatchIdx,entries,slots,groups⟩

def chunkMembers (compressRatio : Nat) (tokenKeys : List K) (entry : Entry) : Option (List K) := do
  let first ← entry.memberRow
  if first < 0 then none
  else (List.range compressRatio).mapM fun j => tokenKeys[first.toNat + j]?

def plannedGroups (compressRatio : Nat) (metadata : Metadata) (buffer : Nat → K) (tokenKeys : List K) :
    Option (List (Entry × List K)) :=
  match metadata.compressGroupRingLocs with
  | some groups => some (((metadata.entries.zip groups).filter fun pair => pair.1.valid).map fun pair =>
      (pair.1,pair.2.map buffer))
  | none => (metadata.entries.filter fun entry => entry.valid).mapM fun entry =>
      (chunkMembers compressRatio tokenKeys entry).map fun members => (entry,members)

-- One request's share of a forward: its slot, the keys of its positions so far and of its new
-- ones. A fresh row begins a request behind a matched prefix.
structure Row (K : Type) where
  slot : Nat
  fresh : Bool
  history : List K
  chunk : List K

def Row.keys (row : Row K) : List K := row.history ++ row.chunk

-- A forward's batch; `extra` are the positions of padding tokens behind the rows'.
structure Batch (K : Type) where
  mode : ForwardMode
  rows : List (Row K)
  extra : List Nat
  seqLensCpu : Option (List Nat)
  reqToToken : Table

def Batch.forwardBatch (batch : Batch K) : ForwardBatch :=
  let positions := (batch.rows.flatMap fun row => List.range' row.history.length row.chunk.length) ++ batch.extra
  { forwardMode := batch.mode
    reqPoolIndices := batch.rows.map fun row => row.slot
    seqLens := batch.rows.map fun row => row.keys.length
    seqLensCpu := batch.seqLensCpu
    extendSeqLens := if isDecode batch.mode then none else some (batch.rows.map fun row => row.chunk.length)
    positions
    inputIds := positions.length }

def Batch.tokenKeys (batch : Batch K) : List K := batch.rows.flatMap fun row => row.chunk

-- A live request: the keys of its positions, the prefix it was matched with and every
-- compressed block planned for it with the keys named as its members.
structure Request (K : Type) where
  keys : List K
  matched : Nat
  planned : List (Nat × List K)

-- The pending ring of one layer, the live requests, and the slots padding entries wrote to.
structure World (K : Type) where
  buffer : Nat → K
  requests : Nat → Option (Request K)
  padded : List Nat

def Row.before (world : World K) (row : Row K) : Request K :=
  if row.fresh then ⟨row.history,row.history.length,[]⟩
  else (world.requests row.slot).getD ⟨row.history,row.history.length,[]⟩

def blockNumber (compressRatio : Nat) (entry : Entry) : Nat := entry.groupEndPosition.toNat / compressRatio

def Row.after (compressRatio : Nat) (world : World K) (planned : List (Entry × List K)) (index : Nat) (row : Row K) :
    Request K :=
  { keys := row.keys
    matched := (row.before world).matched
    planned := (row.before world).planned ++ (planned.filter fun pair => pair.1.row == index).map fun pair =>
      (blockNumber compressRatio pair.1,pair.2) }

def requestsAfter (compressRatio : Nat) (world : World K) (batch : Batch K) (planned : List (Entry × List K)) :
    Nat → Option (Request K) := fun slot =>
  match batch.rows.findIdx? fun row => row.slot == slot with
  | some index => batch.rows[index]?.map (Row.after compressRatio world planned index)
  | none => world.requests slot

-- The ring writes of a forward come before its group reads.
def runForward (ring : Ring) (world : World K) (batch : Batch K) : Option (World K) := do
  let metadata ← metadataFromForwardBatch ring batch.reqToToken batch.forwardBatch
  let buffer := put world.buffer (metadata.pendingRingSlots.zip batch.tokenKeys)
  let planned ← plannedGroups ring.compressRatio metadata buffer batch.tokenKeys
  return {
    buffer
    requests := requestsAfter ring.compressRatio world batch planned
    padded := world.padded ++ (metadata.entries.filter fun entry => !entry.valid).map fun entry => entry.writeLoc }

-- A batch's rows are requests in slots of their own; one that is not new goes on from its keys.
structure Admitted (world : World K) (batch : Batch K) : Prop where
  mode : batch.mode = .extend ∨ batch.mode = .decode
  distinct : (batch.rows.map fun row => row.slot).Nodup
  nonzero : ∀ row ∈ batch.rows, row.slot ≠ 0
  live : ∀ row ∈ batch.rows, row.fresh = false → ∃ request, world.requests row.slot = some request ∧
    request.keys = row.history
  decoding : batch.mode = .decode → ∀ row ∈ batch.rows, row.fresh = false ∧ row.chunk.length = 1

def Batch.widths (batch : Batch K) : List Nat := batch.rows.map fun row => row.chunk.length

section
variable (ring : Ring) (batch : Batch K)

theorem tokenKeys_read (h k : Nat) (row : Row K) (found : batch.rows[h]? = some row) (inside : k < row.chunk.length) :
    batch.tokenKeys[offset batch.widths h + k]? = row.chunk[k]? :=
  flatMap_read batch.rows (fun row => row.chunk) h k row found inside

theorem repeatInterleave_blocks (repeats : List Nat) :
    repeatInterleave (List.range repeats.length) repeats = some ((List.range repeats.sum).map (blockOf repeats)) := by
  have cover := blocks_cover repeats fun h _ => h
  unfold repeatInterleave
  rw [if_pos (by simp),cover]
  congr 1
  have pairs : (List.range repeats.length).zip repeats =
      (List.range repeats.length).map fun h => (h,repeats.getD h 0) := by
    apply List.ext_getElem
    · simp
    · intro h bound _
      have inside : h < repeats.length := by simpa using bound
      simp [inside]
  rw [pairs,List.flatMap_map]
  simp

theorem tokenRows_extend (extending : isDecode batch.mode = false) (rows tokens : List Nat)
    (ran : tokenRows batch.forwardBatch = some (rows,tokens)) :
    rows = (List.range batch.widths.sum).map (blockOf batch.widths) ∧
      tokens = batch.rows.flatMap fun row => List.range' row.history.length row.chunk.length := by
  unfold tokenRows at ran
  simp only [Batch.forwardBatch,extending,Bool.false_eq_true,if_false,Option.bind_eq_bind,Option.bind_some,
    List.length_map] at ran
  have repeated := repeatInterleave_blocks batch.widths
  rw [Batch.widths,List.length_map] at repeated
  rw [repeated,Option.bind_some] at ran
  split at ran
  · cases ran
  · cases ran
    refine ⟨rfl,?_⟩
    rw [List.take_append_of_le_length,List.take_of_length_le]
    · simp [List.length_flatMap]
    · simp [List.length_flatMap]

theorem decode_widths (single : ∀ row ∈ batch.rows, row.chunk.length = 1) :
    batch.widths = List.replicate batch.rows.length 1 := by
  refine List.eq_replicate_iff.mpr ⟨by simp [Batch.widths],?_⟩
  intro width member
  obtain ⟨row,old,rfl⟩ := List.mem_map.mp member
  exact single row old

-- The token at place k of row h belongs to row h and sits k positions past its history.
theorem tokenRows_read (decoding : isDecode batch.mode = true → ∀ row ∈ batch.rows, row.chunk.length = 1)
    (rows positions : List Nat) (ran : tokenRows batch.forwardBatch = some (rows,positions)) :
    positions.length = batch.widths.sum ∧ ∀ h row, batch.rows[h]? = some row → ∀ k < row.chunk.length,
      rows[offset batch.widths h + k]? = some h ∧
        positions[offset batch.widths h + k]? = some (row.history.length + k) := by
  cases extending : isDecode batch.mode with
  | true =>
      have single := decoding extending
      have widths := decode_widths batch single
      unfold tokenRows at ran
      simp only [Batch.forwardBatch,extending,if_true] at ran
      split at ran
      · cases ran
        refine ⟨by rw [widths]; simp,?_⟩
        intro h row found k inside
        obtain ⟨bound,_⟩ := List.getElem?_eq_some_iff.mp found
        have one := single row (List.mem_of_getElem? found)
        have place : k = 0 := by omega
        subst place
        rw [widths,offset_replicate _ _ _ (Nat.le_of_lt bound),Nat.mul_one,Nat.add_zero]
        have count := congrArg (· - 1) (@List.length_append _ row.history row.chunk)
        rw [one] at count
        refine ⟨by rw [List.length_map,List.getElem?_range bound],?_⟩
        rw [List.getElem?_map,List.getElem?_map,found,Option.map_some,Option.map_some]
        exact congrArg some count
      · cases ran
  | false =>
      obtain ⟨rfl,rfl⟩ := tokenRows_extend batch extending rows positions ran
      refine ⟨by simp [Batch.widths,List.length_flatMap],?_⟩
      intro h row found k inside
      have within : Within batch.widths h (offset batch.widths h + k) := by
        refine ⟨row.chunk.length,?_,Nat.le_add_right _ _,Nat.add_lt_add_left inside _⟩
        rw [Batch.widths,List.getElem?_map,found]
        rfl
      refine ⟨?_,?_⟩
      · rw [List.getElem?_map,List.getElem?_range (within_sum _ _ _ within),Option.map_some,blockOf_exact _ _ _ within]
      · have read := flatMap_read batch.rows (fun row => List.range' row.history.length row.chunk.length) h k row found
          (by simpa using inside)
        simp only [List.length_range'] at read
        rw [Batch.widths,read,List.getElem?_range' inside,Nat.one_mul]

def tokenSlot (batch : Batch K) (row : Row K) (k : Nat) : Nat :=
  if (!isDecode batch.mode) = true ∧ row.history.length + k < pendingStart ring row.keys.length
    then (row.history.length + k) % ring.compressRatio else ringSlot ring row.slot (row.history.length + k)

theorem metadata_parts (nonempty : batch.rows ≠ []) (metadata : Metadata)
    (ran : metadataFromForwardBatch ring batch.reqToToken batch.forwardBatch = some metadata) :
    ∃ table positions, tokenRows batch.forwardBatch = some (metadata.tokenToBatchIdx,positions) ∧
      qsaBuildWritePlan batch.forwardBatch false table batch.forwardBatch.seqLens ring.compressRatio =
        some metadata.entries ∧
      buildPendingRingSlots ring metadata.tokenToBatchIdx (batch.rows.map fun row => row.slot)
        batch.forwardBatch.seqLens positions (!isDecode batch.mode) = some metadata.pendingRingSlots ∧
      groupRingLocs ring batch.forwardBatch (batch.rows.map fun row => row.slot) metadata.entries =
        some metadata.compressGroupRingLocs := by
  unfold metadataFromForwardBatch at ran
  have some_rows : ¬ batch.forwardBatch.seqLens = [] := by simpa [Batch.forwardBatch] using nonempty
  have requests : batch.forwardBatch.reqPoolIndices.take batch.forwardBatch.seqLens.length =
      batch.rows.map fun row => row.slot := by
    simp [Batch.forwardBatch]
  rw [if_neg some_rows,requests] at ran
  obtain ⟨table,_,ran⟩ := Option.bind_eq_some_iff.mp ran
  obtain ⟨⟨rows,positions⟩,laid,ran⟩ := Option.bind_eq_some_iff.mp ran
  obtain ⟨entries,planned,ran⟩ := Option.bind_eq_some_iff.mp ran
  obtain ⟨slots,built,ran⟩ := Option.bind_eq_some_iff.mp ran
  obtain ⟨groups,grouped,same⟩ := Option.bind_eq_some_iff.mp ran
  cases same
  exact ⟨table,positions,laid,planned,built,grouped⟩

theorem token_slot (decoding : isDecode batch.mode = true → ∀ row ∈ batch.rows, row.chunk.length = 1)
    (nonempty : batch.rows ≠ []) (metadata : Metadata)
    (ran : metadataFromForwardBatch ring batch.reqToToken batch.forwardBatch = some metadata) :
    metadata.pendingRingSlots.length = batch.widths.sum ∧
      ∀ h row, batch.rows[h]? = some row → ∀ k < row.chunk.length,
        metadata.pendingRingSlots[offset batch.widths h + k]? = some (tokenSlot ring batch row k) := by
  obtain ⟨table,positions,laid,_,built,_⟩ := metadata_parts ring batch nonempty metadata ran
  obtain ⟨count,read⟩ := tokenRows_read batch decoding _ _ laid
  refine ⟨(pending_length ring _ _ _ _ _ _ built).trans count,?_⟩
  intro h row found k inside
  obtain ⟨atRow,atPosition⟩ := read h row found k inside
  exact pending_read ring _ _ _ _ _ _ built _ h _ row.slot row.keys.length atRow atPosition
    (by rw [List.getElem?_map,found]; rfl) (by simp [Batch.forwardBatch,found])

def ringWrites (metadata : Metadata) : List (Nat × K) := metadata.pendingRingSlots.zip batch.tokenKeys

theorem ringWrites_known (decoding : isDecode batch.mode = true → ∀ row ∈ batch.rows, row.chunk.length = 1)
    (nonempty : batch.rows ≠ []) (metadata : Metadata)
    (ran : metadataFromForwardBatch ring batch.reqToToken batch.forwardBatch = some metadata) (write : Nat × K) :
    write ∈ ringWrites batch metadata ↔ ∃ row ∈ batch.rows, ∃ k, row.chunk[k]? = some write.2 ∧
      write.1 = tokenSlot ring batch row k := by
  obtain ⟨count,slots⟩ := token_slot ring batch decoding nonempty metadata ran
  constructor
  · intro member
    obtain ⟨i,zipped⟩ := List.getElem?_of_mem member
    obtain ⟨atSlot,atKey⟩ := List.getElem?_zip_eq_some.mp zipped
    obtain ⟨inside,_⟩ := List.getElem?_eq_some_iff.mp atSlot
    rw [count] at inside
    have within := blockOf_within batch.widths i inside
    generalize blockOf batch.widths i = h at within
    obtain ⟨width,found,above,below⟩ := within
    rw [Batch.widths,List.getElem?_map,Option.map_eq_some_iff] at found
    obtain ⟨row,atRow,rfl⟩ := found
    obtain ⟨k,rfl⟩ := Nat.exists_eq_add_of_le above
    have place : k < row.chunk.length := Nat.lt_of_add_lt_add_left below
    rw [slots h row atRow k place,Option.some_inj] at atSlot
    rw [tokenKeys_read batch h k row atRow place] at atKey
    exact ⟨row,List.mem_of_getElem? atRow,k,atKey,atSlot.symm⟩
  · rintro ⟨row,member,k,atKey,named⟩
    obtain ⟨h,found⟩ := List.getElem?_of_mem member
    obtain ⟨inside,_⟩ := List.getElem?_eq_some_iff.mp atKey
    have atToken := tokenKeys_read batch h k row found inside
    refine List.mem_of_getElem? (i := offset batch.widths h + k) (List.getElem?_zip_eq_some.mpr ⟨?_,?_⟩)
    · rw [named]
      exact slots h row found k inside
    · exact atToken.trans atKey

-- A token whose key stays in its request's ring.
def Kept (batch : Batch K) (row : Row K) (k : Nat) : Prop :=
  isDecode batch.mode = true ∨ pendingStart ring row.keys.length ≤ row.history.length + k

theorem kept_slot (row : Row K) (k : Nat) (kept : Kept ring batch row k) :
    tokenSlot ring batch row k = ringSlot ring row.slot (row.history.length + k) := by
  apply if_neg
  rintro ⟨extending,old⟩
  rcases kept with decode | pending
  · simp [decode] at extending
  · omega

-- A token that shares a slot with a live request is that request's and was kept.
theorem slot_shared (row : Row K) (k slot position : Nat) (nonzero : slot ≠ 0)
    (same : tokenSlot ring batch row k = ringSlot ring slot position) :
    row.slot = slot ∧ Kept ring batch row k ∧ tokenSlot ring batch row k = ringSlot ring slot (row.history.length + k) := by
  by_cases kept : Kept ring batch row k
  · have named := kept_slot ring batch row k kept
    obtain ⟨requests,_⟩ := (ringSlot_inj ring).mp (named.symm.trans same)
    exact ⟨requests,kept,requests ▸ named⟩
  · have extending : (!isDecode batch.mode) = true := by
      cases mode : isDecode batch.mode with
      | true => exact absurd (.inl mode) kept
      | false => rfl
    have old : row.history.length + k < pendingStart ring row.keys.length :=
      Nat.lt_of_not_le fun pending => kept (.inr pending)
    rw [tokenSlot,if_pos ⟨extending,old⟩] at same
    have small := Nat.mod_lt (row.history.length + k) ring.ratioPositive
    have stride := ratio_le_stride ring
    have low := (ringSlot_range ring slot position).1
    have positive := Nat.mul_le_mul_right (qsaRingStride ring) (Nat.one_le_iff_ne_zero.mpr nonzero)
    omega

theorem kept_window (row : Row K) (k : Nat) (decoding : isDecode batch.mode = true → row.chunk.length = 1)
    (kept : Kept ring batch row k) :
    row.keys.length ≤ row.history.length + k + ring.compressRatio := by
  have positive := ring.ratioPositive
  have total : row.keys.length = row.history.length + row.chunk.length := List.length_append
  rcases kept with decode | pending
  · have single := decoding decode
    omega
  · have split := pendingStart_mod ring row.keys.length
    have tail := Nat.mod_lt row.keys.length ring.ratioPositive
    omega

theorem row_unique (distinct : (batch.rows.map fun row => row.slot).Nodup) (row other : Row K)
    (left : row ∈ batch.rows) (right : other ∈ batch.rows) (same : row.slot = other.slot) : row = other :=
  List.inj_on_of_nodup_map distinct left right same

structure Stored (world : World K) (batch : Batch K) (buffer : Nat → K) : Prop where
  written : ∀ row ∈ batch.rows, ∀ k key, row.chunk[k]? = some key → Kept ring batch row k →
    buffer (ringSlot ring row.slot (row.history.length + k)) = key
  kept : ∀ slot position, slot ≠ 0 → (∀ row ∈ batch.rows, row.slot = slot →
    position < row.history.length ∧ row.keys.length ≤ position + qsaRingStride ring) →
    buffer (ringSlot ring slot position) = world.buffer (ringSlot ring slot position)

theorem forward_stored (world : World K) (admitted : Admitted world batch) (nonempty : batch.rows ≠ [])
    (metadata : Metadata)
    (ran : metadataFromForwardBatch ring batch.reqToToken batch.forwardBatch = some metadata) :
    Stored ring world batch (put world.buffer (ringWrites batch metadata)) := by
  have decoding : isDecode batch.mode = true → ∀ row ∈ batch.rows, row.chunk.length = 1 := by
    intro decode row member
    exact (admitted.decoding (by simpa [isDecode] using decode) row member).2
  have known := ringWrites_known ring batch decoding nonempty metadata ran
  refine ⟨?_,?_⟩
  · intro row member k key atKey kept
    obtain ⟨inside,_⟩ := List.getElem?_eq_some_iff.mp atKey
    have named := kept_slot ring batch row k kept
    have nonzero := admitted.nonzero row member
    apply put_agreed
    · exact ⟨(tokenSlot ring batch row k,key),(known _).mpr ⟨row,member,k,atKey,rfl⟩,named⟩
    · intro write present same
      obtain ⟨other,belongs,j,atOther,slot⟩ := (known write).mp present
      obtain ⟨requests,later,place⟩ := slot_shared ring batch other j row.slot _ nonzero (slot.symm.trans same)
      cases row_unique batch admitted.distinct other row belongs member requests
      obtain ⟨below,_⟩ := List.getElem?_eq_some_iff.mp atOther
      have first := kept_window ring batch row k (fun decode => decoding decode row member) kept
      have second := kept_window ring batch row j (fun decode => decoding decode row member) later
      have total : row.keys.length = row.history.length + row.chunk.length := List.length_append
      have stride := ratio_le_stride ring
      have equal : ringSlot ring row.slot (row.history.length + j) =
          ringSlot ring row.slot (row.history.length + k) := place.symm.trans (slot.symm.trans same)
      have places : j = k := by
        rcases Nat.lt_trichotomy j k with before | here | after
        · exact absurd equal (ringSlot_apart ring (by omega) (by omega))
        · exact here
        · exact absurd equal.symm (ringSlot_apart ring (by omega) (by omega))
      subst places
      rw [atKey,Option.some_inj] at atOther
      exact atOther.symm
  · intro slot position nonzero clear
    apply put_other
    intro write present same
    obtain ⟨other,belongs,j,atOther,named⟩ := (known write).mp present
    obtain ⟨requests,_,place⟩ := slot_shared ring batch other j slot position nonzero (named.symm.trans same)
    obtain ⟨below,_⟩ := List.getElem?_eq_some_iff.mp atOther
    obtain ⟨old,near⟩ := clear other belongs requests
    have total : other.keys.length = other.history.length + other.chunk.length := List.length_append
    exact absurd (same.symm.trans (named.trans place)) (ringSlot_apart ring (by omega) (by omega))

def membersOf (batch : Batch K) (entry : Entry) : List K :=
  (((batch.rows[entry.row]?.map Row.keys).getD []).drop (blockNumber ring.compressRatio entry * ring.compressRatio)).take
    ring.compressRatio

theorem owned_number (table : Table) (chunks : Option Chunks) (row block : Nat) :
    blockNumber ring.compressRatio (ownedEntry table ring.compressRatio chunks row block) = block := by
  have positive := ring.ratioPositive
  rw [blockNumber,owned_end table _ chunks row block positive]
  exact (place_parts block ring.compressRatio (ring.compressRatio - 1) (by omega)).1

def newBlocks (row : Row K) : List Nat :=
  List.range' (row.history.length / ring.compressRatio)
    (row.keys.length / ring.compressRatio - row.history.length / ring.compressRatio)

-- The plan of a forward: each row's new blocks once and in order, then padding.
def Planned (batch : Batch K) (table : Table) (chunks : Option Chunks) (entries : List Entry) : Prop :=
  ∃ padding, entries = ((List.range batch.rows.length).flatMap fun h =>
    ((batch.rows[h]?.map (newBlocks ring)).getD []).map fun (b : Nat) => ownedEntry table ring.compressRatio chunks h b) ++
      List.replicate padding (paddingEntry ring.compressRatio chunks)

theorem row_length (row : Row K) : row.keys.length = row.history.length + row.chunk.length := List.length_append

theorem decode_blocks (row : Row K) (single : row.chunk.length = 1) : newBlocks ring row =
    if row.keys.length % ring.compressRatio = 0 then [row.keys.length / ring.compressRatio - 1] else [] := by
  have positive := ring.ratioPositive
  have total := row_length row
  rw [single] at total
  unfold newBlocks
  rw [total,Nat.succ_div]
  by_cases whole : ring.compressRatio ∣ row.history.length + 1
  · rw [if_pos whole,if_pos (Nat.mod_eq_zero_of_dvd whole)]
    simp
  · rw [if_neg whole,if_neg fun zero => whole (Nat.dvd_of_mod_eq_zero zero)]
    simp

theorem decode_planned (decode : isDecode batch.mode = true) (single : ∀ row ∈ batch.rows, row.chunk.length = 1)
    (table : Table) (entries : List Entry)
    (ran : qsaBuildWritePlan batch.forwardBatch false table batch.forwardBatch.seqLens ring.compressRatio =
      some entries) : Planned ring batch table none entries := by
  unfold qsaBuildWritePlan at ran
  have mode : isDecode batch.forwardBatch.forwardMode = true := decode
  rw [mode,Bool.true_or,if_pos rfl] at ran
  have positive : ∀ length ∈ batch.forwardBatch.seqLens, 0 < length := by
    intro length member
    obtain ⟨row,old,rfl⟩ := List.mem_map.mp member
    have one := single row old
    have total := row_length row
    omega
  have exact := paged_plan table _ _ ring.ratioPositive positive entries ran
  have count : batch.forwardBatch.seqLens.length = batch.rows.length := by simp [Batch.forwardBatch]
  rw [completing,← flatMap_chosen,count] at exact
  rw [Planned,exact]
  refine ⟨_,congrArg (· ++ _) ?_⟩
  apply List.flatMap_congr
  intro h member
  have inside := List.mem_range.mp member
  have length : batch.forwardBatch.seqLens.getD h 0 = batch.rows[h].keys.length := by simp [Batch.forwardBatch,inside]
  rw [length,List.getElem?_eq_getElem inside,Option.map_some,Option.getD_some,
    decode_blocks ring batch.rows[h] (single _ (List.getElem_mem inside))]
  by_cases whole : batch.rows[h].keys.length % ring.compressRatio = 0 <;> simp [whole]

theorem extend_planned (extending : isDecode batch.mode = false) (table : Table) (entries : List Entry)
    (ran : qsaBuildWritePlan batch.forwardBatch false table batch.forwardBatch.seqLens ring.compressRatio =
      some entries) :
    Planned ring batch table (some (chunksOf batch.forwardBatch.seqLens batch.widths)) entries ∧
      ∀ row ∈ batch.rows, row.history.length % ring.compressRatio = 0 := by
  unfold qsaBuildWritePlan at ran
  have mode : isDecode batch.forwardBatch.forwardMode = false := extending
  rw [mode,Bool.false_or,if_neg (by simp)] at ran
  have told : batch.forwardBatch.extendSeqLens = some batch.widths := by simp [Batch.forwardBatch,extending,Batch.widths]
  have tokens : batch.widths.sum ≤ batch.forwardBatch.inputIds := by
    simp [Batch.forwardBatch,Batch.widths,List.length_flatMap]
  obtain ⟨aligned,padding,exact⟩ := extend_plan batch.forwardBatch table _ batch.widths ring.compressRatio told
    (by simp [Batch.forwardBatch,Batch.widths]) tokens entries ran
  have count : batch.forwardBatch.seqLens.length = batch.rows.length := by simp [Batch.forwardBatch]
  rw [count] at aligned exact
  have start : ∀ h (inside : h < batch.rows.length), batch.forwardBatch.seqLens.getD h 0 = batch.rows[h].keys.length ∧
      batch.forwardBatch.seqLens.getD h 0 - batch.widths.getD h 0 = batch.rows[h].history.length := by
    intro h inside
    have total := row_length batch.rows[h]
    have length : batch.forwardBatch.seqLens.getD h 0 = batch.rows[h].keys.length := by
      simp [Batch.forwardBatch,inside]
    have width : batch.widths.getD h 0 = batch.rows[h].chunk.length := by simp [Batch.widths,inside]
    rw [length,width]
    omega
  rw [Planned,exact]
  refine ⟨⟨padding,congrArg (· ++ _) ?_⟩,?_⟩
  · apply List.flatMap_congr
    intro h member
    have inside := List.mem_range.mp member
    obtain ⟨length,history⟩ := start h inside
    rw [history,length,List.getElem?_eq_getElem inside,Option.map_some,Option.getD_some,newBlocks,
      List.range'_eq_map_range,List.map_map]
    rfl
  · intro row member
    obtain ⟨h,inside,rfl⟩ := List.mem_iff_getElem.mp member
    have whole := aligned h inside
    rwa [(start h inside).2] at whole

theorem planned_valid (table : Table) (chunks : Option Chunks) (entries : List Entry)
    (planned : Planned ring batch table chunks entries) :
    (entries.filter fun entry => entry.valid) = ((List.range batch.rows.length).flatMap fun h =>
      ((batch.rows[h]?.map (newBlocks ring)).getD []).map fun (b : Nat) => ownedEntry table ring.compressRatio chunks h b) ∧
      ∀ entry ∈ entries, entry.valid = false → entry.writeLoc = 0 ∧ entry.row = 0 := by
  obtain ⟨padding,rfl⟩ := planned
  have owned : ∀ entry ∈ (List.range batch.rows.length).flatMap (fun h =>
      ((batch.rows[h]?.map (newBlocks ring)).getD []).map fun (b : Nat) =>
        ownedEntry table ring.compressRatio chunks h b), entry.valid = true := by
    intro entry member
    obtain ⟨h,_,inner⟩ := List.mem_flatMap.mp member
    obtain ⟨b,_,rfl⟩ := List.mem_map.mp inner
    rfl
  refine ⟨?_,?_⟩
  · rw [List.filter_append,List.filter_eq_self.mpr owned,List.filter_eq_nil_iff.mpr,List.append_nil]
    intro entry member
    rw [List.eq_of_mem_replicate member]
    exact Bool.false_ne_true
  · intro entry member invalid
    rcases List.mem_append.mp member with first | last
    · rw [owned entry first] at invalid
      cases invalid
    · rw [List.eq_of_mem_replicate last]
      exact ⟨rfl,rfl⟩

theorem valid_owned (table : Table) (chunks : Option Chunks) (entries : List Entry)
    (planned : Planned ring batch table chunks entries) (entry : Entry) (member : entry ∈ entries)
    (valid : entry.valid = true) : ∃ h row b, batch.rows[h]? = some row ∧ b ∈ newBlocks ring row ∧
      entry = ownedEntry table ring.compressRatio chunks h (b : Nat) := by
  have chosen := List.mem_filter.mpr ⟨member,valid⟩
  rw [(planned_valid ring batch table chunks entries planned).1] at chosen
  obtain ⟨h,inside,inner⟩ := List.mem_flatMap.mp chosen
  have found := List.getElem?_eq_getElem (List.mem_range.mp inside)
  rw [found] at inner
  obtain ⟨b,block,same⟩ := List.mem_map.mp inner
  exact ⟨h,_,b,found,block,same.symm⟩

theorem newBlocks_bounds (row : Row K) (b : Nat) (member : b ∈ newBlocks ring row) :
    row.history.length / ring.compressRatio ≤ b ∧ (b + 1) * ring.compressRatio ≤ row.keys.length := by
  obtain ⟨low,high⟩ := List.mem_range'_1.mp member
  refine ⟨low,?_⟩
  have below : b + 1 ≤ row.keys.length / ring.compressRatio := by omega
  exact Nat.le_trans (Nat.mul_le_mul_right _ below) (Nat.div_mul_le_self _ _)

theorem membersOf_owned (table : Table) (chunks : Option Chunks) (h b : Nat) (row : Row K)
    (found : batch.rows[h]? = some row) :
    membersOf ring batch (ownedEntry table ring.compressRatio chunks h b) =
      (row.keys.drop (b * ring.compressRatio)).take ring.compressRatio := by
  unfold membersOf
  rw [owned_number]
  have row_exact : (ownedEntry table ring.compressRatio chunks h b).row = h := rfl
  rw [row_exact,found]
  rfl

-- The chunk rows named for an extend block hold the block's keys.
theorem chunkMembers_exact (h b : Nat) (table : Table) (row : Row K) (found : batch.rows[h]? = some row)
    (aligned : row.history.length % ring.compressRatio = 0) (block : b ∈ newBlocks ring row) :
    chunkMembers ring.compressRatio batch.tokenKeys (ownedEntry table ring.compressRatio
      (some (chunksOf batch.forwardBatch.seqLens batch.widths)) h b) =
        some ((row.keys.drop (b * ring.compressRatio)).take ring.compressRatio) := by
  obtain ⟨inside,_⟩ := List.getElem?_eq_some_iff.mp found
  obtain ⟨low,high⟩ := newBlocks_bounds ring row b block
  have total := row_length row
  have start : row.history.length ≤ b * ring.compressRatio := by
    have whole := Nat.div_mul_cancel (Nat.dvd_of_mod_eq_zero aligned)
    have scaled := Nat.mul_le_mul_right ring.compressRatio low
    omega
  have first : (ownedEntry table ring.compressRatio (some (chunksOf batch.forwardBatch.seqLens batch.widths)) h b).memberRow =
      some ((offset batch.widths h + (b * ring.compressRatio - row.history.length) : Nat) : Int) := by
    have width : h < batch.widths.length := by simpa [Batch.widths] using inside
    have starts : (chunksOf batch.forwardBatch.seqLens batch.widths).rowTokenStarts.getD h 0 = offset batch.widths h := by
      simp [chunksOf,width]
    have prefixes : (chunksOf batch.forwardBatch.seqLens batch.widths).prefixLens.getD h 0 = row.history.length := by
      have value : batch.rows[h] = row := by rw [List.getElem?_eq_getElem inside,Option.some_inj] at found; exact found
      simp [chunksOf,Batch.forwardBatch,Batch.widths,inside,value,total]
    simp only [ownedEntry,Option.map_some,starts,prefixes]
    push_cast
    congr 1
    omega
  unfold chunkMembers
  rw [first,Option.bind_eq_bind,Option.bind_some,if_neg (by omega),Int.toNat_natCast]
  rw [Nat.add_mul,Nat.one_mul] at high
  have length : ((row.keys.drop (b * ring.compressRatio)).take ring.compressRatio).length = ring.compressRatio := by
    simp only [List.length_take,List.length_drop]
    omega
  have loop := mapM_range (fun j => batch.tokenKeys[offset batch.widths h +
      (b * ring.compressRatio - row.history.length) + j]?)
    ((row.keys.drop (b * ring.compressRatio)).take ring.compressRatio) (by
      intro j small
      rw [length] at small
      have place : b * ring.compressRatio - row.history.length + j < row.chunk.length := by omega
      have read := tokenKeys_read batch h _ row found place
      rw [← Nat.add_assoc] at read
      rw [read,List.getElem?_take_of_lt small,List.getElem?_drop,Row.keys,List.getElem?_append_right (by omega)]
      congr 1
      omega)
  rw [length] at loop
  exact loop

theorem extend_groups (extending : isDecode batch.mode = false) (table : Table) (metadata : Metadata)
    (planned : Planned ring batch table (some (chunksOf batch.forwardBatch.seqLens batch.widths)) metadata.entries)
    (aligned : ∀ row ∈ batch.rows, row.history.length % ring.compressRatio = 0)
    (grouped : groupRingLocs ring batch.forwardBatch (batch.rows.map fun row => row.slot) metadata.entries =
      some metadata.compressGroupRingLocs) (buffer : Nat → K) (groups : List (Entry × List K))
    (ran : plannedGroups ring.compressRatio metadata buffer batch.tokenKeys = some groups) :
    groups = (metadata.entries.filter fun entry => entry.valid).map fun entry => (entry,membersOf ring batch entry) := by
  unfold groupRingLocs at grouped
  have mode : isDecode batch.forwardBatch.forwardMode = false := extending
  rw [mode,Bool.false_and,if_neg (by simp),Option.some_inj] at grouped
  unfold plannedGroups at ran
  rw [← grouped] at ran
  apply mapM_known _ _ _ groups ran
  intro entry member result made
  obtain ⟨old,valid⟩ := List.mem_filter.mp member
  obtain ⟨h,row,b,found,block,rfl⟩ := valid_owned ring batch table _ _ planned entry old valid
  rw [chunkMembers_exact ring batch h b table row found (aligned row (List.mem_of_getElem? found)) block,
    Option.map_some,Option.some_inj] at made
  rw [← made,membersOf_owned ring batch table _ h b row found]

theorem ringMembers_exact (world : World K) (buffer : Nat → K) (stored : Stored ring world batch buffer)
    (distinct : (batch.rows.map fun row => row.slot).Nodup) (row : Row K) (member : row ∈ batch.rows)
    (decode : isDecode batch.mode = true) (single : row.chunk.length = 1) (nonzero : row.slot ≠ 0)
    (held : ∀ position, pendingStart ring row.history.length ≤ position → position < row.history.length →
      row.history[position]? = some (world.buffer (ringSlot ring row.slot position))) (b : Nat)
    (block : b ∈ newBlocks ring row) :
    ((List.range ring.compressRatio).reverse.map fun offset => buffer (ringSlot ring row.slot
      (b * ring.compressRatio + (ring.compressRatio - 1) - offset))) =
        (row.keys.drop (b * ring.compressRatio)).take ring.compressRatio := by
  have positive := ring.ratioPositive
  have total := row_length row
  obtain ⟨low,high⟩ := newBlocks_bounds ring row b block
  rw [Nat.add_mul,Nat.one_mul] at high
  have start : pendingStart ring row.history.length ≤ b * ring.compressRatio := Nat.mul_le_mul_right _ low
  rw [VerifyRuns.group_members ring (by omega) fun position => buffer (ringSlot ring row.slot position)]
  apply List.ext_getElem?
  intro j
  by_cases small : j < ring.compressRatio
  · rw [List.getElem?_map,List.getElem?_range small,Option.map_some,List.getElem?_take_of_lt small,List.getElem?_drop]
    have place : b * ring.compressRatio + (ring.compressRatio - 1) - (ring.compressRatio - 1) + j =
        b * ring.compressRatio + j := by omega
    rw [place]
    by_cases old : b * ring.compressRatio + j < row.history.length
    · have kept := stored.kept row.slot (b * ring.compressRatio + j) nonzero (by
        intro other belongs same
        cases row_unique batch distinct other row belongs member same
        have stride := ratio_le_stride ring
        have later := pendingStart_mod ring row.history.length
        have tail := Nat.mod_lt row.history.length positive
        exact ⟨old,by omega⟩)
      rw [kept,Row.keys,List.getElem?_append_left old]
      exact (held _ (by omega) old).symm
    · have here : b * ring.compressRatio + j = row.history.length := by omega
      obtain ⟨key,found⟩ : ∃ key, row.chunk[0]? = some key := ⟨_,List.getElem?_eq_getElem (by omega)⟩
      have written := stored.written row member 0 key found (.inl decode)
      rw [Nat.add_zero] at written
      rw [here,written,Row.keys,List.getElem?_append_right (Nat.le_refl _),Nat.sub_self,found]
  · rw [List.getElem?_eq_none (by simpa using small),List.getElem?_eq_none (by simp; omega)]

theorem entry_request (nonempty : batch.rows ≠ []) (table : Table) (chunks : Option Chunks) (entries : List Entry)
    (planned : Planned ring batch table chunks entries) (entry : Entry) (member : entry ∈ entries) :
    (batch.rows.map fun row => row.slot)[entry.row]? = some ((batch.rows.map fun row => row.slot).getD entry.row 0) := by
  have first : 0 < batch.rows.length := List.length_pos_iff.mpr nonempty
  have inside : entry.row < batch.rows.length := by
    cases valid : entry.valid with
    | true =>
        obtain ⟨h,row,b,found,_,rfl⟩ := valid_owned ring batch table _ _ planned entry member valid
        exact (List.getElem?_eq_some_iff.mp found).1
    | false =>
        rw [((planned_valid ring batch table _ _ planned).2 entry member valid).2]
        exact first
  simp [inside]

theorem entry_groups (nonempty : batch.rows ≠ []) (table : Table) (chunks : Option Chunks) (entries : List Entry)
    (planned : Planned ring batch table chunks entries) (locs : List (List Nat))
    (built : buildGroupRingSlots ring (batch.rows.map fun row => row.slot)
      (entries.map fun entry => entry.groupEndPosition.toNat) (entries.map fun entry => entry.row) = some locs) :
    locs = entries.map fun entry => (List.range ring.compressRatio).reverse.map fun offset =>
      ringSlot ring ((batch.rows.map fun row => row.slot).getD entry.row 0) (entry.groupEndPosition.toNat - offset) := by
  apply List.ext_getElem?
  intro i
  cases found : entries[i]? with
  | none =>
      have short : entries.length ≤ i := List.getElem?_eq_none_iff.mp found
      have count : locs.length ≤ entries.length := by
        obtain ⟨gathered,_,same⟩ := Option.bind_eq_some_iff.mp built
        cases same
        simp
      rw [List.getElem?_map,found,List.getElem?_eq_none (Nat.le_trans count short)]
      rfl
  | some entry =>
      rw [List.getElem?_map,found,Option.map_some]
      exact group_read ring _ _ _ locs built i entry.row entry.groupEndPosition.toNat _
        (by rw [List.getElem?_map,found]; rfl) (by rw [List.getElem?_map,found]; rfl)
        (entry_request ring batch nonempty table chunks entries planned entry (List.mem_of_getElem? found))

theorem decode_groups (world : World K) (buffer : Nat → K) (stored : Stored ring world batch buffer)
    (admitted : Admitted world batch) (nonempty : batch.rows ≠ []) (decode : isDecode batch.mode = true)
    (held : ∀ row ∈ batch.rows, ∀ position, pendingStart ring row.history.length ≤ position →
      position < row.history.length → row.history[position]? = some (world.buffer (ringSlot ring row.slot position)))
    (table : Table) (metadata : Metadata) (planned : Planned ring batch table none metadata.entries)
    (grouped : groupRingLocs ring batch.forwardBatch (batch.rows.map fun row => row.slot) metadata.entries =
      some metadata.compressGroupRingLocs) (groups : List (Entry × List K))
    (ran : plannedGroups ring.compressRatio metadata buffer batch.tokenKeys = some groups) :
    groups = (metadata.entries.filter fun entry => entry.valid).map fun entry => (entry,membersOf ring batch entry) := by
  unfold groupRingLocs at grouped
  have mode : isDecode batch.forwardBatch.forwardMode = true := decode
  rw [mode,Bool.true_and] at grouped
  unfold plannedGroups at ran
  by_cases empty : metadata.entries = []
  · rw [empty] at grouped ran
    simp only [List.isEmpty_nil,Bool.not_true,Bool.false_eq_true,if_false,Option.some_inj] at grouped
    rw [← grouped] at ran
    rw [empty]
    cases ran
    rfl
  · have full : metadata.entries.isEmpty = false := by simpa using empty
    rw [full,Bool.not_false,if_pos rfl] at grouped
    obtain ⟨locs,built,named⟩ := Option.map_eq_some_iff.mp grouped
    rw [← named] at ran
    cases ran
    have slots := entry_groups ring batch nonempty table none metadata.entries planned locs built
    rw [slots,← List.map_prod_left_eq_zip,List.filter_map,List.map_map]
    apply List.map_congr_left
    intro entry chosen
    obtain ⟨member,valid⟩ := List.mem_filter.mp chosen
    obtain ⟨h,row,b,found,block,rfl⟩ := valid_owned ring batch table _ _ planned entry member valid
    have old := List.mem_of_getElem? found
    have single := (admitted.decoding (by simpa [isDecode] using decode) row old).2
    have exact := ringMembers_exact ring batch world buffer stored admitted.distinct row old decode single
      (admitted.nonzero row old) (held row old) b block
    have slot : (batch.rows.map fun row => row.slot).getD (ownedEntry table ring.compressRatio none h b).row 0 =
        row.slot := by
      have row_exact : (ownedEntry table ring.compressRatio none h b).row = h := rfl
      rw [row_exact,List.getD_eq_getElem?_getD,List.getElem?_map,found]
      rfl
    have stop := owned_end table ring.compressRatio none h b ring.ratioPositive
    simp only [Function.comp_apply,List.map_map]
    rw [membersOf_owned ring batch table none h b row found,slot,stop,← exact]
    rfl

end

end OneSpark.PlanForwards
