import OneSpark.RingSlots

namespace OneSpark.GraphLayout
open Tensors RingSlots

theorem bind_ok {x : Except ε α} {f : α → Except ε β} (ran : (x >>= f) = .ok b) :
    ∃ a, x = .ok a ∧ f a = .ok b := by
  cases x with
  | error e => cases ran
  | ok a => exact ⟨a,rfl,ran⟩

structure Layout where
  rowLengths : List Nat
  rowReqPoolIndices : List Nat
  rowPrefixLengths : List Nat

-- torch shape errors, and the RuntimeErrors of the calls made here.
def shapeError : Refusal := .runtime "shape mismatch"

def shaped (result : Option α) : Except Refusal α := result.elim (.error shapeError) .ok

theorem shaped_ok (result : Option α) (x : α) (ran : shaped result = .ok x) : result = some x := by
  cases result with
  | none => cases ran
  | some y =>
      cases ran
      rfl

def extendLengths (bs numTokens : Nat) (mode : ForwardMode) (spec : SpecInfo) (numPadding : Int) : List Nat :=
  let extendLengths :=
    if mode.isTargetVerify then List.replicate bs (spec.draftTokenNum.getD 0)
    else match spec.extendSeqLensCpu with
      | some extendLengthsCpu =>
          let taken := extendLengthsCpu.take bs
          taken ++ List.replicate (bs - taken.length) 0
      | none => List.replicate bs (numTokens / max bs 1)
  let numPadding := (max 0 (min numPadding bs)).toNat
  extendLengths.take (bs - numPadding) ++ List.replicate numPadding 0

def requestRows (seqLen extendLen : Nat) : List Nat :=
  let prefixLen := seqLen - extendLen
  (List.range extendLen).map fun i => min (prefixLen + 1 + i) seqLen

-- A verify forward extends the base lengths; its draft count must be an integer.
def effectiveLengths (mode : ForwardMode) (spec : SpecInfo) (baseLengths extendLengths : List Nat) :
    Except Refusal (List Nat) :=
  if mode.isTargetVerify then
    if spec.draftTokenNum = none then .error (.typeError
      "int() argument must be a string, a bytes-like object or a real number, not 'NoneType'")
    else if baseLengths.length = extendLengths.length then .ok (baseLengths.zipWith (· + ·) extendLengths)
    else .error shapeError
  else .ok baseLengths

def graphSpeculativeLayout (bs numTokens : Nat) (reqPoolIndices seqLensCpu : List Nat) (mode : ForwardMode)
    (spec : SpecInfo) (numPadding : Int) : Except Refusal Layout := do
  let extendLengths := extendLengths bs numTokens mode spec numPadding
  let effectiveLengths ← effectiveLengths mode spec (seqLensCpu.take bs) extendLengths
  let pairs := effectiveLengths.zip extendLengths
  let rowLengths := pairs.flatMap fun pair => requestRows pair.1 pair.2
  let rowPrefixLengths := pairs.flatMap fun pair => List.replicate pair.2 (pair.1 - pair.2)
  let actualRows := rowLengths.length
  if actualRows > numTokens then
    .error (.value ("QSA CUDA graph speculative layout has inconsistent token count: " ++
      s!"capacity={numTokens}, actual={actualRows}"))
  else
    match repeatInterleave (reqPoolIndices.take bs) extendLengths with
    | none => .error shapeError
    | some rowReqPoolIndices =>
      -- Zero-filled tail rows get length one and the first request of the batch.
      let padding := numTokens - actualRows
      let dummyReq := reqPoolIndices.headD 0
      .ok ⟨rowLengths ++ List.replicate padding 1,rowReqPoolIndices ++ List.replicate padding dummyReq,
        rowPrefixLengths ++ List.replicate padding 0⟩

-- _replay_cuda_graph_metadata and _update_qsa_cuda_graph_metadata up to the
-- pending-ring slots; copy_ into the captured rows fails on another row count.
def replayPendingRingSlots (ring : Ring) (bs capturedRows : Nat) (reqPoolIndices seqLensCpu : List Nat)
    (mode : ForwardMode) (spec : SpecInfo) (numPadding : Int) : Except Refusal (List Nat) := do
  requireChainSpeculation ring mode spec
  let layout ← graphSpeculativeLayout bs capturedRows reqPoolIndices seqLensCpu mode spec numPadding
  if layout.rowLengths.length ≠ capturedRows ∨ layout.rowReqPoolIndices.length ≠ capturedRows then
    .error shapeError
  else
    let currentPositions := layout.rowLengths.map (· - 1)
    match buildPendingRingSlots ring (List.range capturedRows) layout.rowReqPoolIndices layout.rowLengths
        currentPositions false with
    | none => .error shapeError
    | some slots => .ok slots

def liveRequests (bs : Nat) (reqPoolIndices : List Nat) (numPadding : Int) : List Nat :=
  reqPoolIndices.take (bs - (max 0 (min numPadding bs)).toNat)

theorem repeat_parts (ran : graphSpeculativeLayout bs numTokens reqPoolIndices seqLensCpu mode spec numPadding =
    .ok layout) : ∃ rows requests,
      rows.length ≤ numTokens ∧ requests.length = (extendLengths bs numTokens mode spec numPadding).sum ∧
      layout.rowLengths = rows ++ List.replicate (numTokens - rows.length) 1 ∧
      layout.rowReqPoolIndices =
        requests ++ List.replicate (numTokens - rows.length) (reqPoolIndices.headD 0) := by
  unfold graphSpeculativeLayout at ran
  obtain ⟨effective,_,ran⟩ := bind_ok ran
  dsimp only at ran
  split at ran
  · cases ran
  · rename_i within
    split at ran
    · cases ran
    · rename_i requests repeated
      cases ran
      exact ⟨_,requests,by omega,repeatInterleave_length repeated,rfl,rfl⟩

-- A replay that goes through: the live rows first, then one and the same slot
-- for every padding row.
theorem replay_parts (ran : replayPendingRingSlots ring bs capturedRows reqPoolIndices seqLensCpu mode spec
    numPadding = .ok slots) : ∃ live, live.length = (extendLengths bs capturedRows mode spec numPadding).sum ∧
      live.length ≤ capturedRows ∧
      slots = live ++ List.replicate (capturedRows - live.length) (ringSlot ring (reqPoolIndices.headD 0) 0) := by
  unfold replayPendingRingSlots at ran
  obtain ⟨_,_,ran⟩ := bind_ok ran
  obtain ⟨layout,made,ran⟩ := bind_ok ran
  obtain ⟨rows,requests,within,repeated,lengths,indices⟩ := repeat_parts made
  split at ran
  · cases ran
  · rename_i copied
    have rowCount : layout.rowReqPoolIndices.length = capturedRows := by omega
    have aligned : requests.length = rows.length := by
      rw [indices,List.length_append,List.length_replicate] at rowCount
      omega
    have positions : (layout.rowLengths.map (· - 1)).length = capturedRows := by
      rw [List.length_map]
      omega
    have built := paged_slots ring layout.rowReqPoolIndices layout.rowLengths (layout.rowLengths.map (· - 1))
      (rowCount.trans positions.symm)
    rw [positions] at built
    simp only [built,Except.ok.injEq] at ran
    refine ⟨requests.zipWith (ringSlot ring) (rows.map (· - 1)),by simp [aligned,← repeated],by simp [aligned,within],?_⟩
    rw [← ran,lengths,indices,List.map_append,List.zipWith_append (by simp [aligned])]
    simp [aligned]

def paddingSlots (bs capturedRows : Nat) (mode : ForwardMode) (spec : SpecInfo) (numPadding : Int)
    (slots : List Nat) : List Nat :=
  slots.drop (extendLengths bs capturedRows mode spec numPadding).sum

def Disjoint (ring : Ring) (slots requests : List Nat) : Prop :=
  ∀ slot ∈ slots, ∀ request ∈ requests,
    ¬ (request * qsaRingStride ring ≤ slot ∧ slot < (request + 1) * qsaRingStride ring)

-- Padding rows stay off the live requests' rings only where there are none:
-- no padding row, or no live request to hit.
theorem padding_disjoint_exactly (ran : replayPendingRingSlots ring bs capturedRows reqPoolIndices seqLensCpu
    mode spec numPadding = .ok slots) :
    Disjoint ring (paddingSlots bs capturedRows mode spec numPadding slots)
        (liveRequests bs reqPoolIndices numPadding) ↔
      (extendLengths bs capturedRows mode spec numPadding).sum = capturedRows ∨
        liveRequests bs reqPoolIndices numPadding = [] := by
  obtain ⟨live,count,within,rfl⟩ := replay_parts ran
  have padding : paddingSlots bs capturedRows mode spec numPadding
      (live ++ List.replicate (capturedRows - live.length) (ringSlot ring (reqPoolIndices.headD 0) 0)) =
        List.replicate (capturedRows - live.length) (ringSlot ring (reqPoolIndices.headD 0) 0) := by
    rw [paddingSlots,← count,List.drop_left]
  rw [padding,← count]
  constructor
  · intro apart
    by_cases none : liveRequests bs reqPoolIndices numPadding = []
    · exact .inr none
    · apply Or.inl
      apply Classical.byContradiction
      intro short
      have rows : capturedRows - live.length ≠ 0 := by omega
      cases reqPoolIndices with
      | nil => exact none (by simp [liveRequests])
      | cons first rest =>
          have member : first ∈ liveRequests bs (first :: rest) numPadding := by
            unfold liveRequests at none ⊢
            cases count : bs - (max 0 (min numPadding bs)).toNat with
            | zero => simp [count] at none
            | succ n => simp
          exact apart _ (List.mem_replicate.mpr ⟨rows,rfl⟩) first member (ringSlot_range ring first 0)
  · rintro (full | none)
    · intro slot member
      rw [← full,Nat.sub_self] at member
      cases member
    · intro slot _ request member
      rw [none] at member
      cases member

theorem full_replay_disjoint : Disjoint stockRing
    (paddingSlots 1 2 .draftExtendV2 ⟨none,none,some [2]⟩ 0 [4,5]) (liveRequests 1 [1] 0) :=
  (padding_disjoint_exactly (show replayPendingRingSlots stockRing 1 2 [1] [2] .draftExtendV2
    ⟨none,none,some [2]⟩ 0 = .ok [4,5] from rfl)).mpr (.inl rfl)

-- A draft-extend graph captured for four rows, replayed with the two accepted
-- tokens of request 1: both padding rows write the ring slot of its position 0.
theorem padding_hits_live : ¬ ∀ (ring : Ring) (bs capturedRows : Nat) (reqPoolIndices seqLensCpu : List Nat)
    (mode : ForwardMode) (spec : SpecInfo) (numPadding : Int) (slots : List Nat),
    isSpeculativePagedMode mode = true → (liveRequests bs reqPoolIndices numPadding).Nodup →
    (∀ request ∈ liveRequests bs reqPoolIndices numPadding, request ≠ 0) →
    replayPendingRingSlots ring bs capturedRows reqPoolIndices seqLensCpu mode spec numPadding = .ok slots →
      Disjoint ring (paddingSlots bs capturedRows mode spec numPadding slots)
        (liveRequests bs reqPoolIndices numPadding) := by
  intro claim
  have apart := claim stockRing 1 4 [1] [2] .draftExtendV2 ⟨none,none,some [2]⟩ 0 [4,5,4,4]
    rfl (by decide) (by decide) rfl
  exact apart 4 (by decide) 1 (by decide) (by decide)

end OneSpark.GraphLayout
