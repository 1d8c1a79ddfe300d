import OneSpark.Tensors

namespace OneSpark.RingSlots
open Tensors

inductive ForwardMode where
  | idle | extend | decode | targetVerify | draftExtendV2
  deriving DecidableEq

def ForwardMode.isTargetVerify (mode : ForwardMode) : Bool := mode == .targetVerify
def ForwardMode.isDraftExtendV2 (mode : ForwardMode) : Bool := mode == .draftExtendV2

def isSpeculativePagedMode (mode : ForwardMode) : Bool := mode.isTargetVerify || mode.isDraftExtendV2

-- getattr(spec_info, name, default): none is a missing (or None) attribute.
structure SpecInfo where
  topk : Option Nat
  draftTokenNum : Option Nat
  extendSeqLensCpu : Option (List Nat)

-- `value or default` sends both a missing attribute and zero to the default.
def orDefault (value : Option Nat) (default : Nat) : Nat :=
  match value with
  | none => default
  | some 0 => default
  | some other => other

theorem orDefault_some (n : Nat) : orDefault (some n) 0 = n := by
  cases n <;> rfl

-- The compress ratio of the pool, and int(SGLANG_QSA_RING_WINDOW): `none` is the
-- ValueError of a value that does not parse, `some 0` the unset variable.
structure Ring where
  compressRatio : Nat
  ratioPositive : 0 < compressRatio
  window : Option Int

theorem stock_positive : 0 < 4 := by decide

-- launch.sh leaves the variable unset over the default ratio of four.
def stockRing : Ring := ⟨4,stock_positive,none⟩

def qsaRingStride (ring : Ring) : Nat :=
  let rw := ring.window.getD 0
  if rw ≥ ring.compressRatio ∧ rw % ring.compressRatio = 0 then rw.toNat else ring.compressRatio

inductive Refusal where
  | notImplemented (text : String)
  | value (text : String)
  | runtime (text : String)
  | typeError (text : String)
  | zeroDivision (text : String)
  deriving DecidableEq

def requireChainSpeculation (ring : Ring) (mode : ForwardMode) (spec : SpecInfo) : Except Refusal Unit :=
  if mode.isTargetVerify then
    if orDefault spec.topk 1 ≠ 1 then
      .error (.notImplemented
        "Qwen QSA target verification supports only speculative_eagle_topk=1")
    else
      let draftTokens := orDefault spec.draftTokenNum 0
      let rw := ring.window.getD 0
      let stride : Int := if rw ≥ ring.compressRatio ∧ rw % ring.compressRatio = 0 then rw
        else ring.compressRatio
      let limit : Int := if stride > ring.compressRatio then stride - ring.compressRatio
        else ring.compressRatio
      if draftTokens > limit then
        .error (.notImplemented (s!"Qwen QSA requires speculative_num_draft_tokens <= the QSA " ++
          s!"compress ratio ({ring.compressRatio}): the pending " ++
          s!"index-key ring holds one group; got {draftTokens}"))
      else .ok ()
  else .ok ()

def buildPendingRingSlots (ring : Ring) (tokenToBatchIdx reqPoolIndices sequenceLengths
    logicalPositions : List Nat) (isExtend : Bool) : Option (List Nat) := do
  let rows := tokenToBatchIdx.take logicalPositions.length
  if rows.length ≠ logicalPositions.length then none else
  let requests ← gather reqPoolIndices rows
  let stride := qsaRingStride ring
  let slots := requests.zipWith (fun request position => request * stride + position % stride) logicalPositions
  if isExtend then
    let lengths ← gather sequenceLengths rows
    let pending := logicalPositions.zipWith (fun position length =>
      decide (position ≥ (length / ring.compressRatio) * ring.compressRatio)) lengths
    -- scratch [0,ratio)
    return select pending slots (logicalPositions.map (· % ring.compressRatio))
  else return slots

def buildGroupRingSlots (ring : Ring) (reqPoolIndices groupEndPositions sequenceIds : List Nat) :
    Option (List (List Nat)) := do
  let requests ← gather reqPoolIndices sequenceIds
  let offsets := (List.range ring.compressRatio).reverse
  let stride := qsaRingStride ring
  return requests.zipWith (fun request groupEnd =>
    offsets.map fun offset => request * stride + (groupEnd - offset) % stride) groupEndPositions

theorem stride_cases (ring : Ring) :
    qsaRingStride ring = ring.compressRatio ∨
      (ring.window.getD 0 ≥ ring.compressRatio ∧ ring.window.getD 0 % ring.compressRatio = 0 ∧
        (qsaRingStride ring : Int) = ring.window.getD 0) := by
  unfold qsaRingStride
  dsimp only
  split
  · rename_i widened
    exact .inr ⟨widened.1,widened.2,by omega⟩
  · exact .inl rfl

theorem ratio_le_stride (ring : Ring) : ring.compressRatio ≤ qsaRingStride ring := by
  rcases stride_cases ring with same | ⟨bound,_,equal⟩ <;> omega

theorem stride_positive (ring : Ring) : 0 < qsaRingStride ring :=
  Nat.lt_of_lt_of_le ring.ratioPositive (ratio_le_stride ring)

-- The guard recomputes the stride inline, over the integers.
theorem guard_stride (ring : Ring) :
    (if ring.window.getD 0 ≥ ring.compressRatio ∧ ring.window.getD 0 % ring.compressRatio = 0
      then ring.window.getD 0 else (ring.compressRatio : Int)) = qsaRingStride ring := by
  unfold qsaRingStride
  dsimp only
  split
  · rename_i widened
    have bound := widened.1
    omega
  · rfl

def draftLimit (ring : Ring) : Nat :=
  if qsaRingStride ring > ring.compressRatio then qsaRingStride ring - ring.compressRatio
  else ring.compressRatio

theorem draftLimit_le_stride (ring : Ring) : draftLimit ring ≤ qsaRingStride ring := by
  have bound := ratio_le_stride ring
  unfold draftLimit
  split <;> omega

-- What the guard admits, in the stride's own terms: the stock ring takes a
-- window up to the ratio, a widened ring keeps one group in reserve.
theorem admitted_window (ring : Ring) (spec : SpecInfo)
    (admitted : requireChainSpeculation ring .targetVerify spec = .ok ()) :
    orDefault spec.draftTokenNum 0 ≤ draftLimit ring := by
  unfold requireChainSpeculation at admitted
  simp only [ForwardMode.isTargetVerify,BEq.rfl,if_true,guard_stride] at admitted
  by_cases chain : orDefault spec.topk 1 ≠ 1
  · rw [if_pos chain] at admitted
    cases admitted
  · rw [if_neg chain] at admitted
    have within : ¬ (orDefault spec.draftTokenNum 0 : Int) > (if (qsaRingStride ring : Int) > ring.compressRatio
        then (qsaRingStride ring : Int) - ring.compressRatio else ring.compressRatio) := by
      intro beyond
      rw [if_pos beyond] at admitted
      cases admitted
    unfold draftLimit
    split_ifs at within ⊢ <;> omega

-- One entry of a slot tensor. Requests own the disjoint intervals
-- [request*stride,(request+1)*stride) and positions are told apart modulo the stride.
def ringSlot (ring : Ring) (request position : Nat) : Nat :=
  request * qsaRingStride ring + position % qsaRingStride ring

theorem ringSlot_range (ring : Ring) (request position : Nat) :
    request * qsaRingStride ring ≤ ringSlot ring request position ∧
      ringSlot ring request position < (request + 1) * qsaRingStride ring := by
  have bound := Nat.mod_lt position (stride_positive ring)
  unfold ringSlot
  rw [Nat.add_mul]
  omega

theorem ringSlot_inj (ring : Ring) : ringSlot ring request position = ringSlot ring request' position' ↔
    request = request' ∧ position % qsaRingStride ring = position' % qsaRingStride ring := by
  constructor
  · intro equal
    exact place_unique _ _ _ _ _ (Nat.mod_lt _ (stride_positive ring)) (Nat.mod_lt _ (stride_positive ring)) equal
  · rintro ⟨rfl,equal⟩
    simp only [ringSlot,equal]

theorem ringSlot_apart (ring : Ring) (close : position' < position + qsaRingStride ring)
    (before : position < position') : ringSlot ring request position ≠ ringSlot ring request position' := by
  intro equal
  have same := ((ringSlot_inj ring).mp equal).2
  have multiple := (Nat.modEq_iff_dvd' (Nat.le_of_lt before)).mp same
  have bound := Nat.le_of_dvd (by omega) multiple
  omega

theorem paged_slots (ring : Ring) (requests lengths positions : List Nat)
    (rows : requests.length = positions.length) :
    buildPendingRingSlots ring (List.range positions.length) requests lengths positions false =
      some (requests.zipWith (ringSlot ring) positions) := by
  have gathered := gather_range requests rows
  have all : (List.range positions.length).take positions.length = List.range positions.length :=
    List.take_of_length_le (by simp)
  simp [buildPendingRingSlots,all,gathered]
  rfl

theorem pending_read (ring : Ring) (rows requests lengths positions slots : List Nat) (isExtend : Bool)
    (ran : buildPendingRingSlots ring rows requests lengths positions isExtend = some slots) (i row position request length : Nat)
    (atRow : rows[i]? = some row) (atPosition : positions[i]? = some position) (atRequest : requests[row]? = some request)
    (atLength : lengths[row]? = some length) :
    slots[i]? = some (if isExtend = true ∧ position < (length / ring.compressRatio) * ring.compressRatio
      then position % ring.compressRatio else ringSlot ring request position) := by
  obtain ⟨inside,_⟩ := List.getElem?_eq_some_iff.mp atPosition
  have taken : (rows.take positions.length)[i]? = some row := by rw [List.getElem?_take_of_lt inside,atRow]
  unfold buildPendingRingSlots at ran
  simp only [Option.bind_eq_bind] at ran
  split at ran
  · cases ran
  · obtain ⟨named,gathered,ran⟩ := Option.bind_eq_some_iff.mp ran
    have atName := mapM_read _ _ named gathered i row taken
    rw [atRequest] at atName
    have plain : (named.zipWith (fun request position =>
        request * qsaRingStride ring + position % qsaRingStride ring) positions)[i]? =
          some (ringSlot ring request position) := by
      rw [List.getElem?_zipWith,atName,atPosition]
      rfl
    cases isExtend with
    | false =>
        cases ran
        rw [plain]
        simp
    | true =>
        rw [if_pos rfl] at ran
        obtain ⟨sizes,read,same⟩ := Option.bind_eq_some_iff.mp ran
        cases same
        have atSize := mapM_read _ _ sizes read i row taken
        rw [atLength] at atSize
        have mask : (positions.zipWith (fun position length =>
            decide (position ≥ (length / ring.compressRatio) * ring.compressRatio)) sizes)[i]? =
              some (decide (position ≥ (length / ring.compressRatio) * ring.compressRatio)) := by
          rw [List.getElem?_zipWith,atPosition,atSize]
        have scratch : (positions.map (· % ring.compressRatio))[i]? = some (position % ring.compressRatio) := by
          rw [List.getElem?_map,atPosition]
          rfl
        rw [select_read _ _ _ i _ _ _ mask plain scratch]
        by_cases pending : position < (length / ring.compressRatio) * ring.compressRatio
        · simp [pending]
        · simp [pending,Nat.le_of_not_lt pending]

theorem pending_length (ring : Ring) (rows requests lengths positions slots : List Nat) (isExtend : Bool)
    (ran : buildPendingRingSlots ring rows requests lengths positions isExtend = some slots) :
    slots.length = positions.length := by
  unfold buildPendingRingSlots at ran
  simp only [Option.bind_eq_bind] at ran
  split at ran
  · cases ran
  · rename_i whole
    rw [not_not] at whole
    obtain ⟨named,gathered,ran⟩ := Option.bind_eq_some_iff.mp ran
    have count := (mapM_parts _ _ named gathered).length_eq
    cases isExtend with
    | false =>
        cases ran
        simp [← count,whole]
    | true =>
        rw [if_pos rfl] at ran
        obtain ⟨sizes,read,same⟩ := Option.bind_eq_some_iff.mp ran
        cases same
        have other := (mapM_parts _ _ sizes read).length_eq
        simp [select,← count,← other,whole]

theorem group_read (ring : Ring) (requests groupEnds rows : List Nat) (groups : List (List Nat))
    (ran : buildGroupRingSlots ring requests groupEnds rows = some groups) (i row groupEnd request : Nat)
    (atRow : rows[i]? = some row) (atEnd : groupEnds[i]? = some groupEnd) (atRequest : requests[row]? = some request) :
    groups[i]? = some ((List.range ring.compressRatio).reverse.map fun offset =>
      ringSlot ring request (groupEnd - offset)) := by
  obtain ⟨named,gathered,same⟩ := Option.bind_eq_some_iff.mp ran
  cases same
  have atName := mapM_read _ _ named gathered i row atRow
  rw [atRequest] at atName
  rw [List.getElem?_zipWith,atName,atEnd]
  rfl

theorem group_slots (ring : Ring) (request groupEnd : Nat) :
    buildGroupRingSlots ring [request] [groupEnd] [0] =
      some [(List.range ring.compressRatio).reverse.map fun offset => ringSlot ring request (groupEnd - offset)] := by
  simp [buildGroupRingSlots,gather_singleton,ringSlot]

end OneSpark.RingSlots
