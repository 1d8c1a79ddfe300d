import OneSpark.GraphLayout
import OneSpark.SharedIndices

namespace OneSpark.SharedCaptures
open Tensors RingSlots GraphLayout SharedIndices

-- What the backend reads of a forward batch; numFrontTokens belongs to the accept counts.
structure ForwardBatch where
  batchSize : Nat
  reqPoolIndices : List Nat
  extendSeqLens : Option (List Nat)
  extendSeqLensTensor : Option (List Nat)
  numAcceptTokens : Option (List Nat)
  numFrontTokens : Int
  isDraftExtendV2 : Bool

structure IndexerMetadata where
  sequenceLengths : List Int32
  tokenToBatchIdx : List Nat
  reqPoolIndices : Option (List Nat)
  isCudaGraph : Bool
  decodeLogicalPositions : Option (List Int32)

def IndexerMetadata.getSeqlensExpanded (metadata : IndexerMetadata) : Option (List Int32) :=
  gather metadata.sequenceLengths metadata.tokenToBatchIdx

def Topk.indexSelect (topk : Topk) (rows : List Nat) : Topk :=
  ⟨rows.length,topk.width,fun k col => topk.entry (rows.getD k 0) col⟩

def captureExtendSeqLens (batch : ForwardBatch) : Except Refusal (List Nat) :=
  match batch.extendSeqLensTensor,batch.extendSeqLens with
  | some lens,_ => .ok lens
  | none,some lens => .ok lens
  | none,none => .error (.runtime ("QSA draft-extend capture requires GPU extend lengths " ++
      "(spec_info.extend_seq_lens_tensor or forward_batch.extend_seq_lens)"))

-- The last accepted row of request b, or the last row of its block without accept counts.
def anchorRow (batch : ForwardBatch) (lens : List Nat) (rows b : Nat) : Nat :=
  let blockEnd : Int := ((lens.take (b + 1)).sum : Int) - 1
  let anchor := match batch.numAcceptTokens with
    | some accepted =>
        if batch.batchSize ≤ accepted.length then
          blockEnd - ((lens.getD b 0 : Int) - batch.numFrontTokens - (accepted.getD b 0 : Int))
        else blockEnd
    | none => blockEnd
  (min (max anchor 0) ((rows : Int) - 1)).toNat

def requestRow (trashRow len row : Nat) : Nat := if 0 < len ∧ 0 < row then row else trashRow

-- None where it returns before the capture.
def captureFromExtendLens (trashRow : Nat) (topk : Topk) (batch : ForwardBatch) (metadata : IndexerMetadata) (layerId : Int) :
    Except Refusal (Option Capture) :=
  let bs := batch.batchSize
  if bs = 0 ∨ batch.reqPoolIndices.length < bs then .ok none
  else do
    let all ← captureExtendSeqLens batch
    let lens := all.take bs
    if lens.length ≠ bs then .error shapeError
    else do
      let anchorRows := (List.range bs).map (anchorRow batch lens topk.rows)
      let reqRows := lens.zipWith (requestRow trashRow) (batch.reqPoolIndices.take bs)
      let expanded ← shaped metadata.getSeqlensExpanded
      let capturedLens ← shaped (gather expanded anchorRows)
      return some ⟨Topk.indexSelect topk anchorRows,reqRows,capturedLens,layerId⟩

def captureMtpSparseIndices (trashRow : Nat) (topk : Topk) (batch : ForwardBatch) (metadata : IndexerMetadata) (layerId : Int) :
    Except Refusal (Option Capture) :=
  if topk.rows = 0 then .ok none
  else if metadata.isCudaGraph || batch.isDraftExtendV2 then captureFromExtendLens trashRow topk batch metadata layerId
  else match metadata.reqPoolIndices with
  | none | some [] => .ok none
  | some pool => do
      let rowReq ← shaped (gather pool (metadata.tokenToBatchIdx.take topk.rows))
      -- The last row of each request; the last of all rows has no next one.
      let anchorRows := (List.range rowReq.length).filter fun i => decide (rowReq[i]? ≠ rowReq[i + 1]?)
      let reqRows ← shaped (gather rowReq anchorRows)
      let expanded ← shaped metadata.getSeqlensExpanded
      let capturedLens ← shaped (gather expanded anchorRows)
      return some ⟨Topk.indexSelect topk anchorRows,reqRows,capturedLens,layerId⟩

def lookupMtpSparseIndices (s : SharedSparseIndices) (batch : ForwardBatch) (metadata : IndexerMetadata) (layerId : Int) :
    Option (List (List Int32) × SharedSparseIndices) := do
  let positions ← match metadata.decodeLogicalPositions with
    | some positions => some positions
    | none => metadata.getSeqlensExpanded.map fun expanded => expanded.map fun len => len - 1
  s.lookup batch.reqPoolIndices positions layerId

structure Aligned (topk : Topk) (expanded : List Int32) (layerId : Int) (c : Capture) : Prop where
  layer : c.layerId = layerId
  width : c.topkIndices.width = topk.width
  rows : ∀ k len, c.capturedLens[k]? = some len → ∃ anchor < topk.rows,
    c.topkIndices.entry k = topk.entry anchor ∧ expanded[anchor]? = some len

theorem selected_aligned (topk : Topk) (expanded lens : List Int32) (layerId : Int) (anchorRows reqRows : List Nat)
    (inside : ∀ anchor ∈ anchorRows, anchor < topk.rows) (taken : gather expanded anchorRows = some lens) :
    Aligned topk expanded layerId ⟨Topk.indexSelect topk anchorRows,reqRows,lens,layerId⟩ := by
  refine ⟨rfl,rfl,?_⟩
  intro k len found
  have length := (mapM_parts _ _ _ taken).length_eq
  obtain ⟨bound,_⟩ := List.getElem?_eq_some_iff.mp found
  obtain ⟨anchor,anchored⟩ : ∃ anchor, anchorRows[k]? = some anchor := ⟨_,List.getElem?_eq_getElem (length ▸ bound)⟩
  refine ⟨anchor,inside anchor (List.mem_of_getElem? anchored),?_,?_⟩
  · funext col
    simp only [Topk.indexSelect,List.getD_eq_getElem?_getD,anchored,Option.getD_some]
  · rw [← mapM_read _ _ _ taken k anchor anchored]
    exact found

theorem anchorRow_inside (batch : ForwardBatch) (lens : List Nat) (rows b : Nat) (some_rows : 0 < rows) :
    anchorRow batch lens rows b < rows := by
  unfold anchorRow
  dsimp only
  generalize (match batch.numAcceptTokens with
    | some accepted =>
        if batch.batchSize ≤ accepted.length then
          ((lens.take (b + 1)).sum : Int) - 1 - ((lens.getD b 0 : Int) - batch.numFrontTokens - (accepted.getD b 0 : Int))
        else ((lens.take (b + 1)).sum : Int) - 1
    | none => ((lens.take (b + 1)).sum : Int) - 1) = anchor
  omega

theorem extend_parts (trashRow : Nat) (topk : Topk) (batch : ForwardBatch) (metadata : IndexerMetadata) (layerId : Int)
    (c : Capture) (ran : captureFromExtendLens trashRow topk batch metadata layerId = .ok (some c)) :
    ∃ (all : List Nat) (expanded lens : List Int32), metadata.getSeqlensExpanded = some expanded ∧
      gather expanded ((List.range batch.batchSize).map (anchorRow batch (all.take batch.batchSize) topk.rows)) = some lens ∧
      c = ⟨Topk.indexSelect topk ((List.range batch.batchSize).map (anchorRow batch (all.take batch.batchSize) topk.rows)),
        (all.take batch.batchSize).zipWith (requestRow trashRow) (batch.reqPoolIndices.take batch.batchSize),lens,layerId⟩ := by
  unfold captureFromExtendLens at ran
  dsimp only at ran
  split at ran
  · cases ran
  · obtain ⟨all,_,ran⟩ := bind_ok ran
    split at ran
    · cases ran
    · obtain ⟨expanded,read,ran⟩ := bind_ok ran
      obtain ⟨lens,taken,ran⟩ := bind_ok ran
      cases ran
      exact ⟨all,expanded,lens,shaped_ok _ _ read,shaped_ok _ _ taken,rfl⟩

theorem extend_aligned (trashRow : Nat) (topk : Topk) (batch : ForwardBatch) (metadata : IndexerMetadata) (layerId : Int)
    (c : Capture) (some_rows : 0 < topk.rows)
    (ran : captureFromExtendLens trashRow topk batch metadata layerId = .ok (some c)) :
    ∃ expanded, metadata.getSeqlensExpanded = some expanded ∧ Aligned topk expanded layerId c := by
  obtain ⟨all,expanded,lens,read,taken,rfl⟩ := extend_parts trashRow topk batch metadata layerId c ran
  refine ⟨expanded,read,selected_aligned topk expanded lens layerId _ _ ?_ taken⟩
  intro anchor member
  obtain ⟨b,_,rfl⟩ := List.mem_map.mp member
  exact anchorRow_inside batch _ _ b some_rows

theorem capture_aligned (trashRow : Nat) (topk : Topk) (batch : ForwardBatch) (metadata : IndexerMetadata) (layerId : Int)
    (c : Capture) (ran : captureMtpSparseIndices trashRow topk batch metadata layerId = .ok (some c)) :
    ∃ expanded, metadata.getSeqlensExpanded = some expanded ∧ Aligned topk expanded layerId c := by
  unfold captureMtpSparseIndices at ran
  split at ran
  · cases ran
  · rename_i nonempty
    split at ran
    · exact extend_aligned trashRow topk batch metadata layerId c (Nat.pos_of_ne_zero nonempty) ran
    · split at ran
      · cases ran
      · cases ran
      · obtain ⟨rowReq,paged,ran⟩ := bind_ok ran
        obtain ⟨reqRows,_,ran⟩ := bind_ok ran
        obtain ⟨expanded,read,ran⟩ := bind_ok ran
        obtain ⟨lens,taken,ran⟩ := bind_ok ran
        cases ran
        refine ⟨expanded,shaped_ok _ _ read,selected_aligned topk expanded lens layerId _ _ ?_ (shaped_ok _ _ taken)⟩
        intro anchor member
        have below := List.mem_range.mp (List.mem_filter.mp member).1
        have length := (mapM_parts _ _ _ (shaped_ok _ _ paged)).length_eq
        rw [List.length_take] at length
        omega

-- In a batch of distinct requests the row of a request is captured for that request alone; only the
-- trash row repeats.
theorem extend_once (trashRow : Nat) (topk : Topk) (batch : ForwardBatch) (metadata : IndexerMetadata) (layerId : Int)
    (c : Capture) (ran : captureFromExtendLens trashRow topk batch metadata layerId = .ok (some c))
    (distinct : (batch.reqPoolIndices.take batch.batchSize).Nodup) (row : Nat) (live : row < trashRow) (k other : Nat)
    (first : c.reqPoolIndices[k]? = some row) (second : c.reqPoolIndices[other]? = some row) : other = k := by
  obtain ⟨all,_,_,_,_,rfl⟩ := extend_parts trashRow topk batch metadata layerId c ran
  have own : ∀ i : Nat, (List.zipWith (requestRow trashRow) (all.take batch.batchSize)
      (batch.reqPoolIndices.take batch.batchSize))[i]? = some row →
        (batch.reqPoolIndices.take batch.batchSize)[i]? = some row := by
    intro i found
    obtain ⟨len,pool,_,paged,same⟩ := List.getElem?_zipWith_eq_some.mp found
    rw [paged]
    unfold requestRow at same
    split at same
    · exact congrArg some same
    · omega
  obtain ⟨bound,at_first⟩ := List.getElem?_eq_some_iff.mp (own k first)
  obtain ⟨bound',at_second⟩ := List.getElem?_eq_some_iff.mp (own other second)
  exact distinct.getElem_inj_iff.mp (at_second.trans at_first.symm)

-- One iteration of the backend: what the draft steps of a request read is the selection its last row
-- was given, below that row's length, with the positions drafted since.
theorem iteration_kept (s first before : SharedSparseIndices) (topk : Topk) (batch : ForwardBatch) (metadata : IndexerMetadata)
    (layerId : Int) (c : Capture) (made : captureMtpSparseIndices s.trashRow topk batch metadata layerId = .ok (some c))
    (width : topk.width = s.tokenTopk)
    (indexed : ∀ expanded, metadata.getSeqlensExpanded = some expanded → ∀ anchor < topk.rows, ∀ len : Int32, ∀ long : Nat,
      expanded[anchor]? = some len → len.toInt = long → Below s.tokenTopk long (topk.entry anchor))
    (selected length : Landing c.reqPoolIndices) (captured : s.capture c selected length = some first) (k row : Nat)
    (at_row : c.reqPoolIndices[k]? = some row) (once : ∀ other, c.reqPoolIndices[other]? = some row → other = k)
    (len : Int32) (taken : c.capturedLens[k]? = some len) (long : Nat) (whole : len.toInt = long)
    (calls : List Call) (ran : run first calls = some before) (spare : ∀ call ∈ calls, call.Spares layerId row)
    (draft : ForwardBatch) (view : IndexerMetadata) (positions : List Int32)
      (logical : view.decodeLogicalPositions = some positions)
    (inside : ∀ r ∈ draft.reqPoolIndices, r ≤ before.trashRow) (j : Nat) (asked : draft.reqPoolIndices[j]? = some row)
    (position : Int32) (placed : SharedSparseIndices.positionOf draft.reqPoolIndices positions j = some position) (p : Nat)
    (here : position.toInt = p) (above : long ≤ p) (below : p < long + s.tailWidth) :
    ∃ out found anchor, lookupMtpSparseIndices before draft view layerId = some (out,before) ∧ out[j]? = some found ∧
      anchor < topk.rows ∧ Drafted s.tokenTopk long p (topk.entry anchor) found := by
  obtain ⟨expanded,read,aligned⟩ := capture_aligned s.trashRow topk batch metadata layerId c made
  obtain ⟨anchor,within,entry,paired⟩ := aligned.rows k len taken
  have stored := s.capture_holds first c selected length captured k row at_row once (aligned.width.trans width) len taken
  rw [aligned.layer,entry] at stored
  obtain ⟨out,found,returned,there,drafted⟩ := held_lookup before layerId row s.tokenTopk s.tailWidth (topk.entry anchor) len
    (run_spares first before calls ran spare stored) long p whole (indexed expanded read anchor within len long paired whole)
    draft.reqPoolIndices positions inside j asked position placed here above below
  refine ⟨out,found,anchor,?_,there,within,drafted⟩
  unfold lookupMtpSparseIndices
  rw [logical]
  exact returned

end OneSpark.SharedCaptures
