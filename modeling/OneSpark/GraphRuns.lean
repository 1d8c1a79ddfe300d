import OneSpark.GraphLayout
import OneSpark.GraphRefresh

namespace OneSpark.GraphRuns
open Tensors RingSlots WritePlan CompressedSlots GraphLayout GraphRefresh

-- The buffers of init_cuda_graph_state that a capture or a replay writes, or a view of their first rows.
structure Buffers where
  seqLens : List Nat
  rowReqPoolIndices : List Nat
  prefixLengths : List Nat
  metadata : GraphMetadata

-- The arguments of launch_graph_metadata but for the metadata, of which it takes the first `rows` rows.
structure Launch where
  mode : Nat
  bs : Nat
  numRows : Nat
  seqLens : List Nat
  reqPoolIndices : List Nat
  extendLens : Option (List Nat)
  extendLen : Nat
  numPadding : Nat
  rows : Nat
  reqToToken : List (Nat → Nat)

-- sglang's graph metadata kernels: whether the pool and its device have them, and what a launch leaves.
structure Kernels where
  supportsGraphMetadataKernels : Bool
  launchGraphMetadata : Launch → Buffers → Buffers

-- What the backend reads of its runner and pool; `width` is the columns of req_to_token, `compressed` whether there
-- is no profile or one of the compressed variant, `maxBs` the size of the staging buffers.
structure Backend where
  runner : Bool
  compressed : Bool
  ring : Ring
  compressedPageSize : Nat
  maxContextLen : Nat
  width : Nat
  maxBs : Nat
  kernels : Kernels

inductive Failure where
  | refusal (why : Refusal)
  | runtime (text : String)
  | key (mode : ForwardMode) (bs : Nat)
  deriving DecidableEq

def refused (result : Except Refusal α) : Except Failure α := result.mapError .refusal

-- `rows` is _cuda_graph_metadata: the rows each captured key views, and `current` those of forward_metadata.
structure Graphs where
  buffers : Option Buffers
  rows : ForwardMode → Nat → Option Nat
  current : Option Nat

def zeroTable (backend : Backend) (n : Nat) : Table :=
  ⟨graphPages backend.maxContextLen backend.ring.compressRatio backend.compressedPageSize,
    List.replicate n fun _ => 0⟩

def zeroBuffers (backend : Backend) (maxNumTokens : Nat) : Buffers :=
  let zeros := List.replicate maxNumTokens 0
  ⟨zeros,zeros,zeros,⟨zeros,zeros,zeros,zeros,
    List.replicate maxNumTokens (List.replicate backend.ring.compressRatio 0),zeroTable backend maxNumTokens⟩⟩

def unset : Graphs := ⟨none,fun _ _ => none,none⟩

def initCudaGraphState (backend : Backend) (maxNumTokens : Nat) (graphs : Graphs) : Except Failure Graphs :=
  if backend.runner = false then
    .error (.runtime "QSA backend requires a ModelRunner to initialize CUDA graph state")
  else .ok { graphs with buffers := some (zeroBuffers backend maxNumTokens) }

def requireCompressedCudaGraphSupport (backend : Backend) : Except Failure Unit :=
  if backend.compressed = false then
    .error (.refusal (.notImplemented ("QSA tokenwise CUDA-graph execution requires graph-stable " ++
      "indexer metadata, which is not available in this tree yet; " ++
      "run tokenwise QSA with --disable-cuda-graph")))
  else .ok ()

-- copy_ takes as many values as the view has rows, or one value for all of them.
def spread (values : List α) (n : Nat) : Option (List α) :=
  if values.length = n then some values
  else match values with
    | [value] => some (List.replicate n value)
    | _ => none

-- buffer[:rows].copy_(values).
def copyView (buffer : List α) (rows : Nat) (values : List α) : Option (List α) :=
  (spread values (buffer.take rows).length).map fun taken => taken ++ buffer.drop rows

def viewMetadata (rows : Nat) (metadata : GraphMetadata) : GraphMetadata :=
  ⟨metadata.compressedLengths.take rows,metadata.writeLocs.take rows,metadata.logicalPositions.take rows,
    metadata.pendingRingSlots.take rows,metadata.ringGroupLocs.take rows,
    ⟨metadata.pageTable.width,metadata.pageTable.rows.take rows⟩⟩

def Buffers.view (rows : Nat) (buffers : Buffers) : Buffers :=
  ⟨buffers.seqLens.take rows,buffers.rowReqPoolIndices.take rows,buffers.prefixLengths.take rows,
    viewMetadata rows buffers.metadata⟩

def Buffers.copyLayout (buffers : Buffers) (rows : Nat) (layout : Layout) : Option Buffers := do
  let seqLens ← copyView buffers.seqLens rows layout.rowLengths
  let rowReqPoolIndices ← copyView buffers.rowReqPoolIndices rows layout.rowReqPoolIndices
  let prefixLengths ← copyView buffers.prefixLengths rows layout.rowPrefixLengths
  return ⟨seqLens,rowReqPoolIndices,prefixLengths,buffers.metadata⟩

-- The copies of _update_qsa_cuda_graph_metadata.
def Buffers.copyMetadata (buffers : Buffers) (rows : Nat) (graph : GraphMetadata) : Option Buffers := do
  let held := buffers.metadata
  let compressedLengths ← copyView held.compressedLengths rows graph.compressedLengths
  let writeLocs ← copyView held.writeLocs rows graph.writeLocs
  let logicalPositions ← copyView held.logicalPositions rows graph.logicalPositions
  let pendingRingSlots ← copyView held.pendingRingSlots rows graph.pendingRingSlots
  let ringGroupLocs ← copyView held.ringGroupLocs rows graph.ringGroupLocs
  let pages ← copyView held.pageTable.rows rows graph.pageTable.rows
  return { buffers with metadata :=
    ⟨compressedLengths,writeLocs,logicalPositions,pendingRingSlots,ringGroupLocs,⟨graph.pageTable.width,pages⟩⟩ }

-- Speculative modes lay out rows of tokens, the others one row for each request.
def rowLayout (bs numTokens : Nat) (reqPoolIndices seqLens seqLensCpu : List Nat) (mode : ForwardMode) (spec : SpecInfo)
    (numPadding : Int) : Except Refusal Layout :=
  if isSpeculativePagedMode mode then
    graphSpeculativeLayout bs numTokens reqPoolIndices seqLensCpu mode spec numPadding
  else .ok ⟨seqLens.take bs,reqPoolIndices.take bs,(seqLens.take bs).map (· - 1)⟩

structure Capture where
  bs : Nat
  numTokens : Nat
  reqPoolIndices : List Nat
  seqLens : List Nat
  mode : ForwardMode
  spec : SpecInfo

-- `reqToToken` is what the table holds at the call, `isCuda` where seq_lens is, and `extendSeqLensTensor` the device
-- tensor of spec_info.
structure Replay where
  bs : Nat
  reqPoolIndices : List Nat
  seqLens : List Nat
  mode : ForwardMode
  spec : SpecInfo
  seqLensCpu : Option (List Nat)
  numPadding : Int
  reqToToken : List (Nat → Nat)
  isCuda : Bool
  extendSeqLensTensor : Option (List Nat)

structure Refresh where
  bs : Nat
  numTokens : Nat
  tensor : Option (List Nat)
  cpu : Option (List Nat)

-- The device tensor, where it is long enough.
def ownTensor (r : Refresh) : Option (List Nat) :=
  match r.tensor with
  | some lens => if r.bs ≤ lens.length then some (lens.take r.bs) else none
  | none => none

def pinned (maxBs : Nat) (r : Refresh) : Option (List Nat) :=
  match r.cpu with
  | none => some (List.replicate (min r.bs maxBs) (r.numTokens / max r.bs 1))
  | some values => spread (values.take r.bs) (min r.bs maxBs)

def stagedLens (maxBs : Nat) (r : Refresh) : Option (List Nat) :=
  match ownTensor r with
  | some lens => some lens
  | none => pinned maxBs r

def record (rows : ForwardMode → Nat → Option Nat) (mode : ForwardMode) (bs metadataRows : Nat) :
    ForwardMode → Nat → Option Nat :=
  fun mode' bs' => if mode' = mode ∧ bs' = bs then some metadataRows else rows mode' bs'

def captureCudaGraphMetadata (backend : Backend) (graphs : Graphs) (call : Capture) : Except Failure Graphs := do
  requireCompressedCudaGraphSupport backend
  refused (requireChainSpeculation backend.ring call.mode call.spec)
  match graphs.buffers with
  | none => .error (.runtime "QSA CUDA graph state is not initialized")
  | some buffers =>
    let metadataRows := if isSpeculativePagedMode call.mode then call.numTokens else call.bs
    let layout ← refused (rowLayout call.bs call.numTokens call.reqPoolIndices call.seqLens (call.seqLens.take call.bs)
      call.mode call.spec call.bs)
    let copied ← refused (shaped (buffers.copyLayout metadataRows layout))
    .ok ⟨some copied,record graphs.rows call.mode call.bs metadataRows,some metadataRows⟩

def canReplayWithGpuKernels (backend : Backend) (call : Replay) : Bool :=
  call.isCuda && backend.kernels.supportsGraphMetadataKernels

def replayCudaGraphMetadataGpu (backend : Backend) (buffers : Buffers) (rows : Nat) (call : Replay) : Except Failure Buffers :=
  let speculative := isSpeculativePagedMode call.mode
  let numRows := if speculative then (buffers.seqLens.take rows).length else call.bs
  let numPadding := (max 0 (min call.numPadding call.bs)).toNat
  if call.bs = 0 ∨ numRows = 0 then .ok buffers
  else do
    let (mode,extendLens,extendLen) ←
      if !speculative then .ok (0,none,0)
      else if call.mode.isTargetVerify then
        match call.spec.draftTokenNum with
        | none => .error (.refusal (.typeError
            "int() argument must be a string, a bytes-like object or a real number, not 'NoneType'"))
        | some draftTokenNum => .ok (1,none,draftTokenNum)
      else do
        let lens ← refused (shaped (stagedLens backend.maxBs
          ⟨call.bs,numRows,call.extendSeqLensTensor,call.spec.extendSeqLensCpu⟩))
        .ok (2,some lens,0)
    .ok (backend.kernels.launchGraphMetadata
      ⟨mode,call.bs,numRows,call.seqLens,call.reqPoolIndices,extendLens,extendLen,numPadding,rows,call.reqToToken⟩ buffers)

def replayOnHost (backend : Backend) (buffers : Buffers) (rows : Nat) (call : Replay) : Except Failure Buffers := do
  let seqLensCpu := call.seqLensCpu.getD (call.seqLens.take call.bs)
  let layout ← refused (rowLayout call.bs (buffers.seqLens.take rows).length call.reqPoolIndices call.seqLens seqLensCpu
    call.mode call.spec call.numPadding)
  let copied ← refused (shaped (buffers.copyLayout rows layout))
  let metadata := copied.view rows
  let graph ← refused (shaped (updateQsaCudaGraphMetadata backend.ring backend.compressedPageSize
    ⟨backend.width,call.reqToToken⟩ metadata.seqLens metadata.rowReqPoolIndices metadata.metadata.pageTable))
  refused (shaped (copied.copyMetadata rows graph))

def replayCudaGraphMetadata (backend : Backend) (graphs : Graphs) (call : Replay) : Except Failure Graphs := do
  refused (requireChainSpeculation backend.ring call.mode call.spec)
  match graphs.buffers, graphs.rows call.mode call.bs with
  | some buffers, some rows =>
    let refreshed ← if canReplayWithGpuKernels backend call then replayCudaGraphMetadataGpu backend buffers rows call
      else replayOnHost backend buffers rows call
    .ok ⟨some refreshed,graphs.rows,some rows⟩
  | _, _ => .error (.key call.mode call.bs)

inductive Call where
  | capture (call : Capture)
  | replay (call : Replay)

def Graphs.shown (graphs : Graphs) : Option Buffers := do
  let buffers ← graphs.buffers
  let rows ← graphs.current
  return buffers.view rows

def OnHost (backend : Backend) (calls : List Call) : Prop :=
  ∀ call, .replay call ∈ calls → canReplayWithGpuKernels backend call = false

-- The metadata each replay shows, in order; the first refusal ends the run.
def serve (backend : Backend) (graphs : Graphs) : List Call → Except Failure (List (Option Buffers))
  | [] => .ok []
  | .capture call :: calls => do
      let graphs ← captureCudaGraphMetadata backend graphs call
      serve backend graphs calls
  | .replay call :: calls => do
      let graphs ← replayCudaGraphMetadata backend graphs call
      let shown ← serve backend graphs calls
      .ok (graphs.shown :: shown)

-- The same without buffers: rows of their own, over a page table of zeros.
def overRows (n : Nat) (layout : Layout) : Option Layout := do
  let rowLengths ← spread layout.rowLengths n
  let rowReqPoolIndices ← spread layout.rowReqPoolIndices n
  let rowPrefixLengths ← spread layout.rowPrefixLengths n
  return ⟨rowLengths,rowReqPoolIndices,rowPrefixLengths⟩

def freshCapture (backend : Backend) (maxNumTokens : Nat) (rows : ForwardMode → Nat → Option Nat) (call : Capture) :
    Except Failure (ForwardMode → Nat → Option Nat) := do
  requireCompressedCudaGraphSupport backend
  refused (requireChainSpeculation backend.ring call.mode call.spec)
  let metadataRows := if isSpeculativePagedMode call.mode then call.numTokens else call.bs
  let layout ← refused (rowLayout call.bs call.numTokens call.reqPoolIndices call.seqLens (call.seqLens.take call.bs)
    call.mode call.spec call.bs)
  let _ ← refused (shaped (overRows (min metadataRows maxNumTokens) layout))
  .ok (record rows call.mode call.bs metadataRows)

def freshReplay (backend : Backend) (maxNumTokens : Nat) (rows : ForwardMode → Nat → Option Nat) (call : Replay) :
    Except Failure Buffers := do
  refused (requireChainSpeculation backend.ring call.mode call.spec)
  match rows call.mode call.bs with
  | some rows =>
    let n := min rows maxNumTokens
    let seqLensCpu := call.seqLensCpu.getD (call.seqLens.take call.bs)
    let layout ← refused (rowLayout call.bs n call.reqPoolIndices call.seqLens seqLensCpu call.mode call.spec call.numPadding)
    let layout ← refused (shaped (overRows n layout))
    let graph ← refused (shaped (updateQsaCudaGraphMetadata backend.ring backend.compressedPageSize
      ⟨backend.width,call.reqToToken⟩ layout.rowLengths layout.rowReqPoolIndices (zeroTable backend n)))
    .ok ⟨layout.rowLengths,layout.rowReqPoolIndices,layout.rowPrefixLengths,graph⟩
  | none => .error (.key call.mode call.bs)

def fresh (backend : Backend) (maxNumTokens : Nat) (rows : ForwardMode → Nat → Option Nat) :
    List Call → Except Failure (List Buffers)
  | [] => .ok []
  | .capture call :: calls => do
      let rows ← freshCapture backend maxNumTokens rows call
      fresh backend maxNumTokens rows calls
  | .replay call :: calls => do
      let shown ← freshReplay backend maxNumTokens rows call
      let others ← fresh backend maxNumTokens rows calls
      .ok (shown :: others)

theorem spread_length (values out : List α) (n : Nat) (ran : spread values n = some out) : out.length = n := by
  unfold spread at ran
  split at ran
  · cases ran
    assumption
  · split at ran
    · cases ran
      exact List.length_replicate
    · cases ran

theorem spread_same (values : List α) (n : Nat) (count : values.length = n) : spread values n = some values := by
  unfold spread
  exact if_pos count

theorem copied_parts (buffer taken : List α) (rows : Nat) (count : taken.length = min rows buffer.length) :
    (taken ++ buffer.drop rows).take rows = taken ∧ (taken ++ buffer.drop rows).length = buffer.length := by
  constructor
  · rcases Nat.le_total rows buffer.length with inside | beyond
    · rw [Nat.min_eq_left inside] at count
      rw [← count,List.take_left]
    · rw [Nat.min_eq_right beyond] at count
      rw [List.drop_eq_nil_of_le beyond,List.append_nil,List.take_of_length_le (by omega)]
  · rw [List.length_append,List.length_drop,count]
    omega

theorem copyView_exact (buffer values : List α) (rows : Nat) :
    copyView buffer rows values = (spread values (min rows buffer.length)).map fun taken => taken ++ buffer.drop rows := by
  rw [copyView,List.length_take]

section
variable (backend : Backend) (maxNumTokens : Nat)

def freshPages : Nat :=
  min (graphPages backend.maxContextLen backend.ring.compressRatio backend.compressedPageSize)
    (backend.width / (backend.compressedPageSize * backend.ring.compressRatio))

-- Every buffer keeps its rows, and the page columns no replay overwrites stay zero.
structure Sized (buffers : Buffers) : Prop where
  seqLens : buffers.seqLens.length = maxNumTokens
  rowReqPoolIndices : buffers.rowReqPoolIndices.length = maxNumTokens
  prefixLengths : buffers.prefixLengths.length = maxNumTokens
  compressedLengths : buffers.metadata.compressedLengths.length = maxNumTokens
  writeLocs : buffers.metadata.writeLocs.length = maxNumTokens
  logicalPositions : buffers.metadata.logicalPositions.length = maxNumTokens
  pendingRingSlots : buffers.metadata.pendingRingSlots.length = maxNumTokens
  ringGroupLocs : buffers.metadata.ringGroupLocs.length = maxNumTokens
  pages : buffers.metadata.pageTable.rows.length = maxNumTokens
  columns : buffers.metadata.pageTable.width =
    graphPages backend.maxContextLen backend.ring.compressRatio backend.compressedPageSize
  zeros : ∀ row ∈ buffers.metadata.pageTable.rows, ∀ column, freshPages backend ≤ column → row column = 0

theorem zero_sized : Sized backend maxNumTokens (zeroBuffers backend maxNumTokens) := by
  refine ⟨?_,?_,?_,?_,?_,?_,?_,?_,?_,rfl,?_⟩
  iterate 9 exact List.length_replicate
  intro row member column _
  rw [List.eq_of_mem_replicate member]

def putLayout (rows : Nat) (buffers : Buffers) (layout : Layout) : Buffers :=
  ⟨layout.rowLengths ++ buffers.seqLens.drop rows,layout.rowReqPoolIndices ++ buffers.rowReqPoolIndices.drop rows,
    layout.rowPrefixLengths ++ buffers.prefixLengths.drop rows,buffers.metadata⟩

variable {backend maxNumTokens}

theorem copyLayout_exact {buffers : Buffers} (sized : Sized backend maxNumTokens buffers) (rows : Nat) (layout : Layout) :
    buffers.copyLayout rows layout = (overRows (min rows maxNumTokens) layout).map (putLayout rows buffers) := by
  unfold Buffers.copyLayout overRows
  simp only [copyView_exact,sized.seqLens,sized.rowReqPoolIndices,sized.prefixLengths]
  cases spread layout.rowLengths (min rows maxNumTokens) with
  | none => rfl
  | some lengths =>
      cases spread layout.rowReqPoolIndices (min rows maxNumTokens) with
      | none => rfl
      | some requests =>
          cases spread layout.rowPrefixLengths (min rows maxNumTokens) with
          | none => rfl
          | some prefixes => rfl

theorem over_sizes {n : Nat} {layout out : Layout} (ran : overRows n layout = some out) :
    out.rowLengths.length = n ∧ out.rowReqPoolIndices.length = n ∧ out.rowPrefixLengths.length = n := by
  obtain ⟨lengths,first,ran⟩ := Option.bind_eq_some_iff.mp ran
  obtain ⟨requests,second,ran⟩ := Option.bind_eq_some_iff.mp ran
  obtain ⟨prefixes,third,ran⟩ := Option.bind_eq_some_iff.mp ran
  cases ran
  exact ⟨spread_length _ _ _ first,spread_length _ _ _ second,spread_length _ _ _ third⟩

theorem layout_sized {buffers : Buffers} (sized : Sized backend maxNumTokens buffers) (rows : Nat) (layout : Layout)
    (lengths : layout.rowLengths.length = min rows maxNumTokens)
    (requests : layout.rowReqPoolIndices.length = min rows maxNumTokens)
    (prefixes : layout.rowPrefixLengths.length = min rows maxNumTokens) :
    Sized backend maxNumTokens (putLayout rows buffers layout) ∧ (putLayout rows buffers layout).view rows =
      ⟨layout.rowLengths,layout.rowReqPoolIndices,layout.rowPrefixLengths,viewMetadata rows buffers.metadata⟩ := by
  have first := copied_parts buffers.seqLens layout.rowLengths rows (lengths.trans (by rw [sized.seqLens]))
  have second := copied_parts buffers.rowReqPoolIndices layout.rowReqPoolIndices rows
    (requests.trans (by rw [sized.rowReqPoolIndices]))
  have third := copied_parts buffers.prefixLengths layout.rowPrefixLengths rows (prefixes.trans (by rw [sized.prefixLengths]))
  constructor
  · exact ⟨first.2.trans sized.seqLens,second.2.trans sized.rowReqPoolIndices,third.2.trans sized.prefixLengths,
      sized.compressedLengths,sized.writeLocs,sized.logicalPositions,sized.pendingRingSlots,sized.ringGroupLocs,
      sized.pages,sized.columns,sized.zeros⟩
  · rw [Buffers.view,putLayout,first.1,second.1,third.1]

-- What a refresh copies has one row for each row of the view, and writes zeros behind the fresh pages where it finds them.
theorem update_sizes {ring : Ring} {compressedPageSize : Nat} {reqToToken before : Table} {lengths requests : List Nat}
    {graph : GraphMetadata} {n : Nat} (count : lengths.length = n) (rows : requests.length = n)
    (ran : updateQsaCudaGraphMetadata ring compressedPageSize reqToToken lengths requests before = some graph) :
    graph.compressedLengths.length = n ∧ graph.writeLocs.length = n ∧ graph.logicalPositions.length = n ∧
      graph.pendingRingSlots.length = n ∧ graph.ringGroupLocs.length = n ∧
      refreshPages reqToToken requests (compressedPageSize * ring.compressRatio) before = some graph.pageTable := by
  obtain ⟨lastLocs,located,ran⟩ := Option.bind_eq_some_iff.mp ran
  obtain ⟨slots,pending,ran⟩ := Option.bind_eq_some_iff.mp ran
  obtain ⟨groups,grouped,ran⟩ := Option.bind_eq_some_iff.mp ran
  obtain ⟨pages,refreshed,ran⟩ := Option.bind_eq_some_iff.mp ran
  cases ran
  obtain ⟨named,gathered,same⟩ := Option.bind_eq_some_iff.mp grouped
  cases same
  have locs := (mapM_parts _ _ lastLocs located).length_eq
  have names := (mapM_parts _ _ named gathered).length_eq
  refine ⟨by simpa using count,?_,by simpa using count,?_,?_,refreshed⟩
  · simp only [List.length_zip,List.length_map] at locs
    rw [List.length_zipWith]
    omega
  · rw [pending_length _ _ _ _ _ _ _ pending,List.length_map,count]
  · rw [List.length_range] at names
    rw [List.length_zipWith,List.length_map]
    omega

theorem update_positions {ring : Ring} {compressedPageSize : Nat} {reqToToken before : Table} {lengths requests : List Nat}
    {graph : GraphMetadata}
    (ran : updateQsaCudaGraphMetadata ring compressedPageSize reqToToken lengths requests before = some graph) :
    graph.logicalPositions = lengths.map (· - 1) := by
  obtain ⟨_,_,ran⟩ := Option.bind_eq_some_iff.mp ran
  obtain ⟨_,_,ran⟩ := Option.bind_eq_some_iff.mp ran
  obtain ⟨_,_,ran⟩ := Option.bind_eq_some_iff.mp ran
  obtain ⟨_,_,ran⟩ := Option.bind_eq_some_iff.mp ran
  cases ran
  rfl

theorem refresh_parts {reqToToken before after : Table} {requests : List Nat} {fullPage : Nat}
    (ran : refreshPages reqToToken requests fullPage before = some after) : after.width = before.width ∧
      after.rows.length = before.rows.length ∧ ∀ column, min before.width (reqToToken.width / fullPage) ≤ column →
        (∀ row ∈ before.rows, row column = 0) → ∀ row ∈ after.rows, row column = 0 := by
  obtain ⟨named,gathered,ran⟩ := Option.bind_eq_some_iff.mp ran
  split at ran
  · cases ran
  · rename_i count
    cases ran
    refine ⟨rfl,?_,?_⟩
    · rw [List.length_zipWith]
      omega
    · intro column behind zeros row member
      obtain ⟨i,found⟩ := List.getElem?_of_mem member
      obtain ⟨held,fresh,old,_,rfl⟩ := List.getElem?_zipWith_eq_some.mp found
      show (if column < _ then _ else held column) = 0
      rw [if_neg (Nat.not_lt.mpr behind)]
      exact zeros held (List.mem_of_getElem? old)

theorem refresh_zero {reqToToken before : Table} {requests : List Nat} {fullPage : Nat}
    (zeros : ∀ row ∈ before.rows, ∀ column, min before.width (reqToToken.width / fullPage) ≤ column → row column = 0) :
    refreshPages reqToToken requests fullPage before =
      refreshPages reqToToken requests fullPage ⟨before.width,List.replicate before.rows.length fun _ => 0⟩ := by
  unfold refreshPages
  cases gather reqToToken.rows requests with
  | none => rfl
  | some named =>
      simp only [Option.bind_eq_bind,Option.bind_some,List.length_replicate]
      split
      · rfl
      · refine congrArg (fun rows => some (Table.mk before.width rows)) (List.ext_getElem? ?_)
        intro i
        rw [List.getElem?_zipWith,List.getElem?_zipWith]
        cases old : before.rows[i]? with
        | none =>
            have beyond : (List.replicate before.rows.length fun _ : Nat => 0)[i]? = none := by
              simpa using List.getElem?_eq_none_iff.mp old
            rw [beyond]
        | some held =>
            obtain ⟨inside,_⟩ := List.getElem?_eq_some_iff.mp old
            rw [List.getElem?_replicate,if_pos inside]
            cases named[i]? with
            | none => rfl
            | some row =>
                refine congrArg some (funext fun column => ?_)
                split
                · rfl
                · rename_i behind
                  exact zeros held (List.mem_of_getElem? old) column (Nat.not_lt.mp behind)

theorem update_zero (ring : Ring) (compressedPageSize : Nat) (reqToToken before : Table) (lengths requests : List Nat)
    (zeros : ∀ row ∈ before.rows, ∀ column,
      min before.width (reqToToken.width / (compressedPageSize * ring.compressRatio)) ≤ column → row column = 0) :
    updateQsaCudaGraphMetadata ring compressedPageSize reqToToken lengths requests before =
      updateQsaCudaGraphMetadata ring compressedPageSize reqToToken lengths requests
        ⟨before.width,List.replicate before.rows.length fun _ => 0⟩ := by
  unfold updateQsaCudaGraphMetadata
  simp only [refresh_zero zeros]

def putMetadata (rows : Nat) (buffers : Buffers) (graph : GraphMetadata) : Buffers :=
  { buffers with metadata := ⟨graph.compressedLengths ++ buffers.metadata.compressedLengths.drop rows,
    graph.writeLocs ++ buffers.metadata.writeLocs.drop rows,
    graph.logicalPositions ++ buffers.metadata.logicalPositions.drop rows,
    graph.pendingRingSlots ++ buffers.metadata.pendingRingSlots.drop rows,
    graph.ringGroupLocs ++ buffers.metadata.ringGroupLocs.drop rows,
    ⟨graph.pageTable.width,graph.pageTable.rows ++ buffers.metadata.pageTable.rows.drop rows⟩⟩ }

theorem metadata_copied {buffers shown : Buffers} (sized : Sized backend maxNumTokens buffers) (rows : Nat)
    (graph : GraphMetadata) (reqToToken : List (Nat → Nat)) (view : buffers.view rows = shown)
    (lengths : shown.seqLens.length = min rows maxNumTokens)
    (requests : shown.rowReqPoolIndices.length = min rows maxNumTokens)
    (ran : updateQsaCudaGraphMetadata backend.ring backend.compressedPageSize ⟨backend.width,reqToToken⟩ shown.seqLens
      shown.rowReqPoolIndices shown.metadata.pageTable = some graph) :
    buffers.copyMetadata rows graph = some (putMetadata rows buffers graph) ∧
      Sized backend maxNumTokens (putMetadata rows buffers graph) ∧
      (putMetadata rows buffers graph).view rows = { shown with metadata := graph } := by
  subst view
  obtain ⟨compressed,writes,positions,slots,groups,refreshed⟩ := update_sizes lengths requests ran
  obtain ⟨width,height,behind⟩ := refresh_parts refreshed
  have pages : graph.pageTable.rows.length = min rows maxNumTokens := by
    rw [height,Buffers.view,viewMetadata,List.length_take,sized.pages]
  have one := copied_parts buffers.metadata.compressedLengths graph.compressedLengths rows
    (compressed.trans (by rw [sized.compressedLengths]))
  have two := copied_parts buffers.metadata.writeLocs graph.writeLocs rows (writes.trans (by rw [sized.writeLocs]))
  have three := copied_parts buffers.metadata.logicalPositions graph.logicalPositions rows
    (positions.trans (by rw [sized.logicalPositions]))
  have four := copied_parts buffers.metadata.pendingRingSlots graph.pendingRingSlots rows
    (slots.trans (by rw [sized.pendingRingSlots]))
  have five := copied_parts buffers.metadata.ringGroupLocs graph.ringGroupLocs rows
    (groups.trans (by rw [sized.ringGroupLocs]))
  have six := copied_parts buffers.metadata.pageTable.rows graph.pageTable.rows rows (pages.trans (by rw [sized.pages]))
  refine ⟨?_,?_,?_⟩
  · unfold Buffers.copyMetadata
    simp only [copyView_exact,sized.compressedLengths,sized.writeLocs,sized.logicalPositions,sized.pendingRingSlots,
      sized.ringGroupLocs,sized.pages,spread_same _ _ compressed,spread_same _ _ writes,spread_same _ _ positions,
      spread_same _ _ slots,spread_same _ _ groups,spread_same _ _ pages,Option.map_some]
    rfl
  · refine ⟨sized.seqLens,sized.rowReqPoolIndices,sized.prefixLengths,one.2.trans sized.compressedLengths,
      two.2.trans sized.writeLocs,three.2.trans sized.logicalPositions,four.2.trans sized.pendingRingSlots,
      five.2.trans sized.ringGroupLocs,six.2.trans sized.pages,width.trans sized.columns,?_⟩
    intro row member column far
    rcases List.mem_append.mp member with fresh | kept
    · refine behind column ?_ ?_ row fresh
      · show min buffers.metadata.pageTable.width _ ≤ column
        rw [sized.columns]
        exact far
      · intro old inside
        exact sized.zeros old (List.mem_of_mem_take inside) column far
    · exact sized.zeros row (List.mem_of_mem_drop kept) column far
  · rw [Buffers.view,putMetadata,viewMetadata,one.1,two.1,three.1,four.1,five.1,six.1]
    rfl

variable (backend maxNumTokens)

structure Held (graphs : Graphs) (rows : ForwardMode → Nat → Option Nat) : Prop where
  buffers : ∃ buffers, graphs.buffers = some buffers ∧ Sized backend maxNumTokens buffers
  rows : graphs.rows = rows

-- The same refusal on both sides, or results that `related` relates.
def Alike (related : α → β → Prop) (one : Except Failure α) (other : Except Failure β) : Prop :=
  (∃ why, one = .error why ∧ other = .error why) ∨ ∃ a b, one = .ok a ∧ other = .ok b ∧ related a b

variable {backend maxNumTokens}

theorem alike_bind {related : α → β → Prop} {next : γ → δ → Prop} {one : Except Failure α}
    {other : Except Failure β} {f : α → Except Failure γ} {g : β → Except Failure δ} (alike : Alike related one other)
    (both : ∀ a b, one = .ok a → other = .ok b → related a b → Alike next (f a) (g b)) :
    Alike next (one >>= f) (other >>= g) := by
  rcases alike with ⟨why,first,second⟩ | ⟨a,b,first,second,same⟩
  · exact .inl ⟨why,by rw [first]; rfl,by rw [second]; rfl⟩
  · have result := both a b first second same
    rw [first,second]
    exact result

theorem alike_refl (one : Except Failure α) : Alike (· = ·) one one := by
  cases one with
  | error why => exact .inl ⟨why,rfl,rfl⟩
  | ok a => exact .inr ⟨a,a,rfl,rfl,rfl⟩

theorem alike_map (one : Option α) (f : α → β) :
    Alike (fun b a => b = f a ∧ one = some a) (refused (shaped (one.map f))) (refused (shaped one)) := by
  cases one with
  | none => exact .inl ⟨_,rfl,rfl⟩
  | some a => exact .inr ⟨f a,a,rfl,rfl,rfl,rfl⟩

theorem refused_ok {result : Except Refusal α} {a : α} (ran : refused result = .ok a) : result = .ok a := by
  cases result with
  | error why => cases ran
  | ok b =>
      cases ran
      rfl

theorem capture_alike {graphs : Graphs} {rows : ForwardMode → Nat → Option Nat} (held : Held backend maxNumTokens graphs rows)
    (call : Capture) : Alike (Held backend maxNumTokens) (captureCudaGraphMetadata backend graphs call)
      (freshCapture backend maxNumTokens rows call) := by
  obtain ⟨buffers,set,sized⟩ := held.buffers
  unfold captureCudaGraphMetadata freshCapture
  refine alike_bind (alike_refl _) fun _ _ _ _ _ => alike_bind (alike_refl _) fun _ _ _ _ _ => ?_
  rw [set]
  refine alike_bind (alike_refl _) fun layout _ _ _ same => ?_
  subst same
  rw [copyLayout_exact sized]
  refine alike_bind (alike_map _ _) ?_
  rintro copied taken _ _ ⟨rfl,ran⟩
  obtain ⟨lengths,requests,prefixes⟩ := over_sizes ran
  exact .inr ⟨_,_,rfl,rfl,⟨_,rfl,(layout_sized sized _ taken lengths requests prefixes).1⟩,by rw [held.rows]⟩

theorem replay_alike {graphs : Graphs} {rows : ForwardMode → Nat → Option Nat} (held : Held backend maxNumTokens graphs rows)
    (call : Replay) (host : canReplayWithGpuKernels backend call = false) :
      Alike (fun after shown => Held backend maxNumTokens after rows ∧ after.shown = some shown)
      (replayCudaGraphMetadata backend graphs call) (freshReplay backend maxNumTokens rows call) := by
  obtain ⟨buffers,set,sized⟩ := held.buffers
  unfold replayCudaGraphMetadata freshReplay
  refine alike_bind (alike_refl _) fun _ _ _ _ _ => ?_
  rw [set,held.rows]
  cases rows call.mode call.bs with
  | none => exact .inl ⟨_,rfl,rfl⟩
  | some viewed =>
      have count : (buffers.seqLens.take viewed).length = min viewed maxNumTokens := by
        rw [List.length_take,sized.seqLens]
      dsimp only
      rw [host,if_neg Bool.false_ne_true]
      unfold replayOnHost
      simp only [bind_assoc]
      rw [count]
      refine alike_bind (alike_refl _) fun layout _ _ _ same => ?_
      subst same
      rw [copyLayout_exact sized]
      refine alike_bind (alike_map _ _) ?_
      rintro copied taken _ _ ⟨rfl,ran⟩
      obtain ⟨lengths,requests,prefixes⟩ := over_sizes ran
      obtain ⟨laid,view⟩ := layout_sized sized _ taken lengths requests prefixes
      have table : (viewMetadata viewed buffers.metadata).pageTable.rows.length = min viewed maxNumTokens := by
        rw [viewMetadata,List.length_take,sized.pages]
      have width : (viewMetadata viewed buffers.metadata).pageTable.width =
        graphPages backend.maxContextLen backend.ring.compressRatio backend.compressedPageSize := sized.columns
      have zero := update_zero backend.ring backend.compressedPageSize ⟨backend.width,call.reqToToken⟩
        (viewMetadata viewed buffers.metadata).pageTable taken.rowLengths taken.rowReqPoolIndices (by
          intro row member column far
          rw [width] at far
          exact sized.zeros row (List.mem_of_mem_take member) column far)
      rw [table,width] at zero
      rw [view]
      dsimp only
      rw [zero]
      refine alike_bind (alike_refl _) fun graph _ refreshed _ same => ?_
      subst same
      obtain ⟨copied,kept,shown⟩ := metadata_copied laid viewed graph call.reqToToken view lengths requests
        (zero.trans (shaped_ok _ _ (refused_ok refreshed)))
      rw [copied]
      exact .inr ⟨_,_,rfl,rfl,⟨⟨_,rfl,kept⟩,rfl⟩,congrArg some shown⟩

theorem serve_alike (calls : List Call) (host : OnHost backend calls) {graphs : Graphs} {rows : ForwardMode → Nat → Option Nat}
    (held : Held backend maxNumTokens graphs rows) : Alike (fun shown plain => shown = plain.map some)
      (serve backend graphs calls) (fresh backend maxNumTokens rows calls) := by
  induction calls generalizing graphs rows with
  | nil => exact .inr ⟨_,_,rfl,rfl,rfl⟩
  | cons call calls ih =>
      have later : OnHost backend calls := fun call member => host call (List.mem_cons_of_mem _ member)
      cases call with
      | capture call => exact alike_bind (capture_alike held call) fun _ _ _ _ held => ih later held
      | replay call =>
          refine alike_bind (replay_alike held call (host call List.mem_cons_self)) ?_
          rintro after view _ _ ⟨held,shown⟩
          refine alike_bind (ih later held) ?_
          rintro _ others _ _ rfl
          exact .inr ⟨_,_,rfl,rfl,by rw [shown]; rfl⟩

theorem initial_held {graphs : Graphs} (ready : initCudaGraphState backend maxNumTokens unset = .ok graphs) :
    Held backend maxNumTokens graphs fun _ _ => none := by
  unfold initCudaGraphState at ready
  split at ready
  · cases ready
  · cases ready
    exact ⟨⟨_,rfl,zero_sized backend maxNumTokens⟩,rfl⟩

-- Captures of every mode and size share one set of buffers, yet each replay on the host shows what buffers of its own
-- would, and a run is refused where that one is.
theorem served_exact {graphs : Graphs} (ready : initCudaGraphState backend maxNumTokens unset = .ok graphs)
    (calls : List Call) (host : OnHost backend calls) : serve backend graphs calls =
      (fresh backend maxNumTokens (fun _ _ => none) calls).map (List.map some) := by
  rcases serve_alike calls host (initial_held ready) with ⟨why,served,plain⟩ | ⟨_,plain,served,built,rfl⟩
  · rw [served,plain]
    rfl
  · rw [served,built]
    rfl

theorem fresh_last (calls : List Call) (call : Replay) {rows : ForwardMode → Nat → Option Nat} {shown : List Buffers}
    (ran : fresh backend maxNumTokens rows (calls ++ [.replay call]) = .ok shown) : ∃ captured view,
      freshReplay backend maxNumTokens captured call = .ok view ∧ shown.getLast? = some view := by
  induction calls generalizing rows shown with
  | nil =>
      obtain ⟨view,replayed,ran⟩ := bind_ok ran
      cases ran
      exact ⟨rows,view,replayed,rfl⟩
  | cons first calls ih =>
      cases first with
      | capture first =>
          obtain ⟨captured,_,ran⟩ := bind_ok ran
          exact ih ran
      | replay first =>
          obtain ⟨_,_,ran⟩ := bind_ok ran
          obtain ⟨others,built,same⟩ := bind_ok ran
          cases same
          obtain ⟨captured,view,replayed,last⟩ := ih built
          refine ⟨captured,view,replayed,?_⟩
          rw [List.getLast?_cons,last]
          rfl

theorem replayed_parts {rows : ForwardMode → Nat → Option Nat} {call : Replay} {view : Buffers}
    (ran : freshReplay backend maxNumTokens rows call = .ok view) : ∃ n, view.seqLens.length = n ∧
      view.rowReqPoolIndices.length = n ∧ updateQsaCudaGraphMetadata backend.ring backend.compressedPageSize
        ⟨backend.width,call.reqToToken⟩ view.seqLens view.rowReqPoolIndices (zeroTable backend n) = some view.metadata := by
  obtain ⟨_,_,ran⟩ := bind_ok ran
  cases captured : rows call.mode call.bs with
  | none =>
      rw [captured] at ran
      cases ran
  | some rows =>
      rw [captured] at ran
      obtain ⟨_,_,ran⟩ := bind_ok ran
      obtain ⟨layout,spread,ran⟩ := bind_ok ran
      obtain ⟨graph,updated,ran⟩ := bind_ok ran
      cases ran
      obtain ⟨lengths,requests,_⟩ := over_sizes (shaped_ok _ _ (refused_ok spread))
      exact ⟨_,lengths,requests,shaped_ok _ _ (refused_ok updated)⟩

-- The page ids behind the table's whole pages, at the complete blocks of the rows, are zero.
def ZeroBehind (backend : Backend) (page : Nat → Nat → Nat) (sequenceLengths reqPoolIndices : List Nat) : Prop :=
  ∀ row length request : Nat, sequenceLengths[row]? = some length → reqPoolIndices[row]? = some request →
    ∀ b < length / backend.ring.compressRatio,
      backend.width / (backend.compressedPageSize * backend.ring.compressRatio) ≤ b / backend.compressedPageSize →
      page request (b / backend.compressedPageSize) = 0

-- Whatever ran before, the last replay's metadata agrees with the eager path's on the same rows exactly
-- when no complete block lies on a nonzero page behind the table's whole pages.
theorem replays_agree_exactly {graphs : Graphs} (ready : initCudaGraphState backend maxNumTokens unset = .ok graphs)
    (calls : List Call) (call : Replay) (host : OnHost backend (calls ++ [.replay call])) {shown : List (Option Buffers)}
    (ran : serve backend graphs (calls ++ [.replay call]) = .ok shown) : ∃ view, shown.getLast? = some (some view) ∧
      ∀ (page : Nat → Nat → Nat) (maxLength : Nat) (fb : ForwardBatch), 0 < backend.compressedPageSize →
        PageAligned ⟨backend.width,call.reqToToken⟩ page (backend.compressedPageSize * backend.ring.compressRatio) →
        Paged ⟨backend.width,call.reqToToken⟩ backend.maxContextLen maxLength view.seqLens view.rowReqPoolIndices →
        ((∃ eager, eagerMetadata backend.ring backend.compressedPageSize ⟨backend.width,call.reqToToken⟩ fb view.seqLens
            view.rowReqPoolIndices maxLength = some eager ∧
          Agree backend.ring.compressRatio backend.compressedPageSize view.seqLens eager view.metadata) ↔
        ZeroBehind backend page view.seqLens view.rowReqPoolIndices) := by
  rw [served_exact ready _ host] at ran
  cases plain : fresh backend maxNumTokens (fun _ _ => none) (calls ++ [.replay call]) with
  | error why =>
      rw [plain] at ran
      cases ran
  | ok views =>
      rw [plain] at ran
      cases ran
      obtain ⟨captured,view,replayed,last⟩ := fresh_last calls call plain
      obtain ⟨n,lengths,requests,updated⟩ := replayed_parts replayed
      refine ⟨view,by rw [List.getLast?_map,last]; rfl,?_⟩
      intro page maxLength fb positive aligned paged
      have height : (zeroTable backend n).rows.length = view.seqLens.length := by
        rw [zeroTable,List.length_replicate,lengths]
      have held := agrees_where_held backend.ring backend.compressedPageSize backend.maxContextLen maxLength positive
        ⟨backend.width,call.reqToToken⟩ page view.seqLens view.rowReqPoolIndices aligned paged fb (zeroTable backend n)
        rfl height
      have both : BothAgree backend.ring backend.compressedPageSize ⟨backend.width,call.reqToToken⟩ fb view.seqLens
          view.rowReqPoolIndices maxLength (zeroTable backend n) ↔
          ∃ eager, eagerMetadata backend.ring backend.compressedPageSize ⟨backend.width,call.reqToToken⟩ fb view.seqLens
            view.rowReqPoolIndices maxLength = some eager ∧
          Agree backend.ring.compressRatio backend.compressedPageSize view.seqLens eager view.metadata := by
        constructor
        · rintro ⟨eager,graph,ran,again,agree⟩
          cases updated.symm.trans again
          exact ⟨eager,ran,agree⟩
        · rintro ⟨eager,ran,agree⟩
          exact ⟨eager,view.metadata,ran,updated,agree⟩
      rw [← both,held]
      constructor
      · intro right row length request found own b below behind
        have old : (zeroTable backend n).rows[row]? = some fun _ => 0 := by
          obtain ⟨inside,_⟩ := List.getElem?_eq_some_iff.mp found
          rw [zeroTable,List.getElem?_replicate,if_pos (lengths ▸ inside)]
        exact (right row length request _ found own old b below behind).symm
      · intro zero row length request held found own old b below behind
        obtain rfl := List.eq_of_mem_replicate (List.mem_of_getElem? old)
        exact (zero row length request found own b below behind).symm

end

def narrowBackend : Backend := ⟨true,true,stockRing,2,12,12,4,⟨false,fun _ buffers => buffers⟩⟩

def plainSpec : SpecInfo := ⟨none,none,none⟩

def decodeReplay (length : Nat) : Replay := ⟨1,[0],[length],.decode,plainSpec,none,0,narrowTable.rows,true,none⟩

def mixedCalls : List Call :=
  [.capture ⟨1,1,[0],[1],.decode,plainSpec⟩,.capture ⟨1,3,[0],[1],.draftExtendV2,⟨none,none,some [3]⟩⟩,
    .replay ⟨1,[0],[11],.draftExtendV2,⟨none,none,some [3]⟩,some [11],0,narrowTable.rows,true,none⟩]

theorem narrow_host (calls : List Call) : OnHost narrowBackend calls := fun _ _ => Bool.and_false _

theorem mixed_served : serve narrowBackend ⟨some (zeroBuffers narrowBackend 4),fun _ _ => none,none⟩
    (mixedCalls ++ [.replay (decodeReplay 8)]) =
      (fresh narrowBackend 4 (fun _ _ => none) (mixedCalls ++ [.replay (decodeReplay 8)])).map (List.map some) :=
  served_exact (show initCudaGraphState narrowBackend 4 unset = .ok _ from rfl) _ (narrow_host _)

-- The decode graph's row of twelve keys: its third block lies on page 2, behind the one whole page.
theorem mixed_disagrees : ∃ (shown : List (Option Buffers)) (view : Buffers),
    serve narrowBackend ⟨some (zeroBuffers narrowBackend 4),fun _ _ => none,none⟩
      (mixedCalls ++ [.replay (decodeReplay 12)]) = .ok shown ∧ shown.getLast? = some (some view) ∧
    ¬ ∃ eager, eagerMetadata stockRing 2 narrowTable (decodeForward 12) view.seqLens view.rowReqPoolIndices 12 = some eager ∧
      Agree 4 2 view.seqLens eager view.metadata := by
  obtain ⟨view,last,exactly⟩ := replays_agree_exactly (show initCudaGraphState narrowBackend 4 unset = .ok _ from rfl)
    mixedCalls (decodeReplay 12) (narrow_host _) rfl
  refine ⟨_,view,rfl,last,?_⟩
  cases last
  intro agree
  have zero := (exactly narrowPage 12 (decodeForward 12) Nat.two_pos narrow_aligned
    ⟨rfl,by decide,by decide,by decide,by decide⟩).mp agree
  exact absurd (zero 0 12 0 rfl rfl 2 (by decide) (by decide)) (by decide)

end OneSpark.GraphRuns
