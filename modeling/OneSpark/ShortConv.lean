import OneSpark.PleCommit

namespace OneSpark.ShortConv
open Longs RingSlots Blocks PleLayout PleCommit

abbrev Column (K : Type) (channels : Nat) := Fin channels → K

-- The depthwise nn.Conv1d of a PLE layer, without bias, and the layer's activation.
structure DepthwiseConv (K : Type) (channels : Nat) where
  kernelSize : Nat
  dilation : Nat
  weight : Fin channels → Nat → K
  silu : K → K

def DepthwiseConv.stateLen (m : DepthwiseConv K channels) : Nat := (m.kernelSize - 1) * m.dilation

-- pool.short_conv_layer_cache(layer_id) by slot and, where the pool has it,
-- pool.short_conv_layer_intermediate_cache(layer_id) by row and step.
structure ConvPool (K : Type) (channels : Nat) where
  cache : Nat → List (Column K channels)
  intermediate : Option (Nat → Nat → List (Column K channels))

-- sglang.kernels.ops.qwen4_ple, not part of the repository: the convolution's input and the
-- cache it has updated in place.
structure FusedConv (K : Type) (channels : Nat) where
  canFuse : (Nat → List (Column K channels)) → List Nat → List (Column K channels) → Bool
  state : (Nat → List (Column K channels)) → List Nat → List (Column K channels) →
    List (List (Column K channels)) × (Nat → List (Column K channels))

section
variable {K : Type} {channels : Nat} [Add K] [Mul K] [Zero K]

-- One output column of F.conv1d over a row's columns.
def convColumn (m : DepthwiseConv K channels) (columns : List (Column K channels)) (time : Nat) :
    Option (Column K channels) := do
  let taps ← (List.range m.kernelSize).mapM fun tap => columns[time + tap * m.dilation]?
  return fun channel => ((List.range m.kernelSize).zipWith (fun tap column => m.weight channel tap * column channel)
    taps).sum

def conv1d (m : DepthwiseConv K channels) (columns : List (Column K channels)) : Option (List (Column K channels)) :=
  (List.range (columns.length - m.stateLen)).mapM (convColumn m columns)

def activated (m : DepthwiseConv K channels) (output : List (Column K channels)) : List (Column K channels) :=
  output.map fun column channel => m.silu (column channel)

-- squeeze(-1) on the one column of a decode row.
def squeeze (columns : List (Column K channels)) : Option (Column K channels) :=
  match columns with
  | [column] => some column
  | _ => none

def fastState (fused : FusedConv K channels) (batch : PleBatch) (x : List (Column K channels))
    (cache : Nat → List (Column K channels)) :
    Option (List (List (Column K channels)) × (Nat → List (Column K channels))) :=
  if fused.canFuse cache batch.stateIndices x then some (fused.state cache batch.stateIndices x)
  else do
    let convInput ← catRows (batch.stateIndices.map cache) (x.map fun column => [column])
    let cache ← setRows cache batch.stateIndices (convInput.map (·.drop batch.rowWidth))
    return (convInput,cache)

def trackedCache (cache : Nat → List α) (track : Option (List Nat × List (List α))) : Option (Nat → List α) :=
  match track with
  | none => some cache
  | some (trackIndices, snapshot) => setRows cache trackIndices snapshot

def fastConv (fused : FusedConv K channels) (m : DepthwiseConv K channels) (fb : ForwardBatch) (batch : PleBatch)
    (x : List (Column K channels)) (pool : ConvPool K channels) :
    Option (List (Column K channels) × ConvPool K channels) := do
  let (convInput, cache) ← fastState fused batch x pool.cache
  let convOutput ← convInput.mapM fun row => (conv1d m row).bind squeeze
  let nextState := convInput.map (·.drop batch.rowWidth)
  let track ← pleTrackTargets fb batch
  let cache ← trackedCache cache (track.map fun targets => (targets.1,nextState))
  return (activated m convOutput,{ pool with cache })

-- The state after each step of a verify row; the steps past the row's length hold zeros.
def verifyStates (m : DepthwiseConv K channels) (batch : PleBatch) (convInput : List (List (Column K channels))) :
    Option (List (List (List (Column K channels)))) := do
  let states := convInput.map fun row =>
    if m.stateLen = 0 then List.replicate batch.rowWidth []
    else ((unfold row m.stateLen).drop 1).take batch.rowWidth
  let validSteps ← reshape batch.validTokens batch.lengths.length batch.rowWidth
  maskSteps validSteps states (List.replicate m.stateLen fun _ => 0)

-- intermediate_cache[:rows, :steps].copy_(states)
def copySteps (old : Nat → Nat → List α) (states : List (List (List α))) (row step : Nat) : List α :=
  match states[row]?.bind (·[step]?) with
  | some state => state
  | none => old row step

def generalState (m : DepthwiseConv K channels) (fb : ForwardBatch) (batch : PleBatch)
    (convInput : List (List (Column K channels))) (pool : ConvPool K channels) : Option (ConvPool K channels) :=
  if batch.mode.isTargetVerify then
    match pool.intermediate with
    | none => some pool
    | some old => do
        let states ← verifyStates m batch convInput
        return { pool with intermediate := some (copySteps old states) }
  else do
    let nextState ← gatherAt convInput batch.lengths m.stateLen
    let cache ← setRows pool.cache batch.stateIndices nextState
    let track ← pleTrackTargets fb batch
    let snapshot ← snapshotAt convInput m.stateLen track
    let cache ← trackedCache cache snapshot
    return { pool with cache }

def generalConv (m : DepthwiseConv K channels) (fb : ForwardBatch) (batch : PleBatch) (x : List (Column K channels))
    (pool : ConvPool K channels) : Option (List (Column K channels) × ConvPool K channels) := do
  let padded ← indexPut batch.lengths.length batch.rowWidth (fun _ => 0) batch.reqIndices batch.tokenOffsets x
  let convInput ← catRows (batch.stateIndices.map pool.cache) padded
  let convOutput ← convInput.mapM (conv1d m)
  let pool ← generalState m fb batch convInput pool
  let output ← gatherTokens convOutput batch.reqIndices batch.tokenOffsets
  return (activated m output,pool)

def shortConv (fused : FusedConv K channels) (m : DepthwiseConv K channels) (fb : ForwardBatch) (batch : PleBatch)
    (x : List (Column K channels)) (pool : ConvPool K channels) :
    Option (List (Column K channels) × ConvPool K channels) :=
  if x = [] then some (x,pool)
  else if batch.useDecodeFastPath then fastConv fused m fb batch x pool
  else generalConv m fb batch x pool

end

-- What the fused kernel is used for: where it applies it does what the unfused lines do.
def FusedConv.Agrees (fused : FusedConv K channels) : Prop :=
  ∀ cache indices x, indices.length = x.length → fused.canFuse cache indices x = true →
    fused.state cache indices x = ((indices.map cache).zipWith (· ++ ·) (x.map fun column => [column]),
      Tensors.put cache (indices.zip (((indices.map cache).zipWith (· ++ ·) (x.map fun column => [column])).map
        (·.drop 1))))

section
variable {K : Type} {channels : Nat} [AddCommMonoid K] [Mul K] (m : DepthwiseConv K channels)

theorem conv1d_returns (columns : List (Column K channels)) (width : Nat)
    (length : columns.length = m.stateLen + width) :
    ∃ out, conv1d m columns = some out ∧ out.length = width := by
  have each : ∀ time ∈ List.range (columns.length - m.stateLen), ∃ column, convColumn m columns time = some column := by
    intro time member
    have below := List.mem_range.mp member
    obtain ⟨taps,found,_⟩ := Tensors.mapM_returns (fun tap => columns[time + tap * m.dilation]?)
      (List.range m.kernelSize) (by
        intro tap inside
        have last := List.mem_range.mp inside
        have span := Nat.mul_le_mul_right m.dilation (show tap ≤ m.kernelSize - 1 by omega)
        unfold DepthwiseConv.stateLen at length below
        exact ⟨columns[time + tap * m.dilation],List.getElem?_eq_getElem (by omega)⟩)
    exact ⟨_,by simp [convColumn,found]; rfl⟩
  obtain ⟨out,ran,count⟩ := Tensors.mapM_returns _ _ each
  exact ⟨out,ran,by rw [count,List.length_range,length]; omega⟩

-- Every row of the input has its state's columns before its own.
theorem rows_convolve (count width : Nat) (states rest : Nat → List (Column K channels))
    (wide : ∀ row < count, (states row).length = m.stateLen) (full : ∀ row < count, (rest row).length = width) :
    ∃ out, ((List.range count).map fun row => states row ++ rest row).mapM (conv1d m) = some out ∧
      out.length = count ∧ ∀ row < count, ∃ columns, out[row]? = some columns ∧ columns.length = width := by
  have each : ∀ columns ∈ (List.range count).map (fun row => states row ++ rest row),
      ∃ out, conv1d m columns = some out ∧ out.length = width := by
    intro columns member
    obtain ⟨row,inside,rfl⟩ := List.mem_map.mp member
    have below := List.mem_range.mp inside
    exact conv1d_returns m _ width (by rw [List.length_append,wide row below,full row below])
  obtain ⟨out,ran,length⟩ := Tensors.mapM_returns (conv1d m) _
    fun columns member => (each columns member).imp fun _ parts => parts.1
  rw [List.length_map,List.length_range] at length
  refine ⟨out,ran,length,?_⟩
  intro row below
  have read := Tensors.mapM_read _ _ _ ran row (states row ++ rest row) (by simp [below])
  obtain ⟨columns,made,count⟩ := conv1d_returns m (states row ++ rest row) width
    (by rw [List.length_append,wide row below,full row below])
  exact ⟨columns,by rw [read,made],count⟩

omit [AddCommMonoid K] [Mul K] in
theorem squeezed (columns : List (Column K channels)) (single : columns.length = 1) :
    ∃ column, squeeze columns = some column := by
  match columns, single with
  | [column], _ => exact ⟨column,rfl⟩

end

theorem setBoth_cache (cache : Nat → List α) (rows : Rows) (next snapshot : Nat → List α) :
    ((setRows cache ((List.range rows.count).map rows.source) ((List.range rows.count).map next)).bind fun cache =>
      trackedCache cache (some ((List.range rows.count).map rows.target,(List.range rows.count).map snapshot))) =
        some (rows.written cache next snapshot) := by
  rw [setRows_range,Option.bind_some,trackedCache]
  exact setRows_range _ _ _ _

section
variable {K : Type} {channels : Nat} [AddCommMonoid K] [Mul K] {fusion : Bool} {mambaIndices : Nat → Nat}
  {context : Nat → List Long} {inputIds : List Long} {fb : ForwardBatch} {ngramSize : Nat} {eos : Long}
  {batch : PleBatch} (prepared : Prepared fusion mambaIndices context inputIds fb ngramSize eos batch)
include prepared

omit [Mul K] in
theorem fastState_exact (fused : FusedConv K channels) (agrees : fused.Agrees) (decoding : isDecode batch.mode = true)
    (mode : batch.mode.isTargetVerify = false) (x : List (Column K channels))
    (whole : x.length = batch.processedTokens) (cache : Nat → List (Column K channels)) :
    fastState fused batch x cache = some
      ((List.range batch.lengths.length).map fun row =>
        cache (slotOf fb mambaIndices batch row) ++ PleBatch.rest batch x (fun _ => 0) row,
      Tensors.put cache ((List.range batch.lengths.length).map fun row => (slotOf fb mambaIndices batch row,
        Windows.advance (cache (slotOf fb mambaIndices batch row)) (PleBatch.rest batch x (fun _ => 0) row)
          batch.rowWidth))) := by
  obtain ⟨ones,single⟩ := prepared.decoded decoding
  have count := congrArg List.length ones
  rw [List.length_replicate] at count
  have states : batch.stateIndices.map cache =
      (List.range batch.lengths.length).map fun row => cache (slotOf fb mambaIndices batch row) := by
    rw [prepared.slots,List.map_map]
    rfl
  have padded := fast_padded prepared decoding x whole (fun _ => 0)
  have dropped := fast_windows prepared mode x whole (fun _ => 0)
    (fun row => cache (slotOf fb mambaIndices batch row))
  unfold fastState
  split
  · rename_i fusing
    rw [agrees cache batch.stateIndices x (by simp [prepared.slots,whole,count]) fusing,states,padded,
      List.zipWith_map,List.zipWith_self,← single,dropped,prepared.slots,List.zip_map']
  · rw [states,padded,catRows_range]
    simp only [Option.bind_eq_bind,Option.bind_some,dropped,prepared.slots,setRows_range,Option.pure_def]

section
variable (m : DepthwiseConv K channels) (mode : batch.mode.isTargetVerify = false) (x : List (Column K channels))
  (whole : x.length = batch.processedTokens) (state : Nat → List (Column K channels))
  (wide : ∀ row, (state row).length = m.stateLen)
include mode whole wide

theorem fast_outputs (decoding : isDecode batch.mode = true) : ∃ output,
    ((List.range batch.lengths.length).map fun row => state row ++ PleBatch.rest batch x (fun _ => 0) row).mapM
      (fun columns => (conv1d m columns).bind squeeze) = some output := by
  obtain ⟨_,single⟩ := prepared.decoded decoding
  obtain ⟨output,squeezes,_⟩ := Tensors.mapM_returns (fun columns => (conv1d m columns).bind squeeze)
    ((List.range batch.lengths.length).map fun row => state row ++ PleBatch.rest batch x (fun _ => 0) row) (by
    intro columns member
    obtain ⟨row,_,rfl⟩ := List.mem_map.mp member
    obtain ⟨columns,made,length⟩ := conv1d_returns m (state row ++ PleBatch.rest batch x (fun _ => 0) row) batch.rowWidth
      (by rw [List.length_append,wide,rest_length prepared mode x whole])
    obtain ⟨column,found⟩ := squeezed columns (by rw [length,single])
    exact ⟨column,by rw [made,Option.bind_some,found]⟩)
  exact ⟨output,squeezes⟩

theorem general_outputs : ∃ outputs output,
    ((List.range batch.lengths.length).map fun row => state row ++ PleBatch.rest batch x (fun _ => 0) row).mapM
      (conv1d m) = some outputs ∧ gatherTokens outputs batch.reqIndices batch.tokenOffsets = some output := by
  obtain ⟨outputs,convolved,_,outputs_wide⟩ := rows_convolve m batch.lengths.length batch.rowWidth state
    (PleBatch.rest batch x fun _ => 0) (fun row _ => wide row) (fun row _ => rest_length prepared mode x whole _ row)
  obtain ⟨output,picked,_⟩ := gatherTokens_returns outputs batch.reqIndices batch.tokenOffsets (by
    intro place member
    obtain ⟨p,bound,rfl⟩ := List.mem_iff_getElem.mp member
    have rowsAt : batch.reqIndices = _ := prepared.laid.rows
    have offsetsAt : batch.tokenOffsets = _ := prepared.laid.offsets
    have below : p < batch.widths.sum := by
      rw [List.length_zip,rowsAt,List.length_map,List.length_range] at bound
      omega
    obtain ⟨size,found,above,last⟩ := blockOf_within batch.widths p below
    obtain ⟨short,_⟩ := List.getElem?_eq_some_iff.mp found
    rw [prepared.laid.count] at short
    obtain ⟨columns,read,length⟩ := outputs_wide _ short
    have narrow := prepared.narrow size (List.mem_of_getElem? found)
    refine ⟨columns,?_,?_⟩
    · simpa [rowsAt] using read
    · simp only [List.getElem_zip,offsetsAt,List.getElem_map,List.getElem_range]
      omega)
  exact ⟨outputs,output,convolved,picked⟩

end

section
variable (fused : FusedConv K channels) (agrees : fused.Agrees) (m : DepthwiseConv K channels)
  (mode : batch.mode.isTargetVerify = false) (rows : Rows) (apart : rows.Apart)
  (count : rows.count = batch.lengths.length) (source : slotOf fb mambaIndices batch = rows.source) (aligned : List Int)
  (targets : pleTrackTargets fb batch = some (some ((List.range batch.lengths.length).map rows.target,
    (List.range batch.lengths.length).map (boundary batch aligned))))
  (x : List (Column K channels)) (whole : x.length = batch.processedTokens) (pool : ConvPool K channels)
  (wide : ∀ slot, (pool.cache slot).length = m.stateLen)
include mode apart count source targets whole wide

include agrees in
theorem fastConv_settles (decoding : isDecode batch.mode = true) :
    ∃ out after, fastConv fused m fb batch x pool = some (out,after) ∧ after.intermediate = pool.intermediate ∧
      Settled rows (block batch.lengths x) (boundary batch aligned) pool.cache after.cache := by
  have state := fastState_exact prepared fused agrees decoding mode x whole pool.cache
  have dropped := fast_windows prepared mode x whole (fun _ => 0) (fun row => pool.cache (rows.source row))
  rw [source] at state
  obtain ⟨output,squeezes⟩ := fast_outputs prepared m mode x whole (fun row => pool.cache (rows.source row))
    (fun row => wide _) decoding
  have written := setRows_range (Tensors.put pool.cache ((List.range rows.count).map fun row =>
    (rows.source row,Windows.advance (pool.cache (rows.source row)) (PleBatch.rest batch x (fun _ => 0) row)
      batch.rowWidth))) rows.count rows.target fun row =>
    Windows.advance (pool.cache (rows.source row)) (PleBatch.rest batch x (fun _ => 0) row) batch.rowWidth
  rw [count] at written
  simp only [fastConv,state,squeezes,dropped,targets,trackedCache,written,Option.bind_eq_bind,Option.bind_some,
    Option.map_some,Option.pure_def]
  refine ⟨_,_,rfl,rfl,?_⟩
  rw [← count]
  exact fast_settles prepared mode rows apart aligned x whole (fun _ => 0) pool.cache decoding count

theorem generalConv_settles :
    ∃ out after, generalConv m fb batch x pool = some (out,after) ∧ after.intermediate = pool.intermediate ∧
      Settled rows (block batch.lengths x) (boundary batch aligned) pool.cache after.cache := by
  have padded := general_padded prepared mode x whole (fun _ => 0)
  have joined := catRows_range batch.lengths.length (fun row => pool.cache (rows.source row))
    (PleBatch.rest batch x fun _ => 0)
  have next := general_windows batch x (fun _ => 0) (fun row => pool.cache (rows.source row)) m.stateLen
    (fun row _ => wide _) (fun row => batch.lengths.getD row 0)
    fun row _ => Nat.le_of_eq (block_full prepared mode x whole row).symm
  have snapshot := general_windows batch x (fun _ => 0) (fun row => pool.cache (rows.source row)) m.stateLen
    (fun row _ => wide _) (boundary batch aligned) fun row _ => boundary_inside prepared mode aligned _ whole row
  rw [← read_back] at next
  have slots : batch.stateIndices = (List.range batch.lengths.length).map rows.source := by
    rw [prepared.slots,source]
  have states : batch.stateIndices.map pool.cache =
      (List.range batch.lengths.length).map fun row => pool.cache (rows.source row) := by
    rw [slots,List.map_map]
    rfl
  obtain ⟨outputs,output,convolved,picked⟩ := general_outputs prepared m mode x whole
    (fun row => pool.cache (rows.source row)) fun row => wide _
  have written := setBoth_cache pool.cache rows (fun row =>
    Windows.advance (pool.cache (rows.source row)) (PleBatch.rest batch x (fun _ => 0) row)
      (batch.lengths.getD row 0)) fun row =>
    Windows.advance (pool.cache (rows.source row)) (PleBatch.rest batch x (fun _ => 0) row)
      (boundary batch aligned row)
  obtain ⟨cache,first,second⟩ := Option.bind_eq_some_iff.mp written
  rw [count,← slots] at first
  rw [count] at second
  simp only [generalConv,padded,states,joined,convolved,generalState,mode,next,first,targets,snapshotAt,snapshot,second,
    picked,Bool.false_eq_true,if_false,Option.bind_eq_bind,Option.bind_some,Option.map_some,Option.pure_def]
  exact ⟨_,_,rfl,rfl,general_settles prepared mode rows apart aligned x whole (fun _ => 0) pool.cache⟩

end

theorem states_settle (fused : FusedConv K channels) (agrees : fused.Agrees) (m : DepthwiseConv K channels)
    (mode : batch.mode.isTargetVerify = false) (trackIndices : List Nat) (trackMask : List Bool) (aligned : List Int)
    (tracked : Tracked fb batch trackIndices trackMask aligned)
    (apart : (rowsOf fb mambaIndices batch trackIndices trackMask).Apart) (x : List (Column K channels))
    (whole : x.length = batch.processedTokens) (pool : ConvPool K channels)
    (wide : ∀ slot, (pool.cache slot).length = m.stateLen) :
    ∃ out after, shortConv fused m fb batch x pool = some (out,after) ∧ after.intermediate = pool.intermediate ∧
      Settled (rowsOf fb mambaIndices batch trackIndices trackMask) (block batch.lengths x) (boundary batch aligned)
        pool.cache after.cache := by
  have targets := targets_exact fb mambaIndices batch trackIndices trackMask aligned tracked
  unfold shortConv
  by_cases empty : x = []
  · rw [if_pos empty]
    have none : batch.processedTokens = 0 := by rw [← whole,empty]; rfl
    exact ⟨x,pool,rfl,rfl,unwritten_settled _ _ _ _ fun row _ => empty_dead prepared none mode row⟩
  · rw [if_neg empty]
    cases fusing : batch.useDecodeFastPath with
    | true =>
        rw [if_pos rfl]
        exact fastConv_settles prepared fused agrees m mode _ apart rfl rfl aligned targets x whole pool wide
          (fast_decodes prepared fusing)
    | false =>
        rw [if_neg Bool.false_ne_true]
        exact generalConv_settles prepared m mode _ apart rfl rfl aligned targets x whole pool wide

end

end OneSpark.ShortConv
