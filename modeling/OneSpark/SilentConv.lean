import OneSpark.ShortConv

namespace OneSpark.SilentConv
open RingSlots PleLayout PleCommit ShortConv

def Every (P : α → Prop) (rows : List (List α)) : Prop := ∀ row ∈ rows, ∀ column ∈ row, P column

section
variable {α : Type} (P : α → Prop)

theorem setRows_every (pool after : Nat → List α) (indices : List Nat) (rows : List (List α))
    (before : ∀ slot, ∀ column ∈ pool slot, P column) (every : Every P rows)
    (ran : setRows pool indices rows = some after) : ∀ slot, ∀ column ∈ after slot, P column := by
  unfold setRows at ran
  split at ran
  · cases ran
    exact fun slot => Tensors.put_each (fun window => ∀ column ∈ window, P column) pool _ before
      (fun row member => every row.2 (List.of_mem_zip member).2) slot
  · cases ran

theorem catRows_every (states padded out : List (List α)) (first : Every P states) (second : Every P padded)
    (ran : catRows states padded = some out) : Every P out := by
  unfold catRows at ran
  split at ran
  · cases ran
    intro row member column inside
    obtain ⟨i,bound,rfl⟩ := List.mem_iff_getElem.mp member
    rw [List.getElem_zipWith] at inside
    rcases List.mem_append.mp inside with left | right
    · exact first _ (List.getElem_mem _) column left
    · exact second _ (List.getElem_mem _) column right
  · cases ran

theorem drop_every (rows : List (List α)) (every : Every P rows) (count : Nat) : Every P (rows.map (·.drop count)) := by
  intro row member column inside
  obtain ⟨window,old,rfl⟩ := List.mem_map.mp member
  exact every window old column (List.mem_of_mem_drop inside)

theorem gatherAt_every (windows out : List (List α)) (offsets : List Nat) (width : Nat) (every : Every P windows)
    (ran : gatherAt windows offsets width = some out) : Every P out := by
  unfold gatherAt at ran
  split at ran
  · intro row member column inside
    obtain ⟨pair,old,sliced⟩ := Tensors.mapM_member _ _ _ ran row member
    unfold Windows.slice at sliced
    split at sliced
    · cases sliced
      exact every pair.1 (List.of_mem_zip old).1 column (List.mem_of_mem_drop (List.mem_of_mem_take inside))
    · cases sliced
  · cases ran

theorem trackedCache_every (cache after : Nat → List α) (track : Option (List Nat × List (List α)))
    (before : ∀ slot, ∀ column ∈ cache slot, P column)
    (every : ∀ targets, track = some targets → Every P targets.2) (ran : trackedCache cache track = some after) :
    ∀ slot, ∀ column ∈ after slot, P column := by
  unfold trackedCache at ran
  cases track with
  | none =>
      cases ran
      exact before
  | some targets => exact setRows_every P cache after targets.1 targets.2 before (every targets rfl) ran

theorem snapshotAt_every (windows : List (List α)) (width : Nat) (track : Option (List Nat × List Nat))
    (every : Every P windows) (snapshot : Option (List Nat × List (List α)))
    (ran : snapshotAt windows width track = some snapshot) :
    ∀ targets, snapshot = some targets → Every P targets.2 := by
  unfold snapshotAt at ran
  cases track with
  | none =>
      cases ran
      intro targets none
      cases none
  | some pair =>
      obtain ⟨rows,gathered,same⟩ := Option.map_eq_some_iff.mp ran
      cases same
      intro targets named
      cases named
      exact gatherAt_every P windows rows pair.2 width every gathered

theorem indexPut_every (sequenceCount rowWidth : Nat) (fill : α) (rows offsets : List Nat) (values : List α)
    (filled : P fill) (each : ∀ value ∈ values, P value) (out : List (List α))
    (ran : indexPut sequenceCount rowWidth fill rows offsets values = some out) : Every P out := by
  unfold indexPut at ran
  simp only at ran
  split at ran
  · cases ran
    intro row member column inside
    obtain ⟨h,_,rfl⟩ := List.mem_map.mp member
    obtain ⟨k,_,rfl⟩ := List.mem_map.mp inside
    exact Tensors.put_each P _ _ (fun _ => filled) (fun write old => each write.2 (List.of_mem_zip old).2) (h,k)
  · cases ran

theorem gatherTokens_every (output : List (List α)) (rows offsets : List Nat) (out : List α) (every : Every P output)
    (ran : gatherTokens output rows offsets = some out) : ∀ column ∈ out, P column := by
  intro column member
  obtain ⟨place,_,found⟩ := Tensors.mapM_member _ _ _ ran column member
  obtain ⟨row,rowAt,columnAt⟩ := Option.bind_eq_some_iff.mp found
  exact every row (List.mem_of_getElem? rowAt) column (List.mem_of_getElem? columnAt)

theorem maskSteps_every (valid : List (List Bool)) (steps out : List (List (List α))) (fill : List α)
    (filled : ∀ column ∈ fill, P column) (every : ∀ windows ∈ steps, Every P windows)
    (ran : maskSteps valid steps fill = some out) : ∀ windows ∈ out, Every P windows := by
  unfold maskSteps at ran
  split at ran
  · cases ran
    intro windows member window inside column last
    obtain ⟨i,_,rfl⟩ := List.mem_iff_getElem.mp member
    rw [List.getElem_zipWith] at inside
    obtain ⟨j,_,rfl⟩ := List.mem_iff_getElem.mp inside
    rw [List.getElem_zipWith] at last
    split at last
    · exact every _ (List.getElem_mem _) _ (List.getElem_mem _) column last
    · exact filled column last
  · cases ran

end

section
variable {K : Type} {channels : Nat} [Semiring K]

structure Quiet (pool : ConvPool K channels) : Prop where
  cache : ∀ slot, ∀ column ∈ pool.cache slot, column = 0
  intermediate : ∀ states, pool.intermediate = some states → ∀ row step, ∀ column ∈ states row step, column = 0

theorem conv1d_silent (m : DepthwiseConv K channels) (columns out : List (Column K channels))
    (silent : ∀ column ∈ columns, column = 0) (ran : conv1d m columns = some out) : ∀ column ∈ out, column = 0 := by
  intro column member
  obtain ⟨time,_,made⟩ := Tensors.mapM_member _ _ _ ran column member
  obtain ⟨taps,read,same⟩ := Option.bind_eq_some_iff.mp made
  cases same
  funext channel
  apply List.sum_eq_zero
  intro term inside
  obtain ⟨i,bound,rfl⟩ := List.mem_iff_getElem.mp inside
  rw [List.getElem_zipWith]
  have inside : i < taps.length := by
    rw [List.length_zipWith] at bound
    omega
  obtain ⟨tap,_,found⟩ := Tensors.mapM_member _ _ _ read taps[i] (List.getElem_mem inside)
  rw [silent _ (List.mem_of_getElem? found)]
  exact mul_zero _

theorem activated_silent (m : DepthwiseConv K channels) (still : m.silu 0 = 0) (output : List (Column K channels))
    (silent : ∀ column ∈ output, column = 0) : ∀ column ∈ activated m output, column = 0 := by
  intro column member
  obtain ⟨source,old,rfl⟩ := List.mem_map.mp member
  rw [silent source old]
  funext channel
  exact still

theorem fastState_silent (fused : FusedConv K channels) (agrees : fused.Agrees) (batch : PleBatch)
    (x : List (Column K channels)) (count : batch.stateIndices.length = x.length)
    (silent : ∀ column ∈ x, column = 0) (cache : Nat → List (Column K channels))
    (quiet : ∀ slot, ∀ column ∈ cache slot, column = 0) (rows : List (List (Column K channels)))
    (after : Nat → List (Column K channels)) (ran : fastState fused batch x cache = some (rows,after)) :
    Every (· = 0) rows ∧ ∀ slot, ∀ column ∈ after slot, column = 0 := by
  have states : Every (· = 0) (batch.stateIndices.map cache) := by
    intro row member
    obtain ⟨slot,_,rfl⟩ := List.mem_map.mp member
    exact quiet slot
  have singles : Every (· = 0) (x.map fun column => [column]) := by
    intro row member
    obtain ⟨column,old,rfl⟩ := List.mem_map.mp member
    simpa using silent column old
  have joined : ∀ out, catRows (batch.stateIndices.map cache) (x.map fun column => [column]) = some out →
      Every (· = 0) out := fun out => catRows_every _ _ _ out states singles
  unfold fastState at ran
  split at ran
  · rename_i fusing
    rw [agrees cache batch.stateIndices x count fusing] at ran
    cases ran
    have input := joined _ (if_pos (by simp [count]))
    have written := setRows_every (· = 0) cache _ batch.stateIndices _ quiet (drop_every _ _ input 1)
      (if_pos (by simp [count]))
    exact ⟨input,written⟩
  · obtain ⟨input,made,ran⟩ := Option.bind_eq_some_iff.mp ran
    obtain ⟨written,set,same⟩ := Option.bind_eq_some_iff.mp ran
    cases same
    exact ⟨joined _ made,setRows_every _ cache _ _ _ quiet (drop_every _ _ (joined _ made) batch.rowWidth) set⟩

theorem fastConv_silent (fused : FusedConv K channels) (agrees : fused.Agrees) (m : DepthwiseConv K channels)
    (still : m.silu 0 = 0) (fb : ForwardBatch) (batch : PleBatch) (x out : List (Column K channels))
    (count : batch.stateIndices.length = x.length) (silent : ∀ column ∈ x, column = 0) (pool after : ConvPool K channels)
    (quiet : Quiet pool)
    (ran : fastConv fused m fb batch x pool = some (out,after)) : (∀ column ∈ out, column = 0) ∧ Quiet after := by
  unfold fastConv at ran
  obtain ⟨⟨rows,cache⟩,state,ran⟩ := Option.bind_eq_some_iff.mp ran
  obtain ⟨output,convolved,ran⟩ := Option.bind_eq_some_iff.mp ran
  obtain ⟨track,_,ran⟩ := Option.bind_eq_some_iff.mp ran
  obtain ⟨written,set,same⟩ := Option.bind_eq_some_iff.mp ran
  cases same
  obtain ⟨input,kept⟩ := fastState_silent fused agrees batch x count silent pool.cache quiet.cache rows cache state
  refine ⟨activated_silent m still output ?_,?_,quiet.intermediate⟩
  · intro column member
    obtain ⟨row,old,made⟩ := Tensors.mapM_member _ _ _ convolved column member
    obtain ⟨columns,ran,squeezed⟩ := Option.bind_eq_some_iff.mp made
    have zeros := conv1d_silent m row columns (input row old) ran
    unfold squeeze at squeezed
    split at squeezed
    · cases squeezed
      exact zeros column (by simp)
    · cases squeezed
  · apply trackedCache_every (· = 0) cache written _ kept ?_ set
    intro targets named
    obtain ⟨pair,_,rfl⟩ := Option.map_eq_some_iff.mp named
    exact drop_every _ rows input batch.rowWidth

theorem verifyStates_silent (m : DepthwiseConv K channels) (batch : PleBatch) (rows : List (List (Column K channels)))
    (silent : Every (· = 0) rows) (states : List (List (List (Column K channels))))
    (ran : verifyStates m batch rows = some states) : ∀ windows ∈ states, Every (· = 0) windows := by
  unfold verifyStates at ran
  obtain ⟨marks,_,masked⟩ := Option.bind_eq_some_iff.mp ran
  apply maskSteps_every (· = 0) marks _ states _ ?_ ?_ masked
  · intro column member
    exact List.eq_of_mem_replicate member
  · intro windows member window inside column last
    obtain ⟨row,old,rfl⟩ := List.mem_map.mp member
    split at inside
    · rw [List.eq_of_mem_replicate inside] at last
      cases last
    · obtain ⟨start,_,rfl⟩ := List.mem_map.mp (List.mem_of_mem_drop (List.mem_of_mem_take inside))
      exact silent row old column (List.mem_of_mem_drop (List.mem_of_mem_take last))

theorem generalState_silent (m : DepthwiseConv K channels) (fb : ForwardBatch) (batch : PleBatch)
    (rows : List (List (Column K channels))) (silent : Every (· = 0) rows) (pool after : ConvPool K channels)
    (quiet : Quiet pool) (ran : generalState m fb batch rows pool = some after) : Quiet after := by
  unfold generalState at ran
  split at ran
  · split at ran
    · cases ran
      exact quiet
    · rename_i old stored
      obtain ⟨states,made,same⟩ := Option.bind_eq_some_iff.mp ran
      cases same
      have zeros := verifyStates_silent m batch rows silent states made
      refine ⟨quiet.cache,?_⟩
      intro written named
      cases named
      intro row step column member
      unfold copySteps at member
      split at member
      · rename_i state found
        obtain ⟨windows,rowAt,stepAt⟩ := Option.bind_eq_some_iff.mp found
        exact zeros windows (List.mem_of_getElem? rowAt) state (List.mem_of_getElem? stepAt) column member
      · exact quiet.intermediate old stored row step column member
  · obtain ⟨next,gathered,ran⟩ := Option.bind_eq_some_iff.mp ran
    obtain ⟨cache,set,ran⟩ := Option.bind_eq_some_iff.mp ran
    obtain ⟨track,_,ran⟩ := Option.bind_eq_some_iff.mp ran
    obtain ⟨snapshot,taken,ran⟩ := Option.bind_eq_some_iff.mp ran
    obtain ⟨written,stored,same⟩ := Option.bind_eq_some_iff.mp ran
    cases same
    have kept := setRows_every (· = 0) pool.cache cache _ _ quiet.cache
      (gatherAt_every (· = 0) rows next _ _ silent gathered) set
    exact ⟨trackedCache_every (· = 0) cache written snapshot kept
      (snapshotAt_every (· = 0) rows _ track silent snapshot taken) stored,quiet.intermediate⟩

theorem generalConv_silent (m : DepthwiseConv K channels) (still : m.silu 0 = 0) (fb : ForwardBatch) (batch : PleBatch)
    (x out : List (Column K channels)) (silent : ∀ column ∈ x, column = 0) (pool after : ConvPool K channels)
    (quiet : Quiet pool) (ran : generalConv m fb batch x pool = some (out,after)) :
    (∀ column ∈ out, column = 0) ∧ Quiet after := by
  unfold generalConv at ran
  obtain ⟨padded,put,ran⟩ := Option.bind_eq_some_iff.mp ran
  obtain ⟨rows,joined,ran⟩ := Option.bind_eq_some_iff.mp ran
  obtain ⟨outputs,convolved,ran⟩ := Option.bind_eq_some_iff.mp ran
  obtain ⟨next,stored,ran⟩ := Option.bind_eq_some_iff.mp ran
  obtain ⟨output,gathered,same⟩ := Option.bind_eq_some_iff.mp ran
  cases same
  have states : Every (· = 0) (batch.stateIndices.map pool.cache) := by
    intro row member
    obtain ⟨slot,_,rfl⟩ := List.mem_map.mp member
    exact quiet.cache slot
  have input := catRows_every (· = 0) _ _ rows states (indexPut_every (· = 0) _ _ _ _ _ x rfl silent padded put) joined
  have zeros : Every (· = 0) outputs := by
    intro columns member
    obtain ⟨row,old,made⟩ := Tensors.mapM_member _ _ _ convolved columns member
    exact conv1d_silent m row columns (input row old) made
  exact ⟨activated_silent m still output (gatherTokens_every _ _ _ _ output zeros gathered),
    generalState_silent m fb batch rows input pool _ quiet stored⟩

theorem shortConv_silent (fused : FusedConv K channels) (agrees : fused.Agrees) (m : DepthwiseConv K channels)
    (still : m.silu 0 = 0) (fb : ForwardBatch) (batch : PleBatch)
    (fast : batch.useDecodeFastPath = true → batch.rowWidth = 1 ∧ batch.stateIndices.length = batch.processedTokens)
    (x out : List (Column K channels)) (whole : x.length = batch.processedTokens) (silent : ∀ column ∈ x, column = 0)
    (pool after : ConvPool K channels) (quiet : Quiet pool)
    (ran : shortConv fused m fb batch x pool = some (out,after)) : (∀ column ∈ out, column = 0) ∧ Quiet after := by
  unfold shortConv at ran
  split at ran
  · cases ran
    exact ⟨silent,quiet⟩
  · split at ran
    · rename_i fusing
      obtain ⟨_,count⟩ := fast fusing
      exact fastConv_silent fused agrees m still fb batch x out (count.trans whole.symm) silent pool after quiet
        ran
    · exact generalConv_silent m still fb batch x out silent pool after quiet ran

end

end OneSpark.SilentConv
