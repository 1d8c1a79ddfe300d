import OneSpark.PleLayout

namespace OneSpark.PleCommit
open Longs RingSlots Blocks PleLayout

-- pool[indices] = rows, one row for each index.
def setRows (pool : Nat → List α) (indices : List Nat) (rows : List (List α)) : Option (Nat → List α) :=
  if indices.length = rows.length then some (Tensors.put pool (indices.zip rows)) else none

-- torch.cat([states, padded], dim=1)
def catRows (states padded : List (List α)) : Option (List (List α)) :=
  if states.length = padded.length then some (states.zipWith (· ++ ·) padded) else none

-- windows.gather(1, offsets.unsqueeze(1) + torch.arange(width))
def gatherAt (windows : List (List α)) (offsets : List Nat) (width : Nat) : Option (List (List α)) :=
  if windows.length = offsets.length then
    (windows.zip offsets).mapM fun row => Windows.slice row.1 row.2 width
  else none

-- row.unfold(0, size, 1)
def unfold (row : List α) (size : Nat) : List (List α) :=
  (List.range (row.length + 1 - size)).map fun start => (row.drop start).take size

def reshape (values : List α) (rows width : Nat) : Option (List (List α)) :=
  if values.length = rows * width then
    some ((List.range rows).map fun row => (values.drop (row * width)).take width)
  else none

-- torch.where(valid_steps, steps, fill) on tensors of one shape.
def maskSteps (valid : List (List Bool)) (steps : List (List (List α))) (fill : List α) :
    Option (List (List (List α))) :=
  if valid.map List.length = steps.map List.length then
    some (valid.zipWith (fun marks windows => marks.zipWith (fun kept window => if kept then window else fill) windows)
      steps)
  else none

-- output[req_indices, token_offsets]
def gatherTokens (output : List (List α)) (rows offsets : List Nat) : Option (List α) :=
  (rows.zip offsets).mapM fun place => output[place.1]?.bind (·[place.2]?)

-- Destination slots and gather offsets of the track snapshot. The outer none is an
-- exception, the inner none says that nothing is tracked.
def pleTrackTargets (fb : ForwardBatch) (batch : PleBatch) : Option (Option (List Nat × List Nat)) :=
  match fb.mambaTrackIndices, fb.mambaTrackMask with
  | some trackIndices, some trackMask => do
      let rows := batch.lengths.length
      let dst ← redirect (trackMask.take rows) (trackIndices.take rows)
      if isDecode batch.mode then some (some (dst,batch.lengths))
      else match fb.mambaTrackAlignedLens with
        | none => some none
        | some aligned =>
            let offsets := (aligned.take rows).map fun (n : Int) => (max n 0).toNat
            if offsets.length = rows then some (some (dst,offsets.zipWith min batch.lengths)) else none
  | _, _ => some none

-- get_req_to_token_pool(), not part of the repository: its accessors over its own state.
structure RequestPool (σ : Type) where
  mambaIndices : σ → Nat → Nat
  ngramContext : σ → Nat → List Long
  ngramIntermediate : σ → Nat → Nat → List Long
  setNgramContext : σ → List Nat → List (List Long) → σ
  setNgramIntermediateContext : σ → List (List (List Long)) → σ

-- What an accessor named after a cache does: a context lands in its slot, an
-- intermediate context at its row and step, and nothing else moves.
structure RequestPool.Stores (pool : RequestPool σ) : Prop where
  context : ∀ state indices rows, indices.length = rows.length →
    pool.ngramContext (pool.setNgramContext state indices rows) =
      Tensors.put (pool.ngramContext state) (indices.zip rows)
  contextKeeps : ∀ state indices rows, pool.mambaIndices (pool.setNgramContext state indices rows) =
    pool.mambaIndices state
  intermediate : ∀ state rows row steps step window, rows[row]? = some steps → steps[step]? = some window →
    pool.ngramIntermediate (pool.setNgramIntermediateContext state rows) row step = window
  intermediateKeeps : ∀ state rows,
    pool.ngramContext (pool.setNgramIntermediateContext state rows) = pool.ngramContext state ∧
      pool.mambaIndices (pool.setNgramIntermediateContext state rows) = pool.mambaIndices state

def stepContexts (context : List (List Long)) (contextLen : Nat) : List (List (List Long)) :=
  context.map fun row => (unfold row contextLen).drop 1

def setBoth (pool : RequestPool σ) (state : σ) (stateIndices : List Nat) (next : List (List Long))
    (track : Option (List Nat × List (List Long))) : σ :=
  let state := pool.setNgramContext state stateIndices next
  match track with
  | none => state
  | some (trackIndices, snapshot) => pool.setNgramContext state trackIndices snapshot

def snapshotAt (context : List (List α)) (contextLen : Nat) (track : Option (List Nat × List Nat)) :
    Option (Option (List Nat × List (List α))) :=
  match track with
  | none => some none
  | some (trackIndices, offsets) => (gatherAt context offsets contextLen).map fun rows => some (trackIndices,rows)

def commitPleBatch (pool : RequestPool σ) (batch : Option PleBatch) (fb : ForwardBatch) (state : σ) : Option σ :=
  match batch with
  | none => some state
  | some batch =>
    match batch.ngramContext with
    | none => some state
    | some context =>
      if batch.processedTokens = 0 then some state else
      -- context.shape[1] - row_width
      let contextLen := (context.headD []).length - batch.rowWidth
      if batch.mode.isTargetVerify then do
        let validSteps ← reshape batch.validTokens batch.lengths.length batch.rowWidth
        let eos ← batch.ngramEosTokenId
        let rows ← maskSteps validSteps (stepContexts context contextLen) (List.replicate contextLen eos)
        return pool.setNgramIntermediateContext state rows
      else if batch.useDecodeFastPath then do
        let next := context.map (·.drop batch.rowWidth)
        let track ← pleTrackTargets fb batch
        return setBoth pool state batch.stateIndices next (track.map fun targets => (targets.1,next))
      else do
        let next ← gatherAt context batch.lengths contextLen
        let track ← pleTrackTargets fb batch
        let snapshot ← snapshotAt context contextLen track
        return setBoth pool state batch.stateIndices next snapshot

theorem gatherTokens_returns (output : List (List α)) (rows offsets : List Nat)
    (inside : ∀ place ∈ rows.zip offsets, ∃ row, output[place.1]? = some row ∧ place.2 < row.length) :
    ∃ out, gatherTokens output rows offsets = some out ∧ out.length = (rows.zip offsets).length := by
  apply Tensors.mapM_returns
  intro place member
  obtain ⟨row,found,below⟩ := inside place member
  exact ⟨row[place.2],by rw [found,Option.bind_some,List.getElem?_eq_getElem below]⟩

-- A row's working slot and, when the mask says so, its track slot.
structure Rows where
  count : Nat
  live : Nat → Bool
  working : Nat → Nat
  masked : Nat → Bool
  track : Nat → Nat

-- The slots the rows name are their own; the reserved slot is nobody's.
structure Rows.Apart (rows : Rows) : Prop where
  workingNonzero : ∀ row < rows.count, rows.live row = true → rows.working row ≠ 0
  workingApart : ∀ row < rows.count, ∀ other < rows.count, rows.live row = true → rows.live other = true →
    rows.working row = rows.working other → row = other
  trackNonzero : ∀ row < rows.count, rows.masked row = true → rows.track row ≠ 0
  trackApart : ∀ row < rows.count, ∀ other < rows.count, rows.masked row = true → rows.masked other = true →
    rows.track row = rows.track other → row = other
  split : ∀ row < rows.count, ∀ other < rows.count, rows.live row = true → rows.masked other = true →
    rows.working row ≠ rows.track other

def Rows.source (rows : Rows) (row : Nat) : Nat := if rows.live row then rows.working row else 0
def Rows.target (rows : Rows) (row : Nat) : Nat := if rows.masked row then rows.track row else 0

def Rows.written (rows : Rows) (pool : Nat → α) (next snapshot : Nat → α) : Nat → α :=
  Tensors.put (Tensors.put pool ((List.range rows.count).map fun row => (rows.source row,next row)))
    ((List.range rows.count).map fun row => (rows.target row,snapshot row))

section
variable (rows : Rows) (apart : rows.Apart) (pool next snapshot : Nat → α)

include apart in
theorem written_working (row : Nat) (inside : row < rows.count) (live : rows.live row = true) :
    rows.written pool next snapshot (rows.working row) = next row := by
  unfold Rows.written
  rw [Tensors.put_other]
  · apply Tensors.put_agreed _ _ _ _ ⟨_,List.mem_map_of_mem (List.mem_range.mpr inside),by simp [Rows.source,live]⟩
    intro write member same
    obtain ⟨other,bound,rfl⟩ := List.mem_map.mp member
    have below := List.mem_range.mp bound
    cases alive : rows.live other with
    | false =>
        rw [Rows.source,alive] at same
        exact absurd same.symm (apart.workingNonzero row inside live)
    | true =>
        rw [Rows.source,alive,if_pos rfl] at same
        rw [apart.workingApart other below row inside alive live same]
  · intro write member
    obtain ⟨other,bound,rfl⟩ := List.mem_map.mp member
    have below := List.mem_range.mp bound
    cases marked : rows.masked other with
    | false =>
        rw [Rows.target,marked]
        exact Ne.symm (apart.workingNonzero row inside live)
    | true =>
        rw [Rows.target,marked,if_pos rfl]
        exact Ne.symm (apart.split row inside other below live marked)

include apart in
theorem written_track (row : Nat) (inside : row < rows.count) (masked : rows.masked row = true) :
    rows.written pool next snapshot (rows.track row) = snapshot row := by
  unfold Rows.written
  apply Tensors.put_agreed _ _ _ _ ⟨_,List.mem_map_of_mem (List.mem_range.mpr inside),by simp [Rows.target,masked]⟩
  intro write member same
  obtain ⟨other,bound,rfl⟩ := List.mem_map.mp member
  have below := List.mem_range.mp bound
  cases marked : rows.masked other with
  | false =>
      rw [Rows.target,marked] at same
      exact absurd same.symm (apart.trackNonzero row inside masked)
  | true =>
      rw [Rows.target,marked,if_pos rfl] at same
      rw [apart.trackApart other below row inside marked masked same]

theorem written_frame (slot : Nat) (nonzero : slot ≠ 0)
    (idle : ∀ row < rows.count, rows.live row = true → rows.working row ≠ slot)
    (unmasked : ∀ row < rows.count, rows.masked row = true → rows.track row ≠ slot) :
    rows.written pool next snapshot slot = pool slot := by
  unfold Rows.written
  rw [Tensors.put_other,Tensors.put_other]
  · intro write member
    obtain ⟨row,bound,rfl⟩ := List.mem_map.mp member
    cases alive : rows.live row with
    | false =>
        rw [Rows.source,alive]
        exact Ne.symm nonzero
    | true =>
        rw [Rows.source,alive,if_pos rfl]
        exact idle row (List.mem_range.mp bound) alive
  · intro write member
    obtain ⟨row,bound,rfl⟩ := List.mem_map.mp member
    cases marked : rows.masked row with
    | false =>
        rw [Rows.target,marked]
        exact Ne.symm nonzero
    | true =>
        rw [Rows.target,marked,if_pos rfl]
        exact unmasked row (List.mem_range.mp bound) marked

end

theorem written_congr (rows : Rows) (pool next snapshot next' snapshot' : Nat → α)
    (states : ∀ row < rows.count, next row = next' row) (snapshots : ∀ row < rows.count, snapshot row = snapshot' row) :
    rows.written pool next snapshot = rows.written pool next' snapshot' := by
  have first : ((List.range rows.count).map fun row => (rows.source row,next row)) =
      (List.range rows.count).map fun row => (rows.source row,next' row) :=
    List.map_congr_left fun row member => by rw [states row (List.mem_range.mp member)]
  have second : ((List.range rows.count).map fun row => (rows.target row,snapshot row)) =
      (List.range rows.count).map fun row => (rows.target row,snapshot' row) :=
    List.map_congr_left fun row member => by rw [snapshots row (List.mem_range.mp member)]
  unfold Rows.written
  rw [first,second]

theorem setRows_range (pool : Nat → List α) (count : Nat) (index : Nat → Nat) (row : Nat → List α) :
    setRows pool ((List.range count).map index) ((List.range count).map row) =
      some (Tensors.put pool ((List.range count).map fun i => (index i,row i))) := by
  unfold setRows
  rw [if_pos (by simp),List.zip_map']

theorem catRows_range (count : Nat) (states rest : Nat → List α) :
    catRows ((List.range count).map states) ((List.range count).map rest) =
      some ((List.range count).map fun i => states i ++ rest i) := by
  unfold catRows
  rw [if_pos (by simp),List.zipWith_map,List.zipWith_self]

theorem gatherAt_range (count width : Nat) (state chunk : Nat → List α) (offsets : Nat → Nat)
    (wide : ∀ row < count, (state row).length = width) (inside : ∀ row < count, offsets row ≤ (chunk row).length) :
    gatherAt ((List.range count).map fun row => state row ++ chunk row) ((List.range count).map offsets) width =
      some ((List.range count).map fun row => Windows.advance (state row) (chunk row) (offsets row)) := by
  unfold gatherAt
  rw [if_pos (by simp),List.zip_map',List.mapM_map]
  apply Tensors.mapM_found
  intro row member
  have below := List.mem_range.mp member
  rw [← Windows.advance_slice (state row) (chunk row) (offsets row) (inside row below),wide row below]
  rfl

-- Dropping as many columns as the chunk has moves every window past its chunk.
theorem drop_range (count width : Nat) (state chunk : Nat → List α) (full : ∀ row < count, (chunk row).length = width) :
    ((List.range count).map fun row => state row ++ chunk row).map (·.drop width) =
      (List.range count).map fun row => Windows.advance (state row) (chunk row) (chunk row).length := by
  rw [List.map_map]
  apply List.map_congr_left
  intro row member
  have same := full row (List.mem_range.mp member)
  rw [Windows.advance_whole,same]
  rfl

-- A slot of a row with tokens: its working slot, or its track slot when the mask is set.
def Rows.Owned (rows : Rows) (slot : Nat) : Prop :=
  ∃ row < rows.count, rows.live row = true ∧
    (rows.working row = slot ∨ rows.masked row = true ∧ rows.track row = slot)

def Rows.Overwritten (rows : Rows) (slot : Nat) : Prop :=
  ∃ row < rows.count, rows.live row = false ∧ rows.masked row = true ∧ rows.track row = slot

-- Every row's window has taken the row's tokens one by one, its snapshot the first
-- `boundary` of them.
structure Settled (rows : Rows) (tokens : Nat → List α) (boundary : Nat → Nat) (before after : Nat → List α) :
    Prop where
  working : ∀ row < rows.count, rows.live row = true →
    after (rows.working row) = (tokens row).foldl Windows.push (before (rows.working row))
  tracked : ∀ row < rows.count, rows.live row = true → rows.masked row = true →
    after (rows.track row) = ((tokens row).take (boundary row)).foldl Windows.push (before (rows.working row))
  frame : ∀ slot ≠ 0, ¬ rows.Owned slot → ¬ rows.Overwritten slot → after slot = before slot

theorem written_settled (rows : Rows) (apart : rows.Apart) (before : Nat → List α) (tokens fill : Nat → List α)
    (boundary : Nat → Nat) (inside : ∀ row < rows.count, boundary row ≤ (tokens row).length) :
    Settled rows tokens boundary before (rows.written before
      (fun row => Windows.advance (before (rows.source row)) (tokens row ++ fill row) (tokens row).length)
      (fun row => Windows.advance (before (rows.source row)) (tokens row ++ fill row) (boundary row))) := by
  refine ⟨?_,?_,?_⟩
  · intro row bound live
    rw [written_working rows apart _ _ _ row bound live,Windows.advance_committed _ _ _ _ (Nat.le_refl _),
      List.take_length,Rows.source,live]
    rfl
  · intro row bound live masked
    rw [written_track rows apart _ _ _ row bound masked,
      Windows.advance_committed _ _ _ _ (inside row bound),Rows.source,live]
    rfl
  · intro slot nonzero unowned kept
    apply written_frame rows _ _ _ slot nonzero
    · intro row bound live same
      exact unowned ⟨row,bound,live,.inl same⟩
    · intro row bound masked same
      cases live : rows.live row with
      | false => exact kept ⟨row,bound,live,masked,same⟩
      | true => exact unowned ⟨row,bound,live,.inr ⟨masked,same⟩⟩

theorem Settled.agrees (settled : Settled rows tokens boundary before (rows.written pool next' snapshot'))
    (states : ∀ row < rows.count, next row = next' row) (snapshots : ∀ row < rows.count, snapshot row = snapshot' row) :
    Settled rows tokens boundary before (rows.written pool next snapshot) := by
  rw [written_congr rows pool next snapshot next' snapshot' states snapshots]
  exact settled

-- A pool that nothing is written to settles when no row has tokens.
theorem unwritten_settled (rows : Rows) (before : Nat → List α) (tokens : Nat → List α) (boundary : Nat → Nat)
    (dead : ∀ row < rows.count, rows.live row = false) : Settled rows tokens boundary before before := by
  refine ⟨?_,?_,fun _ _ _ _ => rfl⟩
  · intro row bound live
    rw [dead row bound] at live
    cases live
  · intro row bound live
    rw [dead row bound] at live
    cases live

structure Tracked (fb : ForwardBatch) (batch : PleBatch) (trackIndices : List Nat) (trackMask : List Bool)
    (aligned : List Int) : Prop where
  indices : fb.mambaTrackIndices = some trackIndices
  mask : fb.mambaTrackMask = some trackMask
  lens : isDecode batch.mode = false → fb.mambaTrackAlignedLens = some aligned
  indicesCover : batch.lengths.length ≤ trackIndices.length
  maskCovers : batch.lengths.length ≤ trackMask.length
  lensCover : isDecode batch.mode = false → batch.lengths.length ≤ aligned.length

def boundary (batch : PleBatch) (aligned : List Int) (row : Nat) : Nat :=
  if isDecode batch.mode then batch.lengths.getD row 0
  else min (max (aligned.getD row 0) 0).toNat (batch.lengths.getD row 0)

def rowsOf (fb : ForwardBatch) (mambaIndices : Nat → Nat) (batch : PleBatch) (trackIndices : List Nat)
    (trackMask : List Bool) : Rows where
  count := batch.lengths.length
  live := live fb batch.lengths batch.rowWidth
  working := workingSlot fb mambaIndices
  masked := fun row => trackMask.getD row false
  track := fun row => trackIndices.getD row 0

theorem targets_exact (fb : ForwardBatch) (mambaIndices : Nat → Nat) (batch : PleBatch) (trackIndices : List Nat)
    (trackMask : List Bool) (aligned : List Int) (tracked : Tracked fb batch trackIndices trackMask aligned) :
    pleTrackTargets fb batch = some (some
      ((List.range batch.lengths.length).map (rowsOf fb mambaIndices batch trackIndices trackMask).target,
        (List.range batch.lengths.length).map (boundary batch aligned))) := by
  have indices := tracked.indicesCover
  have mask := tracked.maskCovers
  have lengths : batch.lengths = (List.range batch.lengths.length).map fun row => batch.lengths.getD row 0 := by
    apply List.ext_getElem
    · simp
    · intro row bound _
      simp [bound]
  have redirected : redirect (trackMask.take batch.lengths.length) (trackIndices.take batch.lengths.length) =
      some ((List.range batch.lengths.length).map (rowsOf fb mambaIndices batch trackIndices trackMask).target) := by
    unfold redirect
    rw [if_pos (by simp [indices,mask])]
    congr 1
    apply List.ext_getElem
    · simp [indices,mask]
    · intro row bound _
      have inside : row < batch.lengths.length := by simp at bound; omega
      have first : row < trackMask.length := by omega
      have second : row < trackIndices.length := by omega
      simp [Rows.target,rowsOf,first,second]
  unfold pleTrackTargets
  simp only [tracked.indices,tracked.mask,redirected,Option.bind_eq_bind,Option.bind_some]
  by_cases decoding : isDecode batch.mode = true
  · rw [if_pos decoding]
    congr 3
    conv_lhs => rw [lengths]
    apply List.map_congr_left
    intro row _
    rw [boundary,if_pos decoding]
  · rw [if_neg decoding]
    have cover := tracked.lensCover (by simpa using decoding)
    rw [tracked.lens (by simpa using decoding)]
    simp only [List.length_map,List.length_take,Nat.min_eq_left cover,if_true]
    congr 3
    apply List.ext_getElem
    · simp [cover]
    · intro row bound _
      have inside : row < batch.lengths.length := by simp at bound; omega
      have other : row < aligned.length := by omega
      simp [boundary,decoding,inside,other]

theorem live_positive (fb : ForwardBatch) (lengths : List Nat) (rowWidth row : Nat)
    (alive : live fb lengths rowWidth row = true) : row < lengths.length ∧ 0 < lengths.getD row 0 := by
  unfold live at alive
  rw [Bool.and_eq_true,bne_iff_ne] at alive
  refine ⟨?_,by omega⟩
  by_contra outside
  rw [List.getD_eq_getElem?_getD,List.getElem?_eq_none (by omega)] at alive
  exact alive.1 rfl

theorem widths_plain (batch : PleBatch) (mode : batch.mode.isTargetVerify = false) : batch.widths = batch.lengths := by
  simp [PleBatch.widths,mode]

theorem read_back (values : List Nat) : values = (List.range values.length).map fun i => values.getD i 0 := by
  apply List.ext_getElem
  · simp
  · intro i bound _
    simp [bound]

def PleBatch.rest (batch : PleBatch) (values : List α) (fill : α) (row : Nat) : List α :=
  block batch.lengths values row ++ List.replicate (batch.rowWidth - batch.lengths.getD row 0) fill

-- The general path gathers the windows at the rows' lengths, then at their boundaries.
theorem general_windows (batch : PleBatch) (values : List α) (fill : α) (state : Nat → List α) (width : Nat)
    (wide : ∀ row < batch.lengths.length, (state row).length = width) (offsets : Nat → Nat)
    (inside : ∀ row < batch.lengths.length, offsets row ≤ (block batch.lengths values row).length) :
    gatherAt ((List.range batch.lengths.length).map fun row => state row ++ PleBatch.rest batch values fill row)
      ((List.range batch.lengths.length).map offsets) width =
      some ((List.range batch.lengths.length).map fun row =>
        Windows.advance (state row) (PleBatch.rest batch values fill row) (offsets row)) := by
  apply gatherAt_range _ _ _ _ _ wide
  intro row below
  have fits := inside row below
  rw [PleBatch.rest,List.length_append]
  omega

section
variable {fusion : Bool} {mambaIndices : Nat → Nat} {context : Nat → List Long} {inputIds : List Long}
  {fb : ForwardBatch} {ngramSize : Nat} {eos : Long} {batch : PleBatch}
  (prepared : Prepared fusion mambaIndices context inputIds fb ngramSize eos batch)
include prepared

theorem tokens_length : (inputIds.take batch.processedTokens).length = batch.processedTokens := by
  simp [prepared.inside]

theorem shown_whole (mode : batch.mode.isTargetVerify = false) :
    batch.shown eos inputIds = inputIds.take batch.processedTokens := by
  have length := tokens_length prepared
  have all : batch.validTokens = List.replicate (inputIds.take batch.processedTokens).length true := by
    rw [prepared.valid,length,List.eq_replicate_iff]
    refine ⟨by simp,?_⟩
    intro mark member
    obtain ⟨p,inside,rfl⟩ := List.mem_map.mp member
    rw [List.mem_range,← prepared.whole] at inside
    obtain ⟨size,found,above,below⟩ := blockOf_within batch.widths p inside
    have same : batch.lengths.getD (blockOf batch.widths p) 0 = size := by
      rw [List.getD_eq_getElem?_getD,← widths_plain batch mode,found,Option.getD_some]
    rw [same,decide_eq_true_iff]
    omega
  unfold PleBatch.shown
  rw [all]
  exact select_true _ _ (by simp)

theorem width_bound (row : Nat) : batch.widths.getD row 0 ≤ batch.rowWidth :=
  narrow_bound batch.widths batch.rowWidth prepared.narrow row

theorem boundary_inside (mode : batch.mode.isTargetVerify = false) (aligned : List Int) (values : List α)
    (whole : values.length = batch.processedTokens) (row : Nat) :
    boundary batch aligned row ≤ (block batch.lengths values row).length := by
  have sum := prepared.whole
  rw [widths_plain batch mode] at sum
  rw [block_length batch.lengths values (by omega) row]
  unfold boundary
  split
  · exact Nat.le_refl _
  · exact Nat.min_le_right _ _

theorem block_full (mode : batch.mode.isTargetVerify = false) (values : List α)
    (whole : values.length = batch.processedTokens) (row : Nat) :
    (block batch.lengths values row).length = batch.lengths.getD row 0 := by
  have sum := prepared.whole
  rw [widths_plain batch mode] at sum
  exact block_length _ _ (by rw [whole,sum]) row

theorem rest_length (mode : batch.mode.isTargetVerify = false) (values : List α)
    (whole : values.length = batch.processedTokens) (fill : α) (row : Nat) :
    (PleBatch.rest batch values fill row).length = batch.rowWidth := by
  have bound := width_bound prepared row
  rw [widths_plain batch mode] at bound
  rw [PleBatch.rest,List.length_append,List.length_replicate,block_full prepared mode values whole row]
  omega

theorem fast_decodes (fusing : batch.useDecodeFastPath = true) : isDecode batch.mode = true := by
  have fast := prepared.fast
  rw [fusing] at fast
  exact (Bool.and_eq_true_iff.mp fast.symm).2

theorem decode_row (decoding : isDecode batch.mode = true) (row : Nat) (below : row < batch.lengths.length) :
    batch.lengths.getD row 0 = batch.rowWidth := by
  obtain ⟨ones,single⟩ := prepared.decoded decoding
  rw [ones,List.length_replicate] at below
  rw [ones,single]
  simp [below]

theorem fast_padded (decoding : isDecode batch.mode = true) (values : List α)
    (whole : values.length = batch.processedTokens) (fill : α) :
    values.map (fun value => [value]) = (List.range batch.lengths.length).map (PleBatch.rest batch values fill) := by
  obtain ⟨ones,_⟩ := prepared.decoded decoding
  have count := congrArg List.length ones
  rw [List.length_replicate] at count
  rw [block_singletons,whole,← ones,← count]
  apply List.map_congr_left
  intro row member
  rw [PleBatch.rest,decode_row prepared decoding row (List.mem_range.mp member),Nat.sub_self,List.replicate_zero,
    List.append_nil]

theorem general_padded (mode : batch.mode.isTargetVerify = false) (values : List α)
    (whole : values.length = batch.processedTokens) (fill : α) :
    indexPut batch.lengths.length batch.rowWidth fill batch.reqIndices batch.tokenOffsets values =
      some ((List.range batch.lengths.length).map (PleBatch.rest batch values fill)) := by
  have rows := indexPut_rows batch.widths batch.layout prepared.laid values (by rw [whole,prepared.whole]) fill
    batch.rowWidth prepared.narrow
  rw [widths_plain batch mode] at rows
  exact rows

theorem fast_windows (mode : batch.mode.isTargetVerify = false) (values : List α)
    (whole : values.length = batch.processedTokens) (fill : α) (state : Nat → List α) :
    ((List.range batch.lengths.length).map fun row => state row ++ PleBatch.rest batch values fill row).map
      (·.drop batch.rowWidth) = (List.range batch.lengths.length).map fun row =>
        Windows.advance (state row) (PleBatch.rest batch values fill row) batch.rowWidth := by
  rw [drop_range _ batch.rowWidth _ _ fun row _ => rest_length prepared mode values whole fill row]
  apply List.map_congr_left
  intro row _
  rw [rest_length prepared mode values whole fill row]

theorem shared_rest (mode : batch.mode.isTargetVerify = false) : batch.ngramContext =
    some ((List.range batch.lengths.length).map fun row => context (slotOf fb mambaIndices batch row) ++
      PleBatch.rest batch (inputIds.take batch.processedTokens) eos row) := by
  have shared := prepared.shared
  rw [shown_whole prepared mode,widths_plain batch mode] at shared
  exact shared

theorem shown_length : (batch.shown eos inputIds).length = batch.widths.sum := by
  rw [prepared.whole,PleBatch.shown,Tensors.select,prepared.valid]
  simp [prepared.inside]

theorem context_width (filled : batch.processedTokens ≠ 0) (rows : List (List Long))
    (shared : batch.ngramContext = some rows) : (rows.headD []).length - batch.rowWidth = ngramSize - 1 := by
  have nonempty : batch.lengths.length ≠ 0 := by
    intro none
    have sum := prepared.whole
    have count : batch.widths.length = batch.lengths.length := prepared.laid.count
    rw [List.length_eq_zero_iff.mp (count.trans none)] at sum
    exact filled sum.symm
  obtain ⟨rest,more⟩ := Nat.exists_eq_succ_of_ne_zero nonempty
  have first := prepared.wide 0 (by omega)
  have bound := width_bound prepared 0
  rw [prepared.shared,Option.some_inj] at shared
  rw [← shared,more,List.range_succ_eq_map,List.map_cons,List.headD_cons,List.length_append,List.length_append,
    List.length_replicate,block_length batch.widths _ (shown_length prepared)]
  omega

theorem empty_dead (empty : batch.processedTokens = 0) (mode : batch.mode.isTargetVerify = false) (row : Nat) :
    live fb batch.lengths batch.rowWidth row = false := by
  cases alive : live fb batch.lengths batch.rowWidth row with
  | false => rfl
  | true =>
      obtain ⟨inside,positive⟩ := live_positive fb batch.lengths batch.rowWidth row alive
      have sum := prepared.whole
      rw [widths_plain batch mode,empty] at sum
      have next := offset_next batch.lengths row batch.lengths[row] (List.getElem?_eq_getElem inside)
      have bound := offset_le_sum batch.lengths (row + 1)
      rw [List.getD_eq_getElem?_getD,List.getElem?_eq_getElem inside,Option.getD_some] at positive
      omega

section
variable (mode : batch.mode.isTargetVerify = false) (rows : Rows) (apart : rows.Apart) (aligned : List Int)
  (values : List α) (whole : values.length = batch.processedTokens) (fill : α) (before : Nat → List α)
include mode apart whole

-- On the general path a row's state takes the row's tokens, its snapshot those before the boundary.
theorem general_settles : Settled rows (block batch.lengths values) (boundary batch aligned) before (rows.written before
    (fun row => Windows.advance (before (rows.source row)) (PleBatch.rest batch values fill row)
      (batch.lengths.getD row 0))
    (fun row => Windows.advance (before (rows.source row)) (PleBatch.rest batch values fill row)
      (boundary batch aligned row))) := by
  have settled := written_settled rows apart before (block batch.lengths values)
    (fun row => List.replicate (batch.rowWidth - batch.lengths.getD row 0) fill) (boundary batch aligned)
    fun row _ => boundary_inside prepared mode aligned values whole row
  apply settled.agrees
  · intro row _
    rw [block_full prepared mode values whole]
    rfl
  · intro row _
    rfl

-- On the fast path both take the row's one column.
theorem fast_settles (decoding : isDecode batch.mode = true) (count : rows.count = batch.lengths.length) :
    Settled rows (block batch.lengths values) (boundary batch aligned) before (rows.written before
      (fun row => Windows.advance (before (rows.source row)) (PleBatch.rest batch values fill row) batch.rowWidth)
      (fun row => Windows.advance (before (rows.source row)) (PleBatch.rest batch values fill row) batch.rowWidth)) := by
  apply (general_settles prepared mode rows apart aligned values whole fill before).agrees
  · intro row below
    rw [decode_row prepared decoding row (count ▸ below)]
  · intro row below
    rw [boundary,if_pos decoding,decode_row prepared decoding row (count ▸ below)]

end

end

theorem setBoth_written (pool : RequestPool σ) (stores : pool.Stores) (state : σ) (rows : Rows)
    (next snapshot : Nat → List Long) :
    pool.ngramContext (setBoth pool state ((List.range rows.count).map rows.source)
      ((List.range rows.count).map next) (some ((List.range rows.count).map rows.target,
        (List.range rows.count).map snapshot))) =
      rows.written (pool.ngramContext state) next snapshot := by
  unfold setBoth
  rw [stores.context _ _ _ (by simp),stores.context _ _ _ (by simp),List.zip_map',List.zip_map']
  rfl

theorem contexts_settle (pool : RequestPool σ) (stores : pool.Stores) (state : σ) (fusion : Bool)
    (inputIds : List Long) (fb : ForwardBatch) (ngramSize : Nat) (eos : Long) (batch : PleBatch)
    (prepared : Prepared fusion (pool.mambaIndices state) (pool.ngramContext state) inputIds fb ngramSize eos batch)
    (mode : batch.mode.isTargetVerify = false) (trackIndices : List Nat) (trackMask : List Bool) (aligned : List Int)
    (tracked : Tracked fb batch trackIndices trackMask aligned)
    (apart : (rowsOf fb (pool.mambaIndices state) batch trackIndices trackMask).Apart) :
    ∃ after, commitPleBatch pool (some batch) fb state = some after ∧
      Settled (rowsOf fb (pool.mambaIndices state) batch trackIndices trackMask)
        (block batch.lengths (inputIds.take batch.processedTokens)) (boundary batch aligned)
        (pool.ngramContext state) (pool.ngramContext after) := by
  have targets := targets_exact fb (pool.mambaIndices state) batch trackIndices trackMask aligned tracked
  have whole := tokens_length prepared
  have shared := shared_rest prepared mode
  unfold commitPleBatch
  simp only [shared]
  by_cases empty : batch.processedTokens = 0
  · rw [if_pos empty]
    exact ⟨state,rfl,unwritten_settled _ _ _ _ fun row _ => empty_dead prepared empty mode row⟩
  · rw [if_neg empty,if_neg (by simp [mode])]
    obtain ⟨rows,rows_exact⟩ : ∃ rows, rows = rowsOf fb (pool.mambaIndices state) batch trackIndices trackMask :=
      ⟨_,rfl⟩
    have count : rows.count = batch.lengths.length := by rw [rows_exact]; rfl
    have slots : batch.stateIndices = (List.range rows.count).map rows.source := by
      rw [prepared.slots,rows_exact]
      rfl
    have source : slotOf fb (pool.mambaIndices state) batch = rows.source := by
      rw [rows_exact]
      rfl
    have inside : ∀ row < batch.lengths.length, boundary batch aligned row ≤
        (block batch.lengths (inputIds.take batch.processedTokens) row).length := fun row _ =>
      boundary_inside prepared mode aligned _ whole row
    rw [← rows_exact] at targets apart ⊢
    rw [source]
    cases fusing : batch.useDecodeFastPath with
    | true =>
        have decoding := fast_decodes prepared fusing
        have next := fast_windows prepared mode _ whole eos (fun row => pool.ngramContext state (rows.source row))
        simp only [if_true,targets,Option.bind_eq_bind,Option.bind_some,Option.map_some,Option.pure_def]
        refine ⟨_,rfl,?_⟩
        rw [next,slots,← count,setBoth_written pool stores state rows]
        exact fast_settles prepared mode rows apart aligned _ whole eos _ decoding count
    | false =>
        have wide : ∀ row < batch.lengths.length,
            (pool.ngramContext state (rows.source row)).length = ngramSize - 1 := by
          intro row below
          have width := prepared.wide row below
          rw [source] at width
          omega
        have columns := context_width prepared empty _ shared
        rw [source] at columns
        have next := general_windows batch (inputIds.take batch.processedTokens) eos _ _ wide
          (fun row => batch.lengths.getD row 0) fun row _ => Nat.le_of_eq (block_full prepared mode _ whole row).symm
        have snapshot := general_windows batch (inputIds.take batch.processedTokens) eos _ _ wide
          (boundary batch aligned) inside
        rw [← read_back] at next
        simp only [Bool.false_eq_true,if_false,columns,next,targets,snapshotAt,snapshot,Option.bind_eq_bind,
          Option.bind_some,Option.map_some,Option.pure_def]
        refine ⟨_,rfl,?_⟩
        rw [slots,← count,setBoth_written pool stores state rows]
        exact general_settles prepared mode rows apart aligned _ whole eos _

end OneSpark.PleCommit
