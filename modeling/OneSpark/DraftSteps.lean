import OneSpark.GraphRuns

namespace OneSpark.DraftSteps
open Tensors RingSlots WritePlan CompressedSlots GraphLayout GraphRefresh GraphRuns

-- The fields of a draft forward batch that the multi-step backend reads or replaces; `isCuda` is where seq_lens is.
structure DraftBatch where
  batchSize : Nat
  reqPoolIndices : List Nat
  seqLens : List Nat
  seqLensCpu : Option (List Nat)
  spec : SpecInfo
  outCacheLoc : Option (List Nat)
  numPadding : Option Int
  isCuda : Bool

-- One QwenSparseAttnBackend for each step but the last.
structure Drafts where
  topk : Nat
  speculativeNumSteps : Nat
  attnBackends : List Graphs

def newDrafts (topk speculativeNumSteps : Nat) : Except Failure Drafts :=
  if topk ≠ 1 then
    .error (.refusal (.notImplemented "Qwen4-Exp QSA MTP currently supports speculative_eagle_topk=1"))
  else .ok ⟨topk,speculativeNumSteps,List.replicate (speculativeNumSteps - 1) unset⟩

-- reshape(batch_rows, topk, steps).permute(2, 0, 1).reshape(steps, -1)[step].
def stepSlice (batchRows topk steps step : Nat) (locs : List Nat) : List Nat :=
  (List.range (batchRows * topk)).map fun row => locs.getD (row * steps + step) 0

def stepOutCacheLoc (drafts : Drafts) (fb : DraftBatch) (step : Nat) : Option (List Nat) :=
  let steps := drafts.speculativeNumSteps
  fb.outCacheLoc.map fun locs =>
    if steps ≤ 1 then locs
    else if locs.length ≠ fb.batchSize * drafts.topk * steps then locs
    else stepSlice fb.batchSize drafts.topk steps step locs

-- values[-num_padding:] = 1.
def padLast (values : List Nat) (numPadding : Nat) : List Nat :=
  values.take (values.length - numPadding) ++ List.replicate (min numPadding values.length) 1

def clamped (numPadding : Int) (rows : Nat) : Nat := (max 0 (min numPadding rows)).toNat

def makeStepForwardBatch (drafts : Drafts) (fb : DraftBatch) (step : Nat) (numPadding : Int) : DraftBatch :=
  let seqLens := fb.seqLens.map fun length => length + step + 1
  let seqLensCpu := fb.seqLensCpu.map fun lengths => lengths.map fun length => length + (step + 1)
  let numPadding := clamped numPadding seqLens.length
  let seqLens := padLast seqLens numPadding
  { fb with
    seqLens := seqLens
    seqLensCpu := seqLensCpu.map fun lengths => padLast lengths numPadding
    batchSize := seqLens.length
    outCacheLoc := stepOutCacheLoc drafts fb step }

-- for step, backend in enumerate(self.attn_backends).
def eachStep (f : Nat → Graphs → Except Failure Graphs) (step : Nat) : List Graphs → Except Failure (List Graphs)
  | [] => .ok []
  | graphs :: others => do
      let graphs ← f step graphs
      let others ← eachStep f (step + 1) others
      .ok (graphs :: others)

def initDraftGraphState (backend : Backend) (maxNumTokens : Nat) (drafts : Drafts) : Except Failure Drafts := do
  let attnBackends ← eachStep (fun _ => initCudaGraphState backend maxNumTokens) 0 drafts.attnBackends
  .ok { drafts with attnBackends := attnBackends }

def captureCall (batch : DraftBatch) : Capture :=
  ⟨batch.batchSize,batch.batchSize,batch.reqPoolIndices,batch.seqLens,.decode,batch.spec⟩

def replayCall (batch : DraftBatch) (numPadding : Int) (reqToToken : List (Nat → Nat)) : Replay :=
  ⟨batch.batchSize,batch.reqPoolIndices,batch.seqLens,.decode,batch.spec,batch.seqLensCpu,numPadding,reqToToken,
    batch.isCuda,none⟩

-- One backend's turn in init_forward_metadata_out_graph; a capture pads every row.
def outGraphStep (backend : Backend) (drafts : Drafts) (fb : DraftBatch) (reqToToken : List (Nat → Nat))
    (inCapture : Bool) (step : Nat) (graphs : Graphs) : Except Failure Graphs :=
  let numPadding := fb.numPadding.getD 0
  if inCapture then
    captureCudaGraphMetadata backend graphs (captureCall (makeStepForwardBatch drafts fb step fb.batchSize))
  else
    replayCudaGraphMetadata backend graphs
      (replayCall (makeStepForwardBatch drafts fb step numPadding) numPadding reqToToken)

def initForwardMetadataOutGraph (backend : Backend) (drafts : Drafts) (fb : DraftBatch) (reqToToken : List (Nat → Nat))
    (inCapture : Bool) : Except Failure Drafts := do
  let attnBackends ← eachStep (outGraphStep backend drafts fb reqToToken inCapture) 0 drafts.attnBackends
  .ok { drafts with attnBackends := attnBackends }

structure Turn where
  inCapture : Bool
  batch : DraftBatch
  reqToToken : List (Nat → Nat)

-- A capture, or a replay that does not take the kernels.
def OnHost (backend : Backend) (turn : Turn) : Prop :=
  turn.inCapture = true ∨ (turn.batch.isCuda && backend.kernels.supportsGraphMetadataKernels) = false

def runTurns (backend : Backend) (drafts : Drafts) (turns : List Turn) : Except Failure Drafts :=
  turns.foldlM (fun drafts turn =>
    initForwardMetadataOutGraph backend drafts turn.batch turn.reqToToken turn.inCapture) drafts

def Drafts.shown (drafts : Drafts) (step : Nat) : Option Buffers := do
  let graphs ← drafts.attnBackends[step]?
  graphs.shown

def liveRows (fb : DraftBatch) : Nat := fb.seqLens.length - clamped (fb.numPadding.getD 0) fb.seqLens.length

-- What a draft worker hands over: locations of its own for the tokens of every step, already in the table.
structure Admitted (backend : Backend) (maxNumTokens steps : Nat) (fb : DraftBatch) (reqToToken : List (Nat → Nat))
    (locs : List Nat) : Prop where
  size : fb.seqLens.length ≤ maxNumTokens
  batch : fb.batchSize = fb.seqLens.length
  rows : fb.reqPoolIndices.length = fb.seqLens.length
  requests : ∀ request ∈ fb.reqPoolIndices, request < reqToToken.length
  room : ∀ length ∈ fb.seqLens, length + (steps - 1) ≤ min backend.width backend.maxContextLen
  given : fb.outCacheLoc = some locs
  count : locs.length = fb.seqLens.length * steps
  assigned : ∀ (row length request : Nat) (content : Nat → Nat), fb.seqLens[row]? = some length →
    fb.reqPoolIndices[row]? = some request → reqToToken[request]? = some content →
    row < liveRows fb →
    ∀ step < steps, content (length + step) = locs.getD (row * steps + step) 0

-- The metadata of one step: live rows grow by the step, and write where the step's own slice says; padding rows write
-- their request's first ring slot and no block.
structure StepShown (backend : Backend) (fb : DraftBatch) (slice : List Nat) (step : Nat) (view : Buffers) : Prop where
  rows : view.seqLens.length = fb.seqLens.length
  live : ∀ row length request loc : Nat, fb.seqLens[row]? = some length → fb.reqPoolIndices[row]? = some request →
    slice[row]? = some loc → row < liveRows fb →
    view.seqLens[row]? = some (length + step + 1) ∧ view.rowReqPoolIndices[row]? = some request ∧
      view.metadata.logicalPositions[row]? = some (length + step) ∧
      view.metadata.compressedLengths[row]? = some ((length + step + 1) / backend.ring.compressRatio) ∧
      view.metadata.pendingRingSlots[row]? = some (ringSlot backend.ring request (length + step)) ∧
      view.metadata.writeLocs[row]? = some
        (if (length + step + 1) % backend.ring.compressRatio = 0 then loc / backend.ring.compressRatio else 0)
  padding : ∀ row request : Nat, fb.reqPoolIndices[row]? = some request → row < fb.seqLens.length → liveRows fb ≤ row →
    view.seqLens[row]? = some 1 ∧ view.metadata.pendingRingSlots[row]? = some (ringSlot backend.ring request 0) ∧
      (1 < backend.ring.compressRatio → view.metadata.compressedLengths[row]? = some 0 ∧
        view.metadata.writeLocs[row]? = some 0)

theorem padLast_length (values : List Nat) (p : Nat) : (padLast values p).length = values.length := by
  rw [padLast,List.length_append,List.length_take,List.length_replicate]
  omega

theorem padLast_live (values : List Nat) (p row : Nat) (live : row < values.length - p) :
    (padLast values p)[row]? = values[row]? := by
  rw [padLast,List.getElem?_append_left (by rw [List.length_take]; omega),List.getElem?_take_of_lt live]

theorem padLast_padding (values : List Nat) (p row : Nat) (inside : row < values.length)
    (padding : values.length - p ≤ row) : (padLast values p)[row]? = some 1 := by
  rw [padLast,List.getElem?_append_right (by rw [List.length_take]; omega),List.length_take,List.getElem?_replicate,
    if_pos (by omega)]

theorem padLast_bound (values : List Nat) (p bound : Nat) (fits : ∀ value ∈ values, value ≤ bound)
    (one : values ≠ [] → 1 ≤ bound) : ∀ value ∈ padLast values p, value ≤ bound := by
  intro value member
  rcases List.mem_append.mp member with kept | padding
  · exact fits value (List.mem_of_mem_take kept)
  · rw [List.eq_of_mem_replicate padding]
    apply one
    rintro rfl
    simp at padding

theorem padLast_positive (values : List Nat) (p : Nat) (fits : ∀ value ∈ values, 1 ≤ value) :
    ∀ value ∈ padLast values p, 1 ≤ value := by
  intro value member
  rcases List.mem_append.mp member with kept | padding
  · exact fits value (List.mem_of_mem_take kept)
  · rw [List.eq_of_mem_replicate padding]

theorem slices_perm (rows steps : Nat) (locs : List Nat) (count : locs.length = rows * steps) :
    ((List.range steps).flatMap fun step => stepSlice rows 1 steps step locs).Perm locs := by
  have places : ((List.range steps).flatMap fun step => (List.range rows).map fun row => row * steps + step).Perm
      (List.range (rows * steps)) := by
    rw [List.perm_ext_iff_of_nodup ?_ List.nodup_range]
    · intro place
      simp only [List.mem_flatMap,List.mem_range,List.mem_map]
      constructor
      · rintro ⟨step,below,row,inside,rfl⟩
        have next := Nat.mul_le_mul_right steps (Nat.succ_le_of_lt inside)
        rw [Nat.succ_mul] at next
        omega
      · intro inside
        have positive : 0 < steps := Nat.pos_of_ne_zero (by rintro rfl; simp at inside)
        exact ⟨place % steps,Nat.mod_lt _ positive,place / steps,Nat.div_lt_of_lt_mul (by rwa [Nat.mul_comm]),
          Nat.div_add_mod' place steps⟩
    · rw [List.nodup_flatMap]
      constructor
      · intro step _
        refine List.Nodup.map_on ?_ List.nodup_range
        intro row _ row' _ same
        have positive : 0 < steps := by
          have := List.mem_range.mp ‹step ∈ List.range steps›
          omega
        exact Nat.eq_of_mul_eq_mul_right positive (Nat.add_right_cancel same)
      · refine List.Nodup.pairwise_of_forall_ne List.nodup_range ?_
        intro step member step' member' apart place one other
        obtain ⟨row,_,rfl⟩ := List.mem_map.mp one
        obtain ⟨row',_,same⟩ := List.mem_map.mp other
        apply apart
        have below := List.mem_range.mp member
        have below' := List.mem_range.mp member'
        have remainder := congrArg (· % steps) same
        simpa [Nat.mul_add_mod_of_lt,below,below',Nat.mod_eq_of_lt,Nat.mul_comm,Nat.mul_add_mod] using remainder.symm
  have read : locs = (List.range (rows * steps)).map fun place => locs.getD place 0 := by
    apply List.ext_getElem?
    intro i
    rw [List.getElem?_map,← count]
    cases found : locs[i]? with
    | none => rw [List.getElem?_eq_none (by simpa using List.getElem?_eq_none_iff.mp found)]; rfl
    | some loc =>
        obtain ⟨inside,_⟩ := List.getElem?_eq_some_iff.mp found
        rw [List.getElem?_range inside,Option.map_some,List.getD_eq_getElem?_getD,found]
        rfl
  have moved := places.map fun place => locs.getD place 0
  rw [← read,List.map_flatMap] at moved
  simp only [stepSlice,List.map_map,Nat.mul_one] at moved ⊢
  exact moved

theorem eachStep_parts {f : Nat → Graphs → Except Failure Graphs} (before : List Graphs) {start : Nat} {after : List Graphs}
    (ran : eachStep f start before = .ok after) : after.length = before.length ∧
      ∀ i graphs, before[i]? = some graphs → ∃ next, after[i]? = some next ∧ f (start + i) graphs = .ok next := by
  induction before generalizing start after with
  | nil =>
      cases ran
      exact ⟨rfl,fun i graphs found => by simp at found⟩
  | cons first others ih =>
      obtain ⟨next,made,ran⟩ := bind_ok ran
      obtain ⟨rest,built,same⟩ := bind_ok ran
      cases same
      obtain ⟨count,each⟩ := ih built
      refine ⟨congrArg Nat.succ count,?_⟩
      intro i graphs found
      cases i with
      | zero =>
          cases found
          exact ⟨next,rfl,made⟩
      | succ i =>
          obtain ⟨one,atIndex,stepped⟩ := each i graphs found
          exact ⟨one,atIndex,by rw [← stepped]; congr 1; omega⟩

theorem eachStep_returns {f : Nat → Graphs → Except Failure Graphs} (before : List Graphs) (start : Nat)
    (each : ∀ i graphs, before[i]? = some graphs → ∃ next, f (start + i) graphs = .ok next) :
    ∃ after, eachStep f start before = .ok after := by
  induction before generalizing start with
  | nil => exact ⟨[],rfl⟩
  | cons first others ih =>
      obtain ⟨next,made⟩ := each 0 first rfl
      obtain ⟨after,built⟩ := ih (start + 1) fun i graphs found => by
        obtain ⟨next,stepped⟩ := each (i + 1) graphs found
        exact ⟨next,by rw [← stepped]; congr 1; omega⟩
      refine ⟨next :: after,?_⟩
      rw [eachStep,show f start first = .ok next from made]
      show (eachStep f (start + 1) others >>= fun others => Except.ok (next :: others)) = _
      rw [built]
      rfl

section
variable (backend : Backend) (maxNumTokens steps : Nat)

structure Sound (captured : List Nat) (drafts : Drafts) : Prop where
  topk : drafts.topk = 1
  number : drafts.speculativeNumSteps = steps
  count : drafts.attnBackends.length = steps - 1
  held : ∀ graphs ∈ drafts.attnBackends, ∃ rows, Held backend maxNumTokens graphs rows ∧
    ∀ bs ∈ captured, rows .decode bs = some bs

variable {backend maxNumTokens steps}

theorem initial_sound {topk : Nat} {unready drafts : Drafts} (made : newDrafts topk steps = .ok unready)
    (ready : initDraftGraphState backend maxNumTokens unready = .ok drafts) : Sound backend maxNumTokens steps [] drafts := by
  unfold newDrafts at made
  split at made
  · cases made
  · rename_i one
    cases made
    obtain ⟨attnBackends,each,ready⟩ := bind_ok ready
    cases ready
    obtain ⟨count,each⟩ := eachStep_parts _ each
    refine ⟨not_not.mp one,rfl,by rw [count,List.length_replicate],?_⟩
    intro graphs member
    obtain ⟨i,found⟩ := List.getElem?_of_mem member
    obtain ⟨inside,_⟩ := List.getElem?_eq_some_iff.mp found
    obtain ⟨next,atIndex,initialized⟩ := each i unset (by rw [List.getElem?_replicate,if_pos (by simpa [count] using inside)])
    cases found.symm.trans atIndex
    exact ⟨_,initial_held initialized,fun bs member => by simp at member⟩

theorem step_size (drafts : Drafts) (fb : DraftBatch) (step : Nat) (p : Int) :
    (makeStepForwardBatch drafts fb step p).batchSize = fb.seqLens.length := by
  simp [makeStepForwardBatch,padLast_length]

theorem turn_sound {captured : List Nat} {drafts after : Drafts} (sound : Sound backend maxNumTokens steps captured drafts)
    (turn : Turn) (host : OnHost backend turn)
    (ran : initForwardMetadataOutGraph backend drafts turn.batch turn.reqToToken turn.inCapture = .ok after) :
    Sound backend maxNumTokens steps
      (if turn.inCapture then turn.batch.seqLens.length :: captured else captured) after := by
  obtain ⟨attnBackends,each,ran⟩ := bind_ok ran
  cases ran
  obtain ⟨count,each⟩ := eachStep_parts _ each
  refine ⟨sound.topk,sound.number,count.trans sound.count,?_⟩
  intro next member
  obtain ⟨i,found⟩ := List.getElem?_of_mem member
  obtain ⟨inside,_⟩ := List.getElem?_eq_some_iff.mp found
  have old : drafts.attnBackends[i]? = some _ := List.getElem?_eq_getElem (by rw [← count]; exact inside)
  obtain ⟨other,atIndex,stepped⟩ := each i _ old
  cases found.symm.trans atIndex
  obtain ⟨rows,held,known⟩ := sound.held _ (List.mem_of_getElem? old)
  unfold outGraphStep at stepped
  cases capturing : turn.inCapture with
  | true =>
      rw [capturing] at stepped
      rcases capture_alike held (captureCall (makeStepForwardBatch drafts turn.batch (0 + i) turn.batch.batchSize)) with
        ⟨why,refused,_⟩ | ⟨_,recorded,captured,made,kept⟩
      · exact absurd (stepped.symm.trans refused) (by simp)
      · cases stepped.symm.trans captured
        refine ⟨recorded,kept,?_⟩
        obtain ⟨_,_,made⟩ := bind_ok made
        obtain ⟨_,_,made⟩ := bind_ok made
        obtain ⟨_,_,made⟩ := bind_ok made
        obtain ⟨_,_,made⟩ := bind_ok made
        cases made
        intro bs member
        show (if ForwardMode.decode = .decode ∧ bs = _ then some _ else rows .decode bs) = some bs
        simp only [captureCall,step_size]
        rcases List.mem_cons.mp member with rfl | before
        · simp
        · split
          · rename_i same
            obtain ⟨_,rfl⟩ := same
            rfl
          · exact known bs before
  | false =>
      rw [capturing] at stepped
      rcases replay_alike held (replayCall (makeStepForwardBatch drafts turn.batch (0 + i) (turn.batch.numPadding.getD 0))
        (turn.batch.numPadding.getD 0) turn.reqToToken) (host.resolve_left (by simp [capturing])) with
          ⟨why,refused,_⟩ | ⟨_,view,replayed,_,kept,_⟩
      · exact absurd (stepped.symm.trans refused) (by simp)
      · cases stepped.symm.trans replayed
        exact ⟨rows,kept,known⟩

def capturedSizes (turns : List Turn) : List Nat :=
  (turns.filter fun turn => turn.inCapture).map fun turn => turn.batch.seqLens.length

theorem turns_sound (turns : List Turn) {captured : List Nat} {drafts after : Drafts}
    (sound : Sound backend maxNumTokens steps captured drafts) (host : ∀ turn ∈ turns, OnHost backend turn)
    (ran : runTurns backend drafts turns = .ok after) :
    ∃ known, Sound backend maxNumTokens steps known after ∧ (∀ bs ∈ captured, bs ∈ known) ∧
      ∀ bs ∈ capturedSizes turns, bs ∈ known := by
  induction turns generalizing captured drafts with
  | nil =>
      cases ran
      exact ⟨captured,sound,fun _ member => member,fun bs member => by simp [capturedSizes] at member⟩
  | cons turn turns ih =>
      obtain ⟨middle,first,ran⟩ := bind_ok ran
      obtain ⟨known,kept,old,new⟩ := ih (turn_sound sound turn (host turn List.mem_cons_self) first)
        (fun later member => host later (List.mem_cons_of_mem _ member)) ran
      refine ⟨known,kept,?_,?_⟩
      · intro bs member
        apply old
        split
        · exact List.mem_cons_of_mem _ member
        · exact member
      · intro bs member
        unfold capturedSizes at member
        cases capturing : turn.inCapture with
        | true =>
            rw [List.filter_cons_of_pos capturing,List.map_cons] at member
            rcases List.mem_cons.mp member with rfl | later
            · exact old _ (by simp [capturing])
            · exact new bs later
        | false =>
            rw [List.filter_cons_of_neg (by simp [capturing])] at member
            exact new bs member

theorem slice_read (rows step : Nat) (locs : List Nat) (row loc : Nat)
    (found : (stepSlice rows 1 steps step locs)[row]? = some loc) : loc = locs.getD (row * steps + step) 0 := by
  unfold stepSlice at found
  rw [List.getElem?_map,Option.map_eq_some_iff] at found
  obtain ⟨same,inside,rfl⟩ := found
  obtain ⟨_,read⟩ := List.getElem?_eq_some_iff.mp inside
  rw [List.getElem_range] at read
  rw [read]

theorem step_slice {captured : List Nat} {drafts : Drafts} (sound : Sound backend maxNumTokens steps captured drafts)
    {fb : DraftBatch} {reqToToken : List (Nat → Nat)} {locs : List Nat}
    (admitted : Admitted backend maxNumTokens steps fb reqToToken locs) {step : Nat} (below : step < steps - 1) (p : Int) :
    (makeStepForwardBatch drafts fb step p).outCacheLoc = some (stepSlice fb.batchSize 1 steps step locs) := by
  show stepOutCacheLoc drafts fb step = _
  unfold stepOutCacheLoc
  rw [admitted.given,sound.number,sound.topk,Nat.mul_one,Option.map_some,if_neg (by omega),if_neg]
  rw [admitted.count,admitted.batch,not_not]

theorem step_paged {fb : DraftBatch} {reqToToken : List (Nat → Nat)} {locs : List Nat}
    (admitted : Admitted backend maxNumTokens steps fb reqToToken locs) {step : Nat} (below : step < steps - 1) (p : Nat) :
    Paged ⟨backend.width,reqToToken⟩ backend.maxContextLen (min backend.width backend.maxContextLen)
      (padLast (fb.seqLens.map fun length => length + step + 1) p) fb.reqPoolIndices := by
  have bound : ∀ length ∈ padLast (fb.seqLens.map fun length => length + step + 1) p,
      length ≤ min backend.width backend.maxContextLen := by
    apply padLast_bound
    · intro value member
      obtain ⟨length,given,rfl⟩ := List.mem_map.mp member
      have room := admitted.room length given
      omega
    · intro nonempty
      obtain ⟨length,given⟩ := List.exists_mem_of_ne_nil fb.seqLens (by rintro empty; exact nonempty (by rw [empty]; rfl))
      have room := admitted.room length given
      omega
  refine ⟨by rw [padLast_length,List.length_map,admitted.rows],admitted.requests,?_,bound,bound⟩
  apply padLast_positive
  intro value member
  obtain ⟨length,_,rfl⟩ := List.mem_map.mp member
  exact Nat.succ_pos _

theorem decode_replayed {rows : ForwardMode → Nat → Option Nat} {bs : Nat} {requests lengths : List Nat} {spec : SpecInfo}
    {seqLensCpu : Option (List Nat)} {numPadding : Int} {reqToToken : List (Nat → Nat)} {isCuda : Bool} {graph : GraphMetadata}
    (known : rows .decode bs = some bs) (count : lengths.length = bs) (own : requests.length = bs) (size : bs ≤ maxNumTokens)
    (updated : updateQsaCudaGraphMetadata backend.ring backend.compressedPageSize ⟨backend.width,reqToToken⟩ lengths
      requests (zeroTable backend bs) = some graph) :
    freshReplay backend maxNumTokens rows
      ⟨bs,requests,lengths,.decode,spec,seqLensCpu,numPadding,reqToToken,isCuda,none⟩ =
      .ok ⟨lengths,requests,lengths.map (· - 1),graph⟩ := by
  have laid : rowLayout bs bs requests lengths (seqLensCpu.getD (lengths.take bs)) .decode spec numPadding =
      .ok ⟨lengths,requests,lengths.map (· - 1)⟩ := by
    unfold rowLayout
    rw [if_neg (by decide),List.take_of_length_le (Nat.le_of_eq count),List.take_of_length_le (Nat.le_of_eq own)]
  have whole : overRows bs ⟨lengths,requests,lengths.map (· - 1)⟩ = some ⟨lengths,requests,lengths.map (· - 1)⟩ := by
    unfold overRows
    simp only [spread_same _ _ count,spread_same _ _ own,spread_same _ _ ((List.length_map ..).trans count)]
    rfl
  unfold freshReplay
  simp only [known,Nat.min_eq_left size,laid]
  show (refused (shaped (overRows bs _)) >>= _) = _
  rw [whole]
  show (refused (shaped (updateQsaCudaGraphMetadata ..)) >>= _) = _
  rw [updated]
  rfl

theorem step_shown (drafts : Drafts) {fb : DraftBatch} {reqToToken : List (Nat → Nat)} {locs : List Nat}
    (admitted : Admitted backend maxNumTokens steps fb reqToToken locs) {step : Nat} (below : step < steps - 1)
    {rows : ForwardMode → Nat → Option Nat} (known : rows .decode fb.seqLens.length = some fb.seqLens.length) :
    ∃ view, freshReplay backend maxNumTokens rows (replayCall (makeStepForwardBatch drafts fb step (fb.numPadding.getD 0))
      (fb.numPadding.getD 0) reqToToken) = .ok view ∧
        StepShown backend fb (stepSlice fb.batchSize 1 steps step locs) step view := by
  have paged := step_paged admitted below (clamped (fb.numPadding.getD 0) fb.seqLens.length)
  have size : (fb.seqLens.map fun length => length + step + 1).length = fb.seqLens.length := List.length_map ..
  let lengths := padLast (fb.seqLens.map fun length => length + step + 1)
    (clamped (fb.numPadding.getD 0) fb.seqLens.length)
  have count : lengths.length = fb.seqLens.length := (padLast_length _ _).trans size
  obtain ⟨graph,updated,refreshed⟩ := graph_returns backend.ring backend.compressedPageSize paged
    (zeroTable backend fb.seqLens.length) (by rw [zeroTable,List.length_replicate]; exact count.symm)
  refine ⟨⟨lengths,fb.reqPoolIndices,lengths.map (· - 1),graph⟩,?_,count,?_,?_⟩
  · have call : replayCall (makeStepForwardBatch drafts fb step (fb.numPadding.getD 0)) (fb.numPadding.getD 0) reqToToken =
        ⟨fb.seqLens.length,fb.reqPoolIndices,lengths,.decode,fb.spec,
          (makeStepForwardBatch drafts fb step (fb.numPadding.getD 0)).seqLensCpu,fb.numPadding.getD 0,reqToToken,fb.isCuda,
            none⟩ := by
      rw [replayCall,step_size]
      simp only [makeStepForwardBatch,size]
      rfl
    rw [call]
    exact decode_replayed known count admitted.rows admitted.size updated
  · intro row length request loc found own sliced live
    have grown : lengths[row]? = some (length + step + 1) := by
      rw [padLast_live _ _ _ (by rw [size]; exact live),List.getElem?_map,found]
      rfl
    obtain ⟨inside,_⟩ := List.getElem?_eq_some_iff.mp own
    have content := List.getElem?_eq_getElem (admitted.requests request (List.mem_of_getElem? own))
    have written := refreshed.writeLocs row _ request _ grown own content
    obtain rfl := slice_read _ _ _ _ _ sliced
    rw [Nat.add_sub_cancel,admitted.assigned row length request _ found own content live step (by omega)] at written
    refine ⟨grown,own,?_,?_,?_,?_⟩
    · rw [update_positions updated,List.getElem?_map,grown]
      rfl
    · rw [refreshed.compressedLengths,List.getElem?_map,grown]
      rfl
    · rw [refreshed.slots,List.getElem?_zipWith,own,List.getElem?_map,grown]
      rfl
    · rw [written]
      simp
  · intro row request own inside padding
    have short : lengths[row]? = some 1 := padLast_padding _ _ _ (size.symm ▸ inside) (size.symm ▸ padding)
    refine ⟨short,?_,fun grouped => ⟨?_,?_⟩⟩
    · rw [refreshed.slots,List.getElem?_zipWith,own,List.getElem?_map,short]
      rfl
    · rw [refreshed.compressedLengths,List.getElem?_map,short,Option.map_some,Nat.div_eq_of_lt grouped]
    · have content := List.getElem?_eq_getElem (admitted.requests request (List.mem_of_getElem? own))
      rw [refreshed.writeLocs row _ _ _ short own content,Nat.mod_eq_of_lt grouped]
      rfl

theorem steps_perm {captured : List Nat} {drafts : Drafts} (sound : Sound backend maxNumTokens steps captured drafts)
    {fb : DraftBatch} {reqToToken : List (Nat → Nat)} {locs : List Nat}
    (admitted : Admitted backend maxNumTokens steps fb reqToToken locs) :
    ((List.range steps).flatMap fun step => (stepOutCacheLoc drafts fb step).getD []).Perm locs := by
  have count := admitted.count
  unfold stepOutCacheLoc
  rw [admitted.given,sound.number,sound.topk]
  simp only [Option.map_some,Option.getD_some]
  rcases Nat.lt_or_ge 1 steps with several | few
  · simp only [if_neg (Nat.not_le.mpr several),Nat.mul_one,count,admitted.batch,ne_eq,not_true_eq_false,if_false]
    exact slices_perm _ _ _ count
  · simp only [if_pos few]
    cases steps with
    | zero =>
        rw [Nat.mul_zero,List.length_eq_zero_iff] at count
        rw [count]
        rfl
    | succ steps =>
        obtain rfl : steps = 0 := by omega
        simp

theorem live_slot {fb : DraftBatch} {slice : List Nat} {step : Nat} {view : Buffers}
    (shown : StepShown backend fb slice step view)
    (rows : slice.length = fb.seqLens.length) (owned : fb.reqPoolIndices.length = fb.seqLens.length) (row : Nat)
    (live : row < liveRows fb) : ∃ length request, fb.seqLens[row]? = some length ∧ fb.reqPoolIndices[row]? = some request ∧
      view.metadata.pendingRingSlots[row]? = some (ringSlot backend.ring request (length + step)) := by
  have inside : row < fb.seqLens.length := Nat.lt_of_lt_of_le live (Nat.sub_le _ _)
  have found := List.getElem?_eq_getElem inside
  have own := List.getElem?_eq_getElem (owned.symm ▸ inside : row < fb.reqPoolIndices.length)
  obtain ⟨_,_,_,_,slot,_⟩ := shown.live row _ _ _ found own (List.getElem?_eq_getElem (rows.symm ▸ inside)) live
  exact ⟨_,_,found,own,slot⟩

-- Two live rows of two steps share a ring slot only where they are the same row and step.
theorem slots_apart {fb : DraftBatch} {slice slice' : List Nat} {step step' : Nat} {view view' : Buffers}
    (shown : StepShown backend fb slice step view) (shown' : StepShown backend fb slice' step' view')
    (rows : slice.length = fb.seqLens.length) (rows' : slice'.length = fb.seqLens.length)
    (owned : fb.reqPoolIndices.length = fb.seqLens.length) (distinct : (fb.reqPoolIndices.take (liveRows fb)).Nodup)
    (near : step < qsaRingStride backend.ring) (near' : step' < qsaRingStride backend.ring) (row row' : Nat)
    (live : row < liveRows fb) (live' : row' < liveRows fb)
    (same : view.metadata.pendingRingSlots[row]? = view'.metadata.pendingRingSlots[row']?) : row = row' ∧ step = step' := by
  obtain ⟨length,request,found,own,slot⟩ := live_slot shown rows owned row live
  obtain ⟨length',request',found',own',slot'⟩ := live_slot shown' rows' owned row' live'
  rw [slot,slot',Option.some_inj] at same
  obtain ⟨rfl,position⟩ := (ringSlot_inj backend.ring).mp same
  obtain ⟨inside,_⟩ := List.getElem?_eq_some_iff.mp own
  have rowSame : row = row' := by
    refine (List.getElem?_inj (by rw [List.length_take]; omega) distinct).mp ?_
    rw [List.getElem?_take_of_lt live,List.getElem?_take_of_lt live',own,own']
  subst rowSame
  cases found.symm.trans found'
  exact ⟨rfl,Nat.ModEq.eq_of_lt_of_lt (Nat.ModEq.add_left_cancel' _ position) near near'⟩

-- The ring slot a padding row writes is no live row's, where its request is no live one.
theorem padding_apart {fb : DraftBatch} {slice slice' : List Nat} {step step' : Nat} {view view' : Buffers}
    (shown : StepShown backend fb slice step view) (shown' : StepShown backend fb slice' step' view')
    (rows : slice.length = fb.seqLens.length) (owned : fb.reqPoolIndices.length = fb.seqLens.length) (row row' request' : Nat)
    (live : row < liveRows fb) (own' : fb.reqPoolIndices[row']? = some request') (padding : liveRows fb ≤ row')
    (outside : request' ∉ fb.reqPoolIndices.take (liveRows fb)) :
    view.metadata.pendingRingSlots[row]? ≠ view'.metadata.pendingRingSlots[row']? := by
  intro same
  obtain ⟨length,request,_,own,slot⟩ := live_slot shown rows owned row live
  obtain ⟨inside,_⟩ := List.getElem?_eq_some_iff.mp own'
  obtain ⟨_,slot',_⟩ := shown'.padding row' request' own' (owned ▸ inside) padding
  rw [slot,slot',Option.some_inj] at same
  obtain ⟨rfl,_⟩ := (ringSlot_inj backend.ring).mp same
  rw [← List.getElem?_take_of_lt live] at own
  exact outside (List.mem_of_getElem? own)

-- A replay of a captured size goes through, and every step's backend then shows its own grown rows.
theorem replay_shown {captured : List Nat} {before : Drafts} (sound : Sound backend maxNumTokens steps captured before)
    {fb : DraftBatch} {reqToToken : List (Nat → Nat)} {locs : List Nat}
    (admitted : Admitted backend maxNumTokens steps fb reqToToken locs) (last : OnHost backend ⟨false,fb,reqToToken⟩)
    (size : fb.seqLens.length ∈ captured) :
    ∃ after, initForwardMetadataOutGraph backend before fb reqToToken false = .ok after ∧
      ∀ step < steps - 1, ∃ view, after.shown step = some view ∧
        StepShown backend fb (stepSlice fb.batchSize 1 steps step locs) step view := by
  have each : ∀ i graphs, before.attnBackends[i]? = some graphs → ∃ next view,
      outGraphStep backend before fb reqToToken false (0 + i) graphs = .ok next ∧ next.shown = some view ∧
        StepShown backend fb (stepSlice fb.batchSize 1 steps i locs) i view := by
    intro i graphs found
    obtain ⟨inside,_⟩ := List.getElem?_eq_some_iff.mp found
    rw [sound.count] at inside
    obtain ⟨rows,held,recorded⟩ := sound.held graphs (List.mem_of_getElem? found)
    obtain ⟨view,replayed,shown⟩ := step_shown before admitted inside (recorded _ size)
    rw [Nat.zero_add]
    rcases replay_alike held (replayCall (makeStepForwardBatch before fb i (fb.numPadding.getD 0))
      (fb.numPadding.getD 0) reqToToken)
      (last.resolve_left Bool.false_ne_true) with ⟨why,_,refused⟩ | ⟨next,_,stepped,again,_,visible⟩
    · exact absurd (replayed.symm.trans refused) (by simp)
    · cases replayed.symm.trans again
      exact ⟨next,view,stepped,visible,shown⟩
  obtain ⟨attnBackends,built⟩ := eachStep_returns before.attnBackends 0 fun i graphs found => by
    obtain ⟨next,_,stepped,_⟩ := each i graphs found
    exact ⟨next,stepped⟩
  refine ⟨{ before with attnBackends := attnBackends },by rw [initForwardMetadataOutGraph,built]; rfl,?_⟩
  intro step below
  obtain ⟨_,stepped⟩ := eachStep_parts _ built
  have old : before.attnBackends[step]? = some _ := List.getElem?_eq_getElem (by rw [sound.count]; exact below)
  obtain ⟨graphs,atIndex,made⟩ := stepped step _ old
  obtain ⟨next,view,replayed,visible,shown⟩ := each step _ old
  cases made.symm.trans replayed
  exact ⟨view,by rw [Drafts.shown,atIndex]; exact visible,shown⟩

-- After any run of captures and replays on the host, a replay of a captured size goes through: each step shows rows
-- grown by the step over its own slice of the locations, the slices share the locations out, no two live rows meet in a
-- ring slot, and no padding row meets a live one there.
theorem drafts_exact {topk : Nat} {unready drafts before : Drafts} (made : newDrafts topk steps = .ok unready)
    (ready : initDraftGraphState backend maxNumTokens unready = .ok drafts) (turns : List Turn)
    (host : ∀ turn ∈ turns, OnHost backend turn) (ran : runTurns backend drafts turns = .ok before) (fb : DraftBatch)
    (reqToToken : List (Nat → Nat)) (locs : List Nat) (admitted : Admitted backend maxNumTokens steps fb reqToToken locs)
    (last : OnHost backend ⟨false,fb,reqToToken⟩) (captured : fb.seqLens.length ∈ capturedSizes turns) :
    ((List.range steps).flatMap fun step => (stepOutCacheLoc before fb step).getD []).Perm locs ∧
    ∃ after, initForwardMetadataOutGraph backend before fb reqToToken false = .ok after ∧
      (∀ step < steps - 1, ∃ slice view,
        (makeStepForwardBatch before fb step (fb.numPadding.getD 0)).outCacheLoc = some slice ∧
        after.shown step = some view ∧ StepShown backend fb slice step view) ∧
      ((fb.reqPoolIndices.take (liveRows fb)).Nodup → steps - 1 ≤ qsaRingStride backend.ring →
        ∀ step < steps - 1, ∀ step' < steps - 1, ∀ row < liveRows fb, ∀ row' < liveRows fb, ∀ view view',
          after.shown step = some view → after.shown step' = some view' →
          view.metadata.pendingRingSlots[row]? = view'.metadata.pendingRingSlots[row']? → row = row' ∧ step = step') ∧
      ∀ step < steps - 1, ∀ step' < steps - 1, ∀ row < liveRows fb, ∀ row' request', fb.reqPoolIndices[row']? = some request' →
        liveRows fb ≤ row' → request' ∉ fb.reqPoolIndices.take (liveRows fb) → ∀ view view',
          after.shown step = some view → after.shown step' = some view' →
          view.metadata.pendingRingSlots[row]? ≠ view'.metadata.pendingRingSlots[row']? := by
  obtain ⟨known,sound,_,sizes⟩ := turns_sound turns (initial_sound made ready) host ran
  obtain ⟨after,replayed,steps_shown⟩ := replay_shown sound admitted last (sizes _ captured)
  have seen : ∀ step < steps - 1, ∀ view, after.shown step = some view →
      StepShown backend fb (stepSlice fb.batchSize 1 steps step locs) step view := by
    intro step below view visible
    obtain ⟨_,again,shown⟩ := steps_shown step below
    cases visible.symm.trans again
    exact shown
  have sliced : ∀ step, (stepSlice fb.batchSize 1 steps step locs).length = fb.seqLens.length := by
    intro step
    rw [stepSlice,List.length_map,List.length_range,Nat.mul_one,admitted.batch]
  refine ⟨steps_perm sound admitted,after,replayed,?_,?_,?_⟩
  · intro step below
    obtain ⟨view,visible,shown⟩ := steps_shown step below
    exact ⟨_,view,step_slice sound admitted below _,visible,shown⟩
  · intro distinct stride step below step' below' row live row' live' view view' visible visible' same
    exact slots_apart (seen step below view visible) (seen step' below' view' visible') (sliced step) (sliced step') admitted.rows
      distinct (Nat.lt_of_lt_of_le below stride) (Nat.lt_of_lt_of_le below' stride) row row' live live' same
  · intro step below step' below' row live row' request' own' padding outside view view' visible visible'
    exact padding_apart (seen step below view visible) (seen step' below' view' visible') (sliced step) admitted.rows row row'
      request' live own' padding outside

variable (backend maxNumTokens)

def Warm (graphs : Graphs) : Prop :=
  ∃ buffers, graphs.buffers = some buffers ∧ Sized backend maxNumTokens buffers ∧
    buffers.metadata = (zeroBuffers backend maxNumTokens).metadata ∧
      ∀ rows, graphs.current = some rows → ∀ length ∈ buffers.seqLens.take rows, length = 1

variable {backend maxNumTokens}

theorem spread_all {values out : List Nat} {n : Nat} (ran : spread values n = some out) (one : ∀ value ∈ values, value = 1) :
    ∀ value ∈ out, value = 1 := by
  unfold spread at ran
  split at ran
  · cases ran
    exact one
  · split at ran
    · cases ran
      intro value member
      rw [List.eq_of_mem_replicate member]
      exact one _ (List.mem_singleton.mpr rfl)
    · cases ran

theorem captured_lengths (drafts : Drafts) (fb : DraftBatch) (whole : fb.seqLens.length ≤ fb.batchSize) (step : Nat) :
    ∀ length ∈ (makeStepForwardBatch drafts fb step fb.batchSize).seqLens, length = 1 := by
  intro length member
  have padded : (makeStepForwardBatch drafts fb step fb.batchSize).seqLens = List.replicate fb.seqLens.length 1 := by
    have all : clamped fb.batchSize fb.seqLens.length = fb.seqLens.length := by
      unfold clamped
      omega
    simp [makeStepForwardBatch,padLast,all]
  rw [padded] at member
  exact List.eq_of_mem_replicate member

theorem capture_warm {graphs next : Graphs} (warm : Warm backend maxNumTokens graphs) (call : Capture)
    (decoding : call.mode = .decode) (one : ∀ length ∈ call.seqLens, length = 1)
    (ran : captureCudaGraphMetadata backend graphs call = .ok next) : Warm backend maxNumTokens next := by
  obtain ⟨buffers,set,sized,zero,_⟩ := warm
  obtain ⟨_,_,ran⟩ := bind_ok ran
  obtain ⟨_,_,ran⟩ := bind_ok ran
  rw [set] at ran
  obtain ⟨layout,laid,ran⟩ := bind_ok ran
  obtain ⟨copied,took,ran⟩ := bind_ok ran
  cases ran
  have taken := shaped_ok _ _ (refused_ok took)
  rw [copyLayout_exact sized,Option.map_eq_some_iff] at taken
  obtain ⟨wide,spreads,rfl⟩ := taken
  obtain ⟨lengths,requests,prefixes⟩ := over_sizes spreads
  obtain ⟨kept,view⟩ := layout_sized sized _ wide lengths requests prefixes
  have ones : ∀ length ∈ layout.rowLengths, length = 1 := by
    have same := refused_ok laid
    rw [rowLayout,decoding,if_neg (by decide)] at same
    cases same
    exact fun length member => one length (List.mem_of_mem_take member)
  refine ⟨_,rfl,kept,zero,?_⟩
  intro rows same length member
  cases same
  have seen := congrArg Buffers.seqLens view
  simp only [Buffers.view] at seen
  rw [seen] at member
  obtain ⟨values,first,spreads⟩ := Option.bind_eq_some_iff.mp spreads
  obtain ⟨_,_,spreads⟩ := Option.bind_eq_some_iff.mp spreads
  obtain ⟨_,_,spreads⟩ := Option.bind_eq_some_iff.mp spreads
  cases spreads
  exact spread_all first ones length member

theorem initial_warm {topk : Nat} {unready drafts : Drafts} (made : newDrafts topk steps = .ok unready)
    (ready : initDraftGraphState backend maxNumTokens unready = .ok drafts) :
    ∀ graphs ∈ drafts.attnBackends, Warm backend maxNumTokens graphs := by
  unfold newDrafts at made
  split at made
  · cases made
  · cases made
    obtain ⟨attnBackends,each,ready⟩ := bind_ok ready
    cases ready
    obtain ⟨count,each⟩ := eachStep_parts _ each
    intro graphs member
    obtain ⟨i,found⟩ := List.getElem?_of_mem member
    obtain ⟨inside,_⟩ := List.getElem?_eq_some_iff.mp found
    obtain ⟨next,atIndex,initialized⟩ := each i unset (by rw [List.getElem?_replicate,if_pos (by simpa [count] using inside)])
    cases found.symm.trans atIndex
    unfold initCudaGraphState at initialized
    split at initialized
    · cases initialized
    · cases initialized
      exact ⟨_,rfl,zero_sized backend maxNumTokens,rfl,fun rows current => by cases current⟩

theorem turn_warm {drafts after : Drafts} (warm : ∀ graphs ∈ drafts.attnBackends, Warm backend maxNumTokens graphs)
    (turn : Turn) (capturing : turn.inCapture = true) (whole : turn.batch.seqLens.length ≤ turn.batch.batchSize)
    (ran : initForwardMetadataOutGraph backend drafts turn.batch turn.reqToToken turn.inCapture = .ok after) :
    ∀ graphs ∈ after.attnBackends, Warm backend maxNumTokens graphs := by
  obtain ⟨attnBackends,each,ran⟩ := bind_ok ran
  cases ran
  obtain ⟨count,each⟩ := eachStep_parts _ each
  intro graphs member
  obtain ⟨i,found⟩ := List.getElem?_of_mem member
  obtain ⟨inside,_⟩ := List.getElem?_eq_some_iff.mp found
  have old : drafts.attnBackends[i]? = some _ := List.getElem?_eq_getElem (by rw [← count]; exact inside)
  obtain ⟨other,atIndex,stepped⟩ := each i _ old
  cases found.symm.trans atIndex
  rw [outGraphStep,if_pos capturing] at stepped
  exact capture_warm (warm _ (List.mem_of_getElem? old)) _ rfl (captured_lengths drafts turn.batch whole (0 + i)) stepped

theorem turns_warm (turns : List Turn) {drafts after : Drafts}
    (warm : ∀ graphs ∈ drafts.attnBackends, Warm backend maxNumTokens graphs)
    (capturing : ∀ turn ∈ turns, turn.inCapture = true ∧ turn.batch.seqLens.length ≤ turn.batch.batchSize)
    (ran : runTurns backend drafts turns = .ok after) : ∀ graphs ∈ after.attnBackends, Warm backend maxNumTokens graphs := by
  induction turns generalizing drafts with
  | nil =>
      cases ran
      exact warm
  | cons turn turns ih =>
      obtain ⟨middle,first,ran⟩ := bind_ok ran
      obtain ⟨capture,whole⟩ := capturing turn List.mem_cons_self
      exact ih (turn_warm warm turn capture whole first) (fun other member => capturing other (List.mem_cons_of_mem _ member))
        ran

-- Warm-ups before any replay: whatever was captured, the rows shown have length one, no write location and no
-- ring slot but the reserved one.
theorem warm_ups_inert {topk : Nat} {unready drafts after : Drafts} (made : newDrafts topk steps = .ok unready)
    (ready : initDraftGraphState backend maxNumTokens unready = .ok drafts) (turns : List Turn)
    (capturing : ∀ turn ∈ turns, turn.inCapture = true ∧ turn.batch.seqLens.length ≤ turn.batch.batchSize)
    (ran : runTurns backend drafts turns = .ok after) (step : Nat) (view : Buffers) (shown : after.shown step = some view) :
    (∀ length ∈ view.seqLens, length = 1) ∧ (∀ loc ∈ view.metadata.writeLocs, loc = 0) ∧
      (∀ length ∈ view.metadata.compressedLengths, length = 0) ∧ (∀ slot ∈ view.metadata.pendingRingSlots, slot = 0) ∧
      ∀ locs ∈ view.metadata.ringGroupLocs, ∀ slot ∈ locs, slot = 0 := by
  obtain ⟨graphs,atIndex,visible⟩ := Option.bind_eq_some_iff.mp shown
  obtain ⟨buffers,set,_,zero,ones⟩ := turns_warm turns (initial_warm made ready) capturing ran graphs
    (List.mem_of_getElem? atIndex)
  unfold Graphs.shown at visible
  rw [set] at visible
  obtain ⟨_,same,visible⟩ := Option.bind_eq_some_iff.mp visible
  cases same
  obtain ⟨rows,current,same⟩ := Option.bind_eq_some_iff.mp visible
  obtain rfl := Option.some_inj.mp same
  have zeros : ∀ loc ∈ List.replicate maxNumTokens 0, loc = 0 := fun loc member => List.eq_of_mem_replicate member
  simp only [Buffers.view,zero]
  refine ⟨ones rows current,?_,?_,?_,?_⟩
  · exact fun loc member => zeros loc (List.mem_of_mem_take member)
  · exact fun loc member => zeros loc (List.mem_of_mem_take member)
  · exact fun loc member => zeros loc (List.mem_of_mem_take member)
  · intro locs member slot inside
    rw [List.eq_of_mem_replicate (List.mem_of_mem_take member)] at inside
    exact List.eq_of_mem_replicate inside

end

def draftTable : List (Nat → Nat) := [fun _ => 0,fun column => 16 + column,fun column => 32 + column]

def paddedBatch : DraftBatch :=
  ⟨3,[1,2,0],[2,5,1],some [2,5,1],plainSpec,some [18,19,20,37,38,39,0,0,0],some 1,true⟩

def unreadyDrafts : Drafts := ⟨1,3,[unset,unset]⟩

def readyDrafts : Drafts :=
  let graphs : Graphs := ⟨some (zeroBuffers narrowBackend 4),fun _ _ => none,none⟩
  ⟨1,3,[graphs,graphs]⟩

def paddedCapture : Turn := ⟨true,paddedBatch,draftTable⟩

def capturedDrafts : Drafts :=
  match runTurns narrowBackend readyDrafts [paddedCapture] with
  | .ok drafts => drafts
  | .error _ => readyDrafts

theorem padded_admitted : Admitted narrowBackend 4 3 paddedBatch draftTable [18,19,20,37,38,39,0,0,0] := by
  refine ⟨by decide,rfl,rfl,by decide,by decide,rfl,rfl,?_⟩
  intro row length request content found own stored live step below
  change row < 2 at live
  interval_cases row
  · cases found
    cases own
    cases stored
    interval_cases step <;> rfl
  · cases found
    cases own
    cases stored
    interval_cases step <;> rfl

-- The first request's fourth key, written by the second step, completes its block.
theorem padded_drafts : ∃ after view,
    initForwardMetadataOutGraph narrowBackend capturedDrafts paddedBatch draftTable false = .ok after ∧
      after.shown 1 = some view ∧ view.metadata.writeLocs[0]? = some 4 ∧ view.metadata.writeLocs[2]? = some 0 ∧
      view.metadata.pendingRingSlots[0]? ≠ view.metadata.pendingRingSlots[1]? ∧
      view.metadata.pendingRingSlots[0]? ≠ view.metadata.pendingRingSlots[2]? := by
  obtain ⟨_,after,ran,each,apart,padding⟩ := drafts_exact (show newDrafts 1 3 = .ok unreadyDrafts from rfl)
    (show initDraftGraphState narrowBackend 4 unreadyDrafts = .ok readyDrafts from rfl) [paddedCapture]
    (fun _ _ => .inr (Bool.and_false _))
    (show runTurns narrowBackend readyDrafts [paddedCapture] = .ok capturedDrafts from rfl) paddedBatch draftTable _
    padded_admitted (.inr rfl) (by decide)
  obtain ⟨slice,view,sliced,visible,shown⟩ := each 1 (by decide)
  cases sliced
  obtain ⟨_,_,_,_,_,written⟩ := shown.live 0 2 1 19 rfl rfl rfl (by decide)
  have live : 0 < liveRows paddedBatch ∧ 1 < liveRows paddedBatch := by decide
  refine ⟨after,view,ran,visible,written,((shown.padding 2 0 rfl (by decide) (by decide)).2.2 (by decide)).2,?_,?_⟩
  · intro same
    exact absurd (apart (by decide) (by decide) 1 (by decide) 1 (by decide) 0 live.1 1 live.2 view view visible visible same).1
      (by decide)
  · exact padding 1 (by decide) 1 (by decide) 0 live.1 2 0 rfl (by decide) (by decide) view view visible visible

theorem padded_warm_up : ∃ view, capturedDrafts.shown 1 = some view ∧ (∀ length ∈ view.seqLens, length = 1) ∧
    (∀ loc ∈ view.metadata.writeLocs, loc = 0) ∧ (∀ length ∈ view.metadata.compressedLengths, length = 0) ∧
      (∀ slot ∈ view.metadata.pendingRingSlots, slot = 0) ∧
        ∀ locs ∈ view.metadata.ringGroupLocs, ∀ slot ∈ locs, slot = 0 := by
  refine ⟨_,rfl,warm_ups_inert (show newDrafts 1 3 = .ok unreadyDrafts from rfl)
    (show initDraftGraphState narrowBackend 4 unreadyDrafts = .ok readyDrafts from rfl) [paddedCapture] ?_
    (show runTurns narrowBackend readyDrafts [paddedCapture] = .ok capturedDrafts from rfl) 1 _ rfl⟩
  intro turn member
  obtain rfl := List.mem_singleton.mp member
  exact ⟨rfl,Nat.le_refl 3⟩

end OneSpark.DraftSteps
