import OneSpark.ShortConv

namespace OneSpark.Snapshots
open Longs RingSlots Blocks PleLayout PleCommit ShortConv

-- A request pool that is its tables: request r works in slot r + 1.
structure Tables where
  context : Nat → List Long
  intermediate : Nat → Nat → List Long

def tablePool : RequestPool Tables where
  mambaIndices := fun _ request => request + 1
  ngramContext := fun tables => tables.context
  ngramIntermediate := fun tables => tables.intermediate
  setNgramContext := fun tables indices rows => { tables with context := Tensors.put tables.context (indices.zip rows) }
  setNgramIntermediateContext := fun tables rows => { tables with intermediate := copySteps tables.intermediate rows }

theorem tablePool_stores : tablePool.Stores := by
  refine ⟨fun _ _ _ _ => rfl,fun _ _ _ => rfl,?_,fun _ _ => ⟨rfl,rfl⟩⟩
  intro tables rows row steps step window atRow atStep
  change copySteps tables.intermediate rows row step = window
  rw [copySteps,atRow,Option.bind_some,atStep]

-- Both side states after an extend or decode forward, on either path.
theorem forward_settles (pool : RequestPool σ) (stores : pool.Stores) (state : σ) (fusion : Bool)
    (inputIds : List Long) (fb : ForwardBatch)
    (ragged : laidFromLengths (getPleForwardMode fb) = true → Ragged fb inputIds) (ngramSize : Nat) (eos : Long)
    (batch : PleBatch) (ran : preparePleBatch fusion (pool.mambaIndices state) (pool.ngramContext state) inputIds fb
      (some ngramSize) (some eos) = some (some batch))
    (mode : batch.mode = .extend ∨ batch.mode = .decode) (trackIndices : List Nat) (trackMask : List Bool)
    (aligned : List Int) (tracked : Tracked fb batch trackIndices trackMask aligned)
    (apart : (rowsOf fb (pool.mambaIndices state) batch trackIndices trackMask).Apart)
    {K : Type} {channels : Nat} [AddCommMonoid K] [Mul K] (fused : FusedConv K channels) (agrees : fused.Agrees)
    (m : DepthwiseConv K channels) (x : List (Column K channels)) (whole : x.length = batch.processedTokens)
    (conv : ConvPool K channels) (wide : ∀ slot, (conv.cache slot).length = m.stateLen) :
    (∃ after, commitPleBatch pool (some batch) fb state = some after ∧
      Settled (rowsOf fb (pool.mambaIndices state) batch trackIndices trackMask)
        (block batch.lengths (inputIds.take batch.processedTokens)) (boundary batch aligned)
        (pool.ngramContext state) (pool.ngramContext after)) ∧
    ∃ out after, shortConv fused m fb batch x conv = some (out,after) ∧
      Settled (rowsOf fb (pool.mambaIndices state) batch trackIndices trackMask) (block batch.lengths x)
        (boundary batch aligned) conv.cache after.cache := by
  have prepared := prepared_exact fusion _ _ inputIds fb ragged ngramSize eos batch ran
  have unverified : batch.mode.isTargetVerify = false := by
    rcases mode with extend | decode
    · rw [extend]
      rfl
    · rw [decode]
      rfl
  refine ⟨contexts_settle pool stores state fusion inputIds fb ngramSize eos batch prepared unverified trackIndices
    trackMask aligned tracked apart,?_⟩
  obtain ⟨out,after,convolved,_,settled⟩ := states_settle prepared fused agrees m unverified trackIndices trackMask
    aligned tracked apart x whole conv wide
  exact ⟨out,after,convolved,settled⟩

def sampleForward (trackMask : List Bool) : ForwardBatch where
  originalForwardMode := none
  forwardMode := .extend
  tboParentTokenRange := none
  specIsNgram := false
  specInfo := none
  numTokenNonPaddedCpu := none
  extendSeqLens := some [1,0]
  extendSeqLensCpu := some [1,0]
  reqPoolIndices := [0,1]
  outCacheLoc := none
  mambaTrackIndices := some [3,4]
  mambaTrackMask := some trackMask
  mambaTrackAlignedLens := some [1,0]

def sampleBatch : PleBatch where
  mode := .extend
  useDecodeFastPath := false
  physicalTokens := 1
  processedTokens := 1
  lengths := [1,0]
  rowWidth := 1
  reqIndices := [0]
  tokenOffsets := [0]
  validTokens := [true]
  stateIndices := [1,0]
  ngramContext := some [[1,7],[0,5]]
  ngramEosTokenId := some 5

def sampleTables : Tables := ⟨fun slot => [BitVec.ofNat 64 slot],fun _ _ => []⟩

theorem sample_prepared (trackMask : List Bool) : preparePleBatch true (tablePool.mambaIndices sampleTables)
    (tablePool.ngramContext sampleTables) [7] (sampleForward trackMask) (some 2) (some 5) =
      some (some sampleBatch) := by
  rfl

theorem sample_tracked (trackMask : List Bool) (two : trackMask.length = 2) :
    Tracked (sampleForward trackMask) sampleBatch [3,4] trackMask [1,0] :=
  ⟨rfl,rfl,fun _ => rfl,by simp [sampleBatch],by simp [sampleBatch,two],fun _ => by simp [sampleBatch]⟩

def sampleRows (trackMask : List Bool) : Rows :=
  rowsOf (sampleForward trackMask) (tablePool.mambaIndices sampleTables) sampleBatch [3,4] trackMask

theorem sample_apart (trackMask : List Bool) : (sampleRows trackMask).Apart := by
  have working : ∀ row < 2, (sampleRows trackMask).working row = row + 1 := by
    intro row below
    interval_cases row <;> rfl
  have track : ∀ row < 2, (sampleRows trackMask).track row = row + 3 := by
    intro row below
    interval_cases row <;> rfl
  refine ⟨?_,?_,?_,?_,?_⟩
  · intro row below _ zero
    rw [working row below] at zero
    omega
  · intro row below other bound _ _ same
    rw [working row below,working other bound] at same
    omega
  · intro row below _ zero
    rw [track row below] at zero
    omega
  · intro row below other bound _ _ same
    rw [track row below,track other bound] at same
    omega
  · intro row below other bound _ _ same
    rw [working row below,track other bound] at same
    have small : other < 2 := bound
    have first : row < 2 := below
    have third : row = 2 + other := by omega
    omega

-- Request 1 has no token in the chunk and its mask is set: its snapshot becomes slot 0's state.
theorem empty_row_overwritten :
    preparePleBatch true (tablePool.mambaIndices sampleTables) (tablePool.ngramContext sampleTables) [7]
      (sampleForward [false,true]) (some 2) (some 5) = some (some sampleBatch) ∧
    Tracked (sampleForward [false,true]) sampleBatch [3,4] [false,true] [1,0] ∧ (sampleRows [false,true]).Apart ∧
    ∃ after, commitPleBatch tablePool (some sampleBatch) (sampleForward [false,true]) sampleTables = some after ∧
      ¬ ∀ slot ≠ 0, ¬ (sampleRows [false,true]).Owned slot →
        tablePool.ngramContext after slot = tablePool.ngramContext sampleTables slot := by
  obtain ⟨after,committed⟩ : ∃ after,
      commitPleBatch tablePool (some sampleBatch) (sampleForward [false,true]) sampleTables = some after := ⟨_,rfl⟩
  refine ⟨sample_prepared [false,true],sample_tracked [false,true] rfl,sample_apart [false,true],after,committed,?_⟩
  intro frame
  have unowned : ¬ (sampleRows [false,true]).Owned 4 := by
    intro ⟨row,below,live,named⟩
    have small : row < 2 := below
    interval_cases row
    · rcases named with working | ⟨masked,_⟩
      · cases working
      · cases masked
    · cases live
  have kept := frame 4 (by omega) unowned
  cases committed
  exact absurd kept (by decide)

def sampleConv : DepthwiseConv Int 1 := ⟨2,2,fun _ _ => 1,fun value => max value 0⟩
def unfused : FusedConv Int 1 := ⟨fun _ _ _ => false,fun cache _ _ => ([],cache)⟩
def sampleStates : ConvPool Int 1 := ⟨fun slot => [fun _ => slot,fun _ => 0],none⟩

theorem sample_settles :
    (∃ after, commitPleBatch tablePool (some sampleBatch) (sampleForward [true,false]) sampleTables = some after ∧
      Settled (sampleRows [true,false]) (block [1,0] [7]) (boundary sampleBatch [1,0])
        (tablePool.ngramContext sampleTables) (tablePool.ngramContext after)) ∧
    ∃ out after, shortConv unfused sampleConv (sampleForward [true,false]) sampleBatch [fun _ => 9] sampleStates =
        some (out,after) ∧
      Settled (sampleRows [true,false]) (block [1,0] [fun _ => 9]) (boundary sampleBatch [1,0])
        sampleStates.cache after.cache := by
  have ragged : Ragged (sampleForward [true,false]) [7] := by
    refine ⟨?_,?_⟩
    · intro lengths processed sent counted
      cases sent
      cases counted
      rfl
    · intro lengths copied
      exact copied
  exact forward_settles tablePool tablePool_stores sampleTables true [7] (sampleForward [true,false])
    (fun _ => ragged) 2 5 sampleBatch (sample_prepared [true,false]) (.inl rfl) [3,4] [true,false] [1,0]
    (sample_tracked [true,false] rfl) (sample_apart [true,false]) unfused
    (fun _ _ _ _ fusing => Bool.noConfusion fusing) sampleConv [fun _ => 9] rfl sampleStates fun _ => rfl

end OneSpark.Snapshots
