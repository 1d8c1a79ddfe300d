import OneSpark.NGramReference
import OneSpark.Snapshots

namespace OneSpark.NGramRuns
open Longs RingSlots Blocks NGramIds NGramReference PleLayout PleCommit Snapshots

def batchContexts (ngramSize : Nat) (batch : PleBatch) : Option Tokens := do
  let context ← batch.ngramContext
  if batch.useDecodeFastPath then some context
  else gatherTokens (context.map (unfold · ngramSize)) batch.reqIndices batch.tokenOffsets

-- Python's `is` on the batch compares the tags; `freshTag` is a newly made tensor's.
def windowContexts (ngramSize batchTag freshTag : Nat) (batch : PleBatch) (cached : Option WindowCache) :
    Option (Contexts × Option WindowCache) :=
  match cached.filter fun entry => entry.batch == batchTag with
  | some entry => some (entry.contexts,cached)
  | none => (batchContexts ngramSize batch).map fun rows => (⟨freshTag,rows⟩,some ⟨batchTag,⟨freshTag,rows⟩,none⟩)

def computeNgramIds (fused : FusedHash) (m : NGramEmbedding) (batchTag freshTag : Nat) (batch : PleBatch)
    (cached : Option WindowCache) : Option (Tokens × Option WindowCache) := do
  let (contexts, cached) ← windowContexts m.ngramSize batchTag freshTag batch cached
  hashContexts fused m cached contexts (isDecode batch.mode || batch.mode.isTargetVerify)

-- The PLE layers of one forward share the window cache.
def layerIds (fused : FusedHash) (batchTag freshTag : Nat) (batch : PleBatch) :
    List NGramEmbedding → Option WindowCache → Option (List Tokens)
  | [], _ => some []
  | m :: rest, cached => do
      let (ids, cached) ← computeNgramIds fused m batchTag freshTag batch cached
      let later ← layerIds fused batchTag freshTag batch rest cached
      return ids :: later

structure Model (σ : Type) where
  pool : RequestPool σ
  fused : FusedHash
  fusion : Bool
  ngramSize : Nat
  eos : Long
  layers : List NGramEmbedding
  stores : pool.Stores
  sizes : ∀ m ∈ layers, m.ngramSize = ngramSize
  ends : ∀ m ∈ layers, m.eosTokenId = eos
  agrees : ∀ m ∈ layers, fused.Agrees m

-- An idle forward computes no ids; preparing the batch has cleared the window cache.
def batchIds (model : Model σ) (batchTag freshTag : Nat) (batch : Option PleBatch) : Option (List Tokens) :=
  match batch with
  | none => some []
  | some batch => layerIds model.fused batchTag freshTag batch model.layers none

def forward (model : Model σ) (batchTag freshTag : Nat) (inputIds : List Long) (fb : ForwardBatch) (state : σ) :
    Option (Option PleBatch × List Tokens × σ) := do
  let batch ← preparePleBatch model.fusion (model.pool.mambaIndices state) (model.pool.ngramContext state) inputIds fb
    (some model.ngramSize) (some model.eos)
  let ids ← batchIds model batchTag freshTag batch
  let state ← commitPleBatch model.pool batch fb state
  return (batch,ids,state)

theorem shiftedTokens_same (m other : NGramEmbedding) (size : m.ngramSize = other.ngramSize)
    (eos : m.eosTokenId = other.eosTokenId) (contexts : Tokens) :
    shiftedTokens m contexts = shiftedTokens other contexts := by
  unfold shiftedTokens
  rw [size,eos]

theorem hashContexts_unfused (fused : FusedHash) (m : NGramEmbedding) (agrees : fused.Agrees m)
    (cached after : Option WindowCache) (contexts : Contexts) (decodeSized : Bool) (coherent : Coherent m cached contexts)
    (ids : Tokens) (ran : hashContexts fused m cached contexts decodeSized = some (ids,after)) :
    unfusedIds m contexts.rows = some ids ∧ (after = cached ∨ ∃ entry shifted, cached = some entry ∧
      entry.contexts.tag = contexts.tag ∧ after = some ⟨entry.batch,contexts,some shifted⟩ ∧
      shiftedTokens m contexts.rows = some shifted) := by
  unfold hashContexts at ran
  split at ran
  · rename_i fusing
    simp only [Bool.and_eq_true] at fusing
    cases ran
    exact ⟨agrees contexts.rows fusing.2,.inl rfl⟩
  · cases known : cachedShifts cached contexts with
    | some shifted =>
        rw [known] at ran
        simp only at ran
        split at ran
        · obtain ⟨out,hashed,same⟩ := Option.bind_eq_some_iff.mp ran
          cases same
          refine ⟨?_,.inl rfl⟩
          rw [unfusedIds,coherent shifted known]
          exact hashed
        · cases ran
    | none =>
        rw [known] at ran
        obtain ⟨shifted,made,rest⟩ := Option.bind_eq_some_iff.mp ran
        obtain ⟨out,hashed,same⟩ := Option.bind_eq_some_iff.mp rest
        cases same
        refine ⟨by rw [unfusedIds,made]; exact hashed,?_⟩
        cases cached with
        | none => exact .inl rfl
        | some entry =>
            by_cases tagged : entry.contexts.tag = contexts.tag
            · exact .inr ⟨entry,shifted,rfl,tagged,by simp [tagged],made⟩
            · exact .inl (by simp [tagged])

def Held (ngramSize : Nat) (eos : Long) (batchTag : Nat) (batch : PleBatch) (cached : Option WindowCache) : Prop :=
  ∀ entry, cached = some entry → entry.batch = batchTag ∧ batchContexts ngramSize batch = some entry.contexts.rows ∧
    ∀ shifted, entry.shifted = some shifted → ∀ m : NGramEmbedding, m.ngramSize = ngramSize → m.eosTokenId = eos →
      shiftedTokens m entry.contexts.rows = some shifted

theorem windowContexts_parts (ngramSize : Nat) (eos : Long) (batchTag freshTag : Nat) (batch : PleBatch)
    (cached after : Option WindowCache) (held : Held ngramSize eos batchTag batch cached) (contexts : Contexts)
    (ran : windowContexts ngramSize batchTag freshTag batch cached = some (contexts,after)) :
    batchContexts ngramSize batch = some contexts.rows ∧ Held ngramSize eos batchTag batch after ∧
      ∀ entry, after = some entry → entry.contexts = contexts := by
  unfold windowContexts at ran
  cases cached with
  | none =>
      obtain ⟨rows,made,same⟩ := Option.map_eq_some_iff.mp ran
      cases same
      refine ⟨made,?_,?_⟩
      · intro entry same
        cases same
        exact ⟨rfl,made,fun _ missing => absurd missing (by simp)⟩
      · intro entry same
        cases same
        rfl
  | some entry =>
      obtain ⟨own,rows,_⟩ := held entry rfl
      simp only [Option.filter_some,own,BEq.rfl,if_true,Option.some_inj,Prod.mk.injEq] at ran
      obtain ⟨rfl,rfl⟩ := ran
      refine ⟨rows,held,?_⟩
      intro other same
      cases same
      rfl

theorem computeNgramIds_parts (fused : FusedHash) (m : NGramEmbedding) (agrees : fused.Agrees m)
    (batchTag freshTag : Nat) (batch : PleBatch) (cached after : Option WindowCache)
    (held : Held m.ngramSize m.eosTokenId batchTag batch cached) (ids : Tokens)
    (ran : computeNgramIds fused m batchTag freshTag batch cached = some (ids,after)) :
    (∃ contexts, batchContexts m.ngramSize batch = some contexts ∧ unfusedIds m contexts = some ids) ∧
      Held m.ngramSize m.eosTokenId batchTag batch after := by
  unfold computeNgramIds at ran
  obtain ⟨⟨contexts,shared⟩,windows,hashed⟩ := Option.bind_eq_some_iff.mp ran
  obtain ⟨rows,kept,own⟩ := windowContexts_parts m.ngramSize m.eosTokenId batchTag freshTag batch cached shared held
    contexts windows
  have coherent : Coherent m shared contexts := by
    intro shifted known
    unfold cachedShifts at known
    obtain ⟨entry,same,known⟩ := Option.bind_eq_some_iff.mp known
    rw [own entry same,if_pos rfl] at known
    rw [← own entry same]
    exact (kept entry same).2.2 shifted known m rfl rfl
  obtain ⟨unfused,shape⟩ := hashContexts_unfused fused m agrees shared after contexts _ coherent ids hashed
  refine ⟨⟨contexts.rows,rows,unfused⟩,?_⟩
  rcases shape with rfl | ⟨entry,shifted,same,_,rfl,made⟩
  · exact kept
  · intro next written
    cases written
    refine ⟨(kept entry same).1,rows,?_⟩
    intro found again other size eos
    cases again
    rw [shiftedTokens_same other m size eos]
    exact made

theorem layerIds_parts (fused : FusedHash) (ngramSize : Nat) (eos : Long) (batchTag freshTag : Nat) (batch : PleBatch)
    (layers : List NGramEmbedding) (sizes : ∀ m ∈ layers, m.ngramSize = ngramSize)
    (ends : ∀ m ∈ layers, m.eosTokenId = eos) (agrees : ∀ m ∈ layers, fused.Agrees m) (cached : Option WindowCache)
    (held : Held ngramSize eos batchTag batch cached) (out : List Tokens)
    (ran : layerIds fused batchTag freshTag batch layers cached = some out) (l : Nat) (m : NGramEmbedding)
    (layer : layers[l]? = some m) :
    ∃ ids contexts, out[l]? = some ids ∧ batchContexts ngramSize batch = some contexts ∧
      unfusedIds m contexts = some ids := by
  induction layers generalizing cached out l with
  | nil => simp at layer
  | cons first rest ih =>
      unfold layerIds at ran
      simp only [Option.bind_eq_bind,Option.bind_eq_some_iff,Option.pure_def,Option.some_inj] at ran
      obtain ⟨⟨ids,after⟩,computed,later,tail,rfl⟩ := ran
      have size := sizes first (by simp)
      have eos' := ends first (by simp)
      rw [← size,← eos'] at held
      obtain ⟨⟨contexts,rows,unfused⟩,kept⟩ := computeNgramIds_parts fused first (agrees first (by simp)) batchTag
        freshTag batch cached after held ids computed
      rw [size] at rows
      rw [size,eos'] at kept
      cases l with
      | zero =>
          cases layer
          exact ⟨ids,contexts,rfl,rows,unfused⟩
      | succ l =>
          exact ih (fun m member => sizes m (List.mem_cons_of_mem _ member))
            (fun m member => ends m (List.mem_cons_of_mem _ member))
            (fun m member => agrees m (List.mem_cons_of_mem _ member)) after kept later tail l layer

theorem forward_parts (model : Model σ) (batchTag freshTag : Nat) (inputIds : List Long) (fb : ForwardBatch)
    (state after : σ) (batch : PleBatch) (ids : List Tokens)
    (ran : forward model batchTag freshTag inputIds fb state = some (some batch,ids,after)) :
    preparePleBatch model.fusion (model.pool.mambaIndices state) (model.pool.ngramContext state) inputIds fb
      (some model.ngramSize) (some model.eos) = some (some batch) ∧
    layerIds model.fused batchTag freshTag batch model.layers none = some ids ∧
      commitPleBatch model.pool (some batch) fb state = some after := by
  unfold forward at ran
  simp only [Option.bind_eq_bind,Option.bind_eq_some_iff,Option.pure_def,Option.some_inj,Prod.mk.injEq] at ran
  obtain ⟨prepared,made,computed,hashed,next,committed,rfl,rfl,rfl⟩ := ran
  exact ⟨made,hashed,committed⟩

section
variable {fusion : Bool} {mambaIndices : Nat → Nat} {context : Nat → List Long} {inputIds : List Long}
  {fb : ForwardBatch} {ngramSize : Nat} {eos : Long} {batch : PleBatch}
  (prepared : Prepared fusion mambaIndices context inputIds fb ngramSize eos batch)
include prepared

theorem valid_mark (row k : Nat) (below : k < batch.lengths.getD row 0) (own : k < batch.widths.getD row 0) :
    batch.validTokens[offset batch.widths row + k]? = some true := by
  have within := within_place batch.widths row k own
  have sum := within_sum _ _ _ within
  rw [prepared.valid,List.getElem?_map,List.getElem?_range (by rw [← prepared.whole]; exact sum),Option.map_some,
    blockOf_exact batch.widths row _ within,Nat.add_sub_cancel_left,decide_eq_true below]

theorem shown_take (row k : Nat) (below : k < batch.lengths.getD row 0) (own : k < batch.widths.getD row 0) :
    (block batch.widths (batch.shown eos inputIds) row).take (k + 1) =
      (block batch.widths (inputIds.take batch.processedTokens) row).take (k + 1) := by
  apply List.ext_getElem?
  intro i
  by_cases early : i < k + 1
  · rw [List.getElem?_take_of_lt early,List.getElem?_take_of_lt early,block_getElem? _ _ _ _ (by omega),
      block_getElem? _ _ _ _ (by omega)]
    obtain ⟨sum,rowAt,offsetAt⟩ := laid_place batch.widths batch.layout prepared.laid row i (by omega)
    have token : offset batch.widths row + i < (inputIds.take batch.processedTokens).length := by
      rw [tokens_length prepared,← prepared.whole]
      exact sum
    have mark := valid_mark prepared row i (by omega) (by omega)
    rw [PleBatch.shown,Tensors.select_read _ _ _ _ true _ eos mark (List.getElem?_eq_getElem token)
      (by rw [List.getElem?_map,List.getElem?_eq_getElem token]; rfl),List.getElem?_eq_getElem token]
    rfl
  · rw [List.getElem?_eq_none (by rw [List.length_take]; omega),
      List.getElem?_eq_none (by rw [List.length_take]; omega)]

theorem context_at (contexts : Tokens) (made : batchContexts ngramSize batch = some contexts) (positive : 0 < ngramSize)
    (row k : Nat) (inside : row < batch.lengths.length) (below : k < batch.widths.getD row 0) :
    contexts[offset batch.widths row + k]? = Windows.slice (context (slotOf fb mambaIndices batch row) ++
      (block batch.widths (batch.shown eos inputIds) row ++
        List.replicate (batch.rowWidth - batch.widths.getD row 0) eos)) k ngramSize := by
  have wide := prepared.wide row inside
  have bound := width_bound prepared row
  have length : (context (slotOf fb mambaIndices batch row) ++ (block batch.widths (batch.shown eos inputIds) row ++
      List.replicate (batch.rowWidth - batch.widths.getD row 0) eos)).length = ngramSize - 1 + batch.rowWidth := by
    rw [List.length_append,List.length_append,List.length_replicate,
      block_length batch.widths _ (shown_length prepared) row]
    omega
  unfold batchContexts at made
  rw [prepared.shared] at made
  simp only [Option.bind_eq_bind,Option.bind_some] at made
  obtain ⟨sum,rowAt,offsetAt⟩ := laid_place batch.widths batch.layout prepared.laid row k below
  unfold Windows.slice
  rw [if_pos (by omega)]
  cases fusing : batch.useDecodeFastPath with
  | true =>
      rw [fusing,if_pos rfl,Option.some_inj] at made
      have decoding := fast_decodes prepared fusing
      obtain ⟨ones,single⟩ := prepared.decoded decoding
      have plain := widths_plain batch (decode_unverified decoding)
      have first : k = 0 := by omega
      have start : offset batch.widths row = row := by
        have count := congrArg List.length ones
        rw [List.length_replicate] at count
        rw [plain,ones,offset_replicate _ _ _ (by omega),Nat.mul_one]
      rw [← made,start,first,Nat.add_zero,List.getElem?_map,List.getElem?_range inside,Option.map_some,List.drop_zero,
        List.take_of_length_le (by omega)]
  | false =>
      rw [fusing,if_neg (by simp)] at made
      have place : (batch.reqIndices.zip batch.tokenOffsets)[offset batch.widths row + k]? = some (row,k) :=
        List.getElem?_zip_eq_some.mpr ⟨rowAt,offsetAt⟩
      rw [Tensors.mapM_read _ _ _ made _ _ place,List.getElem?_map,List.getElem?_map,List.getElem?_range inside,
        Option.map_some,Option.map_some,Option.bind_some,PleCommit.unfold,List.getElem?_map,
        List.getElem?_range (by omega),Option.map_some]

theorem row_ids (m : NGramEmbedding) (size : m.ngramSize = ngramSize) (ends : m.eosTokenId = eos) (contexts : Tokens)
    (made : batchContexts ngramSize batch = some contexts) (ids : Tokens) (hashed : unfusedIds m contexts = some ids)
    (row k : Nat) (inside : row < batch.lengths.length) (below : k < batch.lengths.getD row 0)
    (own : k < batch.widths.getD row 0) (history : List Long)
    (follows : context (slotOf fb mambaIndices batch row) =
      Windows.recent (ngramSize - 1) (List.replicate (ngramSize - 1) eos ++ history)) :
    ∃ out, ids[offset batch.widths row + k]? = some out ∧ referenceIds m (history ++
      (block batch.widths (inputIds.take batch.processedTokens) row).take (k + 1)) = some out := by
  have bound := m.ngramBound
  have length := block_length batch.widths _ (shown_length prepared) row
  have token_count : ((inputIds.take batch.processedTokens)).length = batch.widths.sum := by
    rw [tokens_length prepared,prepared.whole]
  have token_length := block_length batch.widths _ token_count row
  have window := context_at prepared contexts made (by omega) row k inside own
  have slice := Windows.recent_slice (ngramSize - 1) (List.replicate (ngramSize - 1) eos ++ history)
    (block batch.widths (batch.shown eos inputIds) row ++
      List.replicate (batch.rowWidth - batch.widths.getD row 0) eos) (by simp) k
    (by rw [List.length_append,length]; omega)
  rw [show ngramSize - 1 + 1 = ngramSize by omega] at slice
  rw [follows,slice,List.take_append_of_le_length (by omega),shown_take prepared row k below own,
    List.append_assoc] at window
  have filled : history ++ (block batch.widths (inputIds.take batch.processedTokens) row).take (k + 1) ≠ [] := by
    intro none
    have zero := congrArg List.length (List.append_eq_nil_iff.mp none).2
    rw [List.length_take,token_length,List.length_nil] at zero
    omega
  have stream : ngramSize ≤ (List.replicate (ngramSize - 1) eos ++ (history ++
      (block batch.widths (inputIds.take batch.processedTokens) row).take (k + 1))).length := by
    have positive := List.length_pos_iff.mpr filled
    rw [List.length_append,List.length_replicate]
    omega
  obtain ⟨out,read,reference⟩ := unfusedIds_row m contexts ids hashed _ _ window
    (by rw [Windows.recent_length _ _ stream,size])
  rw [← size,← ends,windowIds_reference m _ filled] at reference
  exact ⟨out,read,reference⟩

end

def Spared (fb : ForwardBatch) (count slot : Nat) : Prop :=
  ∀ trackIndices trackMask, fb.mambaTrackIndices = some trackIndices → fb.mambaTrackMask = some trackMask →
    count ≤ trackIndices.length ∧ count ≤ trackMask.length ∧
      ∀ row < count, trackMask.getD row false = true → trackIndices.getD row 0 ≠ slot

theorem targets_spared (fb : ForwardBatch) (batch : PleBatch) (slot : Nat) (nonzero : slot ≠ 0)
    (spared : Spared fb batch.lengths.length slot) (dst offsets : List Nat)
    (ran : pleTrackTargets fb batch = some (some (dst,offsets))) :
    dst.length = batch.lengths.length ∧ ∀ target ∈ dst, target ≠ slot := by
  unfold pleTrackTargets at ran
  split at ran
  · rename_i trackIndices trackMask indices mask
    obtain ⟨indicesCover,maskCovers,others⟩ := spared trackIndices trackMask indices mask
    obtain ⟨targets,redirected,ran⟩ := Option.bind_eq_some_iff.mp ran
    have same : targets = dst := by
      split at ran
      · cases ran
        rfl
      · split at ran
        · cases ran
        · simp only at ran
          split at ran
          · cases ran
            rfl
          · cases ran
    subst same
    obtain ⟨lengths,rfl⟩ := redirect_parts _ _ _ redirected
    refine ⟨by simp [maskCovers],?_⟩
    intro target member
    obtain ⟨row,bound,rfl⟩ := List.mem_map.mp member
    have below : row < batch.lengths.length := by
      have inside := List.mem_range.mp bound
      rw [List.length_take] at inside
      omega
    have first : (trackMask.take batch.lengths.length).getD row false = trackMask.getD row false := by
      simp [below]
    have second : (trackIndices.take batch.lengths.length).getD row 0 = trackIndices.getD row 0 := by
      simp [below]
    rw [first,second]
    cases marked : trackMask.getD row false with
    | false => exact Ne.symm nonzero
    | true => exact others row below marked
  · cases ran

theorem setBoth_other (pool : RequestPool σ) (stores : pool.Stores) (state : σ) (indices : List Nat)
    (next : List (List Long)) (track : Option (List Nat × List (List Long))) (slot : Nat)
    (same : indices.length = next.length)
    (others : ∀ targets, track = some targets → targets.1.length = targets.2.length ∧
      ∀ target ∈ targets.1, target ≠ slot) :
    pool.ngramContext (setBoth pool state indices next track) slot =
      Tensors.put (pool.ngramContext state) (indices.zip next) slot := by
  unfold setBoth
  cases track with
  | none => simp only [stores.context _ _ _ same]
  | some targets =>
      obtain ⟨count,apart⟩ := others targets rfl
      simp only [stores.context _ _ _ count,stores.context _ _ _ same]
      apply Tensors.put_other
      intro write member
      exact apart write.1 (List.of_mem_zip member).1

theorem gatherAt_length (windows : List (List α)) (offsets : List Nat) (width : Nat) (out : List (List α))
    (ran : gatherAt windows offsets width = some out) : out.length = windows.length := by
  unfold gatherAt at ran
  split at ran
  · rename_i same
    have length := (Tensors.mapM_parts _ _ _ ran).length_eq
    rw [List.length_zip,same,Nat.min_self] at length
    omega
  · cases ran

theorem snapshot_spared (fb : ForwardBatch) (batch : PleBatch) (slot : Nat) (nonzero : slot ≠ 0)
    (spared : Spared fb batch.lengths.length slot) (track : Option (List Nat × List Nat))
    (targets : pleTrackTargets fb batch = some track) (windows : List (List α)) (width : Nat)
    (count : windows.length = batch.lengths.length) (chosen : List Nat × List (List α))
    (taken : snapshotAt windows width track = some (some chosen)) :
    chosen.1.length = chosen.2.length ∧ ∀ target ∈ chosen.1, target ≠ slot := by
  cases track with
  | none => cases taken
  | some pair =>
      obtain ⟨rows,gathered,same⟩ := Option.map_eq_some_iff.mp taken
      cases same
      obtain ⟨named,apart⟩ := targets_spared fb batch slot nonzero spared _ _ targets
      have length := gatherAt_length _ _ _ _ gathered
      exact ⟨named.trans (count.symm.trans length.symm),apart⟩

theorem commit_context (pool : RequestPool σ) (stores : pool.Stores) (state after : σ) (fusion : Bool)
    (inputIds : List Long) (fb : ForwardBatch) (ngramSize : Nat) (eos : Long) (batch : PleBatch)
    (prepared : Prepared fusion (pool.mambaIndices state) (pool.ngramContext state) inputIds fb ngramSize eos batch)
    (mode : batch.mode.isTargetVerify = false) (slot : Nat) (nonzero : slot ≠ 0)
    (spared : Spared fb batch.lengths.length slot) (committed : commitPleBatch pool (some batch) fb state = some after) :
    batch.processedTokens = 0 ∧ after = state ∨ pool.ngramContext after slot =
      Tensors.put (pool.ngramContext state) ((List.range batch.lengths.length).map fun row =>
        (slotOf fb (pool.mambaIndices state) batch row,
          (block batch.lengths (inputIds.take batch.processedTokens) row).foldl Windows.push
            (pool.ngramContext state (slotOf fb (pool.mambaIndices state) batch row)))) slot := by
  have whole := tokens_length prepared
  have shared := shared_rest prepared mode
  have pushed : ∀ row, Windows.advance (pool.ngramContext state (slotOf fb (pool.mambaIndices state) batch row))
      (PleBatch.rest batch (inputIds.take batch.processedTokens) eos row) (batch.lengths.getD row 0) =
        (block batch.lengths (inputIds.take batch.processedTokens) row).foldl Windows.push
          (pool.ngramContext state (slotOf fb (pool.mambaIndices state) batch row)) := by
    intro row
    have full := block_full prepared mode _ whole row
    rw [PleBatch.rest,Windows.advance_committed _ _ _ _ (by omega),List.take_of_length_le (by omega)]
  unfold commitPleBatch at committed
  simp only [shared] at committed
  split at committed
  · rename_i empty
    cases committed
    exact .inl ⟨empty,rfl⟩
  · rename_i filled
    refine .inr ?_
    rw [if_neg (by simp [mode])] at committed
    cases fusing : batch.useDecodeFastPath with
    | true =>
        have decoding := fast_decodes prepared fusing
        have next := fast_windows prepared mode _ whole eos
          (fun row => pool.ngramContext state (slotOf fb (pool.mambaIndices state) batch row))
        rw [fusing,if_pos rfl,next] at committed
        obtain ⟨track,targets,same⟩ := Option.bind_eq_some_iff.mp committed
        cases same
        rw [setBoth_other pool stores state _ _ _ slot (by simp [prepared.slots]) (by
          intro chosen named
          obtain ⟨pair,found,rfl⟩ := Option.map_eq_some_iff.mp named
          subst found
          obtain ⟨count,apart⟩ := targets_spared fb batch slot nonzero spared _ _ targets
          exact ⟨by simpa using count,apart⟩),prepared.slots,List.zip_map']
        congr 1
        apply List.map_congr_left
        intro row member
        rw [← pushed row,decode_row prepared decoding row (List.mem_range.mp member)]
    | false =>
        have columns := context_width prepared filled _ shared
        have next := general_windows batch (inputIds.take batch.processedTokens) eos _ _
          (fun row below => by
            have width := prepared.wide row below
            exact Nat.eq_sub_of_add_eq width)
          (fun row => batch.lengths.getD row 0) fun row _ => Nat.le_of_eq (block_full prepared mode _ whole row).symm
        rw [← read_back] at next
        rw [fusing,if_neg (by simp),columns,next,Option.bind_eq_bind,Option.bind_some] at committed
        obtain ⟨track,targets,committed⟩ := Option.bind_eq_some_iff.mp committed
        obtain ⟨snapshot,taken,same⟩ := Option.bind_eq_some_iff.mp committed
        cases same
        rw [setBoth_other pool stores state _ _ _ slot (by simp [prepared.slots]) (by
          intro chosen named
          subst named
          exact snapshot_spared fb batch slot nonzero spared _ targets _ _ (by simp) chosen taken),
          prepared.slots,List.zip_map']
        congr 1
        apply List.map_congr_left
        intro row _
        rw [← pushed row]

theorem maskSteps_read (valid : List (List Bool)) (steps out : List (List (List α))) (fill : List α)
    (ran : maskSteps valid steps fill = some out) (row step : Nat) (marks : List Bool) (windows : List (List α))
    (window : List α) (marksAt : valid[row]? = some marks) (windowsAt : steps[row]? = some windows)
    (kept : marks[step]? = some true) (windowAt : windows[step]? = some window) :
    ∃ masked, out[row]? = some masked ∧ masked[step]? = some window := by
  unfold maskSteps at ran
  split at ran
  · cases ran
    refine ⟨_,by rw [List.getElem?_zipWith,marksAt,windowsAt],?_⟩
    rw [List.getElem?_zipWith,kept,windowAt]
    rfl
  · cases ran

theorem reshape_read (values : List α) (rows width : Nat) (out : List (List α))
    (ran : reshape values rows width = some out) (row : Nat) (inside : row < rows) :
    out[row]? = some ((values.drop (row * width)).take width) := by
  unfold reshape at ran
  split at ran
  · cases ran
    simp [inside]
  · cases ran

-- The row a request's tokens take in a batch: a live row of its slot, and the only one.
structure Row (fb : ForwardBatch) (mambaIndices : Nat → Nat) (batch : PleBatch) (slot row : Nat) : Prop where
  inside : row < batch.lengths.length
  live : live fb batch.lengths batch.rowWidth row = true
  working : workingSlot fb mambaIndices row = slot
  only : ∀ other < batch.lengths.length, PleLayout.live fb batch.lengths batch.rowWidth other = true →
    workingSlot fb mambaIndices other = slot → other = row

def Absent (fb : ForwardBatch) (mambaIndices : Nat → Nat) (batch : PleBatch) (slot : Nat) : Prop :=
  ∀ row < batch.lengths.length, PleLayout.live fb batch.lengths batch.rowWidth row = true →
    workingSlot fb mambaIndices row ≠ slot

theorem Row.named (own : Row fb mambaIndices batch slot row) : slotOf fb mambaIndices batch row = slot := by
  rw [slotOf,own.live,if_pos rfl,own.working]

section
variable (pool : RequestPool σ) (stores : pool.Stores) (state after : σ) (fusion : Bool) (inputIds : List Long)
  (fb : ForwardBatch) (ngramSize : Nat) (eos : Long) (batch : PleBatch)
  (prepared : Prepared fusion (pool.mambaIndices state) (pool.ngramContext state) inputIds fb ngramSize eos batch)
  (slot : Nat) (nonzero : slot ≠ 0) (committed : commitPleBatch pool (some batch) fb state = some after)
include stores prepared nonzero committed

theorem commit_row (mode : batch.mode.isTargetVerify = false) (spared : Spared fb batch.lengths.length slot) (row : Nat)
    (own : Row fb (pool.mambaIndices state) batch slot row) :
    pool.ngramContext after slot = (block batch.lengths (inputIds.take batch.processedTokens) row).foldl Windows.push
      (pool.ngramContext state slot) := by
  rcases commit_context pool stores state after fusion inputIds fb ngramSize eos batch prepared mode slot nonzero
    spared committed with ⟨empty,_⟩ | written
  · have dead := empty_dead prepared empty mode row
    rw [own.live] at dead
    cases dead
  · rw [written]
    apply Tensors.put_agreed _ _ _ _ ⟨_,List.mem_map_of_mem (List.mem_range.mpr own.inside),own.named⟩
    intro write member same
    obtain ⟨other,bound,rfl⟩ := List.mem_map.mp member
    have below := List.mem_range.mp bound
    cases alive : PleLayout.live fb batch.lengths batch.rowWidth other with
    | false =>
        rw [slotOf,alive] at same
        exact absurd same.symm nonzero
    | true =>
        rw [slotOf,alive,if_pos rfl] at same
        rw [own.only other below alive same,own.named]

theorem commit_absent (mode : batch.mode.isTargetVerify = false) (spared : Spared fb batch.lengths.length slot)
    (absent : Absent fb (pool.mambaIndices state) batch slot) :
    pool.ngramContext after slot = pool.ngramContext state slot := by
  rcases commit_context pool stores state after fusion inputIds fb ngramSize eos batch prepared mode slot nonzero
    spared committed with ⟨_,same⟩ | written
  · rw [same]
  · rw [written,Tensors.put_other]
    intro write member
    obtain ⟨row,bound,rfl⟩ := List.mem_map.mp member
    cases alive : PleLayout.live fb batch.lengths batch.rowWidth row with
    | false =>
        rw [slotOf,alive]
        exact Ne.symm nonzero
    | true =>
        rw [slotOf,alive,if_pos rfl]
        exact absent row (List.mem_range.mp bound) alive

-- A verify commit leaves the contexts alone; a row's intermediate context at a valid step has
-- taken the row's tokens up to that step.
omit nonzero in
theorem commit_verify (mode : batch.mode.isTargetVerify = true) :
    pool.ngramContext after = pool.ngramContext state ∧ ∀ row, Row fb (pool.mambaIndices state) batch slot row →
      ∀ accepted, 1 ≤ accepted → accepted ≤ batch.lengths.getD row 0 → accepted ≤ batch.widths.getD row 0 →
        pool.ngramIntermediate after row (accepted - 1) =
          ((block batch.widths (inputIds.take batch.processedTokens) row).take accepted).foldl Windows.push
            (pool.ngramContext state slot) := by
  obtain ⟨positive,strides⟩ := prepared.verified mode
  have widths : batch.widths = List.replicate batch.lengths.length batch.rowWidth := by
    rw [PleBatch.widths,mode,if_pos rfl]
  unfold commitPleBatch at committed
  simp only [prepared.shared] at committed
  split at committed
  · rename_i empty
    cases committed
    refine ⟨rfl,?_⟩
    intro row own
    have inside := own.inside
    rw [empty] at strides
    rcases Nat.mul_eq_zero.mp strides.symm with none | none <;> omega
  · rename_i filled
    have columns := context_width prepared filled _ prepared.shared
    rw [columns] at committed
    obtain ⟨marks,reshaped,committed⟩ := Option.bind_eq_some_iff.mp committed
    obtain ⟨token,told,committed⟩ := Option.bind_eq_some_iff.mp committed
    obtain ⟨rows,masked,same⟩ := Option.bind_eq_some_iff.mp committed
    cases same
    refine ⟨(stores.intermediateKeeps state rows).1,?_⟩
    intro row own accepted first valid span
    have inside := own.inside
    have width : batch.widths.getD row 0 = batch.rowWidth := by
      rw [widths]
      simp [inside]
    have start : offset batch.widths row = row * batch.rowWidth := by
      rw [widths,offset_replicate _ _ _ (Nat.le_of_lt inside)]
    have mark := valid_mark prepared row (accepted - 1) (by omega) (by omega)
    rw [start] at mark
    have kept : ((batch.validTokens.drop (row * batch.rowWidth)).take batch.rowWidth)[accepted - 1]? = some true := by
      rw [List.getElem?_take_of_lt (by omega),List.getElem?_drop,mark]
    have wide := prepared.wide row inside
    have length := block_length batch.widths _ (shown_length prepared) row
    have pushed := Windows.advance_committed (pool.ngramContext state slot)
      (block batch.widths (batch.shown eos inputIds) row) (List.replicate (batch.rowWidth - batch.widths.getD row 0) eos)
      accepted (by omega)
    have shown := shown_take prepared row (accepted - 1) (by omega) (by omega)
    rw [show accepted - 1 + 1 = accepted by omega] at shown
    rw [shown] at pushed
    rw [own.named] at wide
    have windowAt : ((PleCommit.unfold (pool.ngramContext state slot ++
        (block batch.widths (batch.shown eos inputIds) row ++
          List.replicate (batch.rowWidth - batch.widths.getD row 0) eos)) (ngramSize - 1)).drop 1)[accepted - 1]? =
        some (((block batch.widths (inputIds.take batch.processedTokens) row).take accepted).foldl Windows.push
          (pool.ngramContext state slot)) := by
      rw [List.getElem?_drop,show 1 + (accepted - 1) = accepted by omega,PleCommit.unfold,List.getElem?_map,
        List.getElem?_range (by simp only [List.length_append,List.length_replicate,length]; omega),Option.map_some,
        ← pushed,Windows.advance,show ngramSize - 1 = (pool.ngramContext state slot).length by omega]
    obtain ⟨steps,rowAt,stepAt⟩ := maskSteps_read marks _ rows _ masked row (accepted - 1) _ _ _
      (reshape_read _ _ _ _ reshaped row inside)
      (by rw [stepContexts,List.getElem?_map,List.getElem?_map,List.getElem?_range inside,Option.map_some,
        Option.map_some,own.named]) kept windowAt
    exact stores.intermediate state rows row steps (accepted - 1) _ rowAt stepAt

end

structure Forwarded (model : Model σ) (slot : Nat) (inputIds : List Long) (fb : ForwardBatch) (state : σ)
    (batch : PleBatch) (ids : List Tokens) (after : σ) : Prop where
  ran : ∃ batchTag freshTag, forward model batchTag freshTag inputIds fb state = some (some batch,ids,after)
  ragged : laidFromLengths (getPleForwardMode fb) = true → Ragged fb inputIds
  spared : Spared fb batch.lengths.length slot

def rowTokens (batch : PleBatch) (inputIds : List Long) (row : Nat) : List Long :=
  block batch.widths (inputIds.take batch.processedTokens) row

-- What happens to the request that works in `slot`, with the tokens it has so far: its chunks and
-- decode tokens are taken whole; of a verify row the first `accepted` tokens are, once the pool has
-- installed the intermediate context of the last of them. Other forwards and the pool's work on
-- other slots go on in between.
inductive Step (model : Model σ) (slot : Nat) : σ × List Long → σ × List Long → Prop
  | chunk (forwarded : Forwarded model slot inputIds fb state batch ids after)
      (mode : batch.mode.isTargetVerify = false) (own : Row fb (model.pool.mambaIndices state) batch slot row) :
      Step model slot (state,history) (after,history ++ rowTokens batch inputIds row)
  | verify (forwarded : Forwarded model slot inputIds fb state batch ids after)
      (mode : batch.mode.isTargetVerify = true) (own : Row fb (model.pool.mambaIndices state) batch slot row)
      (first : 1 ≤ accepted) (valid : accepted ≤ batch.lengths.getD row 0) (span : accepted ≤ batch.widths.getD row 0)
      (installed : model.pool.ngramContext next slot = model.pool.ngramIntermediate after row (accepted - 1)) :
      Step model slot (state,history) (next,history ++ (rowTokens batch inputIds row).take accepted)
  | absent (forwarded : Forwarded model slot inputIds fb state batch ids after)
      (absent : Absent fb (model.pool.mambaIndices state) batch slot) :
      Step model slot (state,history) (after,history)
  | idle (ran : forward model batchTag freshTag inputIds fb state = some (none,ids,after)) :
      Step model slot (state,history) (after,history)
  | elsewhere (kept : model.pool.ngramContext next slot = model.pool.ngramContext state slot) :
      Step model slot (state,history) (next,history)

-- The slot holds the last tokens of the request's own history.
def Follows (model : Model σ) (slot : Nat) (now : σ × List Long) : Prop :=
  model.pool.ngramContext now.1 slot =
    Windows.recent (model.ngramSize - 1) (List.replicate (model.ngramSize - 1) model.eos ++ now.2)

theorem follows_pushed (model : Model σ) (slot : Nat) (state next : σ) (history tokens : List Long)
    (follows : Follows model slot (state,history))
    (pushed : model.pool.ngramContext next slot = tokens.foldl Windows.push (model.pool.ngramContext state slot)) :
    Follows model slot (next,history ++ tokens) := by
  unfold Follows at follows ⊢
  simp only at follows ⊢
  rw [pushed,follows,← Windows.advance_pushes,Windows.recent_advance _ _ _ (by simp),List.append_assoc]

theorem Forwarded.prepared (forwarded : Forwarded model slot inputIds fb state batch ids after) :
    Prepared model.fusion (model.pool.mambaIndices state) (model.pool.ngramContext state) inputIds fb model.ngramSize
      model.eos batch ∧ commitPleBatch model.pool (some batch) fb state = some after := by
  obtain ⟨batchTag,freshTag,ran⟩ := forwarded.ran
  obtain ⟨made,_,committed⟩ := forward_parts model batchTag freshTag inputIds fb state after batch ids ran
  exact ⟨prepared_exact _ _ _ inputIds fb forwarded.ragged _ _ batch made,committed⟩

theorem absent_kept (nonzero : slot ≠ 0) (forwarded : Forwarded model slot inputIds fb state batch ids after)
    (absent : Absent fb (model.pool.mambaIndices state) batch slot) :
    model.pool.ngramContext after slot = model.pool.ngramContext state slot := by
  obtain ⟨prepared,committed⟩ := forwarded.prepared
  cases mode : batch.mode.isTargetVerify with
  | false =>
      exact commit_absent model.pool model.stores state after _ inputIds fb _ _ batch prepared slot nonzero committed
        mode forwarded.spared absent
  | true =>
      rw [(commit_verify model.pool model.stores state after _ inputIds fb _ _ batch prepared slot committed mode).1]

theorem step_follows (model : Model σ) (slot : Nat) (nonzero : slot ≠ 0) (before next : σ × List Long)
    (follows : Follows model slot before) (step : Step model slot before next) : Follows model slot next := by
  cases step with
  | chunk forwarded mode own =>
      obtain ⟨prepared,committed⟩ := forwarded.prepared
      apply follows_pushed model slot _ _ _ _ follows
      rw [rowTokens,widths_plain _ mode]
      exact commit_row model.pool model.stores _ _ _ _ _ _ _ _ prepared slot nonzero committed mode forwarded.spared _
        own
  | verify forwarded mode own first valid span installed =>
      obtain ⟨prepared,committed⟩ := forwarded.prepared
      apply follows_pushed model slot _ _ _ _ follows
      rw [installed]
      exact (commit_verify model.pool model.stores _ _ _ _ _ _ _ _ prepared slot committed mode).2 _ own _ first
        valid span
  | absent forwarded absent =>
      unfold Follows at follows ⊢
      simp only at follows ⊢
      rw [absent_kept nonzero forwarded absent,follows]
  | idle ran =>
      unfold forward at ran
      simp only [Option.bind_eq_bind,Option.bind_eq_some_iff,Option.pure_def,Option.some_inj,Prod.mk.injEq] at ran
      obtain ⟨batch,_,_,_,state,committed,rfl,_,rfl⟩ := ran
      cases committed
      exact follows
  | elsewhere kept =>
      unfold Follows at follows ⊢
      simp only at follows ⊢
      rw [kept,follows]

-- In every run the slot follows the request's history.
theorem run_follows (model : Model σ) (slot : Nat) (nonzero : slot ≠ 0) (start : σ)
    (fresh : model.pool.ngramContext start slot = List.replicate (model.ngramSize - 1) model.eos) (now : σ × List Long)
    (reached : Relation.ReflTransGen (Step model slot) (start,[]) now) : Follows model slot now := by
  induction reached with
  | refl =>
      unfold Follows
      simp only [List.append_nil]
      rw [fresh,Windows.recent,List.length_replicate,Nat.sub_self,List.drop_zero]
  | tail _ step ih => exact step_follows model slot nonzero _ _ ih step

-- The ids of every token a forward takes or verifies are the reference's on the request's own
-- history up to that token.
theorem ids_follow_history (model : Model σ) (slot : Nat) (nonzero : slot ≠ 0) (start : σ)
    (fresh : model.pool.ngramContext start slot = List.replicate (model.ngramSize - 1) model.eos) (state : σ)
    (history : List Long) (reached : Relation.ReflTransGen (Step model slot) (start,[]) (state,history))
    (inputIds : List Long) (fb : ForwardBatch) (batch : PleBatch) (ids : List Tokens) (after : σ)
    (forwarded : Forwarded model slot inputIds fb state batch ids after) (row : Nat)
    (own : Row fb (model.pool.mambaIndices state) batch slot row) (k : Nat) (valid : k < batch.lengths.getD row 0)
    (span : k < batch.widths.getD row 0) (l : Nat) (m : NGramEmbedding) (layer : model.layers[l]? = some m) :
    ∃ layerIds tokenIds, ids[l]? = some layerIds ∧ layerIds[offset batch.widths row + k]? = some tokenIds ∧
      referenceIds m (history ++ (rowTokens batch inputIds row).take (k + 1)) = some tokenIds := by
  have follows := run_follows model slot nonzero start fresh (state,history) reached
  obtain ⟨prepared,_⟩ := forwarded.prepared
  obtain ⟨batchTag,freshTag,ran⟩ := forwarded.ran
  obtain ⟨_,hashed,_⟩ := forward_parts model batchTag freshTag inputIds fb state after batch ids ran
  obtain ⟨layerTokens,contexts,found,made,unfused⟩ := layerIds_parts model.fused model.ngramSize model.eos batchTag
    freshTag batch model.layers model.sizes model.ends model.agrees none (fun _ missing => absurd missing (by simp))
    ids hashed l m layer
  have member := List.mem_of_getElem? layer
  rw [Follows,← own.named] at follows
  obtain ⟨tokenIds,read,reference⟩ := row_ids prepared m (model.sizes m member) (model.ends m member) contexts made
    layerTokens unfused row k own.inside valid span history follows
  exact ⟨layerTokens,tokenIds,found,read,reference⟩

theorem bigram_bound : 2 ≤ 2 := Nat.le_refl 2

def bigrams : NGramEmbedding where
  ngramSize := 2
  headsPerNgram := 1
  layerMultipliers := [1,3]
  ngramHeadsVocabSizes := [11]
  ngramHeadsOffsets := [0]
  eosTokenId := 5
  enablePleFusion := false
  ngramBound := bigram_bound
  multipliersLength := rfl
  sizesLength := rfl
  offsetsLength := rfl

def bigramModel : Model Tables where
  pool := tablePool
  fused := ⟨fun _ _ => false,fun _ _ => []⟩
  fusion := true
  ngramSize := 2
  eos := 5
  layers := [bigrams]
  stores := tablePool_stores
  sizes := by simp [bigrams]
  ends := by simp [bigrams]
  agrees := by
    intro m _ contexts fusing
    cases fusing

def freshTables : Tables := ⟨fun _ => [5],fun _ _ => []⟩

def chunkBatch (context : List (List Long)) : PleBatch := { sampleBatch with ngramContext := some context }

def chunkTables (tables : Tables) (first second : Long) : Tables :=
  { tables with context := Tensors.put (Tensors.put tables.context [(1,[first]),(0,[second])]) [(0,[first]),(0,[second])] }

theorem sample_row (tables : Tables) (context : List (List Long)) :
    Row (sampleForward [false,false]) (tablePool.mambaIndices tables) (chunkBatch context) 1 0 := by
  refine ⟨by simp [chunkBatch,sampleBatch],rfl,rfl,?_⟩
  intro other below alive _
  have small : other < 2 := below
  interval_cases other
  · rfl
  · cases alive

theorem sample_ids : ∃ after ids layerIds tokenIds,
    Forwarded bigramModel 1 [9] (sampleForward [false,false]) after (chunkBatch [[7,9],[5,5]]) ids
      (chunkTables after 9 5) ∧
    ids[0]? = some layerIds ∧ layerIds[0]? = some tokenIds ∧ referenceIds bigrams [7,9] = some tokenIds := by
  have spared : Spared (sampleForward [false,false]) 2 1 := by
    intro trackIndices trackMask indices mask
    cases indices
    cases mask
    refine ⟨by simp,by simp,?_⟩
    intro row below marked
    interval_cases row <;> cases marked
  have ragged : ∀ token : Long, Ragged (sampleForward [false,false]) [token] := by
    intro token
    refine ⟨?_,fun _ copied => copied⟩
    intro lengths processed sent counted
    cases sent
    cases counted
    rfl
  have first : Forwarded bigramModel 1 [7] (sampleForward [false,false]) freshTables (chunkBatch [[5,7],[5,5]])
      [[[8]]] (chunkTables freshTables 7 5) := ⟨⟨0,0,rfl⟩,fun _ => ragged 7,spared⟩
  have second : Forwarded bigramModel 1 [9] (sampleForward [false,false]) (chunkTables freshTables 7 5)
      (chunkBatch [[7,9],[5,5]]) [[[6]]] (chunkTables (chunkTables freshTables 7 5) 9 5) :=
    ⟨⟨0,0,rfl⟩,fun _ => ragged 9,spared⟩
  have reached : Relation.ReflTransGen (Step bigramModel 1) (freshTables,[]) (chunkTables freshTables 7 5,[7]) :=
    .single (.chunk first rfl (sample_row freshTables _))
  obtain ⟨layerIds,tokenIds,found,read,reference⟩ := ids_follow_history bigramModel 1 (by omega) freshTables rfl
    (chunkTables freshTables 7 5) [7] reached [9] (sampleForward [false,false]) _ _ _ second 0
    (sample_row (chunkTables freshTables 7 5) _) 0 (by simp [chunkBatch,sampleBatch])
    (by simp [PleBatch.widths,chunkBatch,sampleBatch,ForwardMode.isTargetVerify]) 0 bigrams rfl
  exact ⟨_,_,layerIds,tokenIds,second,found,read,reference⟩

end OneSpark.NGramRuns
