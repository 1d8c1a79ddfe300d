import OneSpark.NGramRuns
import OneSpark.SilentConv

namespace OneSpark.PleLayer
open Longs RingSlots NGramIds PleLayout PleCommit ShortConv NGramRuns SilentConv

-- torch's elementary functions in exact arithmetic; rsqrt has no finite value outside of the
-- positive numbers.
structure Elementary (K : Type) where
  rsqrt : K → Option K
  sqrt : K → K
  sigmoid : K → K

inductive Lookup where
  | off | hashk | nvfp4 | table
  deriving DecidableEq

-- What the embedding's constructor chooses, and what it leaves in config.ple_offload_embedding.
def initLookup (pleOff hashkPath nvfp4Enabled offload : Bool) : Lookup × Bool :=
  if pleOff then (.off,false)
  else if hashkPath then (.hashk,false)
  else if nvfp4Enabled then (.nvfp4,false)
  else (.table,offload)

theorem initLookup_off (hashkPath nvfp4Enabled offload : Bool) :
    initLookup true hashkPath nvfp4Enabled offload = (.off,false) := rfl

-- x.flatten(-2): row-major.
def flatten (x : Fin m → Fin n → K) : Fin (m * n) → K := fun i => x i.divNat i.modNat

section
variable {K : Type} [Field K] [LinearOrder K]

def linear (weight : Fin n → Fin d → K) (x : Fin d → K) : Fin n → K := fun i => ∑ j, weight i j * x j

def groupVariance (x : Fin (groups * size) → K) (group : Fin groups) : K :=
  (∑ d : Fin size, x (finProdFinEquiv (group,d)) ^ 2) / size

-- Qwen4ExpPLEGroupedNorm; `kernel` is the JIT kernel where device and dtype let it run.
structure GroupedNorm (K : Type) [Zero K] [LT K] (groups size : Nat) where
  eps : K
  positive : 0 < eps
  weight : Fin (groups * size) → K
  kernel : Option ((Fin (groups * size) → K) → Fin (groups * size) → K)

def GroupedNorm.unfused (e : Elementary K) (norm : GroupedNorm K groups size) (x : Fin (groups * size) → K) :
    Option (Fin (groups * size) → K) :=
  if ∀ group : Fin groups, (e.rsqrt (groupVariance x group + norm.eps)).isSome then
    some fun i => x i * (e.rsqrt (groupVariance x i.divNat + norm.eps)).getD 0 * (norm.weight i + 1)
  else none

def GroupedNorm.forward (e : Elementary K) (norm : GroupedNorm K groups size) (x : Fin (groups * size) → K) :
    Option (Fin (groups * size) → K) :=
  match norm.kernel with
  | some kernel => some (kernel x)
  | none => norm.unfused e x

def GroupedNorm.Agrees (e : Elementary K) (norm : GroupedNorm K groups size) : Prop :=
  ∀ kernel, norm.kernel = some kernel → ∀ x, norm.unfused e x = some (kernel x)

def sign (x : K) : K := if 0 < x then 1 else if x < 0 then -1 else 0

-- (key * query).sum(-1) / sqrt(hidden_size)
def gateOf (e : Elementary K) (key query : Fin (hc * hiddenSize) → K) (head : Fin hc) : K :=
  (∑ d : Fin hiddenSize, key (finProdFinEquiv (head,d)) * query (finProdFinEquiv (head,d))) / e.sqrt hiddenSize

def gateValue (e : Elementary K) (gate : Fin hc → K) (value : Fin hiddenSize → K) (head : Fin hc) (d : Fin hiddenSize) : K :=
  e.sigmoid (e.sqrt (max |gate head| (1 / 10 ^ 6)) * sign (gate head)) * value d

-- sglang.kernels.ops.qwen4_ple, not part of the repository.
structure FusedGate (K : Type) (hc hiddenSize : Nat) where
  canFuse : List (Fin hc → K) → List (Fin hiddenSize → K) → Bool
  gateValue : List (Fin hc → K) → List (Fin hiddenSize → K) → List (Fin hc → Fin hiddenSize → K)

def FusedGate.Agrees (e : Elementary K) (fused : FusedGate K hc hiddenSize) : Prop :=
  ∀ gate value, fused.canFuse gate value = true → fused.gateValue gate value = gate.zipWith (OneSpark.PleLayer.gateValue e) value

-- dp_gather_replicate and dp_scatter of the data-parallel layout, where the embedding uses them;
-- a scatter hands a rank rows of the gathered buffer or zeros.
structure DpGather (K : Type) [Zero K] (embedDim : Nat) where
  gather : Tokens → Option Tokens
  scatter : Nat → List (Fin embedDim → K) → List (Fin embedDim → K)
  drawn : ∀ physicalTokens rows, ∀ row ∈ scatter physicalTokens rows, row ∈ rows ∨ row = 0

structure Env (K : Type) [Zero K] (hc hiddenSize embedDim : Nat) where
  elementary : Elementary K
  hash : FusedHash
  conv : FusedConv K (hc * hiddenSize)
  gate : FusedGate K hc hiddenSize
  dp : Option (DpGather K embedDim)
  -- the rows the other lookups find for a token's ids
  rows : Lookup → List Long → Fin embedDim → K
  -- what _consume_prefetched_embeddings hands over
  prefetched : PleBatch → Option (List (Fin embedDim → K))

structure Layer (K : Type) [Zero K] [LT K] (hc hiddenSize embedDim : Nat) where
  embedding : NGramEmbedding
  lookup : Lookup
  -- config.ple_offload_embedding after the embedding is built: there is a prefetch stream
  offload : Bool
  weightScale : K
  keyProj : Fin (hc * hiddenSize) → Fin embedDim → K
  valueProj : Fin hiddenSize → Fin embedDim → K
  normKey : GroupedNorm K hc hiddenSize
  normQuery : GroupedNorm K hc hiddenSize
  normConv : GroupedNorm K hc hiddenSize
  kernelSize : Nat
  convWeight : Fin (hc * hiddenSize) → Nat → K

def Layer.depthwise (e : Elementary K) (layer : Layer K hc hiddenSize embedDim) : DepthwiseConv K (hc * hiddenSize) where
  kernelSize := layer.kernelSize
  dilation := layer.embedding.ngramSize
  weight := layer.convWeight
  silu := fun x => x * e.sigmoid x

def padTokenRows (fill : α) (rows : List α) (totalTokens : Nat) : Option (List α) :=
  if rows.length ≤ totalTokens then some (rows ++ List.replicate (totalTokens - rows.length) fill) else none

def lookupRows (env : Env K hc hiddenSize embedDim) (layer : Layer K hc hiddenSize embedDim) (ids : Tokens) :
    List (Fin embedDim → K) :=
  let embeddings := if layer.lookup = .off then ids.map fun _ _ => 0 else ids.map (env.rows layer.lookup)
  embeddings.map fun row i => row i * layer.weightScale

-- _prepare_embedding_lookup, the lookup and _finish_embedding_lookup.
def embedNgramIds (env : Env K hc hiddenSize embedDim) (layer : Layer K hc hiddenSize embedDim) (ids : Tokens)
    (physicalTokens : Nat) : Option (List (Fin embedDim → K)) :=
  match env.dp with
  | none => some (lookupRows env layer ids)
  | some dp => do
      let padded ← padTokenRows (List.replicate layer.embedding.ngramHeadsOffsets.length 0) ids physicalTokens
      let lookupIds ← dp.gather padded
      return (dp.scatter physicalTokens (lookupRows env layer lookupIds)).take ids.length

def pleEmbedding (env : Env K hc hiddenSize embedDim) (layer : Layer K hc hiddenSize embedDim) (batchTag freshTag : Nat)
    (batch : PleBatch) (cached : Option WindowCache) : Option (List (Fin embedDim → K) × Option WindowCache) :=
  if layer.offload then (env.prefetched batch).map fun embeddings => (embeddings,cached)
  else do
    let (ids, cached) ← computeNgramIds env.hash layer.embedding batchTag freshTag batch cached
    let embeddings ← embedNgramIds env layer ids batch.physicalTokens
    return (embeddings,cached)

def gatedValues (env : Env K hc hiddenSize embedDim) (batch : PleBatch) (gate : List (Fin hc → K))
    (value : List (Fin hiddenSize → K)) : List (Fin hc → Fin hiddenSize → K) :=
  if batch.useDecodeFastPath && env.gate.canFuse gate value then env.gate.gateValue gate value
  else gate.zipWith (gateValue env.elementary) value

def addRows (left right : List (Fin n → K)) : Option (List (Fin n → K)) :=
  if left.length = right.length then some (left.zipWith (· + ·) right) else none

def validOutput (batch : PleBatch) (output : List (Fin n → K)) : Option (List (Fin n → K)) :=
  if batch.useDecodeFastPath then some output
  else if batch.validTokens.length = output.length then
    some (Tensors.select batch.validTokens output (output.map fun _ _ => 0))
  else none

def pleForward (env : Env K hc hiddenSize embedDim) (layer : Layer K hc hiddenSize embedDim) (batchTag freshTag : Nat)
    (hiddenStates : List (Fin (hc * hiddenSize) → K)) (fb : ForwardBatch) (batch : PleBatch)
    (pool : ConvPool K (hc * hiddenSize)) (cached : Option WindowCache) :
    Option (List (Fin (hc * hiddenSize) → K) × ConvPool K (hc * hiddenSize) × Option WindowCache) := do
  let query := hiddenStates.take batch.processedTokens
  let (embeddings, cached) ← pleEmbedding env layer batchTag freshTag batch cached
  if embeddings.length ≠ query.length then none else
  let keyNormed ← (embeddings.map (linear layer.keyProj)).mapM (layer.normKey.forward env.elementary)
  let queryNormed ← query.mapM (layer.normQuery.forward env.elementary)
  let gate := keyNormed.zipWith (gateOf env.elementary) queryNormed
  let gatedValue := gatedValues env batch gate (embeddings.map (linear layer.valueProj))
  let gatedValueNormed ← gatedValue.mapM fun value => layer.normConv.forward env.elementary (flatten value)
  let (convOutput, pool) ← shortConv env.conv (layer.depthwise env.elementary) fb batch gatedValueNormed pool
  let output ← addRows (gatedValue.map flatten) convOutput
  let output ← validOutput batch output
  let padded ← padTokenRows (fun _ => 0) output batch.physicalTokens
  return (padded,pool,cached)

structure Env.Agrees (env : Env K hc hiddenSize embedDim) : Prop where
  conv : env.conv.Agrees
  gate : env.gate.Agrees env.elementary

omit [LinearOrder K] in
theorem linear_zero (weight : Fin n → Fin d → K) : linear weight 0 = 0 := by
  funext i
  simp [linear]

theorem variance_nonneg [IsStrictOrderedRing K] (x : Fin (groups * size) → K) (group : Fin groups) : 0 ≤ groupVariance x group :=
  div_nonneg (Finset.sum_nonneg fun _ _ => sq_nonneg _) (Nat.cast_nonneg size)

-- Every input has a finite norm: the variance is no less than zero and eps is positive.
theorem norm_finite [IsStrictOrderedRing K] (e : Elementary K) (finite : ∀ x : K, 0 < x → (e.rsqrt x).isSome)
    (norm : GroupedNorm K groups size) (x : Fin (groups * size) → K) : ∃ out, norm.unfused e x = some out := by
  refine ⟨_,if_pos fun group => finite _ ?_⟩
  have low := variance_nonneg x group
  have eps := norm.positive
  linarith

theorem norm_zero (e : Elementary K) (norm : GroupedNorm K groups size) (agrees : norm.Agrees e)
    (out : Fin (groups * size) → K) (ran : norm.forward e 0 = some out) : out = 0 := by
  have unfused : norm.unfused e 0 = some out := by
    unfold GroupedNorm.forward at ran
    split at ran
    · rename_i kernel jit
      cases ran
      exact agrees kernel jit 0
    · exact ran
  unfold GroupedNorm.unfused at unfused
  split at unfused
  · cases unfused
    funext i
    simp
  · cases unfused

omit [LinearOrder K] in
theorem flatten_zero : flatten (0 : Fin m → Fin n → K) = 0 := rfl

theorem gateValue_zero (e : Elementary K) (gate : Fin hc → K) :
    gateValue e gate (0 : Fin hiddenSize → K) = 0 := by
  funext head d
  exact mul_zero _

omit [LinearOrder K] in
theorem addRows_parts (left right out : List (Fin n → K)) (ran : addRows left right = some out) :
    left.length = right.length ∧ out.length = left.length ∧
      ((∀ row ∈ right, row = 0) → out = left) ∧ ((∀ row ∈ left, row = 0) → (∀ row ∈ right, row = 0) →
        ∀ row ∈ out, row = 0) := by
  unfold addRows at ran
  split at ran
  · rename_i same
    cases ran
    have unchanged : (∀ row ∈ right, row = 0) → left.zipWith (· + ·) right = left := by
      intro zero
      apply List.ext_getElem
      · simp [same]
      · intro i bound _
        have inside : i < right.length := by simp at bound; omega
        rw [List.getElem_zipWith,zero _ (List.getElem_mem inside),add_zero]
    refine ⟨same,by simp [same],unchanged,?_⟩
    intro first second
    rw [unchanged second]
    exact first
  · cases ran

omit [LinearOrder K] in
theorem padTokenRows_parts (rows out : List (Fin n → K)) (totalTokens : Nat)
    (ran : padTokenRows (fun _ => 0) rows totalTokens = some out) :
    out.length = totalTokens ∧ ((∀ row ∈ rows, row = 0) → ∀ row ∈ out, row = 0) := by
  unfold padTokenRows at ran
  split at ran
  · cases ran
    refine ⟨by rw [List.length_append,List.length_replicate]; omega,?_⟩
    intro zero row member
    rcases List.mem_append.mp member with old | filled
    · exact zero row old
    · exact List.eq_of_mem_replicate filled
  · cases ran

theorem lookupRows_off (env : Env K hc hiddenSize embedDim) (layer : Layer K hc hiddenSize embedDim)
    (off : layer.lookup = .off) (ids : Tokens) : ∀ row ∈ lookupRows env layer ids, row = 0 := by
  intro row member
  unfold lookupRows at member
  rw [if_pos off] at member
  obtain ⟨zeros,old,rfl⟩ := List.mem_map.mp member
  obtain ⟨_,_,rfl⟩ := List.mem_map.mp old
  funext i
  exact zero_mul _

theorem embeddings_off (env : Env K hc hiddenSize embedDim) (layer : Layer K hc hiddenSize embedDim)
    (off : layer.lookup = .off) (still : layer.offload = false) (batchTag freshTag : Nat) (batch : PleBatch)
    (cached after : Option WindowCache) (embeddings : List (Fin embedDim → K))
    (ran : pleEmbedding env layer batchTag freshTag batch cached = some (embeddings,after)) :
    ∀ row ∈ embeddings, row = 0 := by
  unfold pleEmbedding at ran
  rw [still,if_neg (by simp)] at ran
  obtain ⟨⟨ids,shared⟩,_,ran⟩ := Option.bind_eq_some_iff.mp ran
  obtain ⟨rows,embedded,same⟩ := Option.bind_eq_some_iff.mp ran
  cases same
  unfold embedNgramIds at embedded
  cases layout : env.dp with
  | none =>
      rw [layout] at embedded
      cases embedded
      exact lookupRows_off env layer off ids
  | some dp =>
      rw [layout] at embedded
      obtain ⟨padded,_,embedded⟩ := Option.bind_eq_some_iff.mp embedded
      obtain ⟨lookupIds,_,same⟩ := Option.bind_eq_some_iff.mp embedded
      cases same
      intro row member
      rcases dp.drawn _ _ row (List.mem_of_mem_take member) with drawn | cleared
      · exact lookupRows_off env layer off lookupIds row drawn
      · exact cleared

theorem gatedValues_zero (env : Env K hc hiddenSize embedDim) (agrees : env.gate.Agrees env.elementary)
    (batch : PleBatch) (gate : List (Fin hc → K)) (value : List (Fin hiddenSize → K)) (zero : ∀ row ∈ value, row = 0) :
    (∀ row ∈ gatedValues env batch gate value, row = 0) ∧
      (gatedValues env batch gate value).length = min gate.length value.length := by
  have shape : gatedValues env batch gate value = gate.zipWith (gateValue env.elementary) value := by
    unfold gatedValues
    split
    · rename_i fusing
      exact agrees gate value (Bool.and_eq_true_iff.mp fusing).2
    · rfl
  rw [shape]
  refine ⟨?_,List.length_zipWith⟩
  intro row member
  obtain ⟨i,bound,rfl⟩ := List.mem_iff_getElem.mp member
  rw [List.getElem_zipWith,zero _ (List.getElem_mem _),gateValue_zero]

omit [LinearOrder K] in
theorem validOutput_zero (batch : PleBatch) (output out : List (Fin n → K)) (zero : ∀ row ∈ output, row = 0)
    (ran : validOutput batch output = some out) : ∀ row ∈ out, row = 0 := by
  unfold validOutput at ran
  split at ran
  · cases ran
    exact zero
  · split at ran
    · cases ran
      intro row member
      unfold Tensors.select at member
      obtain ⟨i,_,rfl⟩ := List.mem_iff_getElem.mp member
      rw [List.getElem_zipWith,List.getElem_zip]
      split
      · exact zero _ (List.getElem_mem _)
      · rw [List.getElem_map]
        rfl
    · cases ran

theorem pleForward_length (env : Env K hc hiddenSize embedDim) (layer : Layer K hc hiddenSize embedDim)
    (batchTag freshTag : Nat) (hiddenStates : List (Fin (hc * hiddenSize) → K)) (fb : ForwardBatch) (batch : PleBatch)
    (pool after : ConvPool K (hc * hiddenSize)) (cached shared : Option WindowCache)
    (out : List (Fin (hc * hiddenSize) → K))
    (ran : pleForward env layer batchTag freshTag hiddenStates fb batch pool cached = some (out,after,shared)) :
    out.length = batch.physicalTokens := by
  unfold pleForward at ran
  obtain ⟨embeddings,_,ran⟩ := Option.bind_eq_some_iff.mp ran
  simp only at ran
  split at ran
  · cases ran
  · obtain ⟨keys,_,ran⟩ := Option.bind_eq_some_iff.mp ran
    obtain ⟨queries,_,ran⟩ := Option.bind_eq_some_iff.mp ran
    obtain ⟨normed,_,ran⟩ := Option.bind_eq_some_iff.mp ran
    obtain ⟨convolved,_,ran⟩ := Option.bind_eq_some_iff.mp ran
    obtain ⟨output,_,ran⟩ := Option.bind_eq_some_iff.mp ran
    obtain ⟨valid,_,ran⟩ := Option.bind_eq_some_iff.mp ran
    obtain ⟨padded,filled,same⟩ := Option.bind_eq_some_iff.mp ran
    cases same
    exact (padTokenRows_parts valid _ batch.physicalTokens filled).1

-- A layer that looks nothing up gives exactly zero and leaves its states at zero.
theorem pleForward_off (env : Env K hc hiddenSize embedDim) (agrees : env.Agrees)
    (layer : Layer K hc hiddenSize embedDim) (norm : layer.normConv.Agrees env.elementary)
    (off : layer.lookup = .off) (still : layer.offload = false) (batchTag freshTag : Nat)
    (hiddenStates : List (Fin (hc * hiddenSize) → K)) (fb : ForwardBatch) (batch : PleBatch)
    (fast : batch.useDecodeFastPath = true → batch.rowWidth = 1 ∧ batch.stateIndices.length = batch.processedTokens)
    (inside : batch.processedTokens ≤ hiddenStates.length) (pool after : ConvPool K (hc * hiddenSize))
    (quiet : Quiet pool) (cached shared : Option WindowCache) (out : List (Fin (hc * hiddenSize) → K))
    (ran : pleForward env layer batchTag freshTag hiddenStates fb batch pool cached = some (out,after,shared)) :
    (∀ row ∈ out, row = 0) ∧ out.length = batch.physicalTokens ∧ Quiet after := by
  unfold pleForward at ran
  obtain ⟨⟨embeddings,looked⟩,embedded,ran⟩ := Option.bind_eq_some_iff.mp ran
  have zeros := embeddings_off env layer off still batchTag freshTag batch cached looked embeddings embedded
  simp only at ran
  split at ran
  · cases ran
  · rename_i same
    rw [not_not,List.length_take,Nat.min_eq_left inside] at same
    obtain ⟨keys,keyed,ran⟩ := Option.bind_eq_some_iff.mp ran
    obtain ⟨queries,queried,ran⟩ := Option.bind_eq_some_iff.mp ran
    obtain ⟨normed,normalized,ran⟩ := Option.bind_eq_some_iff.mp ran
    obtain ⟨⟨convOutput,written⟩,convolved,ran⟩ := Option.bind_eq_some_iff.mp ran
    obtain ⟨output,added,ran⟩ := Option.bind_eq_some_iff.mp ran
    obtain ⟨valid,marked,ran⟩ := Option.bind_eq_some_iff.mp ran
    obtain ⟨padded,filled,same'⟩ := Option.bind_eq_some_iff.mp ran
    cases same'
    have values : ∀ row ∈ embeddings.map (linear layer.valueProj), row = 0 := by
      intro row member
      obtain ⟨embedding,old,rfl⟩ := List.mem_map.mp member
      rw [zeros embedding old,linear_zero]
    obtain ⟨gated,count⟩ := gatedValues_zero env agrees.gate batch (keys.zipWith (gateOf env.elementary) queries) _ values
    have lengths : keys.length = batch.processedTokens ∧ queries.length = batch.processedTokens := by
      have first := (Tensors.mapM_parts _ _ _ keyed).length_eq
      have second := (Tensors.mapM_parts _ _ _ queried).length_eq
      rw [List.length_map] at first
      rw [List.length_take] at second
      omega
    have columns := (Tensors.mapM_parts _ _ _ normalized).length_eq
    rw [count,List.length_zipWith,lengths.1,lengths.2,List.length_map,same,Nat.min_self,Nat.min_self] at columns
    have silent : ∀ column ∈ normed, column = 0 := by
      intro column member
      obtain ⟨value,old,made⟩ := Tensors.mapM_member _ _ _ normalized column member
      rw [gated value old,flatten_zero] at made
      exact norm_zero env.elementary layer.normConv norm column made
    obtain ⟨quietOut,kept⟩ := shortConv_silent env.conv agrees.conv (layer.depthwise env.elementary) (zero_mul _) fb
      batch fast normed convOutput columns.symm silent pool written quiet convolved
    have flat : ∀ row ∈ (gatedValues env batch (keys.zipWith (gateOf env.elementary) queries)
        (embeddings.map (linear layer.valueProj))).map flatten, row = 0 := by
      intro row member
      obtain ⟨value,old,rfl⟩ := List.mem_map.mp member
      rw [gated value old,flatten_zero]
    have summed := (addRows_parts _ _ output added).2.2.2 flat quietOut
    obtain ⟨length,zero⟩ := padTokenRows_parts valid _ batch.physicalTokens filled
    exact ⟨zero (validOutput_zero batch output valid summed marked),length,kept⟩

end

end OneSpark.PleLayer
