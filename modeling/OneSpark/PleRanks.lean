import OneSpark.Longs

namespace OneSpark.PleRanks
open Tensors Longs

inductive Raised where
  | value (message : String)
  | runtime (message : String)
  -- a torch call on tensors of other shapes
  | torch
  deriving DecidableEq

-- An id tensor: its tokens, and the id of a token and a head.
structure Ids where
  tokens : Nat
  id : Nat → Nat → Int

-- A float tensor of tokens, heads and a head's places, row-major in its memory.
structure Output (K : Type) where
  tokens : Nat
  heads : Nat
  dim : Nat
  entry : Int → K

def Output.shape (out : Output K) : Nat × Nat × Nat := (out.tokens,out.heads,out.dim)

-- What a rank has of the table: Qwen4ExpPinnedHostEmbedding's weight and shard_indices.
structure Shard (K : Type) where
  weight : Nat → K
  embeddingDim : Nat
  tpVocabStart : Nat
  tpVocabEnd : Nat

section
variable {K : Type} [Zero K]

-- _gather_ple_embedding_from_pinned_kernel, one program. The offset of its row in the output is int32.
def gatherPleEmbeddingFromPinnedKernel (shard : Shard K) (ids : Nat → Int) (blockD rowId : Nat) : List (Int × K) :=
  let globalIdx := ids rowId
  let inRange := decide (shard.tpVocabStart ≤ globalIdx ∧ globalIdx < shard.tpVocabEnd)
  let localIdx := if inRange then (globalIdx - shard.tpVocabStart).toNat else 0
  ((List.range blockD).filter fun offset => decide (offset < shard.embeddingDim)).map fun (offset : Nat) =>
    (int32 (rowId * shard.embeddingDim) + offset,if inRange then shard.weight (localIdx * shard.embeddingDim + offset) else 0)

-- triton.next_power_of_2
def nextPowerOf2 (n : Nat) : Nat := 2 ^ Nat.clog 2 n

def shapeText (tokens heads dim : Nat) : String := s!"({tokens}, {heads}, {dim})"

-- Qwen4ExpPinnedHostEmbedding.gather into `out`; the programs of the launch run in the order `programs`.
def gather (shard : Shard K) (heads : Nat) (ids : Ids) (out : Output K) (programs : List Nat) : Except Raised (Output K) :=
  if out.shape ≠ (ids.tokens,heads,shard.embeddingDim) then
    .error (.value ("invalid PLE prefetch output shape: " ++ shapeText out.tokens out.heads out.dim ++ " != " ++
      shapeText ids.tokens heads shard.embeddingDim))
  else .ok { out with entry := put out.entry (programs.flatMap
    (gatherPleEmbeddingFromPinnedKernel shard (fun row => ids.id (row / heads) (row % heads))
      (nextPowerOf2 shard.embeddingDim))) }

theorem block_covers (n : Nat) : n ≤ nextPowerOf2 n := Nat.le_pow_clog (Nat.lt_succ_self 1) n

def Shard.row (shard : Shard K) (id : Int) (d : Nat) : K :=
  if shard.tpVocabStart ≤ id ∧ id < shard.tpVocabEnd then
    shard.weight ((id - shard.tpVocabStart).toNat * shard.embeddingDim + d)
  else 0

theorem kernel_exact (shard : Shard K) (ids : Nat → Int) (blockD rowId : Nat) :
    gatherPleEmbeddingFromPinnedKernel shard ids blockD rowId =
      ((List.range blockD).filter fun offset => decide (offset < shard.embeddingDim)).map fun (offset : Nat) =>
        (int32 (rowId * shard.embeddingDim) + offset,shard.row (ids rowId) offset) := by
  unfold gatherPleEmbeddingFromPinnedKernel Shard.row
  by_cases own : shard.tpVocabStart ≤ ids rowId ∧ ids rowId < shard.tpVocabEnd
  · simp only [own,and_self,decide_true,if_true]
  · simp only [own,decide_false,Bool.false_eq_true,if_false]

theorem mem_kernel (shard : Shard K) (ids : Nat → Int) (blockD rowId : Nat) (near : rowId * shard.embeddingDim < 2 ^ 31)
    (write : Int × K) : write ∈ gatherPleEmbeddingFromPinnedKernel shard ids blockD rowId ↔
      ∃ d < shard.embeddingDim, d < blockD ∧ write = (((rowId * shard.embeddingDim + d : Nat) : Int),
        shard.row (ids rowId) d) := by
  have start := int32_small (rowId * shard.embeddingDim) near
  rw [Nat.cast_mul] at start
  rw [kernel_exact,List.mem_map,start]
  constructor
  · rintro ⟨d,member,rfl⟩
    obtain ⟨below,inside⟩ := List.mem_filter.mp member
    exact ⟨d,of_decide_eq_true inside,List.mem_range.mp below,by rw [Nat.cast_add,Nat.cast_mul]⟩
  · rintro ⟨d,inside,below,rfl⟩
    exact ⟨d,List.mem_filter.mpr ⟨List.mem_range.mpr below,decide_eq_true inside⟩,by rw [Nat.cast_add,Nat.cast_mul]⟩

theorem row_below {n count heads h : Nat} (small : n < count) (head : h < heads) : n * heads + h < count * heads := by
  have next := Nat.mul_le_mul_right heads small
  rw [Nat.succ_mul] at next
  omega

-- Every row of the launch has the rank's row of its id, in any order of the programs, while the output stays within
-- the reach of the int32 offsets.
theorem gather_exact (shard : Shard K) (heads : Nat) (ids : Ids) (out : Output K) (programs : List Nat)
    (shape : out.shape = (ids.tokens,heads,shard.embeddingDim)) (near : ids.tokens * heads * shard.embeddingDim ≤ 2 ^ 31)
    (launched : programs.Perm (List.range (ids.tokens * heads))) :
    ∃ after, gather shard heads ids out programs = .ok after ∧ after.shape = out.shape ∧
      ∀ t < ids.tokens, ∀ h < heads, ∀ d < shard.embeddingDim,
        after.entry ((t * heads + h) * shard.embeddingDim + d : Nat) = shard.row (ids.id t h) d := by
  have started : ∀ rowId ∈ programs, ∀ d < shard.embeddingDim, rowId * shard.embeddingDim < 2 ^ 31 := by
    intro rowId member d inside
    have row := List.mem_range.mp (launched.mem_iff.mp member)
    have next : (rowId + 1) * shard.embeddingDim ≤ ids.tokens * heads * shard.embeddingDim := Nat.mul_le_mul_right _ row
    rw [Nat.succ_mul] at next
    omega
  unfold gather
  rw [if_neg (not_not_intro shape)]
  refine ⟨_,rfl,rfl,?_⟩
  intro t token h head d inside
  have row := row_below token head
  obtain ⟨quotient,rest⟩ := place_parts t heads h head
  have listed : t * heads + h ∈ programs := launched.mem_iff.mpr (List.mem_range.mpr row)
  refine put_agreed _ _ _ _ ?_ ?_
  · refine ⟨_,List.mem_flatMap.mpr ⟨t * heads + h,listed,(mem_kernel shard _ _ _ (started _ listed d inside) _).mpr
      ⟨d,inside,Nat.lt_of_lt_of_le inside (block_covers _),rfl⟩⟩,?_⟩
    rw [quotient,rest]
  · intro write member same
    obtain ⟨rowId,known,written⟩ := List.mem_flatMap.mp member
    obtain ⟨e,small,_,rfl⟩ := (mem_kernel shard _ _ rowId (started _ known d inside) write).mp written
    obtain ⟨rfl,rfl⟩ := place_unique rowId e (t * heads + h) d shard.embeddingDim small inside (Int.ofNat_inj.mp same)
    show shard.row (ids.id ((t * heads + h) / heads) ((t * heads + h) % heads)) e = _
    rw [quotient,rest]

end

structure Sharded {K : Type} (shards : Fin tp → Shard K) (table : Nat → Nat → K) (dim vocab : Nat) : Prop where
  across : ∀ r, (shards r).embeddingDim = dim
  once : ∀ id < vocab, ∃ r, ∀ other, (shards other).tpVocabStart ≤ id ∧ id < (shards other).tpVocabEnd ↔ other = r
  loaded : ∀ r id, (shards r).tpVocabStart ≤ id → id < (shards r).tpVocabEnd → ∀ d < dim,
    (shards r).weight ((id - (shards r).tpVocabStart) * dim + d) = table id d

structure DpLayout (dp : Nat) where
  tokens : Fin dp → Nat
  start : Fin dp → Nat
  globalDpBufferLen : Nat
  inside : ∀ g, start g + tokens g ≤ globalDpBufferLen
  apart : ∀ g other, g ≠ other → start g + tokens g ≤ start other ∨ start other + tokens other ≤ start g

-- _pad_token_rows
def padTokenRows (ids : Ids) (totalTokens : Nat) : Except Raised Ids :=
  if ids.tokens ≤ totalTokens then .ok ⟨totalTokens,fun t h => if t < ids.tokens then ids.id t h else 0⟩
  else .error .torch

-- What the lookup takes from the parallel runtime: the buffer first, then what the ranks hand in.
structure Collectives (K : Type) (dp tp : Nat) where
  dpGatherReplicate : Ids → (Fin dp → Ids) → Ids
  dpScatter : Fin dp → Output K → Output K → Output K
  tensorModelParallelAllReduce : (Fin tp → Output K) → Fin tp → Output K

-- The gather leaves every data-parallel rank's rows at its range, the scatter hands a rank its range, and the
-- reduction hands every rank the sum of the ranks' tensors.
structure Exact [AddCommMonoid K] (c : Collectives K dp tp) (layout : DpLayout dp) : Prop where
  gathered : ∀ buffer rows, buffer.tokens = layout.globalDpBufferLen → (∀ g, (rows g).tokens = layout.tokens g) →
    (c.dpGatherReplicate buffer rows).tokens = buffer.tokens ∧
    ∀ g, ∀ t < layout.tokens g, ∀ h, (c.dpGatherReplicate buffer rows).id (layout.start g + t) h = (rows g).id t h
  scattered : ∀ g buffer whole, buffer.shape = (layout.tokens g,whole.heads,whole.dim) → whole.tokens = layout.globalDpBufferLen →
    (c.dpScatter g buffer whole).shape = buffer.shape ∧ ∀ place < layout.tokens g * whole.heads * whole.dim,
      (c.dpScatter g buffer whole).entry place = whole.entry (layout.start g * whole.heads * whole.dim + place : Nat)
  reduced : ∀ outputs shape, (∀ r, (outputs r).shape = shape) → ∀ r,
    (c.tensorModelParallelAllReduce outputs r).shape = shape ∧ ∀ place < shape.1 * shape.2.1 * shape.2.2,
      (c.tensorModelParallelAllReduce outputs r).entry place = ∑ other, (outputs other).entry place

section
variable {K : Type} [CommSemiring K] (c : Collectives K dp tp)

-- Qwen4ExpPinnedHostEmbedding.reduce of a table sharded over the whole tensor-parallel group.
def reduce (inputScattered : Bool) (outputs : Fin tp → Output K) (r : Fin tp) : Output K :=
  if 1 < tp ∧ !inputScattered then c.tensorModelParallelAllReduce outputs r else outputs r

-- embed_ngram_ids of a rank with gather_dp_tokens, all ranks at once. `group` is the data-parallel rank of each, and
-- `memory` and `fresh` what the buffers hold before.
def embedNgramIds (inputScattered : Bool) (globalDpBufferLen : Option Nat) (physicalTokens : Fin dp → Nat)
    (empty : Nat → Nat → Int)
    (shards : Fin tp → Shard K) (heads pleEmbedDim : Nat) (weightScale : K) (memory fresh : Fin tp → Int → K)
    (programs : Fin tp → List Nat) (group : Fin tp → Fin dp) (ids : Fin dp → Ids) (r : Fin tp) : Except Raised (Output K) := do
  let padded ← (List.finRange dp).mapM fun g => padTokenRows (ids g) (physicalTokens g)
  match globalDpBufferLen with
  | none => .error (.runtime ("global-TP Qwen4 N-gram lookup under DP attention requires a DP token layout; set " ++
      "SGLANG_USE_ATTN_TP_NGRAM=1 to shard the table within each attention-TP group"))
  | some globalTokens =>
      let lookupIds := c.dpGatherReplicate ⟨globalTokens,empty⟩ fun g => padded.getD g (ids g)
      let outputs ← (List.finRange tp).mapM fun other =>
        gather (shards other) heads lookupIds ⟨lookupIds.tokens,heads,pleEmbedDim / heads,memory other⟩ (programs other)
      let embeddings := reduce c inputScattered (fun other => outputs.getD other ⟨0,0,0,memory other⟩) r
      let scaled := {embeddings with entry := fun place => embeddings.entry place * weightScale}
      let localEmbeddings := c.dpScatter (group r)
        ⟨physicalTokens (group r),embeddings.heads,embeddings.dim,fresh r⟩ scaled
      return {localEmbeddings with tokens := min (ids (group r)).tokens localEmbeddings.tokens}

theorem mapM_ok (f : α → Except Raised β) (g : α → β) (values : List α) (ran : ∀ value ∈ values, f value = .ok (g value)) :
    values.mapM f = .ok (values.map g) := by
  induction values with
  | nil => rfl
  | cons value rest ih =>
      rw [List.mapM_cons,ran value List.mem_cons_self,ih fun later member => ran later (List.mem_cons_of_mem _ member)]
      rfl

-- Of the ranks' rows of an id one is the table's and the others are zeros.
theorem rows_sum (shards : Fin tp → Shard K) (table : Nat → Nat → K) (dim vocab : Nat) (sharded : Sharded shards table dim vocab)
    (id : Int) (low : 0 ≤ id) (high : id < vocab) (d : Nat) (inside : d < dim) :
    ((List.finRange tp).map fun r => (shards r).row id d).sum = table id.toNat d := by
  obtain ⟨n,rfl⟩ := Int.eq_ofNat_of_zero_le low
  obtain ⟨own,once⟩ := sharded.once n (by omega)
  have row : ∀ r, (shards r).row n d = if r = own then table n d else 0 := by
    intro r
    unfold Shard.row
    by_cases same : r = own
    · obtain ⟨start,stop⟩ := (once r).mpr same
      rw [if_pos same,if_pos ⟨Int.ofNat_le.mpr start,Int.ofNat_lt.mpr stop⟩,sharded.across,
        ← sharded.loaded r n start stop d inside,
        show ((n : Int) - ((shards r).tpVocabStart : Int)).toNat = n - (shards r).tpVocabStart by omega]
    · rw [if_neg same,if_neg fun own => same ((once r).mp ⟨Int.ofNat_le.mp own.1,Int.ofNat_lt.mp own.2⟩)]
  rw [← Fin.sum_univ_def,Finset.sum_congr rfl fun r _ => row r,Finset.sum_ite_eq' Finset.univ own,if_pos (Finset.mem_univ own)]
  rfl

theorem pad_exact (ids : Ids) (totalTokens : Nat) (fits : ids.tokens ≤ totalTokens) :
    padTokenRows ids totalTokens = .ok ⟨totalTokens,fun t h => if t < ids.tokens then ids.id t h else 0⟩ := if_pos fits

theorem finRange_read (f : Fin n → α) (i : Fin n) (fill : α) : ((List.finRange n).map f).getD i fill = f i := by
  rw [List.getD_eq_getElem?_getD,List.getElem?_map,List.getElem?_eq_getElem (by simp),List.getElem_finRange]
  rfl

-- The row a rank has for an id after the reduction: the table's, or without one its own part.
def reducedRow (inputScattered : Bool) (shards : Fin tp → Shard K) (table : Nat → Nat → K) (r : Fin tp) (id : Int)
    (d : Nat) : K :=
  if 1 < tp ∧ inputScattered then (shards r).row id d else table id.toNat d

theorem reduce_row (layout : DpLayout dp) (correct : Exact c layout) (inputScattered : Bool) (shards : Fin tp → Shard K)
    (table : Nat → Nat → K) (dim vocab : Nat) (sharded : Sharded shards table dim vocab) (outputs : Fin tp → Output K)
    (shape : Nat × Nat × Nat) (alike : ∀ r, (outputs r).shape = shape) (r : Fin tp) :
    (reduce c inputScattered outputs r).shape = shape ∧ ∀ place < shape.1 * shape.2.1 * shape.2.2, ∀ (id : Int) (d : Nat),
      0 ≤ id →
      id < vocab → d < dim → (∀ other, (outputs other).entry place = (shards other).row id d) →
        (reduce c inputScattered outputs r).entry place = reducedRow inputScattered shards table r id d := by
  unfold reduce reducedRow
  by_cases many : 1 < tp
  · cases inputScattered with
    | false =>
        obtain ⟨same,sum⟩ := correct.reduced outputs shape alike r
        rw [if_pos ⟨many,rfl⟩]
        refine ⟨same,fun place inside id d low high small each => ?_⟩
        rw [sum place inside,Finset.sum_congr rfl fun other _ => each other,if_neg fun scattered => Bool.noConfusion scattered.2,
          Fin.sum_univ_def]
        exact rows_sum shards table dim vocab sharded id low high d small
    | true =>
        rw [if_neg fun reduces => Bool.noConfusion reduces.2]
        exact ⟨alike r,fun place _ id d _ _ _ each => (each r).trans (if_pos ⟨many,rfl⟩).symm⟩
  · rw [if_neg fun reduces => many reduces.1]
    refine ⟨alike r,fun place _ id d low high small each => ?_⟩
    obtain rfl : tp = 1 := by
      have bound := r.isLt
      omega
    have alone := rows_sum shards table dim vocab sharded id low high d small
    rw [List.finRange_succ,List.finRange_zero] at alone
    rw [each r,if_neg fun scattered => many scattered.1,← alone,Subsingleton.elim r 0]
    simp

-- What all ranks have looked up: each its own rows of the gathered ids.
theorem shards_gathered (shards : Fin tp → Shard K) (heads dim : Nat) (across : ∀ r, (shards r).embeddingDim = dim)
    (lookupIds : Ids) (near : lookupIds.tokens * heads * dim ≤ 2 ^ 31) (memory : Fin tp → Int → K) (programs : Fin tp → List Nat)
    (launched : ∀ r, (programs r).Perm (List.range (lookupIds.tokens * heads))) :
    ∃ after : Fin tp → Output K, (List.finRange tp).mapM (fun other =>
        gather (shards other) heads lookupIds ⟨lookupIds.tokens,heads,dim,memory other⟩ (programs other)) =
        .ok ((List.finRange tp).map after) ∧
      (∀ r, (after r).shape = (lookupIds.tokens,heads,dim)) ∧
      ∀ r, ∀ t < lookupIds.tokens, ∀ h < heads, ∀ d < dim,
        (after r).entry ((t * heads + h) * dim + d : Nat) = (shards r).row (lookupIds.id t h) d := by
  choose after made shape entries using fun r => gather_exact (shards r) heads lookupIds
    ⟨lookupIds.tokens,heads,dim,memory r⟩ (programs r) (by rw [across]; rfl) (by rw [across]; exact near) (launched r)
  refine ⟨after,mapM_ok _ after (List.finRange tp) fun r _ => made r,shape,?_⟩
  intro r t token h head d inside
  have entry := entries r t token h head d (by rwa [across])
  rwa [across] at entry

-- Every rank gets the table's rows of its own ids, scaled, whatever the other ranks look up, whatever the empty
-- buffers hold and in whatever order the programs run; where the input is scattered it gets its shard's part.
theorem ranks_exact (layout : DpLayout dp) (correct : Exact c layout) (inputScattered : Bool) (empty : Nat → Nat → Int)
    (shards : Fin tp → Shard K) (heads pleEmbedDim : Nat) (weightScale : K) (memory fresh : Fin tp → Int → K)
    (programs : Fin tp → List Nat) (group : Fin tp → Fin dp) (ids : Fin dp → Ids) (table : Nat → Nat → K) (vocab : Nat)
    (sharded : Sharded shards table (pleEmbedDim / heads) vocab) (padded : ∀ g, (ids g).tokens ≤ layout.tokens g)
    (near : layout.globalDpBufferLen * heads * (pleEmbedDim / heads) ≤ 2 ^ 31)
    (launched : ∀ r, (programs r).Perm (List.range (layout.globalDpBufferLen * heads))) (r : Fin tp)
    (known : ∀ t < (ids (group r)).tokens, ∀ h < heads, 0 ≤ (ids (group r)).id t h ∧ (ids (group r)).id t h < vocab) :
    ∃ out, embedNgramIds c inputScattered (some layout.globalDpBufferLen) layout.tokens empty shards heads pleEmbedDim weightScale
        memory fresh programs group ids r = .ok out ∧ out.tokens = (ids (group r)).tokens ∧
      ∀ t < (ids (group r)).tokens, ∀ h < heads, ∀ d < pleEmbedDim / heads,
        out.entry ((t * heads + h) * (pleEmbedDim / heads) + d : Nat) =
          reducedRow inputScattered shards table r ((ids (group r)).id t h) d * weightScale := by
  let rows (g : Fin dp) : Ids := ⟨layout.tokens g,fun t h => if t < (ids g).tokens then (ids g).id t h else 0⟩
  have pads := mapM_ok (fun g => padTokenRows (ids g) (layout.tokens g)) rows (List.finRange dp) fun g _ => pad_exact _ _
    (padded g)
  have handed : (fun g : Fin dp => ((List.finRange dp).map rows).getD g (ids g)) = rows := funext fun g => finRange_read rows g _
  let lookupIds := c.dpGatherReplicate ⟨layout.globalDpBufferLen,empty⟩ rows
  obtain ⟨length,gathered⟩ := correct.gathered ⟨layout.globalDpBufferLen,empty⟩ rows rfl fun _ => rfl
  have tokens : lookupIds.tokens = layout.globalDpBufferLen := length
  obtain ⟨after,outputs,shape,entries⟩ := shards_gathered shards heads (pleEmbedDim / heads) sharded.across lookupIds
    (tokens ▸ near) memory programs (tokens ▸ launched)
  have looked : (fun other : Fin tp => ((List.finRange tp).map after).getD other ⟨0,0,0,memory other⟩) = after :=
    funext fun other => finRange_read after other _
  obtain ⟨whole,values⟩ := reduce_row c layout correct inputScattered shards table _ vocab sharded after
    (layout.globalDpBufferLen,heads,pleEmbedDim / heads) (fun r => by rw [shape r,← tokens]) r
  obtain ⟨wholeTokens,wholeHeads,wholeDim⟩ : (reduce c inputScattered after r).tokens = layout.globalDpBufferLen ∧
      (reduce c inputScattered after r).heads = heads ∧ (reduce c inputScattered after r).dim = pleEmbedDim / heads := by
    simpa [Output.shape] using whole
  let scaled : Output K := {reduce c inputScattered after r with
    entry := fun place => (reduce c inputScattered after r).entry place * weightScale}
  let buffer : Output K := ⟨layout.tokens (group r),(reduce c inputScattered after r).heads,
    (reduce c inputScattered after r).dim,fresh r⟩
  let localEmbeddings := c.dpScatter (group r) buffer scaled
  obtain ⟨own,read⟩ := correct.scattered (group r) buffer scaled rfl wholeTokens
  refine ⟨{localEmbeddings with tokens := min (ids (group r)).tokens localEmbeddings.tokens},?_,?_,?_⟩
  · unfold embedNgramIds
    rw [pads]
    simp only [bind,Except.bind,handed]
    rw [outputs]
    simp only [looked]
    rfl
  · have count := congrArg Prod.fst own
    exact (congrArg (min _) count).trans (Nat.min_eq_left (padded (group r)))
  · intro t token h head d inside
    have local_token := Nat.lt_of_lt_of_le token (padded (group r))
    have room : layout.start (group r) + t < lookupIds.tokens := by
      rw [tokens]
      exact Nat.lt_of_lt_of_le (Nat.add_lt_add_left local_token _) (layout.inside (group r))
    have below : ∀ n count, n < count → (n * heads + h) * (pleEmbedDim / heads) + d < count * heads * (pleEmbedDim / heads) :=
      fun n count small => row_below (row_below small head) inside
    have found : lookupIds.id (layout.start (group r) + t) h = (ids (group r)).id t h :=
      (gathered (group r) t local_token h).trans (if_pos token)
    have each : ∀ other, (after other).entry (((layout.start (group r) + t) * heads + h) * (pleEmbedDim / heads) + d : Nat) =
        (shards other).row ((ids (group r)).id t h) d := by
      intro other
      rw [entries other (layout.start (group r) + t) room h head d inside,found]
    obtain ⟨low,high⟩ := known t token h head
    have place : layout.start (group r) * heads * (pleEmbedDim / heads) + ((t * heads + h) * (pleEmbedDim / heads) + d) =
        ((layout.start (group r) + t) * heads + h) * (pleEmbedDim / heads) + d := by ring
    have scattered := read ((t * heads + h) * (pleEmbedDim / heads) + d)
      (by rw [show scaled.heads = heads from wholeHeads,show scaled.dim = _ from wholeDim]; exact below t _ local_token)
    rw [show scaled.heads = heads from wholeHeads,show scaled.dim = _ from wholeDim,place] at scattered
    have value := values _ (below (layout.start (group r) + t) _ (tokens ▸ room)) _ d low high inside each
    exact scattered.trans (congrArg (· * weightScale) value)

end

def pairShards (r : Fin 2) : Shard Int := ⟨fun place => 10 * (2 * r.val + place) + 7,1,2 * r.val,2 * r.val + 2⟩

theorem pair_sharded : Sharded pairShards (fun id _ => 10 * id + 7) 1 4 := by
  refine ⟨fun _ => rfl,by decide,?_⟩
  intro r id low _ d inside
  obtain rfl : d = 0 := by omega
  change 2 * r.val ≤ id at low
  show (10 * (2 * (r.val : Int) + ((id - 2 * r.val) * 1 + 0 : Nat)) + 7 : Int) = 10 * id + 7
  omega

theorem pair_inside : ∀ g : Fin 2, 2 * g.val + (2 - g.val) ≤ 3 := by decide

theorem pair_apart : ∀ g other : Fin 2, g ≠ other → 2 * g.val + (2 - g.val) ≤ 2 * other.val ∨
    2 * other.val + (2 - other.val) ≤ 2 * g.val := by decide

def pairLayout : DpLayout 2 := ⟨fun g => 2 - g.val,fun g => 2 * g.val,3,pair_inside,pair_apart⟩

def pairIds (g : Fin 2) : Ids := ⟨1,fun _ _ => if g.val = 0 then 3 else 0⟩

-- Collectives as loops over the ranks; the scatter clears the rows it is not given.
def loopGather (layout : DpLayout dp) (buffer : Ids) (rows : Fin dp → Ids) : Ids :=
  ⟨buffer.tokens,fun t h =>
    match (List.finRange dp).find? fun g => decide (layout.start g ≤ t ∧ t < layout.start g + layout.tokens g) with
    | some g => (rows g).id (t - layout.start g) h
    | none => buffer.id t h⟩

def loopScatter (layout : DpLayout dp) (g : Fin dp) (buffer whole : Output Int) : Output Int :=
  let width := whole.heads * whole.dim
  ⟨buffer.tokens,buffer.heads,buffer.dim,fun place =>
    if place < (layout.tokens g * width : Nat) then whole.entry ((layout.start g * width : Nat) + place) else 0⟩

def loopReduce (outputs : Fin tp → Output Int) (r : Fin tp) : Output Int :=
  ⟨(outputs r).tokens,(outputs r).heads,(outputs r).dim,fun place => ∑ other, (outputs other).entry place⟩

def loops (layout : DpLayout dp) (tp : Nat) : Collectives Int dp tp := ⟨loopGather layout,loopScatter layout,loopReduce⟩

theorem loops_exact (layout : DpLayout dp) (tp : Nat) : Exact (loops layout tp) layout where
  gathered := by
    intro buffer rows _ _
    refine ⟨rfl,fun g t token h => ?_⟩
    have only : ∀ own, layout.start own ≤ layout.start g + t → layout.start g + t < layout.start own + layout.tokens own →
      own = g := by
      intro own low high
      by_contra other
      rcases layout.apart own g other with before | after <;> omega
    show (loopGather layout buffer rows).id _ h = _
    unfold loopGather
    cases found : (List.finRange dp).find? fun own =>
        decide (layout.start own ≤ layout.start g + t ∧ layout.start g + t < layout.start own + layout.tokens own) with
    | none =>
        refine absurd (decide_eq_true ?_) (List.find?_eq_none.mp found g (List.mem_finRange g))
        exact ⟨Nat.le_add_right _ _,Nat.add_lt_add_left token _⟩
    | some own =>
        have held := List.find?_some found
        obtain ⟨low,high⟩ := of_decide_eq_true held
        cases only own low high
        simp only [found]
        rw [Nat.add_sub_cancel_left]
  scattered := by
    intro g buffer whole _ _
    refine ⟨rfl,fun place inside => ?_⟩
    rw [Nat.mul_assoc] at inside
    exact (if_pos (Int.ofNat_lt.mpr inside)).trans (by rw [Nat.mul_assoc,Nat.cast_add])
  reduced := by
    intro outputs shape alike r
    exact ⟨alike r,fun _ _ => rfl⟩

theorem pair_exact : ∃ out, embedNgramIds (loops pairLayout 2) false (some 3) pairLayout.tokens
    (fun _ _ => -5) pairShards 1 1 (2 : Int)
    (fun _ _ => 1) (fun _ _ => 1) (fun r => if r.val = 0 then [0,1,2] else [2,1,0]) id pairIds ⟨0,Nat.two_pos⟩ = .ok out ∧
    out.tokens = 1 ∧ out.entry 0 = 74 := by
  obtain ⟨out,ran,tokens,entries⟩ := ranks_exact (loops pairLayout 2) pairLayout (loops_exact pairLayout 2) false (fun _ _ => -5)
    pairShards 1 1 (2 : Int) (fun _ _ => 1) (fun _ _ => 1) (fun r => if r.val = 0 then [0,1,2] else [2,1,0]) id pairIds
    (fun id _ => 10 * id + 7) 4 pair_sharded (by decide) (by decide) (by decide) ⟨0,Nat.two_pos⟩ (by decide)
  exact ⟨out,ran,tokens,entries 0 Nat.one_pos 0 Nat.one_pos 0 (by decide)⟩

end OneSpark.PleRanks
