import OneSpark.SparsePrefill
import OneSpark.WritePlan

namespace OneSpark.ExtendForwards
open Tensors Blocks StreamingSoftmax SparsePrefill
open WritePlan (Table cumsum cumsum_offset)
open DirectGather (weighted total scoreOf valid gatherSlots forwardPagedAttention forward_read collect collect_exact
    slots_read slots_returns)

-- A ValueError of the backend, or what a library call raises.
inductive Raised where
  | valueError (message : String)
  | library
deriving DecidableEq, Repr

structure Pool (K : Type) where
  slots : Nat
  key : Nat → Nat → Nat → K
  value : Nat → Nat → Nat → K

structure Rows (K : Type) where
  count : Nat
  entry : Nat → Nat → Extended K

-- The arguments of an extend forward that the backend reads; q is shaped to rows and heads.
structure Extend (K : Type) where
  q : Tensor K
  k : Tensor K
  v : Tensor K
  topkIndices : Option Indices
  saveKvCache : Bool
  outCacheLoc : List Nat
  extendSeqLens : List Nat
  extendSeqLensCpu : List Nat
  seqLensCpu : List Nat
  reqPoolIndices : List Nat
  scaling : K

def Tensor.takeRows (t : Tensor K) (count : Nat) : Tensor K := {t with rows := min count t.rows}

-- The base pool's set_kv_buffer: one row for each location, in the type the pool stores; no other slot changes.
structure KvStore (K : Type) where
  setKvBuffer : Pool K → List Nat → Tensor K → Tensor K → Option (Pool K)
  stored : K → K
  sets : ∀ pool locs k v, locs.length = k.rows → locs.length = v.rows → (∀ loc ∈ locs, loc < pool.slots) →
    ∃ after, setKvBuffer pool locs k v = some after ∧ after.slots = pool.slots ∧
      (∀ n loc, locs[n]? = some loc → (∀ m, locs[m]? = some loc → m = n) →
        (∀ head < k.heads, ∀ d < k.dim, after.key loc head d = stored (k.entry n head d)) ∧
        ∀ head < v.heads, ∀ d < v.dim, after.value loc head d = stored (v.entry n head d)) ∧
      ∀ slot, slot ∉ locs → after.key slot = pool.key slot ∧ after.value slot = pool.value slot

-- buffer.index_select(0, slots)
def indexSelect (size : Nat) (buffer : Nat → Nat → Nat → K) (slots : List Nat) : Option (List (Nat → Nat → K)) :=
  if ∀ slot ∈ slots, slot < size then some (slots.map buffer) else none

-- req_to_token[req_indices[i], : sequence_lens[i]]
def historySlots (table : Table) (x : Extend K) (i : Nat) : Option (List Nat) := do
  let req ← x.reqPoolIndices[i]?
  let length ← x.seqLensCpu[i]?
  let content ← table.rows[req]?
  return (List.range (min length table.width)).map content

def padExtendOutput [Zero K] (output : Rows K) (numRows : Nat) : Except Raised (Rows K) :=
  if output.count = numRows then .ok output
  else if output.count > numRows then
    .error (.valueError s!"QSA attention output rows exceed padded query rows: output={output.count}, query={numRows}")
  else .ok ⟨numRows,fun row e => if row < output.count then output.entry row e else .fin 0⟩

theorem pad_exact [Zero K] (output : Rows K) (numRows : Nat) (fits : output.count ≤ numRows) :
    ∃ padded, padExtendOutput output numRows = .ok padded ∧ padded.count = numRows ∧
      (∀ row < output.count, padded.entry row = output.entry row) ∧
      ∀ row, output.count ≤ row → row < numRows → ∀ e, padded.entry row e = .fin 0 := by
  unfold padExtendOutput
  by_cases same : output.count = numRows
  · rw [if_pos same]
    exact ⟨output,rfl,same,fun _ _ => rfl,fun row above below => by omega⟩
  · rw [if_neg same,if_neg (by omega)]
    refine ⟨_,rfl,rfl,?_,?_⟩
    · intro row below
      funext e
      exact if_pos below
    · intro row above _ e
      exact if_neg (by omega)

section
variable {K : Type} [Field K] [LinearOrder K] (device : Device K) (store : KvStore K)

-- torch.cat(k_parts) as a tensor of one row for each position.
def joined (like : Tensor K) (parts : List (List (Nat → Nat → K))) : Tensor K :=
  {like with rows := parts.flatten.length, entry := fun row => parts.flatten.getD row device.beyond}

-- Rows whose whole sequence is new attend to the keys at hand.
def plainAttention (x : Extend K) (q : Tensor K) (indices : Indices) : Option (Nat × Nat × Nat → Extended K) :=
  sparseGqaFwdInterfaceTriton device q (Tensor.takeRows x.k q.rows) (Tensor.takeRows x.v q.rows) (x.seqLensCpu.max?.getD 1)
    indices (0 :: cumsum x.extendSeqLens) x.scaling

-- Rows behind a prefix attend to their whole history, read back from the pool.
def chunkAttention (x : Extend K) (pool : Pool K) (table : Table) (q : Tensor K) (indices : Indices) :
    Option (Nat × Nat × Nat → Extended K) := do
  let slots ← (List.range x.seqLensCpu.length).mapM (historySlots table x)
  let kParts ← slots.mapM (indexSelect pool.slots pool.key)
  let vParts ← slots.mapM (indexSelect pool.slots pool.value)
  sparseGqaFwdInterfaceTritonCk device q (joined device x.k kParts) (joined device x.v vParts) indices
    (0 :: cumsum x.extendSeqLens) (0 :: cumsum x.seqLensCpu) x.seqLensCpu x.scaling

def prefixLens (x : Extend K) : Option (List Int) :=
  (List.range x.extendSeqLensCpu.length).mapM fun (i : Nat) => do
    let length ← x.seqLensCpu[i]?
    let extendLen ← x.extendSeqLensCpu[i]?
    return (length : Int) - extendLen

def cudaAttention (x : Extend K) (pool : Pool K) (table : Table) (q : Tensor K) (indices : Indices) : Option (Rows K) := do
  let prefixes ← prefixLens x
  let out ← if prefixes.any fun length => length ≠ 0 then chunkAttention device x pool table q indices
    else plainAttention device x q indices
  return ⟨q.rows,fun row e => out (row,e / q.dim,e % q.dim)⟩

-- forward_extend and the pool it leaves; `paged` and `cpu` are the branches of speculative rows and of
-- queries that are not on the device.
def forwardExtend (paged cpu : Tensor K → Pool K → Indices → Except Raised (Rows K)) (speculative isCuda : Bool)
    (table : Table) (x : Extend K) (pool : Pool K) : Except Raised (Rows K) × Pool K :=
  match x.topkIndices with
  | none => (.error (.valueError "QSA sparse attention requires topk_indices"),pool)
  | some indices =>
      match if x.saveKvCache then store.setKvBuffer pool x.outCacheLoc x.k x.v else some pool with
      | none => (.error .library,pool)
      | some pool =>
          if indices.rows > x.q.rows then
            (.error (.valueError s!"QSA top-k rows exceed query rows: topk={indices.rows}, query={x.q.rows}"),pool)
          else
            let q := Tensor.takeRows x.q indices.rows
            let output := if speculative then paged q pool indices else if !isCuda then cpu q pool indices
              else match cudaAttention device x pool table q indices with
                | none => .error .library
                | some rows => .ok rows
            (output.bind fun rows => padExtendOutput rows x.q.rows,pool)

end

theorem cu_offset (lens : List Nat) (i : Nat) (inside : i ≤ lens.length) : (0 :: cumsum lens).getD i 0 = offset lens i := by
  cases i with
  | zero => simp
  | succ i =>
      rw [List.getD_cons_succ,cumsum_offset,List.getD_eq_getElem?_getD,List.getElem?_map,List.getElem?_range inside]
      rfl

theorem cu_length (lens : List Nat) : (0 :: cumsum lens).length - 1 = lens.length := by
  rw [cumsum_offset]
  simp

theorem cu_widths (lens : List Nat) : (0 :: cumsum lens).tail.zipWith (· - ·) (0 :: cumsum lens) = lens := by
  apply List.ext_getElem?
  intro i
  by_cases inside : i < lens.length
  · have here : (0 :: cumsum lens)[i]? = some (offset lens i) := by
      have read := cu_offset lens i (le_of_lt inside)
      have bound : i < (0 :: cumsum lens).length := by rw [cumsum_offset]; simp; omega
      rw [List.getD_eq_getElem?_getD,List.getElem?_eq_getElem bound,Option.getD_some] at read
      rw [List.getElem?_eq_getElem bound,read]
    have next : (cumsum lens)[i]? = some (offset lens (i + 1)) := by
      rw [cumsum_offset,List.getElem?_map,List.getElem?_range inside]
      rfl
    rw [List.getElem?_zipWith,List.tail_cons,next,here,List.getElem?_eq_getElem inside,
      offset_next lens i _ (List.getElem?_eq_getElem inside)]
    simp
  · rw [List.getElem?_eq_none (by rw [cumsum_offset]; simp; omega),List.getElem?_eq_none (by omega)]

structure Share where
  slot : Nat
  content : Nat → Nat
  before : Nat
  extend : Nat

def Share.length (share : Share) : Nat := share.before + share.extend

def widths (shares : List Share) : List Nat := shares.map Share.extend
def lengths (shares : List Share) : List Nat := shares.map Share.length

-- A forward over these shares, its tokens in their order, whose indexer picked keys each query may see. `near`
-- keeps the keys of a request within the reach of the kernels' int32 offsets.
structure Prepared (x : Extend K) (pool : Pool K) (table : Table) (indices : Indices) (shares : List Share) : Prop where
  topk : x.topkIndices = some indices
  save : x.saveKvCache = true
  queries : indices.rows = (widths shares).sum
  padded : indices.rows ≤ x.q.rows
  heads : 0 < x.k.heads
  grouped : x.k.heads * (x.q.heads / x.k.heads) = x.q.heads
  keyDim : x.k.dim = x.q.dim
  valueHeads : x.v.heads = x.k.heads
  valueDim : x.v.dim = x.q.dim
  keyRows : x.outCacheLoc.length = x.k.rows
  valueRows : x.outCacheLoc.length = x.v.rows
  extendLens : x.extendSeqLens = widths shares
  extendLensCpu : x.extendSeqLensCpu = widths shares
  seqLens : x.seqLensCpu = lengths shares
  requests : x.reqPoolIndices = shares.map Share.slot
  tables : ∀ share ∈ shares, table.rows[share.slot]? = some share.content
  width : ∀ share ∈ shares, share.length ≤ table.width
  near : ∀ share ∈ shares, share.length * (x.k.heads * x.q.dim) ≤ 2 ^ 31
  held : ∀ share ∈ shares, ∀ position < share.length, share.content position < pool.slots
  slots : ∀ loc ∈ x.outCacheLoc, loc < pool.slots
  locs : ∀ i share, shares[i]? = some share → ∀ j < share.extend,
    x.outCacheLoc[offset (widths shares) i + j]? = some (share.content (share.before + j))
  own : ∀ n < indices.rows, ∀ m, x.outCacheLoc[m]? = x.outCacheLoc[n]? → m = n
  selects : ∀ i share, shares[i]? = some share → ∀ j < share.extend, ∀ group < x.k.heads,
    Selects indices.read indices.columns (offset (widths shares) i + j) group (share.before + j + 1)

def picked (indices : Indices) (query group : Nat) : Finset Nat :=
  (Finset.range indices.columns).filter fun col => 0 ≤ indices.read query group col

def Holds (store : KvStore K) (x : Extend K) (after : Pool K) (shares : List Share) : Prop :=
  ∀ i share, shares[i]? = some share → ∀ j < share.extend, ∀ head < x.k.heads, ∀ d < x.q.dim,
    after.key (share.content (share.before + j)) head d = store.stored (x.k.entry (offset (widths shares) i + j) head d) ∧
    after.value (share.content (share.before + j)) head d = store.stored (x.v.entry (offset (widths shares) i + j) head d)

def groupOf (x : Extend K) (head : Nat) : Nat := head / (x.q.heads / x.k.heads)

section
variable {K : Type} {x : Extend K} {pool : Pool K} {table : Table} {indices : Indices} {shares : List Share}
  (prepared : Prepared x pool table indices shares)
include prepared

theorem share_token (i : Nat) (share : Share) (found : shares[i]? = some share) (j : Nat) (inside : j < share.extend) :
    Within (widths shares) i (offset (widths shares) i + j) ∧ offset (widths shares) i + j < indices.rows := by
  have within : Within (widths shares) i (offset (widths shares) i + j) :=
    ⟨share.extend,by rw [widths,List.getElem?_map,found]; rfl,Nat.le_add_right _ _,by omega⟩
  rw [prepared.queries]
  exact ⟨within,within_sum _ _ _ within⟩

theorem set_exact (store : KvStore K) : ∃ after, store.setKvBuffer pool x.outCacheLoc x.k x.v = some after ∧
    after.slots = pool.slots ∧ Holds store x after shares ∧
    ∀ slot, slot ∉ x.outCacheLoc → after.key slot = pool.key slot ∧ after.value slot = pool.value slot := by
  obtain ⟨after,ran,slots,wrote,others⟩ := store.sets pool x.outCacheLoc x.k x.v prepared.keyRows prepared.valueRows
    prepared.slots
  refine ⟨after,ran,slots,?_,others⟩
  intro i share found j inside head heads d dims
  have place := prepared.locs i share found j inside
  have own := prepared.own _ (share_token prepared i share found j inside).2
  rw [place] at own
  obtain ⟨keys,values⟩ := wrote _ _ place own
  exact ⟨keys head heads d (lt_of_lt_of_eq dims prepared.keyDim.symm),
    values head (lt_of_lt_of_eq heads prepared.valueHeads.symm) d (lt_of_lt_of_eq dims prepared.valueDim.symm)⟩

theorem group_parts (head : Nat) (heads : head < x.q.heads) : 0 < x.q.heads / x.k.heads ∧ groupOf x head < x.k.heads := by
  have parts := prepared.grouped
  have group : 0 < x.q.heads / x.k.heads := by
    rcases Nat.eq_zero_or_pos (x.q.heads / x.k.heads) with none | some
    · rw [none,Nat.mul_zero] at parts
      omega
    · exact some
  refine ⟨group,?_⟩
  rw [groupOf,Nat.div_lt_iff_lt_mul group,parts]
  exact heads

theorem prefixes_exact : prefixLens x = some (shares.map fun share => (share.before : Int)) := by
  have count : x.extendSeqLensCpu.length = (shares.map fun share => (share.before : Int)).length := by
    rw [prepared.extendLensCpu,widths,List.length_map,List.length_map]
  rw [prefixLens,count]
  apply mapM_range
  intro i inside
  rw [List.length_map] at inside
  rw [prepared.seqLens,prepared.extendLensCpu,lengths,widths,List.getElem?_map,List.getElem?_map,List.getElem?_map,
    List.getElem?_eq_getElem inside]
  show some (((shares[i].before + shares[i].extend : Nat) : Int) - (shares[i].extend : Int)) = some (shares[i].before : Int)
  rw [Option.some_inj]
  omega

theorem history_exact : (List.range x.seqLensCpu.length).mapM (historySlots table x) =
    some (shares.map fun share => (List.range share.length).map share.content) := by
  have count : x.seqLensCpu.length = (shares.map fun share => (List.range share.length).map share.content).length := by
    rw [prepared.seqLens,lengths,List.length_map,List.length_map]
  rw [count]
  apply mapM_range
  intro i inside
  rw [List.length_map] at inside
  have member : shares[i] ∈ shares := List.getElem_mem inside
  unfold historySlots
  rw [prepared.requests,prepared.seqLens,lengths,List.getElem?_map,List.getElem?_map,List.getElem?_map,
    List.getElem?_eq_getElem inside,Option.map_some,Option.bind_eq_bind,Option.bind_some,Option.map_some,Option.bind_eq_bind,
    Option.bind_some,prepared.tables _ member,Option.bind_some,Nat.min_eq_left (prepared.width _ member)]
  rfl

theorem parts_exact (size : Nat) (enough : pool.slots ≤ size) (buffer : Nat → Nat → Nat → K) :
    (shares.map fun share => (List.range share.length).map share.content).mapM (indexSelect size buffer) =
      some (shares.map fun share => (List.range share.length).map fun position => buffer (share.content position)) := by
  rw [mapM_found _ (List.map buffer)]
  · rw [List.map_map]
    simp only [Function.comp_def,List.map_map]
  · intro slots member
    obtain ⟨share,inside,rfl⟩ := List.mem_map.mp member
    apply if_pos
    intro slot read
    obtain ⟨position,below,rfl⟩ := List.mem_map.mp read
    exact Nat.lt_of_lt_of_le (prepared.held share inside position (List.mem_range.mp below)) enough

end

theorem joined_read (shares : List Share) (f : Share → Nat → β) (fill : β) (i k : Nat) (share : Share)
    (found : shares[i]? = some share)
    (inside : k < share.length) :
    ((shares.map fun share => (List.range share.length).map (f share)).flatten).getD (offset (lengths shares) i + k) fill =
      f share k := by
  have read := flatMap_read shares (fun share => (List.range share.length).map (f share)) i k share found (by simpa using inside)
  rw [List.flatMap_def] at read
  simp only [List.length_map,List.length_range] at read
  rw [List.getD_eq_getElem?_getD,lengths,read,List.getElem?_map,List.getElem?_range inside]
  rfl

theorem weighted_agreed {K : Type} [Field K] (columns : Finset Nat) (weight weight' : K → K) (score score' value value' : Nat → K)
    (weights : ∀ col ∈ columns, weight (score col) = weight' (score' col)) (values : ∀ col ∈ columns, value col = value' col) :
    weighted weight columns score value = weighted weight' columns score' value' := by
  unfold weighted total
  rw [Finset.sum_congr rfl weights,Finset.sum_congr rfl fun col member => by rw [weights col member,values col member]]

structure History (K : Type) where
  key : Nat → Nat → Nat → K
  value : Nat → Nat → Nat → K

def Share.held (share : Share) (pool : Pool K) : History K :=
  ⟨fun position => pool.key (share.content position),fun position => pool.value (share.content position)⟩

def behind (shares : List Share) : Bool := shares.any fun share => decide (share.before ≠ 0)

-- What the branch reads: with a prefix somewhere in the batch the pool's rows, as the pool stores them, and
-- otherwise the rows at hand.
def Share.read (x : Extend K) (after : Pool K) (shares : List Share) (i : Nat) (share : Share) : History K :=
  if behind shares then share.held after
  else ⟨fun position => x.k.entry (offset (widths shares) i + position),
    fun position => x.v.entry (offset (widths shares) i + position)⟩

section
variable {K : Type} [Field K] [LinearOrder K]

def History.score (history : History K) (casts : Casts K) (x : Extend K) (indices : Indices) (query head col : Nat) : K :=
  ∑ d ∈ Finset.range x.q.dim, casts.query (x.q.entry query head d * x.scaling * log2e) *
    casts.query (history.key (indices.read query (groupOf x head) col).toNat (groupOf x head) d)

omit [LinearOrder K] in
theorem score_agreed (history other : History K) (casts : Casts K) (x : Extend K) (indices : Indices) (query head col : Nat)
    (keys : ∀ d < x.q.dim, history.key (indices.read query (groupOf x head) col).toNat (groupOf x head) d =
      other.key (indices.read query (groupOf x head) col).toNat (groupOf x head) d) :
    history.score casts x indices query head col = other.score casts x indices query head col := by
  apply Finset.sum_congr rfl
  intro d member
  rw [keys d (Finset.mem_range.mp member)]

def History.entry (history : History K) (casts : Casts K) (x : Extend K) (indices : Indices) (query head d col : Nat) : K :=
  casts.bfloat16 (history.value (indices.read query (groupOf x head) col).toNat (groupOf x head) d)

-- The softmax mean of a row over the keys its indexer picked from a history, up to the cast of the weights; no
-- number where it picked none.
structure Averages (device : Device K) (relative absolute : K) (x : Extend K) (history : History K)
    (indices : Indices) (query head d : Nat) (entry : Extended K) : Prop where
  lost : picked indices query (groupOf x head) = ∅ → entry = .nan
  near : picked indices query (groupOf x head) ≠ ∅ →
    let columns := picked indices query (groupOf x head)
    let mean := weighted device.exponential.power columns (history.score device.casts x indices query head)
    ∃ value, entry = .fin (device.casts.query value) ∧
      |value - mean (history.entry device.casts x indices query head d)| ≤
        relative * mean (fun col => |history.entry device.casts x indices query head d col|) +
        absolute * ∑ col ∈ columns, |history.entry device.casts x indices query head d col|

def Attends (device : Device K) (relative absolute : K) (x : Extend K) (indices : Indices) (shares : List Share)
    (history : Nat → Share → History K) (out : Nat × Nat × Nat → Extended K) : Prop :=
  ∀ i share, shares[i]? = some share → ∀ j < share.extend, ∀ head < x.q.heads, ∀ d < x.q.dim,
    Averages device relative absolute x (history i share) indices (offset (widths shares) i + j) head d
      (out (offset (widths shares) i + j,head,d))

def Extend.launch (x : Extend K) (indices : Indices) (blockN : Nat) (k v : Int → K) : Arguments K :=
  ⟨x.q.entry,k,v,indices.read,strides x.k.heads x.k.dim,strides x.v.heads x.v.dim,x.scaling,indices.columns,x.k.heads,
    x.q.heads / x.k.heads,max 16 (PackedGather.nextPowerOf2 (x.q.heads / x.k.heads)),blockN,x.q.dim⟩

variable (device : Device K) (store : KvStore K) {x : Extend K} {pool after : Pool K} {table : Table} {indices : Indices}
  {shares : List Share} (prepared : Prepared x pool table indices shares)
include prepared

omit [Field K] [LinearOrder K] in
theorem picks_near (i : Nat) (share : Share) (found : shares[i]? = some share) (j : Nat) (inside : j < share.extend) (group : Nat)
    (small : group < x.k.heads) : ∀ col < indices.columns, 0 ≤ indices.read (offset (widths shares) i + j) group col →
      (indices.read (offset (widths shares) i + j) group col).toNat < share.length ∧
      (strides x.k.heads x.k.dim).Near group (indices.read (offset (widths shares) i + j) group col).toNat ∧
      (strides x.v.heads x.v.dim).Near group (indices.read (offset (widths shares) i + j) group col).toNat := by
  intro col below counts
  have seen := (prepared.selects i share found j inside group small).seen col below counts
  have position : (indices.read (offset (widths shares) i + j) group col).toNat < share.length := by
    unfold Share.length
    omega
  have reach := prepared.near share (List.mem_of_getElem? found)
  have near : (strides x.k.heads x.q.dim).Near group (indices.read (offset (widths shares) i + j) group col).toNat := by
    have row := Nat.mul_le_mul_right (x.k.heads * x.q.dim) (Nat.succ_le_of_lt position)
    have head := Nat.mul_le_mul_right x.q.dim (Nat.succ_le_of_lt small)
    have first := Nat.le_mul_of_pos_left (x.k.heads * x.q.dim) (Nat.zero_lt_of_lt position)
    rw [Nat.succ_mul] at row head
    show group * x.q.dim < 2 ^ 31 ∧ _ * (x.k.heads * x.q.dim) < 2 ^ 31
    rcases Nat.eq_zero_or_pos x.q.dim with none | some
    · rw [none,Nat.mul_zero,Nat.mul_zero,Nat.mul_zero]
      decide
    · have width := Nat.mul_pos prepared.heads some
      exact ⟨by omega,by omega⟩
  rw [prepared.keyDim,prepared.valueHeads,prepared.valueDim]
  exact ⟨position,near,near⟩

-- The launch's own scores and values, read as the history's.
theorem launch_reads (history : History K) (blockN : Nat) (k v : Int → K) (base query head : Nat) (heads : head < x.q.heads)
    (reads : ∀ col ∈ picked indices query (groupOf x head), ∀ d < x.q.dim,
      let position := (indices.read query (groupOf x head) col).toNat
      k ((strides x.k.heads x.k.dim).element (base + position) (groupOf x head) d) = history.key position (groupOf x head) d ∧
      v ((strides x.v.heads x.v.dim).element (base + position) (groupOf x head) d) = history.value position (groupOf x head) d) :
    ∀ col ∈ picked indices query (groupOf x head),
      (x.launch indices blockN k v).score device.casts query (groupOf x head) base (head % (x.q.heads / x.k.heads)) col =
        history.score device.casts x indices query head col ∧
      ∀ d < x.q.dim, (x.launch indices blockN k v).value device.casts query (groupOf x head) base col d =
        history.entry device.casts x indices query head d col := by
  intro col member
  have lane : ∀ e, (x.launch indices blockN k v).qValue device.casts query (groupOf x head) (head % (x.q.heads / x.k.heads)) e =
      device.casts.query (x.q.entry query head e * x.scaling * log2e) := by
    intro e
    show device.casts.query (PackedGather.load (fun place => x.q.entry query place e)
      (groupOf x head * (x.q.heads / x.k.heads) + head % (x.q.heads / x.k.heads))
      (decide (head % (x.q.heads / x.k.heads) < x.q.heads / x.k.heads)) 0 * x.scaling * log2e) = _
    rw [PackedGather.load,if_pos (decide_eq_true (Nat.mod_lt _ (group_parts prepared head heads).1)),groupOf,Nat.div_add_mod']
  constructor
  · apply Finset.sum_congr rfl
    intro e below
    rw [lane,← (reads col member e (Finset.mem_range.mp below)).1]
    rfl
  · intro d dims
    exact congrArg device.casts.bfloat16 (reads col member d dims).2

omit prepared in
-- A bound around a mean is one around the mean of equal scores and values.
theorem near_agreed (weight : K → K) (columns : Finset Nat) (score score' value value' : Nat → K) (relative absolute result : K)
    (scores : ∀ col ∈ columns, score col = score' col) (values : ∀ col ∈ columns, value col = value' col)
    (bound : |result - weighted weight columns score value| ≤ relative * weighted weight columns score (fun col => |value col|) +
      absolute * ∑ col ∈ columns, |value col|) :
    |result - weighted weight columns score' value'| ≤ relative * weighted weight columns score' (fun col => |value' col|) +
      absolute * ∑ col ∈ columns, |value' col| := by
  have weights : ∀ col ∈ columns, weight (score col) = weight (score' col) := fun col member =>
    congrArg weight (scores col member)
  have sizes : ∀ col ∈ columns, |value col| = |value' col| := fun col member => congrArg abs (values col member)
  rwa [weighted_agreed columns weight weight score score' value value' weights values,
    weighted_agreed columns weight weight score score' _ _ weights sizes,Finset.sum_congr rfl sizes] at bound

variable {relative absolute : K} [IsStrictOrderedRing K] (rounds : Rounds device.casts.bfloat16 relative absolute)
include rounds

-- A launch whose keys and values are each request's history from its own base on.
theorem launch_attends (history : Nat → Share → History K) (blockN : Nat) (positive : 0 < blockN) (k v : Int → K)
    (cuQ base : Nat → Nat) (visible : Nat → Nat → Int) (starts : ∀ i ≤ (widths shares).length, cuQ i = offset (widths shares) i)
    (rows : Nat) (covers : ∀ len ∈ widths shares, len ≤ rows) (same : ∀ i share, shares[i]? = some share → ∀ j < share.extend,
      visible i j = share.before + j + 1)
    (reads : ∀ i share, shares[i]? = some share → ∀ position < share.length, ∀ group < x.k.heads, ∀ d < x.q.dim,
      k ((strides x.k.heads x.k.dim).element (base i + position) group d) = (history i share).key position group d ∧
      v ((strides x.v.heads x.v.dim).element (base i + position) group d) = (history i share).value position group d) :
    Attends device relative absolute x indices shares history (put device.fresh ((device.order
      (grid rows (widths shares).length x.k.heads)).flatMap
      ((x.launch indices blockN k v).program device.exponential device.casts cuQ base visible))) := by
  intro i share found j inside head heads d dims
  obtain ⟨_,small⟩ := group_parts prepared head heads
  obtain ⟨within,_⟩ := share_token prepared i share found j inside
  have row := launch_row (x.launch indices blockN k v) device.exponential device.casts (tile_holds _)
    (widths shares) cuQ base visible starts rows covers _ (device.complete _) device.fresh i j head d within
    (by rw [← prepared.grouped] at heads; exact heads) dims
  rw [same i share found j inside] at row
  have reached := picks_near prepared i share found j inside _ small
  obtain ⟨whole,lost⟩ := (x.launch indices blockN k v).selected_exact positive (offset (widths shares) i + j)
    (groupOf x head) _ (prepared.selects i share found j inside _ small)
  have near : (x.launch indices blockN k v).Near (offset (widths shares) i + j) (groupOf x head) :=
    fun col below counts => (reached col below counts).2
  constructor
  · intro none
    exact row.trans ((x.launch indices blockN k v).output_lost device.exponential device.casts positive _ _ _ _ near _ d
      (lost.mpr none))
  · intro some columns mean
    have read := not_or.mp (mt lost.mp some)
    obtain ⟨result,stored,bound⟩ := (x.launch indices blockN k v).output_near device.exponential device.casts rounds positive
      (offset (widths shares) i + j) (groupOf x head) (base i) (head % (x.q.heads / x.k.heads)) near _ d
      (Nat.pos_of_ne_zero read.1) read.2
    rw [whole] at bound
    have own := launch_reads device prepared (history i share) blockN k v (base i) (offset (widths shares) i + j) head heads
      fun col member e below => by
        obtain ⟨inside,counts⟩ := Finset.mem_filter.mp member
        exact reads i share found _ (reached col (Finset.mem_range.mp inside) counts).1 _ small e below
    exact ⟨result,row.trans stored,near_agreed _ _ _ _ _ _ _ _ _ (fun col member => (own col member).1)
      (fun col member => (own col member).2 d dims) bound⟩

theorem plain_attends (fresh : ∀ share ∈ shares, share.before = 0) :
    ∃ out, plainAttention device x (Tensor.takeRows x.q indices.rows) indices = some out ∧
      Attends device relative absolute x indices shares (fun i _ =>
        ⟨fun position => x.k.entry (offset (widths shares) i + position),
        fun position => x.v.entry (offset (widths shares) i + position)⟩) out := by
  obtain ⟨blockN,positive,made⟩ := arguments_parts device (Tensor.takeRows x.q indices.rows)
    (Tensor.takeRows x.k (min indices.rows x.q.rows)) (Tensor.takeRows x.v (min indices.rows x.q.rows)) indices x.scaling
      prepared.heads
  refine ⟨_,by
    rw [plainAttention,sparseGqaFwdInterfaceTriton,show (Tensor.takeRows x.q indices.rows).rows =
      min indices.rows x.q.rows from rfl,made]
    rfl,?_⟩
  rw [prepared.extendLens,cu_length]
  refine launch_attends device prepared rounds _ blockN positive (flat device.before x.k.heads x.k.dim x.k.entry)
    (flat device.before x.v.heads x.v.dim x.v.entry) _ _ _ (cu_offset _) _ ?_ ?_ ?_
  · intro len member
    obtain ⟨share,inside,rfl⟩ := List.mem_map.mp member
    have listed : share.length ∈ x.seqLensCpu := by
      rw [prepared.seqLens]
      exact List.mem_map_of_mem inside
    cases largest : x.seqLensCpu.max? with
    | none =>
        rw [List.max?_eq_none_iff] at largest
        rw [largest] at listed
        cases listed
    | some most =>
        have below := (List.max?_eq_some_iff.mp largest).2 _ listed
        rw [Share.length,fresh share inside,Nat.zero_add] at below
        exact below
  · intro i share found j _
    rw [fresh share (List.mem_of_getElem? found)]
    omega
  · intro i share found position _ group small d dims
    have bound : i ≤ (widths shares).length := by
      have place := (List.getElem?_eq_some_iff.mp found).1
      rw [widths,List.length_map]
      omega
    rw [cu_offset _ i bound]
    exact ⟨flat_element _ _ _ _ _ _ _ small (lt_of_lt_of_eq dims prepared.keyDim.symm),
      flat_element _ _ _ _ _ _ _ (lt_of_lt_of_eq small prepared.valueHeads.symm) (lt_of_lt_of_eq dims prepared.valueDim.symm)⟩

theorem chunk_attends (same : after.slots = pool.slots) (some_share : shares ≠ []) :
    ∃ out, chunkAttention device x after table (Tensor.takeRows x.q indices.rows) indices = some out ∧
      Attends device relative absolute x indices shares (fun _ share => share.held after) out := by
  have kParts := parts_exact prepared after.slots (le_of_eq same.symm) after.key
  have vParts := parts_exact prepared after.slots (le_of_eq same.symm) after.value
  obtain ⟨blockN,positive,made⟩ := arguments_parts device (Tensor.takeRows x.q indices.rows)
    (joined device x.k (shares.map fun share => (List.range share.length).map fun position => after.key (share.content position)))
    (joined device x.v (shares.map fun share => (List.range share.length).map fun position => after.value
      (share.content position)))
    indices x.scaling prepared.heads
  obtain ⟨maxQ,largest⟩ : ∃ maxQ, (widths shares).max? = some maxQ := by
    cases found : (widths shares).max? with
    | some maxQ => exact ⟨maxQ,rfl⟩
    | none => exact absurd (List.map_eq_nil_iff.mp (List.max?_eq_none_iff.mp found)) some_share
  have widest : ((0 :: cumsum x.extendSeqLens).tail.zipWith (· - ·) (0 :: cumsum x.extendSeqLens)).max? = some maxQ := by
    rw [cu_widths,prepared.extendLens,largest]
  refine ⟨_,by
    rw [chunkAttention,history_exact prepared,Option.bind_eq_bind,Option.bind_some,kParts,Option.bind_eq_bind,Option.bind_some,
      vParts,Option.bind_some,sparseGqaFwdInterfaceTritonCk,made,Option.bind_eq_bind,Option.bind_some,widest]
    rfl,?_⟩
  rw [prepared.extendLens,prepared.seqLens,cu_length]
  refine launch_attends device prepared rounds _ blockN positive (flat device.before x.k.heads x.k.dim _)
    (flat device.before x.v.heads x.v.dim _) _ _ _ (cu_offset _) _ ?_ ?_ ?_
  · exact fun len member => (List.max?_eq_some_iff.mp largest).2 len member
  · intro i share found j inside
    have place := (List.getElem?_eq_some_iff.mp found).1
    have here : (widths shares)[i]? = some share.extend := by rw [widths,List.getElem?_map,found]; rfl
    have length : (lengths shares).getD i 0 = share.length := by
      rw [lengths,List.getD_eq_getElem?_getD,List.getElem?_map,found]
      rfl
    have count : (widths shares).length = shares.length := List.length_map _
    beta_reduce
    rw [length,cu_offset _ i (by omega),cu_offset _ (i + 1) (by omega),offset_next _ i _ here]
    unfold Share.length
    omega
  · intro i share found position below group small d dims
    have place := (List.getElem?_eq_some_iff.mp found).1
    have count : (lengths shares).length = shares.length := List.length_map _
    have keys := joined_read shares (fun share position => after.key (share.content position)) device.beyond i position share
      found below
    have values := joined_read shares (fun share position => after.value (share.content position)) device.beyond i position
      share found below
    rw [cu_offset _ i (by omega)]
    exact ⟨(flat_element _ _ _ _ _ _ _ small (lt_of_lt_of_eq dims prepared.keyDim.symm)).trans (congrFun (congrFun keys group) d),
      (flat_element _ _ _ _ _ _ _ (lt_of_lt_of_eq small prepared.valueHeads.symm)
        (lt_of_lt_of_eq dims prepared.valueDim.symm)).trans
        (congrFun (congrFun values group) d)⟩

-- Both compiled branches, and the one the prefix lengths pick.
theorem cuda_attends (same : after.slots = pool.slots) :
    ∃ out, cudaAttention device x after table (Tensor.takeRows x.q indices.rows) indices =
      some ⟨indices.rows,fun row e => out (row,e / x.q.dim,e % x.q.dim)⟩ ∧
      Attends device relative absolute x indices shares (Share.read x after shares) out := by
  have count : (Tensor.takeRows x.q indices.rows).rows = indices.rows := Nat.min_eq_left prepared.padded
  have prefixes : ((shares.map fun share => (share.before : Int)).any fun length => decide (length ≠ 0)) = behind shares := by
    rw [List.any_map,behind]
    congr 1
    funext share
    simp
  unfold cudaAttention
  rw [prefixes_exact prepared,Option.bind_eq_bind,Option.bind_some,count,prefixes]
  unfold Share.read
  by_cases some_behind : behind shares = true
  · have some_share : shares ≠ [] := by
      rintro rfl
      cases some_behind
    obtain ⟨out,ran,attends⟩ := chunk_attends device prepared rounds same some_share
    rw [if_pos some_behind,ran]
    simp only [if_pos some_behind]
    exact ⟨out,rfl,attends⟩
  · obtain ⟨out,ran,attends⟩ := plain_attends device prepared rounds (fun share member => by
      by_contra nonzero
      exact some_behind (List.any_eq_true.mpr ⟨share,member,by simpa using nonzero⟩))
    rw [if_neg some_behind,ran]
    simp only [if_neg some_behind]
    exact ⟨out,rfl,attends⟩

-- An extend forward puts the new rows into their slots, and each of its rows averages the history its branch reads;
-- the rows behind are zero.
theorem forward_rows (paged cpu : Tensor K → Pool K → Indices → Except Raised (Rows K)) :
    ∃ out after, forwardExtend device store paged cpu false true table x pool = (.ok out,after) ∧
      after.slots = pool.slots ∧ Holds store x after shares ∧
      (∀ slot, slot ∉ x.outCacheLoc → after.key slot = pool.key slot ∧ after.value slot = pool.value slot) ∧
      out.count = x.q.rows ∧ (∀ row, indices.rows ≤ row → row < x.q.rows → ∀ e, out.entry row e = .fin 0) ∧
      ∀ i share, shares[i]? = some share → ∀ j < share.extend, ∀ head < x.q.heads, ∀ d < x.q.dim,
        Averages device relative absolute x (Share.read x after shares i share) indices (offset (widths shares) i + j) head d
          (out.entry (offset (widths shares) i + j) (head * x.q.dim + d)) := by
  obtain ⟨after,wrote,slots,holds,others⟩ := set_exact prepared store
  obtain ⟨out,ran,attends⟩ := cuda_attends device prepared rounds slots
  obtain ⟨padded,made,count,kept,zeros⟩ := pad_exact (⟨indices.rows,fun row e => out (row,e / x.q.dim,e % x.q.dim)⟩ : Rows K)
    x.q.rows prepared.padded
  refine ⟨padded,after,?_,slots,holds,others,count,zeros,?_⟩
  · unfold forwardExtend
    simp only [prepared.topk,prepared.save,if_true,wrote,gt_iff_lt,not_lt.mpr prepared.padded,if_false,ran]
    exact congrArg (·,after) made
  · intro i share found j inside head heads d dims
    obtain ⟨quotient,rest⟩ := place_parts head x.q.dim d dims
    rw [kept _ (share_token prepared i share found j inside).2]
    show Averages device relative absolute x _ indices _ head d
      (out (offset (widths shares) i + j,(head * x.q.dim + d) / x.q.dim,(head * x.q.dim + d) % x.q.dim))
    rw [quotient,rest]
    exact attends i share found j inside head heads d dims

end

theorem written_own [DecidableEq ι] (buffer : ι → α) (locs : List ι) (rows : Nat → α) (n : Nat) (loc : ι)
    (found : locs[n]? = some loc) (own : ∀ m, locs[m]? = some loc → m = n) :
    put buffer (locs.zip ((List.range locs.length).map rows)) loc = rows n := by
  have bound := (List.getElem?_eq_some_iff.mp found).1
  have read : (locs.zip ((List.range locs.length).map rows))[n]? = some (loc,rows n) :=
    List.getElem?_zip_eq_some.mpr ⟨found,by rw [List.getElem?_map,List.getElem?_range bound]; rfl⟩
  apply put_agreed _ _ _ _ ⟨_,List.mem_of_getElem? read,rfl⟩
  intro row member same
  obtain ⟨m,at_m⟩ := List.mem_iff_getElem?.mp member
  obtain ⟨place,value⟩ := List.getElem?_zip_eq_some.mp at_m
  rw [same] at place
  rw [own m place,List.getElem?_map,List.getElem?_range bound] at value
  exact (Option.some_inj.mp value).symm

def putRows (stored : K → K) (pool : Pool K) (locs : List Nat) (k v : Tensor K) : Option (Pool K) :=
  if locs.length = k.rows ∧ locs.length = v.rows ∧ ∀ loc ∈ locs, loc < pool.slots then
    some {pool with
      key := put pool.key (locs.zip ((List.range locs.length).map fun row head d => stored (k.entry row head d)))
      value := put pool.value (locs.zip ((List.range locs.length).map fun row head d => stored (v.entry row head d)))}
  else none

theorem rows_put (stored : K → K) (pool : Pool K) (locs : List Nat) (k v : Tensor K) (keys : locs.length = k.rows)
    (values : locs.length = v.rows) (inside : ∀ loc ∈ locs, loc < pool.slots) :
    ∃ after, putRows stored pool locs k v = some after ∧ after.slots = pool.slots ∧
      (∀ n loc, locs[n]? = some loc → (∀ m, locs[m]? = some loc → m = n) →
        (∀ head < k.heads, ∀ d < k.dim, after.key loc head d = stored (k.entry n head d)) ∧
        ∀ head < v.heads, ∀ d < v.dim, after.value loc head d = stored (v.entry n head d)) ∧
      ∀ slot, slot ∉ locs → after.key slot = pool.key slot ∧ after.value slot = pool.value slot := by
  refine ⟨_,if_pos ⟨keys,values,inside⟩,rfl,?_,?_⟩
  · intro n loc found own
    have key := written_own pool.key locs (fun row head d => stored (k.entry row head d)) n loc found own
    have value := written_own pool.value locs (fun row head d => stored (v.entry row head d)) n loc found own
    exact ⟨fun head _ d _ => congrFun (congrFun key head) d,fun head _ d _ => congrFun (congrFun value head) d⟩
  · intro slot outside
    exact ⟨put_other _ _ _ fun row member same => outside (same ▸ (List.of_mem_zip member).1),
      put_other _ _ _ fun row member same => outside (same ▸ (List.of_mem_zip member).1)⟩

def putStore (stored : K → K) : KvStore K := ⟨putRows stored,stored,rows_put stored⟩

def sampleDevice {K : Type} [Field K] [LinearOrder K] (exponential : Exponential K) : Device K :=
  ⟨exponential,⟨id,id⟩,false,id,fun _ => List.Perm.refl _,fun _ => .nan,fun _ => 0,fun _ _ => 0⟩

-- One request of one cached key in slot 1 and one new one in slot 2, behind it a padding row; the query picks
-- the cached key.
def sampleShare : Share := ⟨0,fun position => position + 1,1,1⟩
def sampleIndices : Indices := ⟨1,2,.inl fun _ col => if col = 0 then 0 else -1⟩
def sampleExtend (K : Type) [Field K] : Extend K :=
  ⟨⟨2,1,1,fun _ _ _ => 1⟩,⟨1,1,1,fun _ _ _ => 7⟩,⟨1,1,1,fun _ _ _ => 7⟩,some sampleIndices,true,[2],[1],[1],[2],[0],1⟩
def samplePool (K : Type) [Field K] : Pool K := ⟨3,fun _ _ _ => 3,fun _ _ _ => 5⟩

theorem sample_prepared (K : Type) [Field K] :
    Prepared (sampleExtend K) (samplePool K) ⟨2,[sampleShare.content]⟩ sampleIndices [sampleShare] := by
  have only : ∀ i share, [sampleShare][i]? = some share → i = 0 ∧ share = sampleShare := by
    intro i share found
    cases i with
    | zero => exact ⟨rfl,(Option.some_inj.mp found).symm⟩
    | succ i => cases found
  refine ⟨rfl,rfl,rfl,(show 1 ≤ 2 by decide),Nat.one_pos,(show 1 * (1 / 1) = 1 by decide),rfl,rfl,rfl,rfl,rfl,rfl,rfl,rfl,rfl,
    ?_,?_,?_,?_,?_,?_,?_,?_⟩
  · intro share member
    rw [List.mem_singleton.mp member]
    rfl
  · intro share member
    rw [List.mem_singleton.mp member]
    decide
  · intro share member
    rw [List.mem_singleton.mp member]
    show 2 * (1 * 1) ≤ 2 ^ 31
    decide
  · intro share member
    rw [List.mem_singleton.mp member]
    show ∀ position < 2, position + 1 < 3
    decide
  · show ∀ loc ∈ [2], loc < 3
    decide
  · intro i share found j inside
    obtain ⟨rfl,rfl⟩ := only i share found
    obtain rfl : j = 0 := Nat.lt_one_iff.mp inside
    rfl
  · intro n inside m same
    obtain rfl : n = 0 := Nat.lt_one_iff.mp inside
    cases m with
    | zero => rfl
    | succ m => cases same
  · intro i share found j inside group _
    obtain ⟨rfl,rfl⟩ := only i share found
    obtain rfl : j = 0 := Nat.lt_one_iff.mp inside
    have columns : ∀ col, sampleIndices.read 0 group col = if col = 0 then 0 else -1 := fun _ => rfl
    have start : offset (widths [sampleShare]) 0 + 0 = 0 := by decide
    rw [start]
    constructor
    · intro col later before _ counts
      rw [columns,if_neg (by omega)] at counts
      omega
    · intro col _ _
      rw [columns]
      split <;> decide
    · intro col _ other _ counts same
      rw [columns] at counts same
      rw [columns] at same
      split at counts
      · split at same <;> omega
      · omega

theorem weighted_single {K ι : Type} [Field K] (weight : K → K) (score value : ι → K) (col : ι)
    (nonzero : weight (score col) ≠ 0) :
    weighted weight {col} score value = value col := by
  unfold weighted DirectGather.total
  rw [Finset.sum_singleton,Finset.sum_singleton,mul_div_cancel_left₀ _ nonzero]

def clamped {K : Type} [LinearOrder K] (top x : K) : K := if x ≤ top then x else top

theorem sample_rows : ∃ out after,
    forwardExtend (sampleDevice exp2) (putStore (clamped 4)) (fun _ _ _ => .error .library)
      (fun _ _ _ => .error .library) false true
      ⟨2,[sampleShare.content]⟩ (sampleExtend ℝ) (samplePool ℝ) = (.ok out,after) ∧
    out.entry 0 0 = .fin 5 ∧ out.entry 1 0 = .fin 0 ∧ after.key 2 0 0 = 4 := by
  have rounds : Rounds (id : ℝ → ℝ) 0 0 := ⟨rfl,by simp,le_refl _,le_refl _⟩
  obtain ⟨out,after,ran,_,holds,others,_,zeros,rows⟩ := forward_rows (sampleDevice exp2) (putStore (clamped 4))
    (sample_prepared ℝ) rounds
    (fun _ _ _ => .error .library) (fun _ _ _ => .error .library)
  have columns : picked sampleIndices 0 0 = {0} := by decide
  have row := (rows 0 sampleShare rfl 0 (by decide) 0 (by decide) 0 (by decide)).near
  rw [show offset (widths [sampleShare]) 0 + 0 = 0 by decide,show groupOf (sampleExtend ℝ) 0 = 0 from rfl,columns] at row
  obtain ⟨value,read,near⟩ := row (by simp)
  rw [zero_mul,zero_mul,add_zero,weighted_single _ _ _ _ (ne_of_gt ((sampleDevice exp2).exponential.positive _))] at near
  have held : (Share.read (sampleExtend ℝ) after [sampleShare] 0 sampleShare).entry (sampleDevice exp2).casts (sampleExtend ℝ)
      sampleIndices 0 0 0 0 = 5 := by
    have kept := (others 1 (show 1 ∉ [2] by decide)).2
    exact congrFun (congrFun kept 0) 0
  rw [held] at near
  have saturated : clamped (4 : ℝ) 7 = 4 := if_neg (by norm_num)
  refine ⟨out,after,ran,read.trans ?_,zeros 1 (by decide) (by decide) 0,
    (holds 0 sampleShare rfl 0 (by decide) 0 (by decide) 0 (by decide)).1.trans saturated⟩
  exact congrArg Extended.fin (sub_eq_zero.mp (abs_eq_zero.mp (le_antisymm near (abs_nonneg _))))

theorem weighted_axis {K : Type} [Field K] (weight : K → K) (p : Nat → Bool) (score value : Nat → K) (n : Nat) :
    weighted weight (Finset.univ.filter fun col : Fin n => p col) (fun col => score col) (fun col => value col) =
      weighted weight ((Finset.range n).filter fun col => p col) score value := by
  have sums : ∀ f : Nat → K, ∑ col ∈ Finset.univ.filter (fun col : Fin n => p col), f col =
      ∑ col ∈ (Finset.range n).filter (fun col => p col), f col := by
    intro f
    rw [Finset.sum_filter,Finset.sum_filter,Fin.sum_univ_eq_sum_range (fun col => if p col then f col else 0)]
  unfold weighted total
  rw [sums fun col => weight (score col) * value col,sums fun col => weight (score col)]

section
variable {K : Type} [Field K] [LinearOrder K] (device : Device K)

-- The rows of an extend forward handed to the direct gather branch instead, each as a row of its own.
def directRows (x : Extend K) (pool : Pool K) (table : Table) (indices : Indices) (share : Fin batch → Share)
    (query visible : Fin batch → Nat) : Option (Fin batch → Fin (x.k.heads * (x.q.heads / x.k.heads) * x.q.dim) → K) :=
  forwardPagedAttention (fun score => device.exponential.power (log2e * score)) x.scaling
    (fun row head d => x.q.entry (query row) head d)
    ((List.range pool.slots).map fun slot head (d : Fin x.q.dim) => pool.key slot head d)
    ((List.range pool.slots).map fun slot head (d : Fin x.q.dim) => pool.value slot head d)
    table (fun row => (share row).slot) visible fun row (col : Fin indices.columns) => indices.read (query row) 0 col

variable {x : Extend K} {pool after : Pool K} {table : Table} {indices : Indices} {shares : List Share}
  (prepared : Prepared x pool table indices shares) (exactly : device.casts = ⟨id,id⟩) (picks : Nat → Nat → Int)
  (common : indices.entry = .inl picks) (i j : Fin batch → Nat) (share : Fin batch → Share)
  (found : ∀ row, shares[i row]? = some (share row)) (inside : ∀ row, j row < (share row).extend)

include common in
theorem common_read (query group col : Nat) : indices.read query group col = picks query col := by
  unfold Indices.read
  rw [common]

include prepared common found inside

omit [Field K] [LinearOrder K] in
theorem pick_seen (row : Fin batch) (col : Nat) (below : col < indices.columns)
    (counts : 0 ≤ picks (offset (widths shares) (i row) + j row) col) :
    picks (offset (widths shares) (i row) + j row) col < (share row).before + j row + 1 := by
  have selects := prepared.selects (i row) (share row) (found row) (j row) (inside row) 0 prepared.heads
  have bound := selects.seen col below (by rw [common_read picks common]; exact counts)
  rwa [common_read picks common] at bound

omit [Field K] [LinearOrder K] in
-- The position a column reads, the first one where it is masked.
theorem pick_position (row : Fin batch) (col : Fin indices.columns) :
    (max (picks (offset (widths shares) (i row) + j row) col) 0).toNat < (share row).length := by
  have below := pick_seen prepared picks common i j share found inside row col col.isLt
  have room := inside row
  unfold Share.length
  omega

omit [Field K] [LinearOrder K] in
theorem direct_slots : gatherSlots table (fun row => (share row).slot) (fun row (col : Fin indices.columns) =>
    indices.read (offset (widths shares) (i row) + j row) 0 col) = some fun row (col : Fin indices.columns) =>
      (share row).content (max (picks (offset (widths shares) (i row) + j row) col) 0).toNat := by
  refine (collect_exact _ _).mpr fun row => (collect_exact _ _).mpr fun col => ?_
  have member := List.mem_of_getElem? (found row)
  obtain ⟨place,known⟩ := Int.eq_ofNat_of_zero_le (le_max_right (picks (offset (widths shares) (i row) + j row) col) 0)
  have below := pick_position prepared picks common i j share found inside row col
  have width := prepared.width _ member
  beta_reduce
  rw [common_read picks common,known,WritePlan.slot_column,prepared.tables _ member,Option.map_some]
  rw [known,Int.toNat_natCast] at below
  rw [if_pos (Nat.lt_of_lt_of_le below width),Int.toNat_natCast]

omit [Field K] [LinearOrder K] in
theorem slot_rows (same : after.slots = pool.slots) (buffer : Nat → Nat → Nat → K) (row : Fin batch)
    (col : Fin indices.columns) :
    ((List.range after.slots).map fun slot (head : Fin x.k.heads) (d : Fin x.q.dim) => buffer slot head d)[
      (share row).content (max (picks (offset (widths shares) (i row) + j row) col) 0).toNat]? =
    some fun (head : Fin x.k.heads) (d : Fin x.q.dim) =>
      buffer ((share row).content (max (picks (offset (widths shares) (i row) + j row) col) 0).toNat) head d := by
  have held := prepared.held _ (List.mem_of_getElem? (found row)) _
    (pick_position prepared picks common i j share found inside row col)
  rw [List.getElem?_map,List.getElem?_range (by omega)]
  rfl

include exactly

theorem direct_averages (same : after.slots = pool.slots) : ∃ direct, directRows device x after table indices share
      (fun row => offset (widths shares) (i row) + j row) (fun row => (share row).before + j row + 1) = some direct ∧
    ∀ (row : Fin batch) (head : Fin (x.k.heads * (x.q.heads / x.k.heads))) (d : Fin x.q.dim),
      let query := offset (widths shares) (i row) + j row
      let columns := picked indices query (groupOf x head)
      DirectGather.split (direct row) head d = if columns = ∅ then 0 else
        weighted device.exponential.power columns (((share row).held after).score device.casts x indices query head)
          (((share row).held after).entry device.casts x indices query head d) := by
  obtain ⟨direct,ran,rows⟩ := forward_read (fun score => device.exponential.power (log2e * score)) x.scaling
    (fun row head d => x.q.entry (offset (widths shares) (i row) + j row) head d) _ _ table (fun row => (share row).slot)
    (fun row => (share row).before + j row + 1) (fun row (col : Fin indices.columns) =>
      indices.read (offset (widths shares) (i row) + j row) 0 col) _
    (direct_slots prepared picks common i j share found inside) _ _
    ((collect_exact _ _).mpr fun row => (collect_exact _ _).mpr
      (slot_rows prepared picks common i j share found inside same after.key row))
    ((collect_exact _ _).mpr fun row => (collect_exact _ _).mpr
      (slot_rows prepared picks common i j share found inside same after.value row))
  refine ⟨direct,ran,?_⟩
  intro row head d query columns
  have group := common_read picks common
  rw [rows row head d]
  have counts : (Finset.univ.filter fun col : Fin indices.columns => valid (fun row (col : Fin indices.columns) =>
      indices.read (offset (widths shares) (i row) + j row) 0 col) (fun row => (share row).before + j row + 1) row col = true) =
      Finset.univ.filter fun col : Fin indices.columns => decide (0 ≤ picks query col) = true := by
    apply Finset.filter_congr
    intro col _
    rw [valid,decide_eq_true_iff,decide_eq_true_iff,group]
    have below := pick_seen prepared picks common i j share found inside row col col.isLt
    exact ⟨fun both => both.1,fun above => ⟨above,by have := below above; omega⟩⟩
  have axis : columns = (Finset.range indices.columns).filter fun col => decide (0 ≤ picks query col) = true := by
    show picked indices query (groupOf x head) = _
    unfold picked
    simp only [group,decide_eq_true_iff]
  rw [counts]
  by_cases none : columns = ∅
  · rw [if_pos none,if_neg]
    rw [axis,Finset.filter_eq_empty_iff] at none
    rw [Nat.not_lt,Nat.le_zero,Finset.card_eq_zero,Finset.filter_eq_empty_iff]
    exact fun col _ => none (Finset.mem_range.mpr col.isLt)
  · rw [if_neg none,if_pos]
    · rw [axis]
      refine (weighted_axis (fun score => device.exponential.power (log2e * score)) (fun col => decide (0 ≤ picks query col))
        (fun col => x.scaling * ∑ e : Fin x.q.dim, x.q.entry query head e *
          after.key ((share row).content (max (picks query col) 0).toNat) (groupOf x head) e)
        (fun col => after.value ((share row).content (max (picks query col) 0).toNat) (groupOf x head) d)
        indices.columns).trans (weighted_agreed _ _ _ _ _ _ _ ?_ ?_)
      · intro col member
        have above := of_decide_eq_true (Finset.mem_filter.mp member).2
        congr 1
        unfold History.score
        rw [exactly,max_eq_left above,group,Finset.mul_sum,Finset.mul_sum,Finset.sum_range]
        apply Finset.sum_congr rfl
        intro e _
        simp only [id_eq,Share.held]
        ring
      · intro col member
        have above := of_decide_eq_true (Finset.mem_filter.mp member).2
        unfold History.entry
        rw [exactly,max_eq_left above,group]
        rfl
    · obtain ⟨col,member⟩ := Finset.nonempty_iff_ne_empty.mpr none
      rw [axis,Finset.mem_filter,Finset.mem_range] at member
      exact Finset.card_pos.mpr ⟨⟨col,member.1⟩,Finset.mem_filter.mpr ⟨Finset.mem_univ _,member.2⟩⟩

end

section
variable {K : Type} [Field K] [LinearOrder K] (device : Device K) (store : KvStore K)
  {x : Extend K} {pool after : Pool K} {table : Table} {indices : Indices} {shares : List Share}
  (prepared : Prepared x pool table indices shares)

omit [Field K] [LinearOrder K] in
-- Where every row is new and the pool stores what it gets, both branches read the same history.
theorem read_held (holds : Holds store x after shares) (kept : behind shares = true ∨ store.stored = id) (i : Nat) (share : Share)
    (found : shares[i]? = some share) (position : Nat) (below : position < share.length) (group : Nat) (small : group < x.k.heads)
    (d : Nat) (dims : d < x.q.dim) :
    (Share.read x after shares i share).key position group d = (share.held after).key position group d ∧
      (Share.read x after shares i share).value position group d = (share.held after).value position group d := by
  unfold Share.read
  by_cases some_behind : behind shares = true
  · rw [if_pos some_behind]
    exact ⟨rfl,rfl⟩
  · have none : share.before = 0 := by
      by_contra nonzero
      exact some_behind (List.any_eq_true.mpr ⟨share,List.mem_of_getElem? found,by simpa using nonzero⟩)
    have inside : position < share.extend := by
      unfold Share.length at below
      omega
    obtain ⟨keys,values⟩ := holds i share found position inside group small d dims
    rw [none,Nat.zero_add,kept.resolve_left some_behind] at keys values
    rw [if_neg some_behind]
    exact ⟨keys.symm,values.symm⟩

include prepared

end

end OneSpark.ExtendForwards
