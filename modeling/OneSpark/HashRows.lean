import OneSpark.HashGather
import OneSpark.HashMeans
import OneSpark.NGramIds

namespace OneSpark.HashRows
open Blocks Scatter Longs HashBuild HashMeans HashGather NGramIds

-- The runtime numbers its primes from the layer's first head; sympy.nextprime is a parameter.
def findNthPrimeAfter (nextprime : Nat → Nat) (start n : Nat) : Nat := Nat.repeat nextprime n start

def buildHeadVocabAndOffsets (nextprime : Nat → Nat) (ngramVocabSizeBase pleLayerIndex ngramHeads : Nat) :
    HeadSizes :=
  (List.range ngramHeads).foldl (fun found headIdx =>
    let globalHeadIdx := pleLayerIndex * ngramHeads + headIdx
    found.place (findNthPrimeAfter nextprime (ngramVocabSizeBase - 1) (globalHeadIdx + 1))) ⟨[],[],0⟩

theorem heads_same (nextprime : Nat → Nat) (ngramBase heads : Nat) :
    buildHeadVocabAndOffsets nextprime ngramBase 0 heads = headSizes nextprime ngramBase heads := by
  have walked : ∀ k, (List.range k).foldl (fun (state : Nat × HeadSizes) _ =>
        let prime := nextprime state.1
        (prime,state.2.place prime)) (ngramBase - 1,⟨[],[],0⟩) =
      (findNthPrimeAfter nextprime (ngramBase - 1) k,
        (List.range k).foldl (fun found headIdx =>
          found.place (findNthPrimeAfter nextprime (ngramBase - 1) (headIdx + 1))) ⟨[],[],0⟩) := by
    intro k
    induction k with
    | zero => rfl
    | succ k ih =>
        rw [List.range_succ,List.foldl_append,List.foldl_append,ih]
        rfl
  unfold buildHeadVocabAndOffsets headSizes
  rw [walked heads]
  simp

def InHead (art : Saved c F W) (h g : Nat) : Prop :=
  ∃ off size, art.offs[h]? = some off ∧ art.sizes[h]? = some size ∧ off ≤ g ∧ g < off + size

def InSubTable (art : Saved c F W) (h : Nat) (slot : Long) : Prop :=
  ∃ lo hi : Nat, art.subOffs[h]? = some lo ∧ art.subOffs[h + 1]? = some hi ∧ lo ≤ slot.toInt ∧ slot.toInt < hi

-- Row i of shard n, global row g, goes to slot a of the first table and b of the second.
def Accumulates (c : Constants) (sizes : List Nat) (shards : Nat → Weight V) (n i g : Nat) (a b : Long) : Prop :=
  ∃ t rows adds, (layout c (laid sizes)).index = some t ∧ checked c (shardRows c sizes.sum) (shards n) = some rows ∧
    shardAdds c (layout c (laid sizes)) t n (shards n) = some adds ∧ adds.gidx[i]? = some (BitVec.ofNat 64 g) ∧
    i < rows.length ∧ adds.w32[i]? = rows[i]? ∧ adds.sA[i]? = some a ∧ adds.sB[i]? = some b

-- Column h of a gather at this id reads slots a and b of the two saved tables.
def Reads (art : Saved c F W) (st : HashkState c F W) (h : Nat) (id a b : Long) : Prop :=
  hashkSlot st subA h id = some a ∧ hashkSlot st subB h id = some b ∧
    ∀ ids : List Long, ids.length = art.heads → ids[h]? = some id →
      ∃ reads rowA rowB, hashkReads st ids = some reads ∧ reads[h]? = some (rowA,rowB) ∧
        art.tableA[a.toNat]? = some rowA ∧ art.tableB[b.toNat]? = some rowB

def IdsInside (art : Saved c F W) (row : List Long) : Prop :=
  row.length = art.heads ∧ ∀ (h : Nat) (id : Long), row[h]? = some id →
    ∃ off size : Nat, art.offs[h]? = some off ∧ art.sizes[h]? = some size ∧ off ≤ id.toInt ∧ id.toInt < off + size

theorem realRows_getElem? (total ss n i : Nat) (inside : i < ss) (real : n * ss + i < total) :
    (realRows total ss n)[i]? = some (n * ss + i) := by
  obtain ⟨rest,rfl⟩ := Nat.exists_eq_add_of_lt inside
  have first : (List.range' (n * (i + rest + 1)) (i + 1)).filter (fun g => decide (g < total)) =
      List.range' (n * (i + rest + 1)) (i + 1) := by
    rw [List.filter_eq_self]
    intro g member
    have span := List.mem_range'_1.mp member
    exact decide_eq_true (by omega)
  have split : List.range' (n * (i + rest + 1)) (i + rest + 1) =
      List.range' (n * (i + rest + 1)) (i + 1) ++ List.range' (n * (i + rest + 1) + (i + 1)) rest := by
    rw [List.range'_append_1]
    congr 1
    omega
  unfold realRows
  rw [split,List.filter_append,first,List.getElem?_append_left (by simp)]
  simp

theorem checked_shaped (c : Constants) (ss : Nat) (w : Weight V) (rows : List (Fin c.dim → V))
    (ran : checked c ss w = some rows) : Shaped c ss w ∧ rows.length = ss := by
  unfold checked at ran
  split at ran
  · rename_i shaped
    cases ran
    exact ⟨shaped,by simpa using shaped.2.1⟩
  · cases ran

section
variable [Field V] [LinearOrder V] (c : Constants) (sizes : List Nat) (shards : Nat → Weight V) (toFloat8 : V → F)
  (projections : W) (art : Saved c F W)

variable (ran : saved c (laid sizes) shards toFloat8 projections = some art)
include ran

theorem saved_shaped (n : Nat) (inside : n < c.splitParts) : Shaped c (shardRows c sizes.sum) (shards n) := by
  obtain ⟨_,found,_,averaged,_⟩ := saved_parts sizes shards toFloat8 projections art ran
  unfold means at averaged
  simp only [Option.bind_eq_bind,Option.bind_eq_some_iff] at averaged
  obtain ⟨t,_,sums,looped,_⟩ := averaged
  obtain ⟨before,after,step⟩ := Tensors.foldlM_stepped _ _ _ _ looped n (List.mem_range.mpr inside)
  unfold shardStep shardAdds at step
  simp only [Option.bind_eq_bind,Option.bind_eq_some_iff,layout_exact] at step
  obtain ⟨_,⟨rows,shaped,_⟩,_⟩ := step
  exact (checked_shaped c _ _ rows shaped).1

theorem saved_fits : c.splitParts * shardRows c sizes.sum < 2 ^ 63 := by
  obtain ⟨_,found,_,averaged,_⟩ := saved_parts sizes shards toFloat8 projections art ran
  exact means_numbered c sizes shards _ (List.Perm.refl _)
    (saved_shaped c sizes shards toFloat8 projections art ran) found averaged

variable (positive : ∀ v ∈ sizes, 0 < v)
include positive

theorem saved_tables : art.tableA.length = (subSizes c sizes).sum ∧ art.tableB.length = (subSizes c sizes).sum := by
  have shaped := saved_shaped c sizes shards toFloat8 projections art ran
  have fits := saved_fits c sizes shards toFloat8 projections art ran
  obtain ⟨t,found,made,averaged,rfl⟩ := saved_parts sizes shards toFloat8 projections art ran
  have filled := means_filled c sizes shards positive _ found averaged
  obtain ⟨_,_,again⟩ := means_found c sizes shards positive (List.range c.splitParts) (List.Perm.refl _) shaped
    filled fits
  rw [averaged,Option.some_inj] at again
  subst again
  simp [divided,slotRows]

theorem hashkRead_found (total : sizes.sum < 2 ^ 63) (h : Nat) (id : Long) (a b : Nat)
    (first : hashkSlot (loaded sizes art) 0 h id = some (BitVec.ofNat 64 a)) (low : a < (subSizes c sizes).sum)
    (second : hashkSlot (loaded sizes art) 1 h id = some (BitVec.ofNat 64 b)) (high : b < (subSizes c sizes).sum) :
    ∃ rowA rowB, hashkRead (loaded sizes art) h id = some (rowA,rowB) ∧ art.tableA[a]? = some rowA ∧
      art.tableB[b]? = some rowB := by
  have sum := subSizes_sum c sizes positive
  obtain ⟨lengthA,lengthB⟩ := saved_tables c sizes shards toFloat8 projections art ran positive
  obtain ⟨rowA,readA,foundA⟩ := rowAt_nat art.tableA a (by omega) (by omega)
  obtain ⟨rowB,readB,foundB⟩ := rowAt_nat art.tableB b (by omega) (by omega)
  refine ⟨rowA,rowB,?_,foundA,foundB⟩
  simp only [hashkRead,first,second,Option.bind_eq_bind,Option.bind_some]
  simp only [loaded,readA,readB,Option.bind_some,Option.pure_def]

theorem saved_total : sizes.sum < 2 ^ 63 := by
  obtain ⟨t,_,made,_⟩ := saved_parts sizes shards toFloat8 projections art ran
  exact ((index_exact c sizes positive t).mp made).2.1

theorem hashkReads_returns (ids : List Long) (length : ids.length = sizes.length) :
    ∃ reads, hashkReads (loaded sizes art) ids = some reads ∧
      ∀ (h : Nat) (id : Long), ids[h]? = some id → reads[h]? = hashkRead (loaded sizes art) h id := by
  have total := saved_total c sizes shards toFloat8 projections art ran positive
  have columns : ∀ h ∈ List.range ids.length, ∃ rows, (do
      let id ← ids[h]?
      hashkRead (loaded sizes art) h id) = some rows := by
    intro h member
    have inside := List.mem_range.mp member
    have bound : h < sizes.length := by omega
    have found := List.getElem?_eq_getElem bound
    obtain ⟨a,first,low⟩ := hashkSlot_inside sizes art positive total 0 h _ found ids[h]
    obtain ⟨b,second,high⟩ := hashkSlot_inside sizes art positive total 1 h _ found ids[h]
    obtain ⟨rowA,rowB,read,_⟩ := hashkRead_found c sizes shards toFloat8 projections art ran positive total h ids[h]
      a b first (within_sum _ _ _ low) second (within_sum _ _ _ high)
    exact ⟨(rowA,rowB),by simp [List.getElem?_eq_getElem inside,read]⟩
  obtain ⟨reads,mapped,_⟩ := Tensors.mapM_returns _ _ columns
  refine ⟨reads,?_,?_⟩
  · unfold hashkReads
    rw [if_pos (by simpa [loaded] using length),mapped]
  · intro h id here
    obtain ⟨inside,_⟩ := List.getElem?_eq_some_iff.mp here
    have read := Tensors.mapM_read _ _ _ mapped h h (List.getElem?_range inside)
    simpa [here] using read

theorem accumulates_slots (h n i : Nat) (inside : i < shardRows c sizes.sum)
    (within : Within sizes h (n * shardRows c sizes.sum + i)) (part : n < c.splitParts) :
    Accumulates c sizes shards n i (n * shardRows c sizes.sum + i)
      (BitVec.ofNat 64 (slotAt c sizes 0 (n * shardRows c sizes.sum + i)))
      (BitVec.ofNat 64 (slotAt c sizes 1 (n * shardRows c sizes.sum + i))) := by
  have shaped := saved_shaped c sizes shards toFloat8 projections art ran n part
  have fits := saved_fits c sizes shards toFloat8 projections art ran
  have below := Nat.mul_le_mul_right (shardRows c sizes.sum) part
  rw [Nat.succ_mul] at below
  obtain ⟨t,_,made,_⟩ := saved_parts sizes shards toFloat8 projections art ran
  have real := realRows_getElem? sizes.sum (shardRows c sizes.sum) n i inside (within_sum sizes h _ within)
  have rows := shaped_checked c shards (shardRows c sizes.sum) n shaped
  refine ⟨t,_,_,made,rows,shardAdds_exact c sizes shards positive t made n shaped (by omega),?_,?_,?_,?_,?_⟩
  · simp [rowAdds,real]
  · simpa using inside
  · simp [rowAdds,real,inside]
  · simp [rowAdds,real]
  · simp [rowAdds,real]

theorem reads_slots (h g : Nat) (within : Within sizes h g) :
    Reads art (loaded sizes art) h (BitVec.ofNat 64 g) (BitVec.ofNat 64 (slotAt c sizes 0 g))
      (BitVec.ofNat 64 (slotAt c sizes 1 g)) := by
  have total := saved_total c sizes shards toFloat8 projections art ran positive
  have sum := subSizes_sum c sizes positive
  have first := hashkSlot_real sizes art positive total 0 h g within
  have second := hashkSlot_real sizes art positive total 1 h g within
  have low := slotAt_inside c sizes positive 0 g (within_sum sizes h g within)
  have high := slotAt_inside c sizes positive 1 g (within_sum sizes h g within)
  have heads : art.heads = sizes.length := by
    obtain ⟨_,_,_,_,rfl⟩ := saved_parts sizes shards toFloat8 projections art ran
    rfl
  refine ⟨first,second,?_⟩
  intro ids length here
  obtain ⟨reads,ran_reads,each⟩ := hashkReads_returns c sizes shards toFloat8 projections art ran positive ids
    (length.trans heads)
  obtain ⟨rowA,rowB,read,foundA,foundB⟩ := hashkRead_found c sizes shards toFloat8 projections art ran positive total
    h _ _ _ first low second high
  refine ⟨reads,rowA,rowB,ran_reads,(each h _ here).trans read,?_,?_⟩
  · rwa [BitVec.toNat_ofNat,Nat.mod_eq_of_lt (by omega)]
  · rwa [BitVec.toNat_ofNat,Nat.mod_eq_of_lt (by omega)]

omit positive in
theorem saved_offs (h off : Nat) : art.offs[h]? = some off ↔ h < sizes.length ∧ off = offset sizes h := by
  obtain ⟨_,_,_,_,rfl⟩ := saved_parts sizes shards toFloat8 projections art ran
  simp only [List.getElem?_map,Option.map_eq_some_iff,List.getElem?_eq_some_iff,List.length_range,List.getElem_range]
  constructor
  · intro ⟨_,⟨bound,rfl⟩,same⟩
    exact ⟨bound,same.symm⟩
  · intro ⟨bound,same⟩
    exact ⟨h,⟨bound,rfl⟩,same.symm⟩

omit positive in
theorem inHead_within (h g : Nat) : InHead art h g ↔ Within sizes h g := by
  have offs := saved_offs c sizes shards toFloat8 projections art ran h
  have listed : art.sizes = sizes := by
    obtain ⟨_,_,_,_,rfl⟩ := saved_parts sizes shards toFloat8 projections art ran
    rfl
  unfold InHead Within
  rw [listed]
  constructor
  · intro ⟨off,size,start,found,low,high⟩
    obtain ⟨_,rfl⟩ := (offs off).mp start
    exact ⟨size,found,low,high⟩
  · intro ⟨size,found,low,high⟩
    obtain ⟨bound,_⟩ := List.getElem?_eq_some_iff.mp found
    exact ⟨_,size,(offs _).mpr ⟨bound,rfl⟩,found,low,high⟩

omit positive in
theorem inSubTable_within (h slot : Nat) (fits : slot < 2 ^ 63) (within : Within (subSizes c sizes) h slot) :
    InSubTable art h (BitVec.ofNat 64 slot) := by
  have next := within_next _ _ _ within
  obtain ⟨size,found,low,_⟩ := within
  obtain ⟨bound,_⟩ := List.getElem?_eq_some_iff.mp found
  have count : h < sizes.length := by simpa [subSizes] using bound
  obtain ⟨_,_,_,_,rfl⟩ := saved_parts sizes shards toFloat8 projections art ran
  refine ⟨offset (subSizes c sizes) h,offset (subSizes c sizes) (h + 1),?_,?_,?_,?_⟩
  · simp only [List.getElem?_map,List.getElem?_range (show h < sizes.length + 1 by omega),Option.map_some]
  · simp only [List.getElem?_map,List.getElem?_range (show h + 1 < sizes.length + 1 by omega),Option.map_some]
  · rw [toInt_ofNat slot fits]
    exact_mod_cast low
  · rw [toInt_ofNat slot fits]
    exact_mod_cast next

omit positive in
theorem inSubTable_apart (h k : Nat) (a b : Long) (less : h < k) (first : InSubTable art h a)
    (second : InSubTable art k b) : a.toInt < b.toInt := by
  obtain ⟨_,hi,_,stop,_,below⟩ := first
  obtain ⟨lo,_,start,_,above,_⟩ := second
  obtain ⟨_,_,_,_,rfl⟩ := saved_parts sizes shards toFloat8 projections art ran
  simp only [List.getElem?_map,Option.map_eq_some_iff,List.getElem?_eq_some_iff,List.length_range,
    List.getElem_range] at stop start
  obtain ⟨_,⟨_,rfl⟩,rfl⟩ := stop
  obtain ⟨_,⟨_,rfl⟩,rfl⟩ := start
  have ordered := offset_mono (subSizes c sizes) (show h + 1 ≤ k from less)
  omega

theorem columns_proper (m : NGramEmbedding) (madeSizes : longs art.sizes = some m.ngramHeadsVocabSizes)
    (madeOffs : longs art.offs = some m.ngramHeadsOffsets) :
    m.columns = (List.range sizes.length).map (fun h =>
      (BitVec.ofNat 64 (sizes.getD h 0),BitVec.ofNat 64 (offset sizes h))) ∧
    ∀ column ∈ m.columns, Proper column := by
  have total := saved_total c sizes shards toFloat8 projections art ran positive
  obtain ⟨_,_,_,_,rfl⟩ := saved_parts sizes shards toFloat8 projections art ran
  obtain ⟨vocab,_⟩ := longs_parts _ _ madeSizes
  obtain ⟨offs,_⟩ := longs_parts _ _ madeOffs
  have listed : m.columns = (List.range sizes.length).map (fun h =>
      (BitVec.ofNat 64 (sizes.getD h 0),BitVec.ofNat 64 (offset sizes h))) := by
    unfold NGramEmbedding.columns
    rw [vocab,offs]
    apply List.ext_getElem
    · simp
    · intro h bound _
      have inside : h < sizes.length := by simpa using bound
      simp [inside]
  refine ⟨listed,?_⟩
  intro column member
  rw [listed] at member
  obtain ⟨h,inside,rfl⟩ := List.mem_map.mp member
  have bound := List.mem_range.mp inside
  have found := List.getElem?_eq_getElem bound
  have next := offset_next sizes h _ found
  have sum := offset_le_sum sizes (h + 1)
  have head := positive _ (List.getElem_mem bound)
  have value : sizes.getD h 0 = sizes[h] := by simp [List.getD_eq_getElem?_getD,found]
  unfold Proper
  simp only [value]
  rw [toInt_ofNat _ (by omega),toInt_ofNat _ (by omega)]
  omega

theorem ids_inside (m : NGramEmbedding) (madeSizes : longs art.sizes = some m.ngramHeadsVocabSizes)
    (madeOffs : longs art.offs = some m.ngramHeadsOffsets) (row : List Long)
    (within : List.Forall₂ InColumn m.columns row) : IdsInside art row := by
  have total := saved_total c sizes shards toFloat8 projections art ran positive
  obtain ⟨listed,_⟩ := columns_proper c sizes shards toFloat8 projections art ran positive m madeSizes madeOffs
  have offs := saved_offs c sizes shards toFloat8 projections art ran
  have known : art.sizes = sizes ∧ art.heads = sizes.length := by
    obtain ⟨_,_,_,_,rfl⟩ := saved_parts sizes shards toFloat8 projections art ran
    exact ⟨rfl,rfl⟩
  obtain ⟨length,each⟩ := List.forall₂_iff_get.mp within
  have count : m.columns.length = sizes.length := by simp [listed]
  refine ⟨by omega,?_⟩
  intro h id here
  obtain ⟨bound,value⟩ := List.getElem?_eq_some_iff.mp here
  have inside : h < sizes.length := by omega
  have found := List.getElem?_eq_getElem inside
  have next := offset_next sizes h _ found
  have sum := offset_le_sum sizes (h + 1)
  refine ⟨offset sizes h,sizes[h],(offs h _).mpr ⟨inside,rfl⟩,by rw [known.1,found],?_⟩
  have column := each h (by omega) bound
  simp only [List.get_eq_getElem,listed,List.getElem_map,List.getElem_range,value] at column
  unfold InColumn at column
  have size : sizes.getD h 0 = sizes[h] := by simp [List.getD_eq_getElem?_getD,found]
  rw [size] at column
  simp only [toInt_ofNat _ (show offset sizes h < 2 ^ 63 by omega),toInt_ofNat _ (show sizes[h] < 2 ^ 63 by omega)]
    at column
  exact column

-- The runtime reads a real row at the two slots the builder added it to, inside the
-- sub-tables of its own head, and every id the model emits is a row of its column's head.
theorem addresses_agree : ∃ st, hashkLoad none art = some st ∧
    (∀ h n i, i < shardRows c sizes.sum → InHead art h (n * shardRows c sizes.sum + i) →
      n < c.splitParts ∧ ∃ a b, Accumulates c sizes shards n i (n * shardRows c sizes.sum + i) a b ∧
        Reads art st h (BitVec.ofNat 64 (n * shardRows c sizes.sum + i)) a b ∧
        InSubTable art h a ∧ InSubTable art h b) ∧
    (∀ h k a b, h ≠ k → InSubTable art h a → InSubTable art k b → a ≠ b) ∧
    ∀ (fused : FusedHash) (m : NGramEmbedding), fused.Agrees m → longs art.sizes = some m.ngramHeadsVocabSizes →
      longs art.offs = some m.ngramHeadsOffsets → ∀ cached contexts decodeSized,
      (∀ ids after, hashContexts fused m cached contexts decodeSized = some (ids,after) →
        ∀ row ∈ ids, IdsInside art row) ∧
      (Coherent m cached contexts → (∀ row ∈ contexts.rows, row ≠ []) →
        ∃ ids after, hashContexts fused m cached contexts decodeSized = some (ids,after) ∧
          ids.length = contexts.rows.length) := by
  have sum := subSizes_sum c sizes positive
  have total := saved_total c sizes shards toFloat8 projections art ran positive
  refine ⟨loaded sizes art,load_exact sizes shards toFloat8 projections art ran positive,?_,?_,?_⟩
  · intro h n i inside head
    have within := (inHead_within c sizes shards toFloat8 projections art ran h _).mp head
    have real := within_sum sizes h _ within
    have covers := rounded_covers sizes.sum c.splitParts c.partsPositive
    have part : n < c.splitParts := by
      by_contra beyond
      have past := Nat.mul_le_mul_right (shardRows c sizes.sum) (Nat.le_of_not_lt beyond)
      have covered : sizes.sum ≤ c.splitParts * shardRows c sizes.sum := covers
      omega
    have slot : ∀ sub, InSubTable art h (BitVec.ofNat 64 (slotAt c sizes sub (n * shardRows c sizes.sum + i))) := by
      intro sub
      have bound := slotAt_inside c sizes positive sub _ real
      exact inSubTable_within c sizes shards toFloat8 projections art ran h _ (by omega)
        (slotAt_within c sizes positive sub h _ within)
    exact ⟨part,_,_,accumulates_slots c sizes shards toFloat8 projections art ran positive h n i inside within part,
      reads_slots c sizes shards toFloat8 projections art ran positive h _ within,slot 0,slot 1⟩
  · intro h k a b apart first second same
    subst same
    rcases Nat.lt_or_gt_of_ne apart with less | more
    · exact absurd (inSubTable_apart c sizes shards toFloat8 projections art ran h k a a less first second)
        (Int.lt_irrefl _)
    · exact absurd (inSubTable_apart c sizes shards toFloat8 projections art ran k h a a more second first)
        (Int.lt_irrefl _)
  · intro fused m agrees madeSizes madeOffs cached contexts decodeSized
    obtain ⟨_,proper⟩ := columns_proper c sizes shards toFloat8 projections art ran positive m madeSizes madeOffs
    constructor
    · intro ids after hashed row member
      exact ids_inside c sizes shards toFloat8 projections art ran positive m madeSizes madeOffs row
        (hashContexts_within fused m agrees proper cached after contexts decodeSized ids hashed row member)
    · intro coherent filled
      obtain ⟨ids,after,hashed,length,_⟩ :=
        hashContexts_returns fused m agrees proper cached contexts decodeSized coherent filled
      exact ⟨ids,after,hashed,length⟩

end

def sampleModel : NGramEmbedding :=
  { ngramSize := 2, headsPerNgram := 2, layerMultipliers := [3,5], ngramHeadsVocabSizes := [3,2]
    ngramHeadsOffsets := [0,3], eosTokenId := 1, enablePleFusion := false
    ngramBound := by decide, multipliersLength := rfl, sizesLength := rfl, offsetsLength := rfl }

def sampleFused : FusedHash := ⟨fun _ _ => false,fun _ _ => []⟩

theorem sample_addresses : ∃ (art : Saved sampleConstants ℚ Unit) (st : HashkState sampleConstants ℚ Unit),
    saved sampleConstants (laid [3,2]) sampleShards id () = some art ∧ hashkLoad none art = some st ∧
    (∃ a b, Accumulates sampleConstants [3,2] sampleShards 1 1 4 a b ∧ Reads art st 1 4 a b) ∧
    ∃ ids after, hashContexts sampleFused sampleModel none ⟨0,[[7,9]]⟩ true = some (ids,after) ∧
      ∀ row ∈ ids, IdsInside art row := by
  have shaped : ∀ n < sampleConstants.splitParts, Shaped sampleConstants (shardRows sampleConstants [3,2].sum)
      (sampleShards n) := fun n _ => ⟨rfl,by simp [sampleShards]; decide,rfl⟩
  obtain ⟨_,_,averaged⟩ := means_found sampleConstants [3,2] sampleShards (by decide) (List.range 2)
    (List.Perm.refl _) shaped (by decide) (by decide)
  obtain ⟨art,ran⟩ : ∃ art, saved sampleConstants (laid [3,2]) sampleShards (id : ℚ → ℚ) () = some art := by
    unfold saved
    rw [show sampleConstants.splitParts = 2 from rfl,averaged]
    exact ⟨_,rfl⟩
  obtain ⟨st,loaded,rows,_,ids⟩ := addresses_agree sampleConstants [3,2] sampleShards id () art ran (by decide)
  have head : InHead art 1 (1 * shardRows sampleConstants [3,2].sum + 1) :=
    (inHead_within sampleConstants [3,2] sampleShards id () art ran 1 _).mpr ⟨2,rfl,by decide,by decide⟩
  obtain ⟨_,a,b,adds,reads,_⟩ := rows 1 1 1 (by decide) head
  obtain ⟨_,_,_,_,rfl⟩ := saved_parts [3,2] sampleShards id () art ran
  have vocab : longs [3,2] = some sampleModel.ngramHeadsVocabSizes := by decide
  have offsets : longs [0,3] = some sampleModel.ngramHeadsOffsets := by decide
  obtain ⟨inside,returns⟩ := ids sampleFused sampleModel (fun _ never => Bool.noConfusion never) vocab offsets
    none ⟨0,[[7,9]]⟩ true
  obtain ⟨emitted,after,hashed,_⟩ := returns (by intro _ never; cases never) (by decide)
  exact ⟨_,st,ran,loaded,⟨a,b,adds,reads⟩,emitted,after,hashed,inside emitted after hashed⟩

end OneSpark.HashRows
