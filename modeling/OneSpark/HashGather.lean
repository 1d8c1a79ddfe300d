import OneSpark.HashBuild

namespace OneSpark.HashGather
open Blocks Longs HashBuild

def hashkLsr (x : Long) (k : Nat) : Long := x.sshiftRight k &&& BitVec.ofNat 64 (2 ^ (64 - k) - 1)

def hashkSplitmix (x : Long) : Long :=
  let x := x + BitVec.ofInt 64 (-7046029254386353131)
  let x := (x ^^^ hashkLsr x 30) * BitVec.ofInt 64 (-4658895280553007687)
  let x := (x ^^^ hashkLsr x 27) * BitVec.ofInt 64 (-7723592293110705685)
  x ^^^ hashkLsr x 31

-- _HASHK_STATE. salts, hsalt and mulc stay Python ints.
structure HashkState (c : Constants) (F W : Type) where
  tableA : List (Fin c.half → F)
  tableB : List (Fin c.half → F)
  projections : W
  offs : List Long
  subsz : List Long
  suboff : List Long
  heads : List Long
  salts : Fin 2 → Int
  hsalt : Int
  mulc : Int
  half : Nat

variable {c : Constants} {F W : Type}

-- The state of an earlier load is kept.
def hashkLoad (state : Option (HashkState c F W)) (art : Saved c F W) : Option (HashkState c F W) :=
  match state with
  | some st => some st
  | none => do
      let offs ← longs art.offs
      let subsz ← longs art.subSizes
      let suboff ← longs art.subOffs.dropLast
      let heads ← arange 0 art.heads
      return { tableA := art.tableA, tableB := art.tableB, projections := art.projections
               offs, subsz, suboff, heads
               salts := art.salts, hsalt := art.hsalt, mulc := art.mulc, half := art.half }

-- Column h of one row of sA (sub 0) or of sB (sub 1).
def hashkSlot (st : HashkState c F W) (sub : Fin 2) (h : Nat) (id : Long) : Option Long := do
  let offs ← st.offs[h]?
  let head ← st.heads[h]?
  let subsz ← st.subsz[h]?
  let suboff ← st.suboff[h]?
  let mulc ← long st.mulc
  let salt ← long (st.salts sub)
  let hsalt ← long st.hsalt
  let localIdx := id - offs
  let hterm := head * hsalt
  let base := (localIdx + 1) * mulc
  let inside ← remainder (hashkSplitmix (base + salt + hterm)) subsz
  return suboff + inside

-- table[slot]; a negative index counts from the end.
def rowAt (table : List α) (slot : Long) : Option α :=
  if 0 ≤ slot.toInt then table[slot.toInt.toNat]?
  else if 0 ≤ slot.toInt + table.length then table[(slot.toInt + table.length).toNat]?
  else none

def hashkRead (st : HashkState c F W) (h : Nat) (id : Long) : Option ((Fin c.half → F) × (Fin c.half → F)) := do
  let sA ← hashkSlot st subA h id
  let sB ← hashkSlot st subB h id
  let a ← rowAt st.tableA sA
  let b ← rowAt st.tableB sB
  return (a,b)

def hashkReads (st : HashkState c F W) (ids : List Long) :
    Option (List ((Fin c.half → F) × (Fin c.half → F))) :=
  if ids.length = st.offs.length then
    (List.range ids.length).mapM fun h => do
      let id ← ids[h]?
      hashkRead st h id
  else none

-- One row of ids per token. The bfloat16 einsum of the rows read with W is floating-point code.
def hashkGather (einsum : W → List ((Fin c.half → F) × (Fin c.half → F)) → G) (st : HashkState c F W)
    (ids : List (List Long)) : Option (List G) := do
  let hat ← ids.mapM (hashkReads st)
  return hat.map (einsum st.projections)

theorem splitmix_same : hashkSplitmix = splitmix := rfl

theorem rowAt_nat (table : List α) (slot : Nat) (inside : slot < table.length) (fits : slot < 2 ^ 63) :
    ∃ row, rowAt table (BitVec.ofNat 64 slot) = some row ∧ table[slot]? = some row :=
  ⟨table[slot],by simp [rowAt,toInt_ofNat slot fits,inside],List.getElem?_eq_getElem inside⟩

def loaded (sizes : List Nat) (art : Saved c F W) : HashkState c F W :=
  { tableA := art.tableA, tableB := art.tableB, projections := art.projections
    offs := (List.range sizes.length).map fun h => BitVec.ofNat 64 (offset sizes h)
    subsz := (subSizes c sizes).map (BitVec.ofNat 64)
    suboff := (List.range sizes.length).map fun h => BitVec.ofNat 64 (offset (subSizes c sizes) h)
    heads := (List.range sizes.length).map (BitVec.ofNat 64)
    salts, hsalt, mulc := 2862933555777941757, half := c.half }

section
variable [Field V] [LinearOrder V] (sizes : List Nat) (shards : Nat → Weight V) (toFloat8 : V → F)
  (projections : W) (art : Saved c F W)
  (ran : saved c (laid sizes) shards toFloat8 projections = some art)
include ran

theorem saved_parts : ∃ (t : Index) (found : Means c V), (layout c (laid sizes)).index = some t ∧
    means c (laid sizes) shards (List.range c.splitParts) = some found ∧
    art = ⟨c.ratio,sizes.length,c.dim,c.half,sizes,(List.range sizes.length).map (offset sizes),subSizes c sizes,
      (List.range (sizes.length + 1)).map (offset (subSizes c sizes)),salts,hsalt,2862933555777941757,
      found.meanA.map (toFloat8 ∘ ·),found.meanB.map (toFloat8 ∘ ·),projections⟩ := by
  unfold saved at ran
  simp only [Option.bind_eq_bind,Option.bind_eq_some_iff,Option.pure_def,Option.some_inj] at ran
  obtain ⟨found,averaged,rfl⟩ := ran
  have indexed := averaged
  unfold means at indexed
  simp only [Option.bind_eq_bind,Option.bind_eq_some_iff] at indexed
  obtain ⟨t,made,_⟩ := indexed
  exact ⟨t,found,made,averaged,by rw [layout_exact,laid_exact]⟩

theorem load_exact (positive : ∀ v ∈ sizes, 0 < v) : hashkLoad none art = some (loaded sizes art) := by
  obtain ⟨t,found,made,_,rfl⟩ := saved_parts sizes shards toFloat8 projections art ran
  obtain ⟨_,total,_⟩ := (index_exact c sizes positive t).mp made
  have sum := subSizes_sum c sizes positive
  have count := List.length_le_sum_of_one_le sizes positive
  have starts : ((List.range (sizes.length + 1)).map (offset (subSizes c sizes))).dropLast =
      (List.range sizes.length).map (offset (subSizes c sizes)) := by
    rw [List.range_succ]
    simp
  unfold hashkLoad loaded
  simp only [starts]
  rw [longs_fit,longs_fit,longs_fit,arange_exact 0 _ (by omega)]
  · simp [List.range_eq_range',Function.comp_def]
  · intro value member
    obtain ⟨h,_,rfl⟩ := List.mem_map.mp member
    have bound := offset_le_sum (subSizes c sizes) h
    omega
  · intro value member
    have bound := List.le_sum_of_mem member
    omega
  · intro value member
    obtain ⟨h,_,rfl⟩ := List.mem_map.mp member
    have bound := offset_le_sum sizes h
    omega

end

section
variable (sizes : List Nat) (art : Saved c F W)

-- The runtime's address and the builder's hash_slot are one function of the local index,
-- whichever end it comes from.
theorem hashkSlot_same (sub : Fin 2) (h size : Nat) (found : sizes[h]? = some size) (id : Long) :
    hashkSlot (loaded sizes art) sub h id =
      (hashSlot (id - BitVec.ofNat 64 (offset sizes h)) (BitVec.ofNat 64 h) sub
        (BitVec.ofNat 64 ((size + c.ratio - 1) / c.ratio))).map
        (BitVec.ofNat 64 (offset (subSizes c sizes) h) + ·) := by
  obtain ⟨bound,_⟩ := List.getElem?_eq_some_iff.mp found
  have sub_found := subSizes_found c sizes h size found
  have salted : long (salts sub) = some (BitVec.ofInt 64 (salts sub)) := by
    revert sub
    decide
  have hsalted : long hsalt = some (BitVec.ofInt 64 hsalt) := by decide
  have multiplied : long 2862933555777941757 = some 2862933555777941757 := by decide
  unfold hashkSlot loaded hashSlot
  simp only [List.getElem?_map,List.getElem?_range bound,sub_found,salted,hsalted,multiplied,
    Option.map_some,Option.bind_eq_bind,Option.bind_some,splitmix_same,Option.pure_def]
  cases remainder _ _ <;> rfl

variable (positive : ∀ v ∈ sizes, 0 < v) (fits : sizes.sum < 2 ^ 63)
include positive fits

theorem hashkSlot_inside (sub : Fin 2) (h size : Nat) (found : sizes[h]? = some size) (id : Long) :
    ∃ s, hashkSlot (loaded sizes art) sub h id = some (BitVec.ofNat 64 s) ∧ Within (subSizes c sizes) h s := by
  have sub_found := subSizes_found c sizes h size found
  have member := List.mem_of_getElem? found
  have sized := subSize_bounds c size (positive size member)
  have small := List.le_sum_of_mem member
  obtain ⟨r,hashed,below,_⟩ := hashSlot_exact (id - BitVec.ofNat 64 (offset sizes h)) (BitVec.ofNat 64 h) sub
    ((size + c.ratio - 1) / c.ratio) sized.1 (by omega)
  refine ⟨offset (subSizes c sizes) h + r,?_,_,sub_found,Nat.le_add_right _ _,by omega⟩
  rw [hashkSlot_same sizes art sub h size found,hashed,BitVec.ofNat_add]
  rfl

theorem hashkSlot_real (sub : Fin 2) (h g : Nat) (within : Within sizes h g) :
    hashkSlot (loaded sizes art) sub h (BitVec.ofNat 64 g) = some (BitVec.ofNat 64 (slotAt c sizes sub g)) := by
  obtain ⟨size,found,above,below⟩ := id within
  have sub_found := subSizes_found c sizes h size found
  have member := List.mem_of_getElem? found
  have sized := subSize_bounds c size (positive size member)
  have small := List.le_sum_of_mem member
  have inside := within_sum sizes h g within
  have localIdx : (BitVec.ofNat 64 g : Long) - BitVec.ofNat 64 (offset sizes h) =
      BitVec.ofNat 64 (g - offset sizes h) := BitVec.ofNat_sub_ofNat_of_le _ _ (by omega) above
  obtain ⟨r,hashed,_,exact_r⟩ := hashSlot_exact (BitVec.ofNat 64 (g - offset sizes h)) (BitVec.ofNat 64 h) sub
    ((size + c.ratio - 1) / c.ratio) sized.1 (by omega)
  rw [hashkSlot_same sizes art sub h size found,localIdx,hashed]
  unfold slotAt
  rw [blockOf_exact sizes h g within]
  simp only [List.getD_eq_getElem?_getD,sub_found,Option.getD_some,Option.map_some]
  rw [exact_r,BitVec.ofNat_add]

end

end OneSpark.HashGather
