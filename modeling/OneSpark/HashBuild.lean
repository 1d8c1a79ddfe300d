import OneSpark.Blocks
import OneSpark.Scatter
import OneSpark.Longs

namespace OneSpark.HashBuild
open Blocks Scatter Longs

-- The module's constants and HASHK_R. main admits the ratio 4 only; nothing below uses that.
structure Constants where
  dim : Nat
  half : Nat
  splitParts : Nat
  ratio : Nat
  halves : dim = half + half
  partsPositive : 0 < splitParts
  ratioPositive : 0 < ratio

def constants : Constants := ⟨160,80,128,4,by decide,by decide,by decide⟩

def gamma : Long := BitVec.ofInt 64 (-7046029254386353131)
def m1 : Long := BitVec.ofInt 64 (-4658895280553007687)
def m2 : Long := BitVec.ofInt 64 (-7723592293110705685)
def salts : Fin 2 → Int := ![1234567891011121314,-8765432109876543211]
abbrev subA : Fin 2 := 0
abbrev subB : Fin 2 := 1
def hsalt : Int := 998244353

def lsr (x : Long) (k : Nat) : Long := x.sshiftRight k &&& BitVec.ofNat 64 (2 ^ (64 - k) - 1)

def splitmix (x : Long) : Long :=
  let x := x + gamma
  let x := (x ^^^ lsr x 30) * m1
  let x := (x ^^^ lsr x 27) * m2
  x ^^^ lsr x 31

def hashSlot (localIdx head : Long) (sub : Fin 2) (size : Long) : Option Long :=
  let x := (localIdx + 1) * 2862933555777941757 + BitVec.ofInt 64 (salts sub) + head * BitVec.ofInt 64 hsalt
  remainder (splitmix x) size

structure HeadSizes where
  sizes : List Nat
  offs : List Nat
  total : Nat

def HeadSizes.place (found : HeadSizes) (prime : Nat) : HeadSizes :=
  ⟨found.sizes ++ [prime],found.offs ++ [found.total],found.total + prime⟩

-- sympy.nextprime is not part of the repository.
def headSizes (nextprime : Nat → Nat) (ngramBase heads : Nat) : HeadSizes :=
  ((List.range heads).foldl (fun state _ =>
    let prime := nextprime state.1
    (prime,state.2.place prime)) (ngramBase - 1,⟨[],[],0⟩)).2

def laid (sizes : List Nat) : HeadSizes := sizes.foldl HeadSizes.place ⟨[],[],0⟩

structure Layout where
  heads : HeadSizes
  ss : Nat
  subSizes : List Nat
  subOffs : List Nat
  csize : Nat

def subSizes (c : Constants) (sizes : List Nat) : List Nat := sizes.map fun v => (v + c.ratio - 1) / c.ratio

def shardRows (c : Constants) (total : Nat) : Nat := (total + c.splitParts - 1) / c.splitParts

def layout (c : Constants) (heads : HeadSizes) : Layout :=
  let ss := shardRows c heads.total
  let subSizes := subSizes c heads.sizes
  let subOffs := subSizes.scanl (· + ·) 0
  ⟨heads,ss,subSizes,subOffs,subOffs.getLastD 0⟩

-- offs_t, subsz_t and suboff_t on the device.
structure Index where
  offsT : List Long
  subszT : List Long
  suboffT : List Long

def Layout.index (l : Layout) : Option Index := do
  let offsT ← inferred (l.heads.offs ++ [l.heads.total])
  let subszT ← inferred l.subSizes
  let suboffT ← inferred l.subOffs.dropLast
  return ⟨offsT,subszT,suboffT⟩

inductive DType where
  | float8e4m3fn | bfloat16 | float16 | float32
  deriving DecidableEq

-- What f.get_tensor returns, two-dimensional; its shape is (rows.length, width).
structure Weight (V : Type) where
  dtype : DType
  width : Nat
  rows : List (Fin width → V)

-- The exit on any other dtype or shape than (ss, DIM).
def checked (c : Constants) (ss : Nat) (w : Weight V) : Option (List (Fin c.dim → V)) :=
  if same : w.dtype = .float8e4m3fn ∧ w.rows.length = ss ∧ w.width = c.dim then
    some (w.rows.map fun row column => row (Fin.cast same.2.2.symm column))
  else none

-- One element of sA and of sB. Every tensor operation here is elementwise over gidx.
def rowSlots (t : Index) (g : Long) : Option (Long × Long) := do
  -- Heads are [start, end): an exact boundary belongs to the NEXT head.
  let head := bucketizeRight t.offsT.tail g
  let start ← t.offsT[head]?
  let localIdx := g - start
  let sz ← t.subszT[head]?
  let soff ← t.suboffT[head]?
  let a ← hashSlot localIdx (BitVec.ofNat 64 head) 0 sz
  let b ← hashSlot localIdx (BitVec.ofNat 64 head) 1 sz
  return (soff + a,soff + b)

structure Adds (c : Constants) (V : Type) where
  gidx : List Long
  sA : List Long
  sB : List Long
  w32 : List (Fin c.dim → V)

def shardAdds (c : Constants) (l : Layout) (t : Index) (n : Nat) (w : Weight V) : Option (Adds c V) := do
  let g0 := n * l.ss
  let w32 ← checked c l.ss w
  let gidx ← arange g0 (g0 + w.rows.length)
  let valid := gidx.map fun g => decide (g.toInt < (l.heads.total : Int))
  let gidx := compress valid gidx
  let w32 := compress valid w32
  let slots ← gidx.mapM (rowSlots t)
  return ⟨gidx,slots.map Prod.fst,slots.map Prod.snd,w32⟩

def firstHalf (c : Constants) (row : Fin c.dim → V) (column : Fin c.half) : V :=
  row ⟨column,by have halves := c.halves; omega⟩

def secondHalf (c : Constants) (row : Fin c.dim → V) (column : Fin c.half) : V :=
  row ⟨c.half + column,by have halves := c.halves; omega⟩

structure Sums (c : Constants) (V : Type) where
  sumA : List (Fin c.half → V)
  sumB : List (Fin c.half → V)
  cntA : List V
  cntB : List V

section
variable [Field V] [LinearOrder V]

def Sums.zeros (c : Constants) (csize : Nat) : Sums c V :=
  ⟨List.replicate csize 0,List.replicate csize 0,List.replicate csize 0,List.replicate csize 0⟩

def Sums.indexAdd (sums : Sums c V) (adds : Adds c V) : Option (Sums c V) := do
  let sumA ← scatterAdd sums.sumA (adds.sA.zipWith (fun s row => (s.toInt,firstHalf c row)) adds.w32)
  let sumB ← scatterAdd sums.sumB (adds.sB.zipWith (fun s row => (s.toInt,secondHalf c row)) adds.w32)
  let cntA ← scatterAdd sums.cntA (adds.sA.map fun s => (s.toInt,1))
  let cntB ← scatterAdd sums.cntB (adds.sB.map fun s => (s.toInt,1))
  return ⟨sumA,sumB,cntA,cntB⟩

def shardStep (c : Constants) (l : Layout) (t : Index) (shards : Nat → Weight V) (sums : Sums c V) (n : Nat) :
    Option (Sums c V) := do
  let adds ← shardAdds c l t n (shards n)
  sums.indexAdd adds

def shardLoop (c : Constants) (l : Layout) (t : Index) (shards : Nat → Weight V) (order : List Nat) :
    Option (Sums c V) :=
  order.foldlM (shardStep c l t shards) (Sums.zeros c l.csize)

-- sum.div_(cnt.clamp_min_(1).unsqueeze(1))
def divided (sums : List (Fin half → V)) (counts : List V) : List (Fin half → V) :=
  sums.zipWith (fun sum count column => sum column / max count 1) counts

structure Means (c : Constants) (V : Type) where
  meanA : List (Fin c.half → V)
  meanB : List (Fin c.half → V)

def means (c : Constants) (heads : HeadSizes) (shards : Nat → Weight V) (order : List Nat) :
    Option (Means c V) := do
  let l := layout c heads
  let t ← l.index
  let sums ← shardLoop c l t shards order
  return ⟨divided sums.sumA sums.cntA,divided sums.sumB sums.cntB⟩

end

-- The saved dict, its provenance apart. F is the float8 element, W the fitted projections.
structure Saved (c : Constants) (F W : Type) where
  r : Nat
  heads : Nat
  dim : Nat
  half : Nat
  sizes : List Nat
  offs : List Nat
  subSizes : List Nat
  subOffs : List Nat
  salts : Fin 2 → Int
  hsalt : Int
  mulc : Int
  tableA : List (Fin c.half → F)
  tableB : List (Fin c.half → F)
  projections : W

-- HEADS is the length of the sizes that head_sizes returns. The rounding to float8 and
-- the ridge fit are floating-point code.
def saved [Field V] [LinearOrder V] (c : Constants) (heads : HeadSizes) (shards : Nat → Weight V)
    (toFloat8 : V → F) (projections : W) : Option (Saved c F W) := do
  let found ← means c heads shards (List.range c.splitParts)
  let l := layout c heads
  return { r := c.ratio, heads := heads.sizes.length, dim := c.dim, half := c.half
           sizes := heads.sizes, offs := heads.offs, subSizes := l.subSizes, subOffs := l.subOffs
           salts, hsalt, mulc := 2862933555777941757
           tableA := found.meanA.map (toFloat8 ∘ ·), tableB := found.meanB.map (toFloat8 ∘ ·)
           projections }

theorem place_folded (sizes : List Nat) (found : HeadSizes) :
    sizes.foldl HeadSizes.place found = ⟨found.sizes ++ sizes,
      found.offs ++ (List.range sizes.length).map (fun h => found.total + offset sizes h),
      found.total + sizes.sum⟩ := by
  induction sizes generalizing found with
  | nil => simp
  | cons size rest ih =>
      rw [List.foldl_cons,ih,List.length_cons,List.range_succ_eq_map]
      simp [HeadSizes.place,Function.comp_def,Nat.add_assoc]

theorem laid_exact (sizes : List Nat) :
    laid sizes = ⟨sizes,(List.range sizes.length).map (offset sizes),sizes.sum⟩ := by
  unfold laid
  rw [place_folded]
  simp

theorem primes_placed (nextprime : Nat → Nat) (grows : ∀ n, n < nextprime n) (rounds : List Nat)
    (prime : Nat) (found : HeadSizes) :
    ∃ sizes : List Nat, (rounds.foldl (fun state _ =>
        let prime := nextprime state.1
        (prime,state.2.place prime)) (prime,found)).2 = sizes.foldl HeadSizes.place found ∧
      sizes.length = rounds.length ∧ ∀ size ∈ sizes, 0 < size := by
  induction rounds generalizing prime found with
  | nil => exact ⟨[],rfl,rfl,by simp⟩
  | cons round rest ih =>
      obtain ⟨sizes,same,length,positive⟩ := ih (nextprime prime) (found.place (nextprime prime))
      have first := Nat.lt_of_le_of_lt (Nat.zero_le prime) (grows prime)
      exact ⟨nextprime prime :: sizes,same,by simp [length],by simpa using ⟨first,positive⟩⟩

theorem headSizes_laid (nextprime : Nat → Nat) (ngramBase heads : Nat) (grows : ∀ n, n < nextprime n) :
    ∃ sizes, headSizes nextprime ngramBase heads = laid sizes ∧ sizes.length = heads ∧
      ∀ size ∈ sizes, 0 < size := by
  obtain ⟨sizes,same,length,positive⟩ :=
    primes_placed nextprime grows (List.range heads) (ngramBase - 1) ⟨[],[],0⟩
  exact ⟨sizes,same,by simpa using length,positive⟩

-- The compressed row of a global row in one sub-table: its head's sub-table starts at the
-- sum of the sub-sizes before it, and the hash of its local index picks the row inside.
def slotAt (c : Constants) (sizes : List Nat) (sub : Fin 2) (g : Nat) : Nat :=
  let head := blockOf sizes g
  let localIdx := g - offset sizes head
  let x : Long := (BitVec.ofNat 64 localIdx + 1) * 2862933555777941757 + BitVec.ofInt 64 (salts sub) +
    BitVec.ofNat 64 head * BitVec.ofInt 64 hsalt
  offset (subSizes c sizes) head + ((splitmix x).toInt.fmod ((subSizes c sizes).getD head 1)).toNat

theorem subSize_bounds (c : Constants) (v : Nat) (positive : 0 < v) :
    0 < (v + c.ratio - 1) / c.ratio ∧ (v + c.ratio - 1) / c.ratio ≤ v := by
  have ratio := c.ratioPositive
  constructor
  · exact Nat.div_pos (by omega) ratio
  · rw [Nat.div_le_iff_le_mul_add_pred ratio]
    have grown := Nat.le_mul_of_pos_left v ratio
    omega

theorem subSizes_sum (c : Constants) (sizes : List Nat) (positive : ∀ v ∈ sizes, 0 < v) :
    (subSizes c sizes).sum ≤ sizes.sum := by
  have bounded := List.sum_le_sum (l := sizes) (f := fun v => (v + c.ratio - 1) / c.ratio) (g := id)
    fun v member => (subSize_bounds c v (positive v member)).2
  simpa [subSizes] using bounded

theorem layout_exact (c : Constants) (sizes : List Nat) :
    layout c (laid sizes) = ⟨laid sizes,shardRows c sizes.sum,subSizes c sizes,
      (List.range (sizes.length + 1)).map (offset (subSizes c sizes)),(subSizes c sizes).sum⟩ := by
  have starts := scanl_offset (subSizes c sizes) 0
  have length : (subSizes c sizes).length = sizes.length := by simp [subSizes]
  have whole := offset_length (subSizes c sizes)
  rw [length] at starts whole
  simp only [Nat.zero_add] at starts
  unfold layout
  rw [laid_exact]
  simp only [starts]
  simp [List.range_succ,whole]

-- The tensors are made exactly when there is a head and every row number is an int64.
theorem index_exact (c : Constants) (sizes : List Nat) (positive : ∀ v ∈ sizes, 0 < v) (t : Index) :
    (layout c (laid sizes)).index = some t ↔ sizes ≠ [] ∧ sizes.sum < 2 ^ 63 ∧
      t.offsT = (List.range (sizes.length + 1)).map (fun h => BitVec.ofNat 64 (offset sizes h)) ∧
      t.subszT = (subSizes c sizes).map (BitVec.ofNat 64) ∧
      t.suboffT = (List.range sizes.length).map (fun h => BitVec.ofNat 64 (offset (subSizes c sizes) h)) := by
  have boundaries : (laid sizes).offs ++ [(laid sizes).total] =
      (List.range (sizes.length + 1)).map (offset sizes) := by
    rw [laid_exact,List.range_succ]
    simp [offset_length]
  have starts : (layout c (laid sizes)).subOffs.dropLast =
      (List.range sizes.length).map (offset (subSizes c sizes)) := by
    rw [layout_exact,List.range_succ]
    simp
  have sizesLe : ∀ size ∈ subSizes c sizes, size ≤ sizes.sum := fun size member =>
    Nat.le_trans (List.le_sum_of_mem member) (subSizes_sum c sizes positive)
  unfold Layout.index
  rw [starts]
  simp only [layout_exact c sizes]
  rw [boundaries]
  constructor
  · intro made
    simp only [Option.bind_eq_bind,Option.bind_eq_some_iff,Option.pure_def,Option.some_inj] at made
    obtain ⟨offsT,first,subszT,second,suboffT,third,rfl⟩ := made
    obtain ⟨_,rfl,fit⟩ := inferred_parts _ _ first
    obtain ⟨filled,rfl,_⟩ := inferred_parts _ _ second
    obtain ⟨_,rfl,_⟩ := inferred_parts _ _ third
    have total := fit (offset sizes sizes.length) (List.mem_map_of_mem (by simp))
    rw [offset_length] at total
    exact ⟨by simpa [subSizes] using filled,total,by simp [Function.comp_def],rfl,by simp [Function.comp_def]⟩
  · intro ⟨filled,total,offsT,subszT,suboffT⟩
    have some_head : sizes.length ≠ 0 := by simpa using filled
    rw [inferred_fit _ (by simp),inferred_fit _ (by simpa [subSizes] using filled),
      inferred_fit _ (by simpa using some_head)]
    · simp only [Option.bind_eq_bind,Option.bind_some,Option.pure_def,Option.some_inj]
      cases t
      simp only at offsT subszT suboffT
      simp [offsT,subszT,suboffT,Function.comp_def]
    · intro value member
      obtain ⟨h,_,rfl⟩ := List.mem_map.mp member
      have bound := offset_le_sum (subSizes c sizes) h
      have sum := subSizes_sum c sizes positive
      omega
    · intro value member
      have bound := sizesLe value member
      omega
    · intro value member
      obtain ⟨h,_,rfl⟩ := List.mem_map.mp member
      have bound := offset_le_sum sizes h
      omega

theorem hashSlot_exact (localIdx head : Long) (sub : Fin 2) (size : Nat) (positive : 0 < size)
    (fits : size < 2 ^ 63) :
    ∃ r : Nat, hashSlot localIdx head sub (BitVec.ofNat 64 size) = some (BitVec.ofNat 64 r) ∧ r < size ∧
      r = ((splitmix ((localIdx + 1) * 2862933555777941757 + BitVec.ofInt 64 (salts sub) +
        head * BitVec.ofInt 64 hsalt)).toInt.fmod size).toNat := by
  have value := toInt_ofNat size fits
  obtain ⟨r,made,exact,low,high⟩ := remainder_bounds (splitmix ((localIdx + 1) * 2862933555777941757 +
    BitVec.ofInt 64 (salts sub) + head * BitVec.ofInt 64 hsalt)) (BitVec.ofNat 64 size) (by omega)
  rw [value] at exact high
  have whole : BitVec.ofNat 64 r.toInt.toNat = r := by
    rw [← BitVec.ofInt_natCast,Int.toNat_of_nonneg low,BitVec.ofInt_toInt]
  exact ⟨r.toInt.toNat,by rw [whole]; exact made,by omega,by rw [exact]⟩

section
variable (c : Constants) (sizes : List Nat) (positive : ∀ v ∈ sizes, 0 < v)

theorem subSizes_found (h size : Nat) (found : sizes[h]? = some size) :
    (subSizes c sizes)[h]? = some ((size + c.ratio - 1) / c.ratio) := by simp [subSizes,found]

include positive in
theorem slotAt_within (sub : Fin 2) (h g : Nat) (within : Within sizes h g) :
    Within (subSizes c sizes) h (slotAt c sizes sub g) := by
  obtain ⟨size,found,_,_⟩ := id within
  have bounds := subSize_bounds c size (positive size (List.mem_of_getElem? found))
  have sub_found := subSizes_found c sizes h size found
  unfold slotAt
  rw [blockOf_exact sizes h g within]
  simp only [List.getD_eq_getElem?_getD,sub_found,Option.getD_some]
  refine ⟨_,sub_found,Nat.le_add_right _ _,?_⟩
  have high := Int.fmod_lt_of_pos (splitmix ((BitVec.ofNat 64 (g - offset sizes h) + 1) * 2862933555777941757 +
    BitVec.ofInt 64 (salts sub) + BitVec.ofNat 64 h * BitVec.ofInt 64 hsalt)).toInt
    (Int.natCast_pos.mpr bounds.1)
  omega

include positive in
theorem rowSlots_exact (t : Index) (made : (layout c (laid sizes)).index = some t) (h g : Nat)
    (within : Within sizes h g) :
    rowSlots t (BitVec.ofNat 64 g) =
      some (BitVec.ofNat 64 (slotAt c sizes 0 g),BitVec.ofNat 64 (slotAt c sizes 1 g)) := by
  obtain ⟨_,fits,offsT,subszT,suboffT⟩ := (index_exact c sizes positive t).mp made
  obtain ⟨size,found,above,below⟩ := id within
  obtain ⟨bound,_⟩ := List.getElem?_eq_some_iff.mp found
  have inside := within_sum sizes h g within
  have head : bucketizeRight t.offsT.tail (BitVec.ofNat 64 g) = h := by
    have ends : t.offsT.tail = ((List.range sizes.length).map fun k => offset sizes (k + 1)).map
        (BitVec.ofNat 64) := by
      rw [offsT,List.range_succ_eq_map]
      simp [Function.comp_def]
    rw [ends,bucketizeRight_exact _ g _ (by omega),ends_reached sizes h g within]
    intro stop member
    obtain ⟨k,_,rfl⟩ := List.mem_map.mp member
    have low := offset_le_sum sizes (k + 1)
    omega
  have start : t.offsT[h]? = some (BitVec.ofNat 64 (offset sizes h)) := by
    rw [offsT]
    simp [Nat.lt_succ_of_lt bound]
  have sub_found := subSizes_found c sizes h size found
  have sz : t.subszT[h]? = some (BitVec.ofNat 64 ((size + c.ratio - 1) / c.ratio)) := by
    rw [subszT]
    simp [sub_found]
  have soff : t.suboffT[h]? = some (BitVec.ofNat 64 (offset (subSizes c sizes) h)) := by
    rw [suboffT]
    simp [bound]
  have sized := subSize_bounds c size (positive size (List.mem_of_getElem? found))
  have small := List.le_sum_of_mem (List.mem_of_getElem? found)
  have localIdx : (BitVec.ofNat 64 g : Long) - BitVec.ofNat 64 (offset sizes h) =
      BitVec.ofNat 64 (g - offset sizes h) := by
    rw [BitVec.ofNat_sub_ofNat_of_le _ _ (by omega) above]
  obtain ⟨a,hashA,_,exactA⟩ := hashSlot_exact (BitVec.ofNat 64 (g - offset sizes h)) (BitVec.ofNat 64 h) 0
    ((size + c.ratio - 1) / c.ratio) sized.1 (by omega)
  obtain ⟨b,hashB,_,exactB⟩ := hashSlot_exact (BitVec.ofNat 64 (g - offset sizes h)) (BitVec.ofNat 64 h) 1
    ((size + c.ratio - 1) / c.ratio) sized.1 (by omega)
  unfold rowSlots slotAt
  rw [blockOf_exact sizes h g within]
  simp only [head,start,sz,soff,localIdx,hashA,hashB,Option.bind_eq_bind,Option.bind_some,Option.pure_def,
    List.getD_eq_getElem?_getD,sub_found,Option.getD_some]
  rw [exactA,exactB,BitVec.ofNat_add,BitVec.ofNat_add]
end

end OneSpark.HashBuild
