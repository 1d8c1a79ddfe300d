import OneSpark.Grids
import OneSpark.RowChunks
import OneSpark.Tensors

namespace OneSpark.Nvfp4Rows
open Grids RowChunks Tensors

def mags : List ℚ := [0,1 / 2,1,3 / 2,2,3,4,6]

def nvfp4GetLut : List ℚ := mags ++ mags.map fun m => -m

def nvfp4GetMids : List ℚ := [1 / 4,3 / 4,5 / 4,7 / 4,5 / 2,7 / 2,5]

-- packed_out and gscale_out, torch.empty at first.
structure Packed where
  packed : Nat → Nat → UInt8
  gscale : Nat → Nat → ℚ

-- amax / 6 of a group of sixteen, and one for a group of zeros.
def groupScale (x : Nat → ℚ) : ℚ :=
  let amax := absMax 16 x
  if amax > 0 then amax / 6 else 1

def codeOf (x scale : ℚ) : UInt8 :=
  let q := x / scale
  let idx := UInt8.ofNat (bucketize nvfp4GetMids |q|)
  if q < 0 then idx + 8 else idx

-- One chunk; `round` is the conversion of the group scales.
def quantizeStep (round : ℚ → ℚ) (n : Nat) (w : Nat → Nat → ℚ) (chunkRows : Nat) (buffers : Packed) (st : Nat) : Packed :=
  let en := min (st + chunkRows) n
  let x := fun row group place => blockAt w st row (group * 16 + place)
  let scale := fun row group => groupScale (x row group)
  let code := fun row col => codeOf (x row (col / 16) (col % 16)) (scale row (col / 16))
  ⟨assignRows buffers.packed st en fun row place => code row (2 * place) ||| (code row (2 * place + 1) <<< 4),
    assignRows buffers.gscale st en fun row group => round (scale row group)⟩

def nvfp4QuantizeRows (round : ℚ → ℚ) (n d : Nat) (w : Nat → Nat → ℚ) (chunkRows : Nat) (empty : Packed) : Option Packed :=
  if chunkRows = 0 ∨ d % 16 ≠ 0 then none
  else some ((chunkStarts n chunkRows).foldl (quantizeStep round n w chunkRows) empty)

-- One row of the lookup. stack((lo, hi), dim=-1).reshape alternates the two nibbles, and the view in
-- groups of sixteen takes each group's scale.
def gatherRow (buffers : Packed) (d id : Nat) : Option (List ℚ) :=
  let p := buffers.packed id
  let lo := fun place => nvfp4GetLut[(p place &&& 0xF).toNat]?
  let hi := fun place => nvfp4GetLut[(p place >>> 4).toNat]?
  let codes := fun col => if col % 2 = 0 then lo (col / 2) else hi (col / 2)
  let gs := buffers.gscale id
  (List.range d).mapM fun col => (codes (col / 16 * 16 + col % 16)).map fun code => code * gs (col / 16)

-- `rows` and `width` are the shape of weight_packed.
def nvfp4Gather (buffers : Packed) (rows width : Nat) (ids : List Nat) : Option (List (List ℚ)) :=
  ids.mapM fun id => if id < rows then gatherRow buffers (width * 2) id else none

theorem mids_exact : nvfp4GetMids = midpoints mags := by decide +kernel

theorem mags_sorted : mags.IsChain (· < ·) := by decide +kernel

theorem nibbles (a b : UInt8) (low : a.toNat < 16) (high : b.toNat < 16) :
    (a ||| (b <<< 4)) &&& 0xF = a ∧ (a ||| (b <<< 4)) >>> 4 = b := by
  have all : ∀ i j : Fin 16, (UInt8.ofNat i ||| (UInt8.ofNat j <<< 4)) &&& 0xF = UInt8.ofNat i ∧
      (UInt8.ofNat i ||| (UInt8.ofNat j <<< 4)) >>> 4 = UInt8.ofNat j := by decide
  have parts := all ⟨a.toNat,low⟩ ⟨b.toNat,high⟩
  simpa only [UInt8.ofNat_toNat] using parts

theorem groupScale_positive (x : Nat → ℚ) : 0 < groupScale x := by
  unfold groupScale
  dsimp only
  split
  · rename_i some
    exact div_pos some (by norm_num)
  · exact one_pos

theorem lut_positive (idx : Nat) (small : idx < 8) : nvfp4GetLut[idx]? = mags[idx]? :=
  List.getElem?_append_left small

theorem lut_negative (idx : Nat) : nvfp4GetLut[idx + 8]? = mags[idx]?.map fun m => -m := by
  rw [nvfp4GetLut,List.getElem?_append_right (show mags.length ≤ idx + 8 from Nat.le_add_left _ _),
    List.getElem?_map]
  rfl

theorem zero_lowest (m : ℚ) (lowest : Lowest mags 0 m) : m = 0 := by
  have close := lowest.closest 0 (by decide +kernel)
  rw [sub_zero,abs_zero,zero_sub,abs_neg] at close
  exact abs_nonpos_iff.mp close

theorem code_number (idx : Nat) (small : idx < 8) :
    (UInt8.ofNat idx).toNat = idx ∧ (UInt8.ofNat idx + 8).toNat = idx + 8 := by
  have all : ∀ i : Fin 8, (UInt8.ofNat i).toNat = i ∧ (UInt8.ofNat i + 8).toNat = i + 8 := by decide
  exact all ⟨idx,small⟩

-- The code of an entry looks up the nearest magnitude under the entry's sign.
theorem code_reads (x scale : ℚ) (positive : 0 < scale) : (codeOf x scale).toNat < 16 ∧
    ∃ m, Lowest mags (|x| / scale) m ∧ nvfp4GetLut[(codeOf x scale).toNat]? = some (SignType.sign x * m) := by
  have size : |x / scale| = |x| / scale := by rw [abs_div,abs_of_pos positive]
  obtain ⟨m,found,lowest⟩ := bucketize_lowest mags mags_sorted (List.cons_ne_nil _ _) (|x| / scale)
  rw [← mids_exact] at found
  have small : bucketize nvfp4GetMids (|x| / scale) < 8 := Nat.lt_succ_of_le List.findIdx_le_length
  obtain ⟨plain,shifted⟩ := code_number _ small
  unfold codeOf
  dsimp only
  rw [size]
  rcases lt_trichotomy x 0 with negative | zero | more
  · rw [if_pos (div_neg_of_neg_of_pos negative positive),shifted]
    refine ⟨by omega,m,lowest,?_⟩
    rw [lut_negative,found,sign_neg negative]
    simp
  · rw [if_neg (by rw [zero,zero_div]; exact lt_irrefl 0),plain]
    refine ⟨by omega,m,lowest,?_⟩
    have none : m = 0 := zero_lowest m (by rwa [zero,abs_zero,zero_div] at lowest)
    rw [lut_positive _ small,found,none,mul_zero]
  · rw [if_neg (not_lt.mpr (le_of_lt (div_pos more positive))),plain]
    refine ⟨by omega,m,lowest,?_⟩
    rw [lut_positive _ small,found,sign_pos more]
    simp

def scaleAt (row : Nat → ℚ) (group : Nat) : ℚ := groupScale fun place => row (group * 16 + place)
def codeAt (row : Nat → ℚ) (col : Nat) : UInt8 := codeOf (row col) (scaleAt row (col / 16))
def packedRow (row : Nat → ℚ) (place : Nat) : UInt8 := codeAt row (2 * place) ||| (codeAt row (2 * place + 1) <<< 4)

-- The view in groups of sixteen and the view back leave every column its place.
theorem packed_assigned (round : ℚ → ℚ) (n : Nat) (w : Nat → Nat → ℚ) (chunkRows : Nat) (buffers : Packed) (st : Nat) :
    (quantizeStep round n w chunkRows buffers st).packed =
      assignRows buffers.packed st (min (st + chunkRows) n) fun row => packedRow (blockAt w st row) := by
  unfold quantizeStep
  simp only [Nat.div_add_mod']
  rfl

theorem quantize_rows (round : ℚ → ℚ) (n d : Nat) (w : Nat → Nat → ℚ) (chunkRows : Nat) (positive : 0 < chunkRows)
    (groups : d % 16 = 0) (empty : Packed) :
    ∃ buffers, nvfp4QuantizeRows round n d w chunkRows empty = some buffers ∧
      ∀ row < n, buffers.packed row = packedRow (w row) ∧ buffers.gscale row = fun group => round (scaleAt (w row) group) := by
  unfold nvfp4QuantizeRows
  rw [if_neg (by omega)]
  refine ⟨_,rfl,?_⟩
  intro row inside
  constructor
  · exact loop_rows n chunkRows w packedRow _ Packed.packed (packed_assigned round n w chunkRows) positive empty row inside
  · exact loop_rows n chunkRows w (fun row group => round (scaleAt row group)) _ Packed.gscale (fun _ _ => rfl) positive
      empty row inside

theorem code_small (row : Nat → ℚ) (col : Nat) : (codeAt row col).toNat < 16 :=
  (code_reads (row col) (scaleAt row (col / 16)) (groupScale_positive _)).1

-- The nibbles of a packed row come back in column order.
theorem nibble_reads (row : Nat → ℚ) (col : Nat) :
    (if col % 2 = 0 then nvfp4GetLut[(packedRow row (col / 2) &&& 0xF).toNat]?
      else nvfp4GetLut[(packedRow row (col / 2) >>> 4).toNat]?) = nvfp4GetLut[(codeAt row col).toNat]? := by
  obtain ⟨first,second⟩ := nibbles (codeAt row (2 * (col / 2))) (codeAt row (2 * (col / 2) + 1)) (code_small row _)
    (code_small row _)
  unfold packedRow
  rw [first,second]
  split
  · rw [show 2 * (col / 2) = col by omega]
  · rw [show 2 * (col / 2) + 1 = col by omega]

-- What the lookup gives a row: its entries' codes under the stored scales of their own groups.
def restored (round : ℚ → ℚ) (row : Nat → ℚ) (col : Nat) : ℚ :=
  (nvfp4GetLut[(codeAt row col).toNat]?).getD 0 * round (scaleAt row (col / 16))

theorem gatherRow_reads (round : ℚ → ℚ) (row : Nat → ℚ) (buffers : Packed) (d id : Nat)
    (bytes : buffers.packed id = packedRow row) (scales : buffers.gscale id = fun group => round (scaleAt row group)) :
    gatherRow buffers d id = some ((List.range d).map (restored round row)) := by
  unfold gatherRow
  apply mapM_found
  intro col _
  obtain ⟨_,m,_,found⟩ := code_reads (row col) (scaleAt row (col / 16)) (groupScale_positive _)
  rw [bytes,scales]
  dsimp only
  rw [Nat.div_add_mod',nibble_reads,restored,codeAt,found]
  rfl

theorem restored_exact (round : ℚ → ℚ) (row : Nat → ℚ) (col : Nat) : ∃ m, Lowest mags (|row col| / scaleAt row (col / 16)) m ∧
    restored round row col = SignType.sign (row col) * m * round (scaleAt row (col / 16)) := by
  obtain ⟨_,m,lowest,found⟩ := code_reads (row col) (scaleAt row (col / 16)) (groupScale_positive _)
  refine ⟨m,lowest,?_⟩
  rw [restored,codeAt,found,Option.getD_some]

theorem gather_rows (round : ℚ → ℚ) (n d : Nat) (w : Nat → Nat → ℚ) (groups : d % 16 = 0) (buffers : Packed)
    (rows : ∀ row < n, buffers.packed row = packedRow (w row) ∧
      buffers.gscale row = fun group => round (scaleAt (w row) group)) (ids : List Nat) (inside : ∀ id ∈ ids, id < n) :
    nvfp4Gather buffers n (d / 2) ids = some (ids.map fun id => (List.range d).map (restored round (w id))) := by
  apply mapM_found
  intro id member
  obtain ⟨bytes,scales⟩ := rows id (inside id member)
  rw [if_pos (inside id member),show d / 2 * 2 = d by omega,gatherRow_reads round (w id) buffers d id bytes scales]

-- Every looked-up row is, column by column, the sign of the entry times the nearest magnitude under
-- the unrounded scale of its group times that group's stored scale, cut as the rows may be.
theorem gathered_exactly (round : ℚ → ℚ) (n d : Nat) (w : Nat → Nat → ℚ) (chunkRows : Nat) (positive : 0 < chunkRows)
    (groups : d % 16 = 0) (empty : Packed) :
    ∃ buffers, nvfp4QuantizeRows round n d w chunkRows empty = some buffers ∧ ∀ i < n, ∃ row : List ℚ,
      nvfp4Gather buffers n (d / 2) [i] = some [row] ∧ row.length = d ∧
      (∀ j < d, ∃ m, Lowest mags (|w i j| / groupScale fun place => w i (j / 16 * 16 + place)) m ∧
        row[j]? = some (SignType.sign (w i j) * m * round (groupScale fun place => w i (j / 16 * 16 + place)))) ∧
      ∀ otherRows, 0 < otherRows → ∀ otherEmpty otherBuffers,
        nvfp4QuantizeRows round n d w otherRows otherEmpty = some otherBuffers →
          nvfp4Gather otherBuffers n (d / 2) [i] = some [row] := by
  obtain ⟨buffers,ran,rows⟩ := quantize_rows round n d w chunkRows positive groups empty
  refine ⟨buffers,ran,?_⟩
  intro i inside
  have here : ∀ id ∈ [i], id < n := fun id member => List.mem_singleton.mp member ▸ inside
  refine ⟨_,gather_rows round n d w groups buffers rows [i] here,by simp,?_,?_⟩
  · intro j within
    obtain ⟨m,lowest,value⟩ := restored_exact round (w i) j
    refine ⟨m,lowest,?_⟩
    rw [List.getElem?_map,List.getElem?_range within,Option.map_some,value]
    rfl
  · intro otherRows some_rows otherEmpty otherBuffers again
    obtain ⟨_,ran',rows'⟩ := quantize_rows round n d w otherRows some_rows groups otherEmpty
    cases ran'.symm.trans again
    exact gather_rows round n d w groups otherBuffers rows' [i] here

def sampleRows (row col : Nat) : ℚ := (col : ℚ) - 6 * row

def storeHalf (scale : ℚ) : ℚ := (2 * scale).floor / 2

theorem sample_gathered : ∃ buffers row m, nvfp4QuantizeRows storeHalf 2 16 sampleRows 1 ⟨fun _ _ => 255,fun _ _ => 7⟩ =
      some buffers ∧ nvfp4Gather buffers 2 8 [1] = some [row] ∧ Lowest mags 4 m ∧ row[0]? = some (-1 * m * (3 / 2)) := by
  obtain ⟨buffers,ran,rows⟩ := gathered_exactly storeHalf 2 16 sampleRows 1 (by decide) (by decide)
    ⟨fun _ _ => 255,fun _ _ => 7⟩
  obtain ⟨row,gathered,_,columns,_⟩ := rows 1 (by decide)
  obtain ⟨m,lowest,value⟩ := columns 0 (by decide)
  have scale : groupScale (fun place => sampleRows 1 (0 / 16 * 16 + place)) = 3 / 2 := by decide +kernel
  have entry : sampleRows 1 0 = -6 := by decide +kernel
  have stored : storeHalf (3 / 2) = 3 / 2 := by decide +kernel
  rw [scale,entry] at lowest
  rw [scale,entry,stored] at value
  refine ⟨buffers,row,m,ran,gathered,?_,value⟩
  rwa [show |(-6 : ℚ)| / (3 / 2) = 4 by decide +kernel] at lowest

end OneSpark.Nvfp4Rows
