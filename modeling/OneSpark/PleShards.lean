import OneSpark.RowWrites
import OneSpark.GraphLayout
import OneSpark.HashBuild
import OneSpark.Nvfp4Rows
import OneSpark.TextEdits

namespace OneSpark.PleShards
open Blocks RowChunks RowWrites RingSlots GraphLayout HashBuild Nvfp4Rows TextEdits

def marker : List Char := ".ngram_embedding.shard_".toList

def number (digits : List Char) : Nat := digits.foldl (fun n c => 10 * n + (c.toNat - 48)) 0

-- \.ngram_embedding\.shard_(\d+)\.weight$ at the front; $ also stands before a last newline.
def matchShard (name : List Char) : Option Nat :=
  let rest := name.drop marker.length
  let digits := rest.takeWhile Char.isDigit
  let ending := rest.dropWhile Char.isDigit
  if marker.isPrefixOf name ∧ digits ≠ [] ∧ (ending = ".weight".toList ∨ ending = ".weight\n".toList) then
    some (number digits)
  else none

-- re.search
def searchShard : List Char → Option Nat
  | [] => none
  | c :: rest => (matchShard (c :: rest)).orElse fun _ => searchShard rest

-- name[: name.index(marker)]
def modPrefix : List Char → List Char
  | [] => []
  | c :: rest => if marker.isPrefixOf (c :: rest) then [] else c :: modPrefix rest

-- What the embedding keeps its rows in: no table of its own, the packed buffers, or its weight.
inductive Storage where
  | hashk
  | packed (weightPacked : Tensor UInt8) (weightGscale : Tensor ℚ)
  | raw (dtype : DType) (weight : Tensor ℚ)

-- tpStart and tpEnd are shard_indices.org_vocab_start_index and org_vocab_end_index.
structure Embedding where
  orgVocabSize : Nat
  tpStart : Nat
  tpEnd : Nat
  pinnedHost : Bool
  storage : Storage

structure Loader where
  pleModules : List Char → Option Embedding
  pleNumSyncShards : Nat
  paramsDict : List (List Char)
  loadedShardParams : List (List Char)

-- One pair of the weights, and what the torch.empty tensors of its load happen to hold.
structure Call where
  name : List Char
  weight : Weight ℚ
  empty : Packed
  emptyLike : Nat → Nat → ℚ

def entryAt (w : Weight ℚ) (row col : Nat) : ℚ :=
  if inside : col < w.width then (w.rows[row]?.getD fun _ => 0) ⟨col,inside⟩ else 0

-- w[start:start + count]
def slice (w : Weight ℚ) (start count : Nat) : Weight ℚ := { w with rows := (w.rows.drop start).take count }

-- .to(dtype=...); `convert` rounds to a type.
def toDType (convert : DType → ℚ → ℚ) (source target : DType) (x : ℚ) : ℚ := if source = target then x else convert target x

def paddedVocabSize (totalVocabSize divisibleBy : Nat) : Nat := (totalVocabSize + divisibleBy - 1) / divisibleBy * divisibleBy

def nvfp4ConvertEmbedding (emb : Embedding) : Embedding :=
  match emb.storage with
  | .raw _ w => { emb with storage := .packed ⟨w.rows,w.width / 2,fun _ _ => 0,[]⟩ ⟨w.rows,w.width / 16,fun _ _ => 0,[]⟩ }
  | _ => emb

section
variable (convert : DType → ℚ → ℚ)

def copyPleRowsToTpEmbedding (emb : Embedding) (dtype : DType) (weight : Tensor ℚ) (loadedWeight : Weight ℚ)
    (rowStart rowEnd : Nat) : Option (Tensor ℚ) :=
  let ovStart := max rowStart emb.tpStart
  let ovEnd := min rowEnd emb.tpEnd
  if ovStart < ovEnd then
    let localStart := ovStart - emb.tpStart
    let srcStart := ovStart - rowStart
    let nRows := ovEnd - ovStart
    let taken := slice loadedWeight srcStart nRows
    weight.copyRows localStart nRows taken.rows.length taken.width fun row col =>
      toDType convert taken.dtype dtype (entryAt taken row col)
  else some weight

def packPleRows (emb : Embedding) (weightPacked : Tensor UInt8) (weightGscale : Tensor ℚ) (loadedWeight : Weight ℚ)
    (empty : Packed) (shardIdx shardSize : Nat) : Option (Tensor UInt8 × Tensor ℚ) :=
  let rowStart := shardIdx * shardSize
  let rowEnd := rowStart + loadedWeight.rows.length
  let ovStart := max rowStart emb.tpStart
  let ovEnd := min rowEnd emb.tpEnd
  if ovStart < ovEnd then do
    let localStart := ovStart - emb.tpStart
    let srcStart := ovStart - rowStart
    let nRows := ovEnd - ovStart
    let taken := slice loadedWeight srcStart nRows
    let out ← nvfp4QuantizeRows (convert .float8e4m3fn) taken.rows.length taken.width (entryAt taken) 262144 empty
    let pk ← weightPacked.copyRows localStart nRows taken.rows.length (taken.width / 2) out.packed
    let gs ← weightGscale.copyRows localStart nRows taken.rows.length (taken.width / 16) out.gscale
    return (pk,gs)
  else some (weightPacked,weightGscale)

def zeroDivision : Refusal := .zeroDivision "integer division or modulo by zero"

-- ceil(org_vocab_size / ple_num_sync_shards)
def shardSize (orgVocabSize pleNumSyncShards : Nat) : Except Refusal Nat :=
  if pleNumSyncShards = 0 then .error zeroDivision
  else .ok ((orgVocabSize + pleNumSyncShards - 1) / pleNumSyncShards)

def pinnedRefusal : Refusal := .value ("fp8 PLE auto-switch is unsupported with ple_offload_embedding; set " ++
  "text_config.ple_embedding_dtype=\"float8_e4m3fn\" instead")

-- fp8 shards on another storage type: a fresh fp8 tensor takes the place of the weight.
def autoSwitch (emb : Embedding) (call : Call) (dtype : DType) (weight : Tensor ℚ) : Except Refusal (DType × Tensor ℚ) :=
  if call.weight.dtype = .float8e4m3fn ∧ dtype ≠ .float8e4m3fn then
    if emb.pinnedHost then .error pinnedRefusal
    else .ok (.float8e4m3fn,⟨weight.rows,weight.width,call.emptyLike,[]⟩)
  else .ok (dtype,weight)

def loadRows (pleNumSyncShards : Nat) (emb : Embedding) (call : Call) (shardIdx : Nat) : Storage → Except Refusal Storage
  | .hashk => .ok .hashk
  | .packed weightPacked weightGscale => do
      let size ← shardSize emb.orgVocabSize pleNumSyncShards
      let filled ← shaped (packPleRows convert emb weightPacked weightGscale call.weight call.empty shardIdx size)
      return .packed filled.1 filled.2
  | .raw dtype weight => do
      let switched ← autoSwitch emb call dtype weight
      let size ← shardSize emb.orgVocabSize pleNumSyncShards
      let shardStart := shardIdx * size
      let actualRows := call.weight.rows.length
      let shardEnd := shardStart + actualRows
      let filled ← shaped (copyPleRowsToTpEmbedding convert emb switched.1 switched.2 call.weight shardStart shardEnd)
      return .raw switched.1 filled

-- params_dict.pop when the storage type changes.
def popped (before after : Storage) (weightName : List Char) (paramsDict : List (List Char)) : List (List Char) :=
  match before,after with
  | .raw old _,.raw new _ => if old = new then paramsDict else paramsDict.filter fun name => decide (name ≠ weightName)
  | _,_ => paramsDict

def loadQwen4ExpPleShard (loader : Loader) (call : Call) : Except Refusal (Bool × Loader) :=
  if !contains marker call.name then .ok (false,loader)
  else match searchShard call.name with
  | none => .ok (false,loader)
  | some shardIdx =>
    match loader.pleModules (modPrefix call.name) with
    | none => .ok (false,loader)
    | some emb => do
      let weightName := modPrefix call.name ++ ".ngram_embedding.weight".toList
      let storage ← loadRows convert loader.pleNumSyncShards emb call shardIdx emb.storage
      return (true,{ loader with
        pleModules := Function.update loader.pleModules (modPrefix call.name) (some { emb with storage := storage })
        paramsDict := popped emb.storage storage weightName loader.paramsDict
        loadedShardParams := loader.loadedShardParams.insert weightName })

-- The loop of load_weights over these weights.
def loadShards (loader : Loader) (calls : List Call) : Except Refusal Loader :=
  calls.foldlM (fun loader call => do return (← loadQwen4ExpPleShard convert loader call).2) loader

end

theorem slice_length (w : Weight ℚ) (start count : Nat) (fits : start + count ≤ w.rows.length) :
    (slice w start count).rows.length = count := by
  rw [slice,List.length_take,List.length_drop]
  omega

theorem slice_entry (w : Weight ℚ) (start count row : Nat) (inside : row < count) :
    entryAt (slice w start count) row = entryAt w (start + row) := by
  have read : ((w.rows.drop start).take count)[row]? = w.rows[start + row]? := by
    rw [List.getElem?_take,if_pos inside,List.getElem?_drop]
  unfold entryAt slice
  dsimp only
  rw [read]

def tableRow (weights : Nat → Weight ℚ) (size low row : Nat) : Nat → ℚ :=
  entryAt (weights ((low + row) / size)) ((low + row) % size)

section
variable (convert : DType → ℚ → ℚ) (emb : Embedding) (weights : Nat → Weight ℚ) (size n : Nat)
    (short : (weights n).rows.length ≤ size)
include short

theorem part_rows (localStart srcStart nRows : Nat) (aligned : emb.tpStart + localStart = n * size + srcStart)
    (fits : srcStart + nRows ≤ (weights n).rows.length) : (slice (weights n) srcStart nRows).rows.length = nRows ∧
    ∀ row < nRows, entryAt (slice (weights n) srcStart nRows) row = tableRow weights size emb.tpStart (localStart + row) := by
  refine ⟨slice_length _ _ _ fits,?_⟩
  intro row inside
  obtain ⟨quotient,rest⟩ := Tensors.place_parts n size (srcStart + row) (by omega)
  rw [slice_entry _ _ _ _ inside,tableRow,← Nat.add_assoc,aligned,Nat.add_assoc,quotient,rest]

theorem copy_filled (dtype t : DType) (weight : Tensor ℚ) (typed : (weights n).dtype = t)
    (wide : (weights n).width = weight.width) (room : emb.tpEnd - emb.tpStart ≤ weight.rows) :
    ∃ after, copyPleRowsToTpEmbedding convert emb dtype weight (weights n) (n * size) (n * size + (weights n).rows.length) =
      some after ∧ Filled (fun row col => toDType convert t dtype (tableRow weights size emb.tpStart row col)) weight after
        (overlap (n * size) (n * size + (weights n).rows.length) emb.tpStart emb.tpEnd) := by
  unfold copyPleRowsToTpEmbedding overlap
  dsimp only
  split
  · obtain ⟨length,same⟩ := part_rows emb weights size n short (max (n * size) emb.tpStart - emb.tpStart)
      (max (n * size) emb.tpStart - n * size)
      (min (n * size + (weights n).rows.length) emb.tpEnd - max (n * size) emb.tpStart) (by omega) (by omega)
    rw [length]
    refine copyRows_filled weight _ _ wide _ _ (by omega) ?_
    intro row inside col _
    rw [same row inside,← typed]
    rfl
  · exact ⟨weight,rfl,Filled.refl _ _⟩

theorem pack_part (weightPacked : Tensor UInt8) (weightGscale : Tensor ℚ) (empty : Packed) (groups : (weights n).width % 16 = 0)
    (bytes : (weights n).width / 2 = weightPacked.width) (scales : (weights n).width / 16 = weightGscale.width)
    (localStart srcStart nRows : Nat) (aligned : emb.tpStart + localStart = n * size + srcStart)
    (fits : srcStart + nRows ≤ (weights n).rows.length) (room : localStart + nRows ≤ weightPacked.rows)
    (roomScales : localStart + nRows ≤ weightGscale.rows) :
    ∃ out pk gs, nvfp4QuantizeRows (convert .float8e4m3fn) nRows (weights n).width
        (entryAt (slice (weights n) srcStart nRows)) 262144 empty = some out ∧
      weightPacked.copyRows localStart nRows nRows ((weights n).width / 2) out.packed = some pk ∧
      weightGscale.copyRows localStart nRows nRows ((weights n).width / 16) out.gscale = some gs ∧
      Filled (fun row => packedRow (tableRow weights size emb.tpStart row)) weightPacked pk [(localStart,nRows)] ∧
      Filled (fun row group => convert .float8e4m3fn (scaleAt (tableRow weights size emb.tpStart row) group)) weightGscale gs
        [(localStart,nRows)] := by
  obtain ⟨_,same⟩ := part_rows emb weights size n short localStart srcStart nRows aligned fits
  obtain ⟨out,ran,rows⟩ := quantize_rows (convert .float8e4m3fn) nRows (weights n).width
    (entryAt (slice (weights n) srcStart nRows)) 262144 (by norm_num) groups empty
  obtain ⟨pk,wrote,filled⟩ := copyRows_filled weightPacked localStart nRows bytes out.packed
    (fun row => packedRow (tableRow weights size emb.tpStart row)) room
    (fun row inside col _ => by rw [(rows row inside).1,same row inside])
  obtain ⟨gs,wroteScales,filledScales⟩ := copyRows_filled weightGscale localStart nRows scales out.gscale
    (fun row group => convert .float8e4m3fn (scaleAt (tableRow weights size emb.tpStart row) group)) roomScales
    (fun row inside col _ => by rw [(rows row inside).2,same row inside])
  exact ⟨out,pk,gs,ran,wrote,wroteScales,filled,filledScales⟩

theorem pack_filled (weightPacked : Tensor UInt8) (weightGscale : Tensor ℚ) (empty : Packed) (groups : (weights n).width % 16 = 0)
    (bytes : (weights n).width / 2 = weightPacked.width) (scales : (weights n).width / 16 = weightGscale.width)
    (room : emb.tpEnd - emb.tpStart ≤ weightPacked.rows) (roomScales : emb.tpEnd - emb.tpStart ≤ weightGscale.rows) :
    ∃ pk gs, packPleRows convert emb weightPacked weightGscale (weights n) empty n size = some (pk,gs) ∧
      Filled (fun row => packedRow (tableRow weights size emb.tpStart row)) weightPacked pk
        (overlap (n * size) (n * size + (weights n).rows.length) emb.tpStart emb.tpEnd) ∧
      Filled (fun row group => convert .float8e4m3fn (scaleAt (tableRow weights size emb.tpStart row) group)) weightGscale gs
        (overlap (n * size) (n * size + (weights n).rows.length) emb.tpStart emb.tpEnd) := by
  unfold packPleRows overlap
  dsimp only
  split
  · have fits : max (n * size) emb.tpStart - n * size +
        (min (n * size + (weights n).rows.length) emb.tpEnd - max (n * size) emb.tpStart) ≤ (weights n).rows.length := by omega
    obtain ⟨out,pk,gs,ran,wrote,wroteScales,filled,filledScales⟩ := pack_part convert emb weights size n short weightPacked
      weightGscale empty groups bytes scales (max (n * size) emb.tpStart - emb.tpStart) _ _ (by omega) fits (by omega)
      (by omega)
    refine ⟨pk,gs,?_,filled,filledScales⟩
    change (nvfp4QuantizeRows (convert .float8e4m3fn) _ (weights n).width _ _ _).bind (fun out =>
      (weightPacked.copyRows _ _ _ ((weights n).width / 2) out.packed).bind fun pk =>
        (weightGscale.copyRows _ _ _ ((weights n).width / 16) out.gscale).bind fun gs => some (pk,gs)) = _
    rw [slice_length _ _ _ fits,ran,Option.bind_some,wrote,Option.bind_some,wroteScales,Option.bind_some]
  · exact ⟨weightPacked,weightGscale,rfl,Filled.refl _ _,Filled.refl _ _⟩

end

end OneSpark.PleShards
