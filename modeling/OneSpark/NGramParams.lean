import OneSpark.GraphLayout
import OneSpark.HashRows
import OneSpark.NGramRuns
import OneSpark.SplitMix

namespace OneSpark.NGramParams
open Blocks Longs GraphLayout HashBuild HashRows NGramIds NGramReference NGramRuns SplitMix

-- What Qwen4ExpNGramEmbedding.__init__ reads of the config.
structure NGramConfig where
  ngramSize : Int
  headsPerNgram : Int
  vocabSize : Int
  ngramVocabSizeBase : Int
  makeNgramVocabSizeDivisibleBy : Int
  eosTokenId : Long
  seed : Option Int

inductive Failure where
  | value (text : String)
  | zeroDivision
  -- torch.tensor(values, dtype=torch.long) on a value that is no int64
  | overflow
  deriving DecidableEq

def prime1 : Nat := 10007

-- One value of _build_layer_multipliers; `& _MASK64` is the remainder by 2^64.
def multiplier (seed : Int) (pleLayerIndex : Nat) (unigramVocabSize : Int) (idx : Nat) : Nat :=
  let maxLong := 2 ^ 63 - 1
  let mMax := maxLong / (max unigramVocabSize 1).toNat
  let halfBound := max 1 (mMax / 2)
  let baseSeed := seed + prime1 * pleLayerIndex
  let x0 := (baseSeed + splitmixGamma * (idx + 1)) % 2 ^ 64
  let mixed := splitmix64 x0.toNat
  2 * (mixed % halfBound) + 1

def buildLayerMultipliers (seed : Option Int) (pleLayerIndex : Nat) (unigramVocabSize : Int) (size : Nat) : List Nat :=
  (List.range size).map (multiplier (seed.getD 1234) pleLayerIndex unigramVocabSize)

structure Buffers where
  layerMultipliers : List Long
  ngramHeadsVocabSizes : List Long
  ngramHeadsOffsets : List Long
  paddedVocabSize : Int

def tensor (values : List Nat) : Except Failure (List Long) := (longs values).elim (.error .overflow) .ok

def paddedVocab (total : Nat) (divisor : Int) : Except Failure Int :=
  if divisor = 0 then .error .zeroDivision else .ok ((total + divisor - 1).fdiv divisor * divisor)

def heads (nextprime : Nat → Nat) (config : NGramConfig) (pleLayerIndex : Nat) : HeadSizes :=
  buildHeadVocabAndOffsets nextprime config.ngramVocabSizeBase.toNat pleLayerIndex
    ((config.ngramSize - 1) * config.headsPerNgram).toNat

def makeBuffers (nextprime : Nat → Nat) (config : NGramConfig) (pleLayerIndex : Nat) : Except Failure Buffers := do
  let layerMultipliers ← tensor (buildLayerMultipliers config.seed pleLayerIndex config.vocabSize config.ngramSize.toNat)
  let sizes ← tensor (heads nextprime config pleLayerIndex).sizes
  let offsets ← tensor (heads nextprime config pleLayerIndex).offs
  let padded ← paddedVocab (heads nextprime config pleLayerIndex).total config.makeNgramVocabSizeDivisibleBy
  return ⟨layerMultipliers,sizes,offsets,padded⟩

-- The checks of __init__ in their order.
def buffers (nextprime : Nat → Nat) (config : NGramConfig) (embeddingDim : Int) (pleLayerIndex : Nat) :
    Except Failure Buffers :=
  let ngramSize := config.ngramSize
  let headsPerNgram := config.headsPerNgram
  let ngramHeads := (ngramSize - 1) * headsPerNgram
  if ngramSize < 2 then .error (.value s!"ngram_size must be >= 2, got {ngramSize}")
  else if headsPerNgram ≤ 0 then .error (.value s!"heads_per_ngram must be > 0, got {headsPerNgram}")
  else if embeddingDim % ngramHeads ≠ 0 then
    .error (.value s!"ple_embed_dim must be divisible by total ngram heads: {embeddingDim} % {ngramHeads} != 0")
  else if config.ngramVocabSizeBase ≤ 0 then .error (.value "ngram_vocab_size_base must be > 0")
  else makeBuffers nextprime config pleLayerIndex

def headPrimes (nextprime : Nat → Nat) (base pleLayerIndex count : Nat) : List Nat :=
  (List.range count).map fun headIdx => findNthPrimeAfter nextprime (base - 1) (pleLayerIndex * count + headIdx + 1)

theorem heads_laid (nextprime : Nat → Nat) (base pleLayerIndex count : Nat) :
    buildHeadVocabAndOffsets nextprime base pleLayerIndex count =
      ⟨headPrimes nextprime base pleLayerIndex count,
        (List.range count).map (offset (headPrimes nextprime base pleLayerIndex count)),
        (headPrimes nextprime base pleLayerIndex count).sum⟩ := by
  have folded : buildHeadVocabAndOffsets nextprime base pleLayerIndex count =
      laid (headPrimes nextprime base pleLayerIndex count) := by
    rw [laid,headPrimes,List.foldl_map]
    rfl
  have length : (headPrimes nextprime base pleLayerIndex count).length = count := by simp [headPrimes]
  rw [folded,laid_exact,length]

theorem heads_parts (nextprime : Nat → Nat) (config : NGramConfig) (pleLayerIndex : Nat) :
    (heads nextprime config pleLayerIndex).total = (heads nextprime config pleLayerIndex).sizes.sum ∧
    (heads nextprime config pleLayerIndex).offs = (List.range ((config.ngramSize - 1) * config.headsPerNgram).toNat).map
      (offset (heads nextprime config pleLayerIndex).sizes) ∧
    (heads nextprime config pleLayerIndex).sizes.length = ((config.ngramSize - 1) * config.headsPerNgram).toNat := by
  unfold heads
  rw [heads_laid]
  exact ⟨rfl,rfl,by simp [headPrimes]⟩

theorem tensor_parts {values : List Nat} {made : List Long} (ran : tensor values = .ok made) :
    made = values.map (BitVec.ofNat 64) ∧ ∀ value ∈ values, value < 2 ^ 63 := by
  unfold tensor at ran
  cases found : longs values with
  | none =>
      rw [found] at ran
      cases ran
  | some elements =>
      rw [found] at ran
      cases ran
      exact longs_parts values _ found

structure Built (nextprime : Nat → Nat) (config : NGramConfig) (pleLayerIndex : Nat) (b : Buffers) : Prop where
  ngram : 2 ≤ config.ngramSize
  perNgram : 0 < config.headsPerNgram
  base : 0 < config.ngramVocabSizeBase
  multipliers : b.layerMultipliers = (buildLayerMultipliers config.seed pleLayerIndex config.vocabSize
    config.ngramSize.toNat).map (BitVec.ofNat 64)
  sizes : b.ngramHeadsVocabSizes = (heads nextprime config pleLayerIndex).sizes.map (BitVec.ofNat 64)
  offsets : b.ngramHeadsOffsets = (heads nextprime config pleLayerIndex).offs.map (BitVec.ofNat 64)

theorem buffers_built {nextprime : Nat → Nat} {config : NGramConfig} {embeddingDim : Int} {pleLayerIndex : Nat}
    {b : Buffers} (ran : buffers nextprime config embeddingDim pleLayerIndex = .ok b) :
    Built nextprime config pleLayerIndex b ∧
      paddedVocab (heads nextprime config pleLayerIndex).total config.makeNgramVocabSizeDivisibleBy = .ok b.paddedVocabSize := by
  unfold buffers at ran
  dsimp only at ran
  split at ran
  · cases ran
  · rename_i ngram
    split at ran
    · cases ran
    · rename_i perNgram
      split at ran
      · cases ran
      · split at ran
        · cases ran
        · rename_i base
          obtain ⟨multipliers,first,ran⟩ := bind_ok ran
          obtain ⟨sizes,second,ran⟩ := bind_ok ran
          obtain ⟨offsets,third,ran⟩ := bind_ok ran
          obtain ⟨padded,covered,ran⟩ := bind_ok ran
          cases ran
          exact ⟨⟨not_lt.mp ngram,not_le.mp perNgram,not_le.mp base,(tensor_parts first).1,(tensor_parts second).1,
            (tensor_parts third).1⟩,covered⟩

theorem heads_count {config : NGramConfig} (ngram : 2 ≤ config.ngramSize) (perNgram : 0 < config.headsPerNgram) :
    ((config.ngramSize - 1) * config.headsPerNgram).toNat = (config.ngramSize.toNat - 1) * config.headsPerNgram.toNat := by
  have size : config.ngramSize - 1 = ((config.ngramSize.toNat - 1 : Nat) : Int) := by omega
  have per : config.headsPerNgram = (config.headsPerNgram.toNat : Int) := (Int.toNat_of_nonneg perNgram.le).symm
  rw [size,per,← Nat.cast_mul,Int.toNat_natCast,Int.toNat_natCast]

theorem Built.ngramBound {nextprime : Nat → Nat} {config : NGramConfig} {pleLayerIndex : Nat} {b : Buffers}
    (built : Built nextprime config pleLayerIndex b) : 2 ≤ config.ngramSize.toNat := by
  have ngram := built.ngram
  omega

theorem Built.multipliersLength {nextprime : Nat → Nat} {config : NGramConfig} {pleLayerIndex : Nat} {b : Buffers}
    (built : Built nextprime config pleLayerIndex b) : b.layerMultipliers.length = config.ngramSize.toNat := by
  rw [built.multipliers,List.length_map,buildLayerMultipliers,List.length_map,List.length_range]

theorem Built.sizesLength {nextprime : Nat → Nat} {config : NGramConfig} {pleLayerIndex : Nat} {b : Buffers}
    (built : Built nextprime config pleLayerIndex b) :
    b.ngramHeadsVocabSizes.length = (config.ngramSize.toNat - 1) * config.headsPerNgram.toNat := by
  rw [built.sizes,List.length_map,heads,heads_laid,headPrimes,List.length_map,List.length_range,
    heads_count built.ngram built.perNgram]

theorem Built.offsetsLength {nextprime : Nat → Nat} {config : NGramConfig} {pleLayerIndex : Nat} {b : Buffers}
    (built : Built nextprime config pleLayerIndex b) :
    b.ngramHeadsOffsets.length = (config.ngramSize.toNat - 1) * config.headsPerNgram.toNat := by
  rw [built.offsets,List.length_map,heads,heads_laid,List.length_map,List.length_range,
    heads_count built.ngram built.perNgram]

def embedding (nextprime : Nat → Nat) (config : NGramConfig) (pleLayerIndex : Nat) (enablePleFusion : Bool) (b : Buffers)
    (built : Built nextprime config pleLayerIndex b) : NGramEmbedding where
  ngramSize := config.ngramSize.toNat
  headsPerNgram := config.headsPerNgram.toNat
  layerMultipliers := b.layerMultipliers
  ngramHeadsVocabSizes := b.ngramHeadsVocabSizes
  ngramHeadsOffsets := b.ngramHeadsOffsets
  eosTokenId := config.eosTokenId
  enablePleFusion := enablePleFusion
  ngramBound := built.ngramBound
  multipliersLength := built.multipliersLength
  sizesLength := built.sizesLength
  offsetsLength := built.offsetsLength

-- __init__, with the rows its VocabParallelEmbedding is asked for.
def construct (nextprime : Nat → Nat) (config : NGramConfig) (embeddingDim : Int) (pleLayerIndex : Nat)
    (enablePleFusion : Bool) : Except Failure (NGramEmbedding × Int) :=
  match made : buffers nextprime config embeddingDim pleLayerIndex with
  | .error failure => .error failure
  | .ok b => .ok (embedding nextprime config pleLayerIndex enablePleFusion b (buffers_built made).1,b.paddedVocabSize)

-- The ids over the natural numbers: no product is cut and no sum wraps.
def plainMix (multipliers tokens : Nat → Nat) (ngram : Nat) : Nat :=
  ((List.range ngram).map fun j => tokens j * multipliers j).foldl (· ^^^ ·) 0

def plainHead (sizes : List Nat) (mix column : Nat) : Nat := mix % sizes.getD column 1 + offset sizes column

def plainIds (nextprime : Nat → Nat) (config : NGramConfig) (pleLayerIndex : Nat) (tokens : Nat → Nat) : List Nat :=
  (List.range' 2 (config.ngramSize.toNat - 1)).flatMap fun ngram =>
    (List.range config.headsPerNgram.toNat).map fun head =>
      plainHead (heads nextprime config pleLayerIndex).sizes
        (plainMix (multiplier (config.seed.getD 1234) pleLayerIndex config.vocabSize) tokens ngram)
        ((ngram - 2) * config.headsPerNgram.toNat + head)

def InVocab (config : NGramConfig) (token : Long) : Prop := 0 ≤ token.toInt ∧ token.toInt < config.vocabSize

section
variable (nextprime : Nat → Nat) (config : NGramConfig) (pleLayerIndex : Nat)

theorem heads_read (ngram : 2 ≤ config.ngramSize) (perNgram : 0 < config.headsPerNgram) (column : Nat)
    (inside : column < (config.ngramSize.toNat - 1) * config.headsPerNgram.toNat) :
    (heads nextprime config pleLayerIndex).sizes.getD column 1 =
      findNthPrimeAfter nextprime (config.ngramVocabSizeBase.toNat - 1)
        (pleLayerIndex * ((config.ngramSize.toNat - 1) * config.headsPerNgram.toNat) + column + 1) := by
  rw [heads,heads_laid,headPrimes,heads_count ngram perNgram,List.getD_eq_getElem?_getD,List.getElem?_map,
    List.getElem?_range inside]
  rfl

theorem plainIds_read (tokens : Nat → Nat) (place head : Nat) (ngram : place < config.ngramSize.toNat - 1)
    (inside : head < config.headsPerNgram.toNat) :
    (plainIds nextprime config pleLayerIndex tokens)[place * config.headsPerNgram.toNat + head]? =
      some (plainHead (heads nextprime config pleLayerIndex).sizes
        (plainMix (multiplier (config.seed.getD 1234) pleLayerIndex config.vocabSize) tokens (place + 2))
        (place * config.headsPerNgram.toNat + head)) := by
  have row : (List.range' 2 (config.ngramSize.toNat - 1))[place]? = some (place + 2) := by
    rw [List.getElem?_range' ngram,Nat.one_mul,Nat.add_comm]
  have read := flatMap_read (List.range' 2 (config.ngramSize.toNat - 1)) (fun ngram =>
    (List.range config.headsPerNgram.toNat).map fun head => plainHead (heads nextprime config pleLayerIndex).sizes
      (plainMix (multiplier (config.seed.getD 1234) pleLayerIndex config.vocabSize) tokens ngram)
      ((ngram - 2) * config.headsPerNgram.toNat + head)) place head (place + 2) row (by simpa using inside)
  have before : offset ((List.range' 2 (config.ngramSize.toNat - 1)).map fun ngram =>
      ((List.range config.headsPerNgram.toNat).map fun head => plainHead (heads nextprime config pleLayerIndex).sizes
        (plainMix (multiplier (config.seed.getD 1234) pleLayerIndex config.vocabSize) tokens ngram)
        ((ngram - 2) * config.headsPerNgram.toNat + head)).length) place = place * config.headsPerNgram.toNat := by
    simp [offset,Nat.min_eq_left ngram.le]
  rw [before,List.getElem?_map,List.getElem?_range inside] at read
  exact read

theorem plainIds_length (tokens : Nat → Nat) : (plainIds nextprime config pleLayerIndex tokens).length =
    (config.ngramSize.toNat - 1) * config.headsPerNgram.toNat := by
  simp [plainIds,List.length_flatMap]

theorem plainIds_within (positive : ∀ size ∈ (heads nextprime config pleLayerIndex).sizes, 0 < size)
    (ngram : 2 ≤ config.ngramSize)
    (perNgram : 0 < config.headsPerNgram) (tokens : Nat → Nat) (column id : Nat)
    (found : (plainIds nextprime config pleLayerIndex tokens)[column]? = some id) :
    Within (heads nextprime config pleLayerIndex).sizes column id := by
  obtain ⟨below,_⟩ := List.getElem?_eq_some_iff.mp found
  rw [plainIds_length nextprime config pleLayerIndex] at below
  have filled : 0 < config.headsPerNgram.toNat := by omega
  have split : column / config.headsPerNgram.toNat * config.headsPerNgram.toNat + column % config.headsPerNgram.toNat =
      column := Nat.div_add_mod' ..
  have place : column / config.headsPerNgram.toNat < config.ngramSize.toNat - 1 := Nat.div_lt_of_lt_mul (by
    rwa [Nat.mul_comm])
  have read := plainIds_read nextprime config pleLayerIndex tokens
    (column / config.headsPerNgram.toNat) (column % config.headsPerNgram.toNat) place (Nat.mod_lt _ filled)
  rw [split,found,Option.some_inj] at read
  have length := (heads_parts nextprime config pleLayerIndex).2.2
  rw [heads_count ngram perNgram] at length
  have size := List.getElem?_eq_getElem (show column < (heads nextprime config pleLayerIndex).sizes.length from length ▸ below)
  have rest := Nat.mod_lt (plainMix (multiplier (config.seed.getD 1234) pleLayerIndex config.vocabSize) tokens
    (column / config.headsPerNgram.toNat + 2)) (positive _ (List.mem_of_getElem? size))
  rw [plainHead,List.getD_eq_getElem?_getD,size,Option.getD_some] at read
  exact ⟨_,size,by omega,by omega⟩

end

theorem multiplier_odd (seed : Int) (pleLayerIndex : Nat) (vocab : Int) (idx : Nat) :
    multiplier seed pleLayerIndex vocab idx % 2 = 1 := by
  unfold multiplier
  dsimp only
  omega

theorem multiplier_room (seed : Int) (pleLayerIndex : Nat) (vocab : Int) (idx token : Nat) (inside : (token : Int) < vocab)
    (fits : token < 2 ^ 63) : token * multiplier seed pleLayerIndex vocab idx < 2 ^ 63 := by
  unfold multiplier
  dsimp only
  generalize splitmix64 _ = mixed
  have below : token ≤ (max vocab 1).toNat := by omega
  generalize (max vocab 1).toNat = rows at below
  generalize room : (2 ^ 63 - 1) / rows = most
  have fit : rows * most ≤ 2 ^ 63 - 1 := room ▸ Nat.mul_div_le _ rows
  by_cases wide : 1 ≤ most / 2
  · rw [Nat.max_eq_right wide]
    have rest := Nat.mod_lt mixed wide
    have small : 2 * (mixed % (most / 2)) + 1 ≤ most := by omega
    calc token * (2 * (mixed % (most / 2)) + 1) ≤ rows * most := Nat.mul_le_mul below small
      _ < 2 ^ 63 := by omega
  · rw [Nat.max_eq_left (by omega),Nat.mod_one]
    omega

theorem nonneg_fits (token : Long) (nonneg : 0 ≤ token.toInt) : token.toInt = token.toNat ∧ token.toNat < 2 ^ 63 := by
  have bound := BitVec.toInt_lt (x := token)
  have same : token.toInt = token.toNat := BitVec.toInt_eq_toNat_of_lt (by
    by_contra high
    rw [BitVec.toInt_eq_toNat_cond,if_neg high] at nonneg
    have below := token.isLt
    omega)
  omega

theorem product_exact (config : NGramConfig) (pleLayerIndex idx : Nat) (token : Long) (known : InVocab config token) :
    (token * BitVec.ofNat 64 (multiplier (config.seed.getD 1234) pleLayerIndex config.vocabSize idx)).toNat =
      token.toNat * multiplier (config.seed.getD 1234) pleLayerIndex config.vocabSize idx ∧
    token.toNat * multiplier (config.seed.getD 1234) pleLayerIndex config.vocabSize idx < 2 ^ 63 := by
  obtain ⟨same,fits⟩ := nonneg_fits token known.1
  have room := multiplier_room (config.seed.getD 1234) pleLayerIndex config.vocabSize idx token.toNat (same ▸ known.2) fits
  refine ⟨?_,room⟩
  rw [BitVec.toNat_mul,BitVec.toNat_ofNat,Nat.mul_mod_mod,Nat.mod_eq_of_lt (by omega)]

theorem xor_exact (words : List Long) (small : ∀ word ∈ words, word.toNat < 2 ^ 63) (start : Long)
    (low : start.toNat < 2 ^ 63) : (words.foldl (· ^^^ ·) start).toNat = (words.map BitVec.toNat).foldl (· ^^^ ·) start.toNat ∧
      (words.foldl (· ^^^ ·) start).toNat < 2 ^ 63 := by
  induction words generalizing start with
  | nil => exact ⟨rfl,low⟩
  | cons word words ih =>
      have next : (start ^^^ word).toNat < 2 ^ 63 := by
        rw [BitVec.toNat_xor]
        exact Nat.xor_lt_two_pow low (small word List.mem_cons_self)
      have rest := ih (fun later member => small later (List.mem_cons_of_mem _ member)) (start ^^^ word) next
      rw [BitVec.toNat_xor] at rest
      exact rest

section
variable {nextprime : Nat → Nat} {config : NGramConfig} {pleLayerIndex : Nat} {enablePleFusion : Bool} {b : Buffers}
  (built : Built nextprime config pleLayerIndex b)
include built

theorem multiplier_read (j : Nat) (inside : j < config.ngramSize.toNat) : b.layerMultipliers.getD j 0 =
    BitVec.ofNat 64 (multiplier (config.seed.getD 1234) pleLayerIndex config.vocabSize j) := by
  rw [built.multipliers,buildLayerMultipliers,List.map_map,List.getD_eq_getElem?_getD,List.getElem?_map,
    List.getElem?_range inside]
  rfl

theorem mix_exact (tokens : Nat → Long) (known : ∀ j, InVocab config (tokens j)) (ngram : Nat)
    (inside : ngram ≤ config.ngramSize.toNat) :
    (((List.range ngram).map fun j => tokens j * b.layerMultipliers.getD j 0).foldl (· ^^^ ·) 0).toNat =
      plainMix (multiplier (config.seed.getD 1234) pleLayerIndex config.vocabSize) (fun j => (tokens j).toNat) ngram ∧
    plainMix (multiplier (config.seed.getD 1234) pleLayerIndex config.vocabSize) (fun j => (tokens j).toNat) ngram < 2 ^ 63 := by
  have each : ∀ j ∈ List.range ngram, (tokens j * b.layerMultipliers.getD j 0).toNat =
      (tokens j).toNat * multiplier (config.seed.getD 1234) pleLayerIndex config.vocabSize j ∧
      (tokens j * b.layerMultipliers.getD j 0).toNat < 2 ^ 63 := by
    intro j member
    have below := List.mem_range.mp member
    obtain ⟨exact,room⟩ := product_exact config pleLayerIndex j (tokens j) (known j)
    rw [multiplier_read built j (by omega),exact]
    exact ⟨rfl,room⟩
  have words := xor_exact ((List.range ngram).map fun j => tokens j * b.layerMultipliers.getD j 0) (by
    intro word member
    obtain ⟨j,within,rfl⟩ := List.mem_map.mp member
    exact (each j within).2) 0 (by decide)
  have plain : ((List.range ngram).map fun j => tokens j * b.layerMultipliers.getD j 0).map BitVec.toNat =
      (List.range ngram).map fun j => (tokens j).toNat * multiplier (config.seed.getD 1234) pleLayerIndex config.vocabSize j := by
    rw [List.map_map]
    exact List.map_congr_left fun j member => (each j member).1
  rw [plain] at words
  exact ⟨words.1,lt_of_eq_of_lt words.1.symm words.2⟩

theorem columns_read (column : Nat) (inside : column < (config.ngramSize.toNat - 1) * config.headsPerNgram.toNat) :
    ∃ size, (heads nextprime config pleLayerIndex).sizes[column]? = some size ∧
      b.ngramHeadsVocabSizes[column]? = some (BitVec.ofNat 64 size) ∧
      b.ngramHeadsOffsets[column]? = some (BitVec.ofNat 64 (offset (heads nextprime config pleLayerIndex).sizes column)) := by
  obtain ⟨_,offs,length⟩ := heads_parts nextprime config pleLayerIndex
  rw [heads_count built.ngram built.perNgram] at offs length
  have found := List.getElem?_eq_getElem (show column < (heads nextprime config pleLayerIndex).sizes.length from length ▸ inside)
  refine ⟨_,found,?_,?_⟩
  · rw [built.sizes,List.getElem?_map,found,Option.map_some]
  · rw [built.offsets,offs,List.getElem?_map,List.getElem?_map,List.getElem?_range inside,Option.map_some,Option.map_some]

theorem head_exact (total : (heads nextprime config pleLayerIndex).total < 2 ^ 63)
    (positive : ∀ size ∈ (heads nextprime config pleLayerIndex).sizes, 0 < size) (mix : Long) (low : mix.toNat < 2 ^ 63)
    (column : Nat) (inside : column < (config.ngramSize.toNat - 1) * config.headsPerNgram.toNat) :
    referenceHead (embedding nextprime config pleLayerIndex enablePleFusion b built) mix column =
      some (BitVec.ofNat 64 (plainHead (heads nextprime config pleLayerIndex).sizes mix.toNat column)) ∧
    Within (heads nextprime config pleLayerIndex).sizes column
      (plainHead (heads nextprime config pleLayerIndex).sizes mix.toNat column) := by
  obtain ⟨size,found,sizeRead,offsetRead⟩ := columns_read built column inside
  have filled := positive size (List.mem_of_getElem? found)
  have rest := Nat.mod_lt mix.toNat filled
  have plain : plainHead (heads nextprime config pleLayerIndex).sizes mix.toNat column =
      mix.toNat % size + offset (heads nextprime config pleLayerIndex).sizes column := by
    rw [plainHead,List.getD_eq_getElem?_getD,found,Option.getD_some]
  have within : Within (heads nextprime config pleLayerIndex).sizes column
      (plainHead (heads nextprime config pleLayerIndex).sizes mix.toNat column) := by
    rw [plain]
    exact ⟨size,found,by omega,by omega⟩
  refine ⟨?_,within⟩
  have below := within_sum _ _ _ within
  rw [← (heads_parts nextprime config pleLayerIndex).1] at below
  have bound : size < 2 ^ 63 := by
    have le := List.le_sum_of_mem (List.mem_of_getElem? found)
    rw [← (heads_parts nextprime config pleLayerIndex).1] at le
    omega
  have divisor := toInt_ofNat size bound
  obtain ⟨remaining,reduced,exact,_,_⟩ := remainder_bounds mix (BitVec.ofNat 64 size) (by omega)
  have signed : mix.toInt = mix.toNat := BitVec.toInt_eq_toNat_of_lt (by omega)
  have number : remaining = BitVec.ofNat 64 (mix.toNat % size) := by
    apply BitVec.eq_of_toInt_eq
    rw [exact,divisor,signed,toInt_ofNat _ (by omega),Int.fmod_eq_emod_of_nonneg _ (by omega)]
    exact (Int.natCast_mod ..).symm
  show ((b.ngramHeadsVocabSizes[column]?).bind fun size => (b.ngramHeadsOffsets[column]?).bind fun offset =>
    (remainder mix size).bind fun rest => some (rest + offset)) = _
  rw [sizeRead,offsetRead,Option.bind_some,Option.bind_some,reduced,Option.bind_some,number,plain,BitVec.ofNat_add]

theorem window_exact (total : (heads nextprime config pleLayerIndex).total < 2 ^ 63)
    (positive : ∀ size ∈ (heads nextprime config pleLayerIndex).sizes, 0 < size) (row : List Long)
    (known : ∀ j, InVocab config (placeInWindow config.eosTokenId row j)) :
    windowIds (embedding nextprime config pleLayerIndex enablePleFusion b built) row =
      some ((plainIds nextprime config pleLayerIndex fun j => (placeInWindow config.eosTokenId row j).toNat).map
        (BitVec.ofNat 64)) := by
  have blocks : ∀ ngram ∈ List.range' 2 (config.ngramSize.toNat - 1),
      referenceHeads (embedding nextprime config pleLayerIndex enablePleFusion b built)
        (windowMix (embedding nextprime config pleLayerIndex enablePleFusion b built) row ngram) ngram =
      some (((List.range config.headsPerNgram.toNat).map fun head =>
        plainHead (heads nextprime config pleLayerIndex).sizes
          (plainMix (multiplier (config.seed.getD 1234) pleLayerIndex config.vocabSize)
            (fun j => (placeInWindow config.eosTokenId row j).toNat) ngram)
          ((ngram - 2) * config.headsPerNgram.toNat + head)).map (BitVec.ofNat 64)) := by
    intro ngram member
    have span := List.mem_range'_1.mp member
    obtain ⟨exact,low⟩ := mix_exact built (placeInWindow config.eosTokenId row) known ngram (by omega)
    rw [← exact] at low ⊢
    rw [List.map_map]
    refine Tensors.mapM_found _ _ _ fun head inside => (head_exact built total positive _ low _ ?_).1
    have below := List.mem_range.mp inside
    calc (ngram - 2) * config.headsPerNgram.toNat + head
        < (ngram - 2) * config.headsPerNgram.toNat + config.headsPerNgram.toNat := Nat.add_lt_add_left below _
      _ = (ngram - 1) * config.headsPerNgram.toNat := by
        rw [← Nat.succ_mul]
        congr 1
        omega
      _ ≤ (config.ngramSize.toNat - 1) * config.headsPerNgram.toNat := Nat.mul_le_mul_right _ (by omega)
  have mapped := Tensors.mapM_found _ _ _ blocks
  rw [windowIds]
  show ((List.range' 2 (config.ngramSize.toNat - 1)).mapM _ >>= fun blocks => some blocks.flatten) = _
  rw [mapped]
  show some (List.flatten _) = _
  rw [plainIds,List.flatMap,List.map_flatten,List.map_map]
  rfl

end

def layerMix (config : NGramConfig) (pleLayerIndex : Nat) (row : List Long) (ngram : Nat) : Nat :=
  plainMix (multiplier (config.seed.getD 1234) pleLayerIndex config.vocabSize)
    (fun j => (placeInWindow config.eosTokenId row j).toNat) ngram

def ngramPrimes (nextprime : Nat → Nat) (config : NGramConfig) (pleLayerIndex place : Nat) : List Nat :=
  (List.range config.headsPerNgram.toNat).map fun head =>
    (heads nextprime config pleLayerIndex).sizes.getD (place * config.headsPerNgram.toNat + head) 1

theorem places_known (config : NGramConfig) (eos : InVocab config config.eosTokenId) (row : List Long)
    (known : ∀ token ∈ row, InVocab config token) (j : Nat) : InVocab config (placeInWindow config.eosTokenId row j) := by
  unfold placeInWindow
  split
  · exact eos
  · rw [List.getD_eq_getElem?_getD]
    cases found : row[row.length - 1 - j]? with
    | none => exact eos
    | some token => exact known token (List.mem_of_getElem? found)

theorem xor_start (words : List Nat) (start : Nat) : words.foldl (· ^^^ ·) start = start ^^^ words.foldl (· ^^^ ·) 0 := by
  induction words generalizing start with
  | nil => exact (Nat.xor_zero start).symm
  | cons word words ih => rw [List.foldl_cons,List.foldl_cons,ih,ih (0 ^^^ word),Nat.zero_xor,Nat.xor_assoc]

-- A mix changes when one of its factors does.
theorem mix_changes (multipliers : Nat → Nat) (odd : ∀ j, multipliers j % 2 = 1) (one two : Nat → Nat) (ngram j : Nat)
    (inside : j < ngram) (changed : one j ≠ two j) (others : ∀ k < ngram, k ≠ j → one k = two k) :
    plainMix multipliers one ngram ≠ plainMix multipliers two ngram := by
  obtain ⟨front,rest,split⟩ := List.append_of_mem (List.mem_range.mpr inside)
  have once : (front ++ j :: rest).Nodup := split ▸ List.nodup_range
  obtain ⟨absent,_⟩ := List.nodup_cons.mp ((List.perm_middle.nodup_iff).mp once)
  have apart : ∀ k, k ∈ front ++ rest → one k * multipliers k = two k * multipliers k := by
    intro k member
    have below : k ∈ List.range ngram := by
      rw [split]
      exact List.perm_middle.mem_iff.mpr (List.mem_cons_of_mem _ member)
    rw [others k (List.mem_range.mp below) (by
      rintro rfl
      exact absent member)]
  have before : front.map (fun k => one k * multipliers k) = front.map fun k => two k * multipliers k :=
    List.map_congr_left fun k member => apart k (List.mem_append_left _ member)
  have after : rest.map (fun k => one k * multipliers k) = rest.map fun k => two k * multipliers k :=
    List.map_congr_left fun k member => apart k (List.mem_append_right _ member)
  intro same
  unfold plainMix at same
  rw [split,List.map_append,List.map_append,List.map_cons,List.map_cons,List.foldl_append,List.foldl_append,
    List.foldl_cons,List.foldl_cons,before,after,xor_start (rest.map _) (_ ^^^ (one j * _)),
    xor_start (rest.map _) (_ ^^^ (two j * _)),Nat.xor_left_inj,Nat.xor_right_inj] at same
  exact changed (Nat.eq_of_mul_eq_mul_right (Nat.pos_of_ne_zero fun zero => by
    have own := odd j
    omega) same)

-- sympy.nextprime: a prime beyond the argument.
structure NextPrime (nextprime : Nat → Nat) : Prop where
  above : ∀ n, n < nextprime n
  prime : ∀ n, (nextprime n).Prime

section
variable {nextprime : Nat → Nat} (next : NextPrime nextprime)
include next

theorem findNthPrimeAfter_strict (start : Nat) : StrictMono (findNthPrimeAfter nextprime start) :=
  strictMono_nat_of_lt_succ fun n => next.above (findNthPrimeAfter nextprime start n)

theorem headPrimes_prime (base pleLayerIndex count : Nat) :
    ∀ size ∈ headPrimes nextprime base pleLayerIndex count, size.Prime := by
  intro size member
  obtain ⟨headIdx,_,rfl⟩ := List.mem_map.mp member
  exact next.prime _

theorem primes_apart (base one two count first second : Nat) (inside : first < count) (within : second < count)
    (same : findNthPrimeAfter nextprime (base - 1) (one * count + first + 1) =
      findNthPrimeAfter nextprime (base - 1) (two * count + second + 1)) : one = two ∧ first = second := by
  have index := (findNthPrimeAfter_strict next (base - 1)).injective same
  have places : one * count + first = two * count + second := by omega
  have layers : one = two := by
    have left := Nat.mul_add_div (Nat.lt_of_le_of_lt (Nat.zero_le _) inside) one first
    have right := Nat.mul_add_div (Nat.lt_of_le_of_lt (Nat.zero_le _) inside) two second
    rw [Nat.div_eq_of_lt inside,Nat.mul_comm,places] at left
    rw [Nat.div_eq_of_lt within,Nat.mul_comm,left] at right
    omega
  exact ⟨layers,by subst layers; omega⟩

end

-- A list of ids some run of _hash_contexts gives for a window.
def Hashes (m : NGramEmbedding) (row out : List Long) : Prop :=
  ∃ (fused : FusedHash) (cached after : Option WindowCache) (contexts : Contexts) (decodeSized : Bool) (ids : Tokens) (i : Nat),
    fused.Agrees m ∧ Coherent m cached contexts ∧ hashContexts fused m cached contexts decodeSized = some (ids,after) ∧
      contexts.rows[i]? = some row ∧ m.ngramSize ≤ row.length ∧ ids[i]? = some out

theorem hashes_window {m : NGramEmbedding} {row out : List Long} (hashes : Hashes m row out) : windowIds m row = some out := by
  obtain ⟨fused,cached,after,contexts,decodeSized,ids,i,agrees,coherent,ran,here,wide,found⟩ := hashes
  obtain ⟨unfused,_⟩ := hashContexts_unfused fused m agrees cached after contexts decodeSized coherent ids ran
  obtain ⟨own,read,window⟩ := unfusedIds_row m contexts.rows ids unfused i row here wide
  rw [found,Option.some_inj] at read
  rw [window,read]

theorem construct_parts {nextprime : Nat → Nat} {config : NGramConfig} {embeddingDim : Int} {pleLayerIndex : Nat}
    {enablePleFusion : Bool} {m : NGramEmbedding} {rows : Int}
    (made : construct nextprime config embeddingDim pleLayerIndex enablePleFusion = .ok (m,rows)) :
    ∃ b, ∃ built : Built nextprime config pleLayerIndex b,
      m = embedding nextprime config pleLayerIndex enablePleFusion b built ∧
      paddedVocab (heads nextprime config pleLayerIndex).total config.makeNgramVocabSizeDivisibleBy = .ok rows := by
  unfold construct at made
  split at made
  · cases made
  · rename_i b ran
    cases made
    exact ⟨b,(buffers_built ran).1,rfl,(buffers_built ran).2⟩

theorem padded_covers {total : Nat} {divisor rows : Int} (made : paddedVocab total divisor = .ok rows) (positive : 0 < divisor) :
    (total : Int) ≤ rows := by
  unfold paddedVocab at made
  rw [if_neg positive.ne'] at made
  cases made
  have split := Int.mul_fdiv_add_fmod (total + divisor - 1) divisor
  have rest := Int.fmod_lt_of_pos (total + divisor - 1) positive
  rw [Int.mul_comm] at split
  omega

section
variable {nextprime : Nat → Nat} (next : NextPrime nextprime) {config : NGramConfig} {embeddingDim : Int} {pleLayerIndex : Nat}
  {enablePleFusion : Bool} {m : NGramEmbedding} {rows : Int}
  (made : construct nextprime config embeddingDim pleLayerIndex enablePleFusion = .ok (m,rows))
  (total : (heads nextprime config pleLayerIndex).total < 2 ^ 63) (eos : InVocab config config.eosTokenId)
include next made total eos

-- The ids of a constructed layer are the plain ones, each in its own head's rows of the table.
theorem ids_plain (row out : List Long) (hashes : Hashes m row out) (known : ∀ token ∈ row, InVocab config token) :
    out.map BitVec.toNat =
      plainIds nextprime config pleLayerIndex (fun j => (placeInWindow config.eosTokenId row j).toNat) ∧
    ∀ column id, (out.map BitVec.toNat)[column]? = some id →
      Within (heads nextprime config pleLayerIndex).sizes column id ∧
        (0 < config.makeNgramVocabSizeDivisibleBy → (id : Int) < rows) := by
  obtain ⟨b,built,rfl,padded⟩ := construct_parts made
  have positive : ∀ size ∈ (heads nextprime config pleLayerIndex).sizes, 0 < size := by
    intro size member
    rw [heads,heads_laid] at member
    exact (headPrimes_prime next _ _ _ size member).pos
  have places := places_known config eos row known
  have window : windowIds (embedding nextprime config pleLayerIndex enablePleFusion b built) row = some (_ : List Long) :=
    window_exact built total positive row places
  rw [hashes_window hashes,Option.some_inj] at window
  have within := plainIds_within nextprime config pleLayerIndex positive built.ngram built.perNgram
    (fun j => (placeInWindow config.eosTokenId row j).toNat)
  have bounded : ∀ column id : Nat, (plainIds nextprime config pleLayerIndex fun j =>
      (placeInWindow config.eosTokenId row j).toNat)[column]? = some id →
        id < (heads nextprime config pleLayerIndex).total := by
    intro column id found
    rw [(heads_parts nextprime config pleLayerIndex).1]
    exact within_sum _ _ _ (within column id found)
  have numbers : out.map BitVec.toNat = plainIds nextprime config pleLayerIndex fun j =>
      (placeInWindow config.eosTokenId row j).toNat := by
    rw [window,List.map_map]
    refine (List.map_congr_left fun id member => ?_).trans (List.map_id _)
    obtain ⟨column,found⟩ := List.getElem?_of_mem member
    have small := bounded column id found
    rw [Function.comp_apply,BitVec.toNat_ofNat,Nat.mod_eq_of_lt (by omega),id_eq]
  refine ⟨numbers,?_⟩
  intro column id found
  rw [numbers] at found
  refine ⟨within column id found,fun divides => ?_⟩
  have covered := padded_covers padded divides
  have small := bounded column id found
  omega

omit total eos in
theorem heads_coprime (place : Nat) (inside : place < config.ngramSize.toNat - 1) :
    (List.range config.headsPerNgram.toNat).Pairwise (Function.onFun Nat.Coprime fun head =>
      (heads nextprime config pleLayerIndex).sizes.getD (place * config.headsPerNgram.toNat + head) 1) := by
  obtain ⟨b,built,_,_⟩ := construct_parts made
  have column : ∀ head < config.headsPerNgram.toNat, place * config.headsPerNgram.toNat + head <
      (config.ngramSize.toNat - 1) * config.headsPerNgram.toNat := by
    intro head below
    calc place * config.headsPerNgram.toNat + head < (place + 1) * config.headsPerNgram.toNat := by
          rw [Nat.succ_mul]
          exact Nat.add_lt_add_left below _
      _ ≤ (config.ngramSize.toNat - 1) * config.headsPerNgram.toNat := Nat.mul_le_mul_right _ inside
  refine List.nodup_range.imp_of_mem ?_
  intro first second one two apart
  have left := column first (List.mem_range.mp one)
  have right := column second (List.mem_range.mp two)
  show Nat.Coprime ((heads nextprime config pleLayerIndex).sizes.getD _ 1) ((heads nextprime config pleLayerIndex).sizes.getD _ 1)
  rw [heads_read nextprime config pleLayerIndex built.ngram built.perNgram _ left,
    heads_read nextprime config pleLayerIndex built.ngram built.perNgram _ right]
  refine (Nat.coprime_primes (next.prime _) (next.prime _)).mpr fun same => apart ?_
  have equal := (primes_apart next _ _ _ _ _ _ left right same).2
  omega

-- Two windows agree in every head of an n-gram length exactly when the product of its primes divides the difference of
-- their mixes; where that product reaches 2^63, a single changed place of the n-gram shows in some head.
theorem heads_collide (row out other otherOut : List Long) (hashes : Hashes m row out) (others : Hashes m other otherOut)
    (known : ∀ token ∈ row, InVocab config token) (otherKnown : ∀ token ∈ other, InVocab config token) (place : Nat)
    (inside : place < config.ngramSize.toNat - 1) :
    ((∀ head < config.headsPerNgram.toNat, out[place * config.headsPerNgram.toNat + head]? =
        otherOut[place * config.headsPerNgram.toNat + head]?) ↔
      layerMix config pleLayerIndex row (place + 2) ≡ layerMix config pleLayerIndex other (place + 2)
        [MOD (ngramPrimes nextprime config pleLayerIndex place).prod]) ∧
    (2 ^ 63 ≤ (ngramPrimes nextprime config pleLayerIndex place).prod → ∀ j < place + 2,
      placeInWindow config.eosTokenId row j ≠ placeInWindow config.eosTokenId other j →
      (∀ k < place + 2, k ≠ j → placeInWindow config.eosTokenId row k = placeInWindow config.eosTokenId other k) →
      ∃ head < config.headsPerNgram.toNat, out[place * config.headsPerNgram.toNat + head]? ≠
        otherOut[place * config.headsPerNgram.toNat + head]?) := by
  have first := (ids_plain next made total eos row out hashes known).1
  have second := (ids_plain next made total eos other otherOut others otherKnown).1
  have column : ∀ head < config.headsPerNgram.toNat, (out[place * config.headsPerNgram.toNat + head]? =
      otherOut[place * config.headsPerNgram.toNat + head]? ↔
        layerMix config pleLayerIndex row (place + 2) ≡ layerMix config pleLayerIndex other (place + 2)
          [MOD (heads nextprime config pleLayerIndex).sizes.getD (place * config.headsPerNgram.toNat + head) 1]) := by
    intro head below
    have numbers : Function.Injective (Option.map (BitVec.toNat : Long → Nat)) :=
      Option.map_injective fun _ _ => BitVec.eq_of_toNat_eq
    rw [← numbers.eq_iff,← List.getElem?_map,← List.getElem?_map,first,second,
      plainIds_read nextprime config pleLayerIndex _ place head inside below,
      plainIds_read nextprime config pleLayerIndex _ place head inside below,Option.some_inj,plainHead,plainHead,
      Nat.add_right_cancel_iff]
    rfl
  have all : (∀ head < config.headsPerNgram.toNat, out[place * config.headsPerNgram.toNat + head]? =
        otherOut[place * config.headsPerNgram.toNat + head]?) ↔
      layerMix config pleLayerIndex row (place + 2) ≡ layerMix config pleLayerIndex other (place + 2)
        [MOD (ngramPrimes nextprime config pleLayerIndex place).prod] := by
    rw [ngramPrimes,Nat.modEq_list_map_prod_iff (heads_coprime next made place inside)]
    constructor
    · intro same head member
      have below := List.mem_range.mp member
      exact (column head below).mp (same head below)
    · intro same head below
      exact (column head below).mpr (same head (List.mem_range.mpr below))
  refine ⟨all,?_⟩
  intro wide j below changed fixed
  by_contra unseen
  push Not at unseen
  obtain ⟨b,built,_,_⟩ := construct_parts made
  have small : ∀ row : List Long, (∀ token ∈ row, InVocab config token) →
      layerMix config pleLayerIndex row (place + 2) < (ngramPrimes nextprime config pleLayerIndex place).prod := by
    intro row known
    exact lt_of_lt_of_le (mix_exact built _ (places_known config eos row known) (place + 2) (by omega)).2 wide
  have equal := (all.mp unseen).eq_of_lt_of_lt (small row known) (small other otherKnown)
  refine mix_changes _ (multiplier_odd _ _ _) _ _ (place + 2) j below (fun same => changed (BitVec.eq_of_toNat_eq same)) ?_ equal
  intro k within apart
  rw [fixed k within apart]

end

-- The first primes from five on, and after them whatever prime comes next.
def samplePrime (n : Nat) : Nat :=
  if n = 4 then 5 else if n = 5 then 7 else Nat.find (Nat.exists_infinite_primes (n + 1))

theorem samplePrime_next : NextPrime samplePrime := by
  constructor
  · intro n
    unfold samplePrime
    split
    · omega
    · split
      · omega
      · exact (Nat.find_spec (Nat.exists_infinite_primes (n + 1))).1
  · intro n
    unfold samplePrime
    split
    · exact Nat.prime_five
    · split
      · exact Nat.prime_seven
      · exact (Nat.find_spec (Nat.exists_infinite_primes (n + 1))).2

def sampleConfig : NGramConfig := ⟨2,2,10,5,8,2,none⟩

theorem sample_known : ∀ first ∈ ([3,4] : List Long), ∀ token ∈ [first,7], InVocab sampleConfig token := by
  intro first one token member
  simp only [List.mem_cons,List.not_mem_nil,or_false] at one member
  rcases member with rfl | rfl
  · rcases one with rfl | rfl <;> exact ⟨by decide,by decide⟩
  · exact ⟨by decide,by decide⟩

theorem sample_hashes : ∃ m rows out other, construct samplePrime sampleConfig 4 0 false = .ok (m,rows) ∧ Hashes m [3,7] out ∧
    Hashes m [4,7] other := by
  have agrees : ∀ m, FusedHash.Agrees ⟨fun _ _ => false,fun _ _ => []⟩ m := by
    intro m contexts fusing
    cases fusing
  have coherent : ∀ m contexts, Coherent m none contexts := by
    intro m contexts shifted known
    cases known
  exact ⟨_,_,_,_,rfl,⟨_,none,none,⟨0,[[3,7],[4,7]]⟩,false,_,0,agrees _,coherent _ _,rfl,rfl,Nat.le_refl 2,rfl⟩,
    ⟨_,none,none,⟨0,[[3,7],[4,7]]⟩,false,_,1,agrees _,coherent _ _,rfl,rfl,Nat.le_refl 2,rfl⟩⟩

theorem sample_plain : ∃ m rows out, construct samplePrime sampleConfig 4 0 false = .ok (m,rows) ∧ Hashes m [3,7] out ∧
    out.map BitVec.toNat = plainIds samplePrime sampleConfig 0 fun j => (placeInWindow 2 [3,7] j).toNat := by
  obtain ⟨m,rows,out,_,made,hashes,_⟩ := sample_hashes
  exact ⟨m,rows,out,made,hashes,(ids_plain samplePrime_next made (by decide) ⟨by decide,by decide⟩ [3,7] out hashes
    (sample_known 3 (by decide))).1⟩

theorem sample_collide : ∃ m rows out other, construct samplePrime sampleConfig 4 0 false = .ok (m,rows) ∧ Hashes m [3,7] out ∧
    Hashes m [4,7] other ∧ ((∀ head < 2, out[0 * 2 + head]? = other[0 * 2 + head]?) ↔
      layerMix sampleConfig 0 [3,7] 2 ≡ layerMix sampleConfig 0 [4,7] 2
        [MOD (ngramPrimes samplePrime sampleConfig 0 0).prod]) := by
  obtain ⟨m,rows,out,other,made,hashes,others⟩ := sample_hashes
  exact ⟨m,rows,out,other,made,hashes,others,(heads_collide samplePrime_next made (by decide) ⟨by decide,by decide⟩ [3,7] out
    [4,7] other hashes others (sample_known 3 (by decide)) (sample_known 4 (by decide)) 0 (by decide)).1⟩

end OneSpark.NGramParams
