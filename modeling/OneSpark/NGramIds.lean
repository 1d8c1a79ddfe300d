import OneSpark.Longs

namespace OneSpark.NGramIds
open Longs

abbrev Tokens := List (List Long)

-- A tensor object: Python's `is` compares the tags.
structure Contexts where
  tag : Nat
  rows : Tokens

-- pool.ple_window_cache: the batch object, its contexts and their shifts once known.
structure WindowCache where
  batch : Nat
  contexts : Contexts
  shifted : Option (List Tokens)

-- The buffers and attributes that _hash_contexts reads, with the lengths and bounds that
-- the constructor gives them.
structure NGramEmbedding where
  ngramSize : Nat
  headsPerNgram : Nat
  layerMultipliers : List Long
  ngramHeadsVocabSizes : List Long
  ngramHeadsOffsets : List Long
  eosTokenId : Long
  enablePleFusion : Bool
  ngramBound : 2 ≤ ngramSize
  multipliersLength : layerMultipliers.length = ngramSize
  sizesLength : ngramHeadsVocabSizes.length = (ngramSize - 1) * headsPerNgram
  offsetsLength : ngramHeadsOffsets.length = (ngramSize - 1) * headsPerNgram

-- sglang.kernels.ops.qwen4_ple, not part of the repository.
structure FusedHash where
  canFuse : NGramEmbedding → Tokens → Bool
  ngramHash : NGramEmbedding → Tokens → Tokens

-- torch.cummax(...).values along a row.
def cummax : List Int → List Int
  | [] => []
  | first :: rest => rest.scanl max first

def shiftRightIgnoreEos (eosTokenId : Long) (row : List Long) (n : Nat) : Option (List Long) :=
  if n = 0 then some row else do
    let idx := List.range row.length
    let eosPos := row.zipWith (fun token (i : Nat) => if token = eosTokenId then (i : Int) else -1) idx
    let prevEosInclusive := cummax eosPos
    let prevEos := -1 :: prevEosInclusive.dropLast
    let segmentStart := prevEos.map (· + 1)
    let posInSegment := idx.zipWith (fun (i : Nat) start => (i : Int) - start) segmentStart
    -- clamp(idx - n, min=0)
    let shifted ← Tensors.gather row (idx.map (· - n))
    let valid := posInSegment.zipWith (fun (position : Int) (i : Nat) =>
      decide (position ≥ n ∧ (i : Int) - n ≥ 0)) idx
    return Tensors.select valid shifted (row.map fun _ => eosTokenId)

def shiftedTokens (m : NGramEmbedding) (contexts : Tokens) : Option (List Tokens) := do
  let shifts ← (List.range' 1 (m.ngramSize - 1)).mapM fun shift =>
    contexts.mapM fun row => shiftRightIgnoreEos m.eosTokenId row shift
  return contexts :: shifts

-- Tensors of different shapes do not combine here.
def bitwiseXor (left right : Tokens) : Option Tokens :=
  if left.map List.length = right.map List.length then
    some (left.zipWith (fun a b => a.zipWith (· ^^^ ·) b) right)
  else none

-- shifted_tokens[pos] * layer_multipliers[pos]
def product (shifted : List Tokens) (multipliers : List Long) (pos : Nat) : Option Tokens := do
  let tokens ← shifted[pos]?
  let multiplier ← multipliers[pos]?
  return tokens.map fun row => row.map (· * multiplier)

def mixStep (shifted : List Tokens) (multipliers : List Long) (mix : Tokens) (pos : Nat) : Option Tokens := do
  let tokens ← product shifted multipliers pos
  bitwiseXor mix tokens

def mixTokens (shifted : List Tokens) (multipliers : List Long) (ngram : Nat) : Option Tokens := do
  let mix ← product shifted multipliers 0
  (List.range' 1 (ngram - 1)).foldlM (mixStep shifted multipliers) mix

def headIds (headVocabSizes headOffsets : List Long) (mix : List Long) : Option (List Long) := do
  let last ← mix.getLast?
  let ngramIds ← headVocabSizes.mapM (remainder last)
  return ngramIds.zipWith (· + ·) headOffsets

def ngramBlock (m : NGramEmbedding) (shifted : List Tokens) (ngram : Nat) : Option Tokens := do
  let startIdx := (ngram - 2) * m.headsPerNgram
  let mix ← mixTokens shifted m.layerMultipliers ngram
  let headVocabSizes := (m.ngramHeadsVocabSizes.drop startIdx).take m.headsPerNgram
  let headOffsets := (m.ngramHeadsOffsets.drop startIdx).take m.headsPerNgram
  mix.mapM (headIds headVocabSizes headOffsets)

-- torch.cat(blocks, dim=-1)
def catColumns : List Tokens → Tokens
  | [] => []
  | block :: rest => rest.foldl (fun rows more => rows.zipWith (· ++ ·) more) block

def hashShifted (m : NGramEmbedding) (shifted : List Tokens) : Option Tokens := do
  let blocks ← (List.range' 2 (m.ngramSize - 1)).mapM (ngramBlock m shifted)
  return catColumns blocks

def cachedShifts (cached : Option WindowCache) (contexts : Contexts) : Option (List Tokens) :=
  cached.bind fun entry => if entry.contexts.tag = contexts.tag then entry.shifted else none

def hashContexts (fused : FusedHash) (m : NGramEmbedding) (cached : Option WindowCache) (contexts : Contexts)
    (decodeSized : Bool) : Option (Tokens × Option WindowCache) :=
  if m.enablePleFusion && decodeSized && fused.canFuse m contexts.rows then
    some (fused.ngramHash m contexts.rows,cached)
  else
    match cachedShifts cached contexts with
    | some shifted =>
        -- assert len(shifted_tokens) == self.ngram_size
        if shifted.length = m.ngramSize then do
          let ids ← hashShifted m shifted
          return (ids,cached)
        else none
    | none => do
        let shifted ← shiftedTokens m contexts.rows
        let cached := cached.map fun entry =>
          if entry.contexts.tag = contexts.tag then ⟨entry.batch,contexts,some shifted⟩ else entry
        let ids ← hashShifted m shifted
        return (ids,cached)

def unfusedIds (m : NGramEmbedding) (contexts : Tokens) : Option Tokens := do
  let shifted ← shiftedTokens m contexts
  hashShifted m shifted

-- What the fused kernel is used for: where it applies it computes the unfused ids.
def FusedHash.Agrees (fused : FusedHash) (m : NGramEmbedding) : Prop :=
  ∀ contexts, fused.canFuse m contexts = true → unfusedIds m contexts = some (fused.ngramHash m contexts)

-- A column is a head's size and offset.
def InColumn (column : Long × Long) (id : Long) : Prop :=
  column.2.toInt ≤ id.toInt ∧ id.toInt < column.2.toInt + column.1.toInt

-- A nonempty head whose end is an int64.
def Proper (column : Long × Long) : Prop :=
  0 < column.1.toInt ∧ 0 ≤ column.2.toInt ∧ column.2.toInt + column.1.toInt < 2 ^ 63

def NGramEmbedding.columns (m : NGramEmbedding) : List (Long × Long) :=
  m.ngramHeadsVocabSizes.zip m.ngramHeadsOffsets

theorem headIds_within (sizes offsets mix : List Long) (ids : List Long)
    (same : sizes.length = offsets.length) (proper : ∀ column ∈ sizes.zip offsets, Proper column)
    (ran : headIds sizes offsets mix = some ids) : List.Forall₂ InColumn (sizes.zip offsets) ids := by
  unfold headIds at ran
  simp only [Option.bind_eq_bind,Option.bind_eq_some_iff,Option.pure_def,Option.some_inj] at ran
  obtain ⟨last,_,rests,reduced,rfl⟩ := ran
  induction sizes generalizing offsets rests with
  | nil => cases reduced; simp
  | cons size sizes ih =>
      cases offsets with
      | nil => simp at same
      | cons offset offsets =>
          simp only [List.mapM_cons,Option.bind_eq_bind,Option.bind_eq_some_iff,Option.pure_def,
            Option.some_inj] at reduced
          obtain ⟨first,here,later,there,rfl⟩ := reduced
          obtain ⟨positive,low,high⟩ : 0 < size.toInt ∧ 0 ≤ offset.toInt ∧ offset.toInt + size.toInt < 2 ^ 63 :=
            proper (size,offset) (by simp)
          obtain ⟨r,found,_,nonneg,below⟩ := remainder_bounds last size positive
          rw [here,Option.some_inj] at found
          subst found
          have sum := add_exact first offset (by omega) (by omega)
          simp only [List.zip_cons_cons,List.zipWith_cons_cons,List.forall₂_cons]
          refine ⟨⟨?_,?_⟩,ih offsets (by simpa using same)
            (fun column member => proper column (by simp [member])) later there⟩
          all_goals
            rw [sum]
            simp only
            omega

theorem ngramBlock_within (m : NGramEmbedding) (proper : ∀ column ∈ m.columns, Proper column)
    (shifted : List Tokens) (ngram : Nat) (block : Tokens) (ran : ngramBlock m shifted ngram = some block) :
    ∀ row ∈ block, List.Forall₂ InColumn
      ((m.columns.drop ((ngram - 2) * m.headsPerNgram)).take m.headsPerNgram) row := by
  unfold ngramBlock at ran
  simp only [Option.bind_eq_bind,Option.bind_eq_some_iff] at ran
  obtain ⟨mix,_,mapped⟩ := ran
  intro row member
  obtain ⟨tokens,_,ran⟩ := Tensors.mapM_member _ _ _ mapped row member
  have length := m.sizesLength.trans m.offsetsLength.symm
  have slice : (m.columns.drop ((ngram - 2) * m.headsPerNgram)).take m.headsPerNgram =
      ((m.ngramHeadsVocabSizes.drop ((ngram - 2) * m.headsPerNgram)).take m.headsPerNgram).zip
        ((m.ngramHeadsOffsets.drop ((ngram - 2) * m.headsPerNgram)).take m.headsPerNgram) := by
    unfold NGramEmbedding.columns
    rw [List.zip_eq_zipWith,List.drop_zipWith,List.take_zipWith,List.zip_eq_zipWith]
  rw [slice]
  apply headIds_within _ _ tokens row (by simp [length]) ?_ ran
  intro column inside
  rw [← slice] at inside
  exact proper column (List.mem_of_mem_drop (List.mem_of_mem_take inside))

theorem joined_rows (P : α → Long → Prop) (left right : List α) (rows more : Tokens)
    (first : ∀ row ∈ rows, List.Forall₂ P left row) (second : ∀ row ∈ more, List.Forall₂ P right row) :
    ∀ row ∈ rows.zipWith (· ++ ·) more, List.Forall₂ P (left ++ right) row := by
  intro row member
  obtain ⟨i,bound,rfl⟩ := List.mem_iff_getElem.mp member
  rw [List.getElem_zipWith]
  exact List.rel_append (first _ (List.getElem_mem _)) (second _ (List.getElem_mem _))

theorem joined_blocks (P : α → Long → Prop) (pieces : List (List α)) (blocks : List Tokens)
    (within : List.Forall₂ (fun piece block => ∀ row ∈ block, List.Forall₂ P piece row) pieces blocks)
    (piece : List α) (rows : Tokens) (first : ∀ row ∈ rows, List.Forall₂ P piece row) :
    ∀ row ∈ blocks.foldl (fun rows more => rows.zipWith (· ++ ·) more) rows,
      List.Forall₂ P (piece ++ pieces.flatten) row := by
  induction within generalizing piece rows with
  | nil => simpa using first
  | @cons next more pieces blocks here _ ih =>
      rw [List.flatten_cons,← List.append_assoc,List.foldl_cons]
      exact ih _ _ (joined_rows P piece next rows more first here)

theorem catColumns_within (P : α → Long → Prop) (pieces : List (List α)) (blocks : List Tokens)
    (within : List.Forall₂ (fun piece block => ∀ row ∈ block, List.Forall₂ P piece row) pieces blocks) :
    ∀ row ∈ catColumns blocks, List.Forall₂ P pieces.flatten row := by
  cases within with
  | nil => simp [catColumns]
  | @cons piece block pieces rest first later =>
      rw [List.flatten_cons]
      exact joined_blocks P pieces rest later piece block first

-- The columns cut into one piece for each n-gram length.
theorem columns_cut (columns : List α) (rounds width : Nat) (length : columns.length = rounds * width) :
    ((List.range' 2 rounds).map fun ngram => (columns.drop ((ngram - 2) * width)).take width).flatten = columns := by
  have pieces : ∀ k ≤ rounds,
      ((List.range' 2 k).map fun ngram => (columns.drop ((ngram - 2) * width)).take width).flatten =
        columns.take (k * width) := by
    intro k
    induction k with
    | zero => simp
    | succ k ih =>
        intro bound
        rw [List.range'_1_concat,List.map_append,List.flatten_append,ih (by omega),Nat.succ_mul,List.take_add]
        simp
  rw [pieces rounds (Nat.le_refl rounds),← length,List.take_length]

theorem hashShifted_within (m : NGramEmbedding) (proper : ∀ column ∈ m.columns, Proper column)
    (shifted : List Tokens) (ids : Tokens) (ran : hashShifted m shifted = some ids) :
    ∀ row ∈ ids, List.Forall₂ InColumn m.columns row := by
  unfold hashShifted at ran
  simp only [Option.bind_eq_bind,Option.bind_eq_some_iff,Option.pure_def,Option.some_inj] at ran
  obtain ⟨blocks,mapped,rfl⟩ := ran
  have count : m.columns.length = (m.ngramSize - 1) * m.headsPerNgram := by
    simp [NGramEmbedding.columns,m.sizesLength,m.offsetsLength]
  have parts := Tensors.mapM_parts _ _ _ mapped
  rw [← columns_cut m.columns _ _ count]
  apply catColumns_within
  rw [List.forall₂_map_left_iff]
  exact parts.imp fun ngram block made => ngramBlock_within m proper shifted ngram block made

theorem hashContexts_within (fused : FusedHash) (m : NGramEmbedding) (agrees : fused.Agrees m)
    (proper : ∀ column ∈ m.columns, Proper column) (cached after : Option WindowCache) (contexts : Contexts)
    (decodeSized : Bool) (ids : Tokens)
    (ran : hashContexts fused m cached contexts decodeSized = some (ids,after)) :
    ∀ row ∈ ids, List.Forall₂ InColumn m.columns row := by
  unfold hashContexts at ran
  split at ran
  · rename_i fusing
    simp only [Bool.and_eq_true] at fusing
    have unfused := agrees contexts.rows fusing.2
    unfold unfusedIds at unfused
    obtain ⟨shifted,_,hashed⟩ := Option.bind_eq_some_iff.mp unfused
    cases ran
    exact hashShifted_within m proper shifted _ hashed
  · split at ran
    · split at ran
      · obtain ⟨_,hashed,same⟩ := Option.bind_eq_some_iff.mp ran
        cases same
        exact hashShifted_within m proper _ _ hashed
      · cases ran
    · obtain ⟨shifted,_,rest⟩ := Option.bind_eq_some_iff.mp ran
      obtain ⟨_,hashed,same⟩ := Option.bind_eq_some_iff.mp rest
      cases same
      exact hashShifted_within m proper _ _ hashed

theorem cummax_length (values : List Int) : (cummax values).length = values.length := by
  cases values <;> simp [cummax]

theorem shiftRight_length (eosTokenId : Long) (row : List Long) (n : Nat) :
    ∃ out, shiftRightIgnoreEos eosTokenId row n = some out ∧ out.length = row.length := by
  unfold shiftRightIgnoreEos
  by_cases unshifted : n = 0
  · exact ⟨row,by simp [unshifted],rfl⟩
  · rw [if_neg unshifted]
    have gathered := Tensors.gather_found row ((List.range row.length).map (· - n)) (row.getD · eosTokenId) (by
      intro i member
      obtain ⟨j,inside,rfl⟩ := List.mem_map.mp member
      have bound := List.mem_range.mp inside
      simp [List.getElem?_eq_getElem (show j - n < row.length by omega)])
    simp only [gathered,Option.bind_eq_bind,Option.bind_some,Option.pure_def]
    refine ⟨_,rfl,?_⟩
    simp only [Tensors.select,List.length_zipWith,List.length_zip,List.length_map,List.length_range,
      List.length_cons,List.length_dropLast,cummax_length]
    omega

theorem mapM_shape (f : List Long → Option (List Long)) (tokens : Tokens)
    (keeps : ∀ row ∈ tokens, ∃ out, f row = some out ∧ out.length = row.length) :
    ∃ out, tokens.mapM f = some out ∧ out.map List.length = tokens.map List.length := by
  induction tokens with
  | nil => exact ⟨[],rfl,rfl⟩
  | cons row rest ih =>
      obtain ⟨first,here,length⟩ := keeps row (by simp)
      obtain ⟨out,there,shape⟩ := ih fun later member => keeps later (List.mem_cons_of_mem _ member)
      exact ⟨first :: out,by simp [List.mapM_cons,here,there],by simp [length,shape]⟩

def Aligned (m : NGramEmbedding) (contexts : Tokens) (shifted : List Tokens) : Prop :=
  shifted.length = m.ngramSize ∧ ∀ tokens ∈ shifted, tokens.map List.length = contexts.map List.length

theorem shiftedTokens_aligned (m : NGramEmbedding) (contexts : Tokens) :
    ∃ shifted, shiftedTokens m contexts = some shifted ∧ Aligned m contexts shifted := by
  have shiftRows : ∀ shift, ∃ tokens, (contexts.mapM fun row => shiftRightIgnoreEos m.eosTokenId row shift) =
      some tokens ∧ tokens.map List.length = contexts.map List.length := by
    intro shift
    exact mapM_shape _ contexts fun row _ => shiftRight_length m.eosTokenId row shift
  obtain ⟨shifts,ran,count⟩ := Tensors.mapM_returns
    (fun shift => contexts.mapM fun row => shiftRightIgnoreEos m.eosTokenId row shift)
    (List.range' 1 (m.ngramSize - 1)) fun shift _ => (shiftRows shift).imp fun _ parts => parts.1
  have bound := m.ngramBound
  refine ⟨contexts :: shifts,by simp [shiftedTokens,ran],by simp [count]; omega,?_⟩
  intro tokens member
  rcases List.mem_cons.mp member with rfl | later
  · rfl
  · obtain ⟨shift,_,made⟩ := Tensors.mapM_member _ _ _ ran tokens later
    obtain ⟨same,again,shape⟩ := shiftRows shift
    rw [made,Option.some_inj] at again
    rw [again,shape]

theorem bitwiseXor_shape (left right : Tokens) (same : left.map List.length = right.map List.length) :
    ∃ mix, bitwiseXor left right = some mix ∧ mix.map List.length = left.map List.length := by
  refine ⟨_,if_pos same,?_⟩
  induction left generalizing right with
  | nil => rfl
  | cons row left ih =>
      cases right with
      | nil => simp at same
      | cons other right =>
          obtain ⟨here,there⟩ := List.cons.inj same
          simp only [List.zipWith_cons_cons,List.map_cons,List.length_zipWith,ih right there]
          congr 1
          omega

section
variable (m : NGramEmbedding) (contexts : Tokens) (shifted : List Tokens) (aligned : Aligned m contexts shifted)
include aligned

theorem product_aligned (pos : Nat) (inside : pos < m.ngramSize) :
    ∃ tokens, product shifted m.layerMultipliers pos = some tokens ∧
      tokens.map List.length = contexts.map List.length := by
  have first : pos < shifted.length := by rw [aligned.1]; exact inside
  have second : pos < m.layerMultipliers.length := by rw [m.multipliersLength]; exact inside
  have shape := aligned.2 _ (List.getElem_mem first)
  unfold product
  rw [List.getElem?_eq_getElem first,List.getElem?_eq_getElem second]
  exact ⟨_,rfl,by simpa [Function.comp_def] using shape⟩

theorem mixSteps_aligned (rounds : List Nat) (inside : ∀ pos ∈ rounds, pos < m.ngramSize) (start : Tokens)
    (shape : start.map List.length = contexts.map List.length) :
    ∃ mix, rounds.foldlM (mixStep shifted m.layerMultipliers) start = some mix ∧
      mix.map List.length = contexts.map List.length := by
  induction rounds generalizing start with
  | nil => exact ⟨start,rfl,shape⟩
  | cons pos rest ih =>
      obtain ⟨tokens,here,width⟩ := product_aligned m contexts shifted aligned pos (inside pos (by simp))
      obtain ⟨next,mixed,kept⟩ := bitwiseXor_shape start tokens (shape.trans width.symm)
      have step : mixStep shifted m.layerMultipliers start pos = some next := by simp [mixStep,here,mixed]
      obtain ⟨mix,tail,last⟩ := ih (fun later member => inside later (List.mem_cons_of_mem _ member)) next
        (kept.trans shape)
      exact ⟨mix,by rw [List.foldlM_cons,step]; exact tail,last⟩

theorem mixTokens_aligned (ngram : Nat) (positive : 0 < ngram) (bound : ngram ≤ m.ngramSize) :
    ∃ mix, mixTokens shifted m.layerMultipliers ngram = some mix ∧
      mix.map List.length = contexts.map List.length := by
  obtain ⟨tokens,here,width⟩ := product_aligned m contexts shifted aligned 0 (by omega)
  obtain ⟨mix,ran,shape⟩ := mixSteps_aligned m contexts shifted aligned (List.range' 1 (ngram - 1)) (by
    intro pos member
    have span := List.mem_range'_1.mp member
    omega) tokens width
  exact ⟨mix,by simp [mixTokens,here,ran],shape⟩

end

theorem headIds_returns (sizes offsets mix : List Long) (filled : mix ≠ []) (positive : ∀ size ∈ sizes, 0 < size.toInt) :
    ∃ ids, headIds sizes offsets mix = some ids := by
  obtain ⟨rests,reduced,_⟩ := Tensors.mapM_returns (remainder (mix.getLast filled)) sizes fun size member =>
    (remainder_bounds _ size (positive size member)).imp fun _ parts => parts.1
  exact ⟨rests.zipWith (· + ·) offsets,by simp [headIds,List.getLast?_eq_some_getLast filled,reduced]⟩

theorem ngramBlock_returns (m : NGramEmbedding) (proper : ∀ column ∈ m.columns, Proper column) (contexts : Tokens)
    (filled : ∀ row ∈ contexts, row ≠ []) (shifted : List Tokens) (aligned : Aligned m contexts shifted)
    (ngram : Nat) (positive : 0 < ngram) (bound : ngram ≤ m.ngramSize) :
    ∃ block, ngramBlock m shifted ngram = some block ∧ block.length = contexts.length := by
  obtain ⟨mix,mixed,shape⟩ := mixTokens_aligned m contexts shifted aligned ngram positive bound
  have rows : ∀ row ∈ mix, row ≠ [] := by
    intro row member empty
    subst empty
    have zero : 0 ∈ contexts.map List.length := by
      rw [← shape]
      exact List.mem_map_of_mem member
    obtain ⟨context,old,length⟩ := List.mem_map.mp zero
    exact filled context old (List.length_eq_zero_iff.mp length)
  have sizes : ∀ size ∈ m.ngramHeadsVocabSizes, 0 < size.toInt := by
    intro size member
    obtain ⟨h,inside,rfl⟩ := List.mem_iff_getElem.mp member
    have other : h < m.ngramHeadsOffsets.length := by
      rw [m.offsetsLength,← m.sizesLength]
      exact inside
    have listed : (m.ngramHeadsVocabSizes[h],m.ngramHeadsOffsets[h]) ∈ m.columns :=
      List.mem_iff_getElem.mpr ⟨h,by simp [NGramEmbedding.columns]; omega,by simp [NGramEmbedding.columns]⟩
    exact (proper _ listed).1
  obtain ⟨block,mapped,length⟩ := Tensors.mapM_returns
    (headIds ((m.ngramHeadsVocabSizes.drop ((ngram - 2) * m.headsPerNgram)).take m.headsPerNgram)
      ((m.ngramHeadsOffsets.drop ((ngram - 2) * m.headsPerNgram)).take m.headsPerNgram)) mix
    fun row member => headIds_returns _ _ row (rows row member)
      fun size inside => sizes size (List.mem_of_mem_drop (List.mem_of_mem_take inside))
  have count := congrArg List.length shape
  rw [List.length_map,List.length_map] at count
  exact ⟨block,by simp [ngramBlock,mixed,mapped],length.trans count⟩

theorem joined_count (blocks : List Tokens) (rows : Tokens) (n : Nat) (first : rows.length = n)
    (same : ∀ block ∈ blocks, block.length = n) :
    (blocks.foldl (fun rows more => rows.zipWith (· ++ ·) more) rows).length = n := by
  induction blocks generalizing rows with
  | nil => exact first
  | cons block rest ih =>
      have here := same block (by simp)
      exact ih _ (by simp [first,here]) fun later member => same later (List.mem_cons_of_mem _ member)

theorem hashShifted_returns (m : NGramEmbedding) (proper : ∀ column ∈ m.columns, Proper column) (contexts : Tokens)
    (filled : ∀ row ∈ contexts, row ≠ []) (shifted : List Tokens) (aligned : Aligned m contexts shifted) :
    ∃ ids, hashShifted m shifted = some ids ∧ ids.length = contexts.length := by
  have each : ∀ ngram ∈ List.range' 2 (m.ngramSize - 1),
      ∃ block, ngramBlock m shifted ngram = some block ∧ block.length = contexts.length := by
    intro ngram member
    have span := List.mem_range'_1.mp member
    exact ngramBlock_returns m proper contexts filled shifted aligned ngram (by omega) (by omega)
  obtain ⟨blocks,mapped,count⟩ := Tensors.mapM_returns (ngramBlock m shifted) (List.range' 2 (m.ngramSize - 1))
    fun ngram member => (each ngram member).imp fun _ parts => parts.1
  have lengths : ∀ block ∈ blocks, block.length = contexts.length := by
    intro block member
    obtain ⟨ngram,inside,made⟩ := Tensors.mapM_member _ _ _ mapped block member
    obtain ⟨same,again,length⟩ := each ngram inside
    rw [made,Option.some_inj] at again
    rw [again,length]
  refine ⟨catColumns blocks,by simp [hashShifted,mapped],?_⟩
  have bound := m.ngramBound
  cases blocks with
  | nil => simp at count; omega
  | cons block rest =>
      exact joined_count rest block contexts.length (lengths block (by simp))
        fun later member => lengths later (List.mem_cons_of_mem _ member)

-- What the cache holds for these contexts is the contexts' own object with its own shifts.
def Coherent (m : NGramEmbedding) (cached : Option WindowCache) (contexts : Contexts) : Prop :=
  ∀ shifted, cachedShifts cached contexts = some shifted → shiftedTokens m contexts.rows = some shifted

theorem hashContexts_returns (fused : FusedHash) (m : NGramEmbedding) (agrees : fused.Agrees m)
    (proper : ∀ column ∈ m.columns, Proper column) (cached : Option WindowCache) (contexts : Contexts)
    (decodeSized : Bool) (coherent : Coherent m cached contexts) (filled : ∀ row ∈ contexts.rows, row ≠ []) :
    ∃ ids after, hashContexts fused m cached contexts decodeSized = some (ids,after) ∧
      ids.length = contexts.rows.length ∧ Coherent m after contexts := by
  obtain ⟨shifted,shifts,aligned⟩ := shiftedTokens_aligned m contexts.rows
  obtain ⟨ids,hashed,length⟩ := hashShifted_returns m proper contexts.rows filled shifted aligned
  unfold hashContexts
  by_cases fusing : (m.enablePleFusion && decodeSized && fused.canFuse m contexts.rows) = true
  · rw [if_pos fusing]
    simp only [Bool.and_eq_true] at fusing
    have unfused := agrees contexts.rows fusing.2
    simp only [unfusedIds,shifts,Option.bind_eq_bind,Option.bind_some,hashed,Option.some_inj] at unfused
    exact ⟨_,cached,rfl,by rw [← unfused,length],coherent⟩
  · rw [if_neg fusing]
    cases known : cachedShifts cached contexts with
    | some found =>
        have same := coherent found known
        rw [shifts,Option.some_inj] at same
        subst same
        exact ⟨ids,cached,by simp [aligned.1,hashed],length,coherent⟩
    | none =>
        refine ⟨ids,_,by simp only [shifts,Option.bind_eq_bind,Option.bind_some,hashed]; rfl,length,?_⟩
        intro found again
        cases cached with
        | none => simp [cachedShifts] at again
        | some entry =>
            by_cases same : entry.contexts.tag = contexts.tag
            · simp [cachedShifts,same] at again
              rw [← again]
              exact shifts
            · simp [cachedShifts,same] at again

end OneSpark.NGramIds
