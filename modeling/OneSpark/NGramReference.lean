import OneSpark.NGramIds
import OneSpark.Windows

namespace OneSpark.NGramReference
open Longs NGramIds

theorem maximum_le (values : List Int) (start bound : Int) :
    values.foldl max start ≤ bound ↔ start ≤ bound ∧ ∀ value ∈ values, value ≤ bound := by
  induction values generalizing start with
  | nil => simp
  | cons first rest ih =>
      rw [List.foldl_cons,ih,List.forall_mem_cons,Int.max_le,and_assoc]

theorem previous_le (values : List Int) (i : Nat) (inside : i < values.length) (bound : Int) (low : -1 ≤ bound) :
    ∃ value, (-1 :: (cummax values).dropLast)[i]? = some value ∧
      (value ≤ bound ↔ ∀ k < i, values.getD k (-1) ≤ bound) := by
  cases i with
  | zero => exact ⟨-1,rfl,by simpa using low⟩
  | succ i =>
      cases values with
      | nil => simp at inside
      | cons first rest =>
          rw [List.length_cons] at inside
          refine ⟨(rest.take i).foldl max first,?_,?_⟩
          · rw [List.getElem?_cons_succ,cummax,List.getElem?_dropLast,List.length_scanl,if_pos (by omega),
              List.getElem?_eq_getElem (by rw [List.length_scanl]; omega),List.getElem_scanl]
          · rw [maximum_le]
            constructor
            · rintro ⟨here,later⟩ k below
              cases k with
              | zero => simpa using here
              | succ k =>
                  have inner : k < rest.length := by omega
                  have member : rest[k] ∈ rest.take i :=
                    List.mem_take_iff_getElem.mpr ⟨k,by omega,rfl⟩
                  simpa [inner] using later _ member
            · intro all
              refine ⟨by simpa using all 0 (by omega),?_⟩
              intro value member
              obtain ⟨k,below,rfl⟩ := List.mem_take_iff_getElem.mp member
              have here := all (k + 1) (by omega)
              simpa [show k < rest.length by omega] using here

theorem mask_read (previous : List Int) (length n i : Nat) (inside : i < length) (value : Int)
    (found : previous[i]? = some value) :
    (((List.range length).zipWith (fun (i : Nat) (start : Int) => (i : Int) - start) (previous.map (· + 1))).zipWith
      (fun (position : Int) (i : Nat) => decide (position ≥ n ∧ (i : Int) - n ≥ 0)) (List.range length))[i]? =
        some (decide ((i : Int) - (value + 1) ≥ n ∧ (i : Int) - n ≥ 0)) := by
  rw [List.getElem?_zipWith,List.getElem?_zipWith,List.getElem?_map,found,List.getElem?_range inside]
  rfl

theorem eos_before (eos : Long) (window : List Long) (n : Nat) (inside : n < window.length) :
    (∀ k < window.length - 1, (window.zipWith (fun token (i : Nat) => if token = eos then (i : Int) else -1)
      (List.range window.length)).getD k (-1) ≤ (window.length : Int) - 2 - n) ↔
        eos ∉ window.dropLast.drop (window.length - 1 - n) := by
  have value : ∀ k (below : k < window.length), (window.zipWith (fun token (i : Nat) =>
      if token = eos then (i : Int) else -1) (List.range window.length)).getD k (-1) =
        if window[k] = eos then (k : Int) else -1 := by
    intro k below
    simp [below]
  constructor
  · intro all member
    obtain ⟨k,bound,same⟩ := List.mem_drop_iff_getElem.mp member
    rw [List.length_dropLast] at bound
    have here := all (window.length - 1 - n + k) (by omega)
    rw [value _ (by omega)] at here
    rw [List.getElem_dropLast] at same
    rw [if_pos same] at here
    omega
  · intro absent k below
    rw [value k (by omega)]
    split
    · rename_i same
      by_contra late
      apply absent
      apply List.mem_drop_iff_getElem.mpr
      refine ⟨k - (window.length - 1 - n),by rw [List.length_dropLast]; omega,?_⟩
      rw [List.getElem_dropLast]
      simpa [show window.length - 1 - n + (k - (window.length - 1 - n)) = k by omega] using same
    · omega

-- The token `n` places before the last one of a window, EOS when a segment ends in between.
def placeInWindow (eos : Long) (window : List Long) (n : Nat) : Long :=
  if eos ∈ window.dropLast.drop (window.length - 1 - n) then eos else window.getD (window.length - 1 - n) eos

theorem shift_last (eos : Long) (window : List Long) (n : Nat) (inside : n < window.length) (out : List Long)
    (ran : shiftRightIgnoreEos eos window n = some out) : out.getLast? = some (placeInWindow eos window n) := by
  obtain ⟨same,again,length⟩ := shiftRight_length eos window n
  rw [ran,Option.some_inj] at again
  subst again
  rw [List.getLast?_eq_getElem?,length]
  unfold shiftRightIgnoreEos at ran
  unfold placeInWindow
  split at ran
  · rename_i unshifted
    cases ran
    rw [unshifted,Nat.sub_zero,List.drop_of_length_le (by simp),if_neg (by simp)]
    simp [show window.length - 1 < window.length by omega]
  · have gathered := Tensors.gather_found window ((List.range window.length).map (· - n)) (window.getD · eos) (by
      intro i member
      obtain ⟨j,below,rfl⟩ := List.mem_map.mp member
      have bound := List.mem_range.mp below
      simp [List.getElem?_eq_getElem (show j - n < window.length by omega)])
    simp only [gathered,Option.bind_eq_bind,Option.bind_some,Option.pure_def,Option.some_inj] at ran
    subst ran
    obtain ⟨previous,found,segment⟩ := previous_le (window.zipWith (fun token (i : Nat) =>
      if token = eos then (i : Int) else -1) (List.range window.length)) (window.length - 1) (by simp; omega)
      ((window.length : Int) - 2 - n) (by omega)
    rw [eos_before eos window n inside] at segment
    have last : window.length - 1 < window.length := by omega
    have marked := mask_read _ window.length n (window.length - 1) last previous found
    have shifted : (((List.range window.length).map (· - n)).map (window.getD · eos))[window.length - 1]? =
        some (window.getD (window.length - 1 - n) eos) := by simp [last]
    have filled : (window.map fun _ => eos)[window.length - 1]? = some eos := by simp [last]
    rw [Tensors.select_read _ _ _ _ _ _ _ marked shifted filled]
    by_cases ended : eos ∈ window.dropLast.drop (window.length - 1 - n)
    · have crossed : ¬ previous ≤ (window.length : Int) - 2 - n := fun low => segment.mp low ended
      rw [if_pos ended,decide_eq_false (by omega)]
      rfl
    · have free := segment.mpr ended
      rw [if_neg ended,decide_eq_true (by omega)]
      rfl

-- The token `j` places back in a request's own history, whose last token is the current
-- one: EOS when that token does not exist or a segment ended in between.
def placesBack (eos : Long) (history : List Long) (j : Nat) : Long :=
  if j < history.length ∧ eos ∉ history.dropLast.drop (history.length - 1 - j) then
    history.getD (history.length - 1 - j) eos
  else eos

-- A window over a history that began as all EOS holds every place it is long enough for.
theorem window_place (eos : Long) (width : Nat) (history : List Long) (filled : history ≠ []) (j : Nat)
    (inside : j < width) :
    placeInWindow eos (Windows.recent width (List.replicate (width - 1) eos ++ history)) j =
      placesBack eos history j := by
  have positive := List.length_pos_iff.mpr filled
  have long : width ≤ (List.replicate (width - 1) eos ++ history).length := by
    rw [List.length_append,List.length_replicate]
    omega
  have length := Windows.recent_length width _ long
  have window : Windows.recent width (List.replicate (width - 1) eos ++ history) =
      (List.replicate (width - 1) eos ++ history).drop (history.length - 1) := by
    rw [Windows.recent,List.length_append,List.length_replicate]
    congr 1
    omega
  unfold placeInWindow placesBack
  rw [length,window]
  by_cases present : j < history.length
  · have tail : (List.replicate (width - 1) eos ++ history).drop (history.length - 1 + (width - 1 - j)) =
        history.drop (history.length - 1 - j) := by
      rw [List.drop_append,List.length_replicate,List.drop_of_length_le (by rw [List.length_replicate]; omega),
        List.nil_append]
      congr 1
      omega
    have before : (((List.replicate (width - 1) eos ++ history).drop (history.length - 1)).dropLast).drop
        (width - 1 - j) = history.dropLast.drop (history.length - 1 - j) := by
      rw [List.dropLast_eq_take,List.dropLast_eq_take,List.drop_take,List.drop_take,List.drop_drop,tail]
      congr 1
      rw [List.length_drop,List.length_append,List.length_replicate]
      omega
    have token : ((List.replicate (width - 1) eos ++ history).drop (history.length - 1)).getD (width - 1 - j) eos =
        history.getD (history.length - 1 - j) eos := by
      rw [List.getD_eq_getElem?_getD,List.getElem?_drop,List.getElem?_append_right
        (by rw [List.length_replicate]; omega),List.length_replicate,List.getD_eq_getElem?_getD]
      congr 2
      omega
    rw [before,token]
    by_cases ended : eos ∈ history.dropLast.drop (history.length - 1 - j)
    · rw [if_pos ended,if_neg fun parts => parts.2 ended]
    · rw [if_neg ended,if_pos ⟨present,ended⟩]
  · have missing : ((List.replicate (width - 1) eos ++ history).drop (history.length - 1)).getD (width - 1 - j) eos =
        eos := by
      rw [List.getD_eq_getElem?_getD,List.getElem?_drop,List.getElem?_append_left
        (by rw [List.length_replicate]; omega)]
      simp [show history.length - 1 + (width - 1 - j) < width - 1 by omega]
    have unreached : ¬ (j < history.length ∧ eos ∉ history.dropLast.drop (history.length - 1 - j)) :=
      fun parts => present parts.1
    rw [missing,ite_self,if_neg unreached]

-- The n-gram mix of a history: the exclusive or of its last n places, each times its multiplier.
def referenceMix (m : NGramEmbedding) (history : List Long) (ngram : Nat) : Long :=
  ((List.range ngram).map fun j => placesBack m.eosTokenId history j * m.layerMultipliers.getD j 0).foldl (· ^^^ ·) 0

def referenceHead (m : NGramEmbedding) (mix : Long) (column : Nat) : Option Long := do
  let size ← m.ngramHeadsVocabSizes[column]?
  let offset ← m.ngramHeadsOffsets[column]?
  let rest ← remainder mix size
  return rest + offset

def referenceHeads (m : NGramEmbedding) (mix : Long) (ngram : Nat) : Option (List Long) :=
  (List.range m.headsPerNgram).mapM fun head => referenceHead m mix ((ngram - 2) * m.headsPerNgram + head)

-- The ids of a history's current token, as a function of the history alone.
def referenceIds (m : NGramEmbedding) (history : List Long) : Option (List Long) := do
  let blocks ← (List.range' 2 (m.ngramSize - 1)).mapM fun ngram =>
    referenceHeads m (referenceMix m history ngram) ngram
  return blocks.flatten

section
variable (m : NGramEmbedding)

def shiftRow (row : List Long) (pos : Nat) : List Long := (shiftRightIgnoreEos m.eosTokenId row pos).getD []

def scaledRow (row : List Long) (pos : Nat) : List Long :=
  (shiftRow m row pos).map (· * m.layerMultipliers.getD pos 0)

def mixRow (row : List Long) (ngram : Nat) : List Long :=
  (List.range' 1 (ngram - 1)).foldl (fun mix pos => mix.zipWith (· ^^^ ·) (scaledRow m row pos)) (scaledRow m row 0)

theorem shiftRow_exact (row : List Long) (pos : Nat) :
    shiftRightIgnoreEos m.eosTokenId row pos = some (shiftRow m row pos) ∧
      (shiftRow m row pos).length = row.length := by
  obtain ⟨out,ran,length⟩ := shiftRight_length m.eosTokenId row pos
  have same : shiftRow m row pos = out := by rw [shiftRow,ran,Option.getD_some]
  exact ⟨by rw [same,ran],by rw [same,length]⟩

theorem scaledRow_length (row : List Long) (pos : Nat) : (scaledRow m row pos).length = row.length := by
  rw [scaledRow,List.length_map,(shiftRow_exact m row pos).2]

theorem shiftedTokens_rows (contexts : Tokens) :
    shiftedTokens m contexts = some ((List.range m.ngramSize).map fun pos => contexts.map (shiftRow m · pos)) := by
  have shifts := Tensors.mapM_found (fun shift => contexts.mapM fun row => shiftRightIgnoreEos m.eosTokenId row shift)
    (fun shift => contexts.map (shiftRow m · shift)) (List.range' 1 (m.ngramSize - 1)) fun shift _ =>
      Tensors.mapM_found _ _ contexts fun row _ => (shiftRow_exact m row shift).1
  have bound := m.ngramBound
  have unshifted : contexts.map (shiftRow m · 0) = contexts := by
    have each : (fun row => shiftRow m row 0) = id := by
      funext row
      simp [shiftRow,shiftRightIgnoreEos]
    rw [each,List.map_id]
  obtain ⟨rounds,more⟩ : ∃ rounds, m.ngramSize = rounds + 1 := ⟨m.ngramSize - 1,by omega⟩
  rw [shiftedTokens,shifts,more,List.range_eq_range',List.range'_succ,List.map_cons,unshifted]
  rfl

theorem product_rows (contexts : Tokens) (pos : Nat) (inside : pos < m.ngramSize) :
    product ((List.range m.ngramSize).map fun pos => contexts.map (shiftRow m · pos)) m.layerMultipliers pos =
      some (contexts.map (scaledRow m · pos)) := by
  have second : pos < m.layerMultipliers.length := by rw [m.multipliersLength]; exact inside
  simp [product,inside,second,scaledRow,Function.comp_def]

theorem bitwiseXor_rows (contexts : Tokens) (left right : List Long → List Long)
    (same : ∀ row, (left row).length = (right row).length) :
    bitwiseXor (contexts.map left) (contexts.map right) =
      some (contexts.map fun row => (left row).zipWith (· ^^^ ·) (right row)) := by
  unfold bitwiseXor
  rw [if_pos (by simp [Function.comp_def,same]),List.zipWith_map,List.zipWith_self]

theorem mixTokens_rows (contexts : Tokens) (ngram : Nat) (positive : 0 < ngram) (bound : ngram ≤ m.ngramSize) :
    mixTokens ((List.range m.ngramSize).map fun pos => contexts.map (shiftRow m · pos)) m.layerMultipliers ngram =
      some (contexts.map (mixRow m · ngram)) := by
  have steps : ∀ (rounds : List Nat), (∀ pos ∈ rounds, pos < m.ngramSize) → ∀ start : List Long → List Long,
      (∀ row, (start row).length = row.length) →
      rounds.foldlM (mixStep ((List.range m.ngramSize).map fun pos => contexts.map (shiftRow m · pos))
        m.layerMultipliers) (contexts.map start) = some (contexts.map fun row =>
          rounds.foldl (fun mix pos => mix.zipWith (· ^^^ ·) (scaledRow m row pos)) (start row)) := by
    intro rounds
    induction rounds with
    | nil =>
        intro _ start _
        rfl
    | cons pos rest ih =>
        intro inside start length
        have step : mixStep ((List.range m.ngramSize).map fun pos => contexts.map (shiftRow m · pos))
            m.layerMultipliers (contexts.map start) pos =
              some (contexts.map fun row => (start row).zipWith (· ^^^ ·) (scaledRow m row pos)) := by
          rw [mixStep,product_rows m contexts pos (inside pos (by simp))]
          exact bitwiseXor_rows contexts start (scaledRow m · pos) fun row => by rw [length,scaledRow_length]
        rw [List.foldlM_cons,step]
        exact ih (fun later member => inside later (List.mem_cons_of_mem _ member)) _ fun row => by
          rw [List.length_zipWith,length,scaledRow_length,Nat.min_self]
  rw [mixTokens,product_rows m contexts 0 (by omega)]
  exact steps (List.range' 1 (ngram - 1)) (fun pos member => by
    have span := List.mem_range'_1.mp member
    omega) (scaledRow m · 0) fun row => scaledRow_length m row 0

def windowMix (window : List Long) (ngram : Nat) : Long :=
  ((List.range ngram).map fun j => placeInWindow m.eosTokenId window j * m.layerMultipliers.getD j 0).foldl (· ^^^ ·) 0

theorem scaledRow_last (row : List Long) (pos : Nat) (inside : pos < row.length) :
    (scaledRow m row pos).getLast? = some (placeInWindow m.eosTokenId row pos * m.layerMultipliers.getD pos 0) := by
  rw [scaledRow,List.getLast?_map,shift_last m.eosTokenId row pos inside _ (shiftRow_exact m row pos).1,Option.map_some]

omit m in
theorem zip_last (f : α → α → α) (left right : List α) (same : left.length = right.length) (a b : α)
    (first : left.getLast? = some a) (second : right.getLast? = some b) :
    (left.zipWith f right).getLast? = some (f a b) := by
  rw [List.getLast?_eq_getElem?] at first second ⊢
  rw [List.length_zipWith,List.getElem?_zipWith,← same,Nat.min_self,first,same,second]

theorem mixRow_last (row : List Long) (ngram : Nat) (positive : 0 < ngram) (bound : ngram ≤ row.length) :
    (mixRow m row ngram).getLast? = some (windowMix m row ngram) := by
  have steps : ∀ (rounds : List Nat), (∀ pos ∈ rounds, pos < row.length) → ∀ (start : List Long) (mix : Long),
      start.length = row.length → start.getLast? = some mix →
      (rounds.foldl (fun mix pos => mix.zipWith (· ^^^ ·) (scaledRow m row pos)) start).getLast? =
        some ((rounds.map fun j => placeInWindow m.eosTokenId row j * m.layerMultipliers.getD j 0).foldl
          (· ^^^ ·) mix) := by
    intro rounds
    induction rounds with
    | nil => exact fun _ _ _ _ last => last
    | cons pos rest ih =>
        intro inside start mix length last
        have next := scaledRow_last m row pos (inside pos (by simp))
        exact ih (fun later member => inside later (List.mem_cons_of_mem _ member)) _ _
          (by rw [List.length_zipWith,length,scaledRow_length,Nat.min_self])
          (zip_last (· ^^^ ·) start _ (by rw [length,scaledRow_length]) _ _ last next)
  have first := scaledRow_last m row 0 (by omega)
  obtain ⟨rounds,more⟩ : ∃ rounds, ngram = rounds + 1 := ⟨ngram - 1,by omega⟩
  rw [mixRow,steps _ (fun pos member => by
    have span := List.mem_range'_1.mp member
    omega) _ _ (scaledRow_length m row 0) first,windowMix,more,List.range_eq_range',List.range'_succ]
  simp

theorem headIds_reference (ngram : Nat) (low : 2 ≤ ngram) (high : ngram ≤ m.ngramSize) (mix ids : List Long)
    (last : Long) (ends : mix.getLast? = some last)
    (ran : headIds ((m.ngramHeadsVocabSizes.drop ((ngram - 2) * m.headsPerNgram)).take m.headsPerNgram)
      ((m.ngramHeadsOffsets.drop ((ngram - 2) * m.headsPerNgram)).take m.headsPerNgram) mix = some ids) :
    referenceHeads m last ngram = some ids := by
  have sizes := m.sizesLength
  have offsets := m.offsetsLength
  have span : (ngram - 2) * m.headsPerNgram + m.headsPerNgram ≤ (m.ngramSize - 1) * m.headsPerNgram := by
    rw [← Nat.succ_mul]
    exact Nat.mul_le_mul_right _ (by omega)
  unfold headIds at ran
  rw [ends] at ran
  simp only [Option.bind_eq_bind,Option.bind_some,Option.bind_eq_some_iff,Option.pure_def,Option.some_inj] at ran
  obtain ⟨rests,reduced,rfl⟩ := ran
  have count := (Tensors.mapM_parts _ _ _ reduced).length_eq
  rw [List.length_take,List.length_drop] at count
  have length : (rests.zipWith (· + ·) ((m.ngramHeadsOffsets.drop ((ngram - 2) * m.headsPerNgram)).take
      m.headsPerNgram)).length = m.headsPerNgram := by
    rw [List.length_zipWith,List.length_take,List.length_drop]
    omega
  have each := Tensors.mapM_range (fun head => referenceHead m last ((ngram - 2) * m.headsPerNgram + head)) _ (by
    intro head inside
    rw [length] at inside
    have size : (ngram - 2) * m.headsPerNgram + head < m.ngramHeadsVocabSizes.length := by omega
    have offset : (ngram - 2) * m.headsPerNgram + head < m.ngramHeadsOffsets.length := by omega
    have sliced : ((m.ngramHeadsVocabSizes.drop ((ngram - 2) * m.headsPerNgram)).take m.headsPerNgram)[head]? =
        some m.ngramHeadsVocabSizes[(ngram - 2) * m.headsPerNgram + head] := by
      rw [List.getElem?_take_of_lt inside,List.getElem?_drop,List.getElem?_eq_getElem size]
    have read := Tensors.mapM_read _ _ _ reduced head _ sliced
    have bound : head < rests.length := by omega
    rw [List.getElem?_eq_getElem bound] at read
    simp only [referenceHead,List.getElem?_eq_getElem size,List.getElem?_eq_getElem offset,Option.bind_eq_bind,
      Option.bind_some,← read,Option.pure_def,List.getElem?_zipWith,List.getElem?_eq_getElem bound,
      List.getElem?_take_of_lt inside,List.getElem?_drop])
  rw [length] at each
  exact each

theorem ngramBlock_row (contexts : Tokens) (ngram : Nat) (low : 2 ≤ ngram) (high : ngram ≤ m.ngramSize) (block : Tokens)
    (ran : ngramBlock m ((List.range m.ngramSize).map fun pos => contexts.map (shiftRow m · pos)) ngram = some block)
    (i : Nat) (row : List Long) (here : contexts[i]? = some row) (wide : m.ngramSize ≤ row.length) :
    ∃ ids, block[i]? = some ids ∧ referenceHeads m (windowMix m row ngram) ngram = some ids := by
  unfold ngramBlock at ran
  rw [mixTokens_rows m contexts ngram (by omega) high] at ran
  simp only [Option.bind_eq_bind,Option.bind_some] at ran
  have read := Tensors.mapM_read _ _ _ ran i (mixRow m row ngram) (by rw [List.getElem?_map,here,Option.map_some])
  have length := (Tensors.mapM_parts _ _ _ ran).length_eq
  rw [List.length_map] at length
  obtain ⟨inside,_⟩ := List.getElem?_eq_some_iff.mp here
  have bound : i < block.length := by omega
  rw [List.getElem?_eq_getElem bound] at read
  exact ⟨block[i],List.getElem?_eq_getElem bound,headIds_reference m ngram low high _ _ _
    (mixRow_last m row ngram (by omega) (by omega)) read.symm⟩

omit m in
theorem joined_row (blocks : List Tokens) (i : Nat) (read : Tokens → List Long)
    (found : ∀ block ∈ blocks, block[i]? = some (read block)) (rows : Tokens) (first : List Long)
    (here : rows[i]? = some first) :
    (blocks.foldl (fun rows more => rows.zipWith (· ++ ·) more) rows)[i]? =
      some (first ++ (blocks.map read).flatten) := by
  induction blocks generalizing rows first with
  | nil => simpa using here
  | cons block rest ih =>
      have next := found block (by simp)
      rw [List.foldl_cons,ih (fun later member => found later (List.mem_cons_of_mem _ member)) _ (first ++ read block)
        (by rw [List.getElem?_zipWith,here,next]),List.map_cons,List.flatten_cons,List.append_assoc]

def windowIds (window : List Long) : Option (List Long) := do
  let blocks ← (List.range' 2 (m.ngramSize - 1)).mapM fun ngram => referenceHeads m (windowMix m window ngram) ngram
  return blocks.flatten

theorem unfusedIds_row (contexts ids : Tokens) (ran : unfusedIds m contexts = some ids) (i : Nat) (row : List Long)
    (here : contexts[i]? = some row) (wide : m.ngramSize ≤ row.length) :
    ∃ out, ids[i]? = some out ∧ windowIds m row = some out := by
  unfold unfusedIds at ran
  rw [shiftedTokens_rows] at ran
  simp only [hashShifted,Option.bind_eq_bind,Option.bind_some,Option.bind_eq_some_iff,Option.pure_def,
    Option.some_inj] at ran
  obtain ⟨blocks,mapped,rfl⟩ := ran
  have parts := Tensors.mapM_parts _ _ _ mapped
  have bound := m.ngramBound
  have rows : ∀ block ∈ blocks, block[i]? = some (block.getD i []) := by
    intro block member
    obtain ⟨ngram,inside,made⟩ := Tensors.mapM_member _ _ _ mapped block member
    have span := List.mem_range'_1.mp inside
    obtain ⟨ids,read,_⟩ := ngramBlock_row m contexts ngram (by omega) (by omega) block made i row here wide
    rw [List.getD_eq_getElem?_getD,read,Option.getD_some]
  have inside : ∀ ngram ∈ List.range' 2 (m.ngramSize - 1), 2 ≤ ngram ∧ ngram ≤ m.ngramSize := by
    intro ngram member
    have span := List.mem_range'_1.mp member
    omega
  have heads : List.Forall₂ (fun ngram ids => referenceHeads m (windowMix m row ngram) ngram = some ids)
      (List.range' 2 (m.ngramSize - 1)) (blocks.map fun block => block.getD i []) := by
    rw [List.forall₂_map_right_iff]
    clear mapped rows
    generalize List.range' 2 (m.ngramSize - 1) = rounds at parts inside
    induction parts with
    | nil => exact .nil
    | @cons ngram block ngrams blocks made _ ih =>
        obtain ⟨low,high⟩ := inside ngram (by simp)
        obtain ⟨ids,read,reference⟩ := ngramBlock_row m contexts ngram low high block made i row here wide
        refine .cons ?_ (ih fun later member => inside later (List.mem_cons_of_mem _ member))
        rw [List.getD_eq_getElem?_getD,read,Option.getD_some]
        exact reference
  refine ⟨(blocks.map fun block => block.getD i []).flatten,?_,by rw [windowIds,Tensors.mapM_joined _ _ _ heads]; rfl⟩
  cases blocks with
  | nil =>
      have none := parts.length_eq
      rw [List.length_range',List.length_nil] at none
      omega
  | cons block rest =>
      have first := rows block (by simp)
      exact joined_row rest i (fun block => block.getD i []) (fun later member =>
        rows later (List.mem_cons_of_mem _ member)) block (block.getD i []) first

theorem windowIds_reference (history : List Long) (filled : history ≠ []) :
    windowIds m (Windows.recent m.ngramSize (List.replicate (m.ngramSize - 1) m.eosTokenId ++ history)) =
      referenceIds m history := by
  have mixes : ∀ ngram ∈ List.range' 2 (m.ngramSize - 1),
      windowMix m (Windows.recent m.ngramSize (List.replicate (m.ngramSize - 1) m.eosTokenId ++ history)) ngram =
        referenceMix m history ngram := by
    intro ngram member
    have span := List.mem_range'_1.mp member
    unfold windowMix referenceMix
    congr 1
    apply List.map_congr_left
    intro j inside
    have below := List.mem_range.mp inside
    rw [window_place m.eosTokenId m.ngramSize history filled j (by omega)]
  unfold windowIds referenceIds
  rw [Tensors.mapM_agreed _ _ _ fun ngram member => by rw [mixes ngram member]]

end

end OneSpark.NGramReference
