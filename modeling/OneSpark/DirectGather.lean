import OneSpark.WritePlan

namespace OneSpark.DirectGather
open Tensors WritePlan

def collect (f : Fin n → Option α) : Option (Fin n → α) :=
  if all : ∀ i, (f i).isSome then some fun i => (f i).get (all i) else none

theorem collect_exact (f : Fin n → Option α) (out : Fin n → α) : collect f = some out ↔ ∀ i, f i = some (out i) := by
  unfold collect
  split
  · rename_i all
    rw [Option.some_inj]
    constructor
    · rintro rfl i
      exact (Option.some_get _).symm
    · intro found
      funext i
      exact Option.get_of_eq_some _ (found i)
  · rename_i missing
    constructor
    · intro impossible
      cases impossible
    · intro found
      exact absurd (fun i => by rw [found i]; rfl) missing

theorem collect_returns (f : Fin n → Option α) (each : ∀ i, ∃ value, f i = some value) : ∃ out, collect f = some out := by
  choose out found using each
  exact ⟨out,(collect_exact f out).mpr found⟩

-- Row-major: two neighbouring axes read as one, and one as two.
def merge (t : Fin a → Fin b → γ) : Fin (a * b) → γ := fun i => t i.divNat i.modNat
def split (t : Fin (a * b) → γ) : Fin a → Fin b → γ := fun i j => t (finProdFinEquiv (i,j))

theorem split_merge (t : Fin a → Fin b → γ) : split (merge t) = t := by
  funext i j
  have parts := finProdFinEquiv.symm_apply_apply (i,j)
  exact congrArg (fun place : Fin a × Fin b => t place.1 place.2) parts

theorem merge_split (t : Fin (a * b) → γ) : merge (split t) = t := by
  funext i
  exact congrArg t (finProdFinEquiv.apply_symm_apply i)

section
variable {K : Type} [Field K]

def bmm (x : Fin n → Fin i → Fin j → K) (y : Fin n → Fin j → Fin k → K) : Fin n → Fin i → Fin k → K :=
  fun b r c => ∑ m, x b r m * y b m c

-- A masked score has no value; `weight` stands for exp.
def weightOf (weight : K → K) (score : Option K) : K := score.elim 0 weight

def softmax (weight : K → K) (scores : Fin n → Option K) : Fin n → K :=
  fun c => weightOf weight (scores c) / ∑ other, weightOf weight (scores other)

-- valid = (positions >= 0) & (positions < sequence_lens)
def valid (topkIndices : Fin batch → Fin topk → Int) (sequenceLens : Fin batch → Nat) (row : Fin batch) (col : Fin topk) :
    Bool := decide (0 ≤ topkIndices row col ∧ topkIndices row col < sequenceLens row)

-- req_to_token[req_pool_idx, positions.clamp_min(0)]
def gatherSlots (reqToToken : Table) (reqPoolIdx : Fin batch → Nat) (topkIndices : Fin batch → Fin topk → Int) :
    Option (Fin batch → Fin topk → Nat) :=
  collect fun row => collect fun col => reqToToken.slot (reqPoolIdx row) (max (topkIndices row col) 0)

-- The direct gather branch of _forward_paged_attention; the query has one row for each row of the
-- metadata and `heads * rep` heads.
def forwardPagedAttention (weight : K → K) (scaling : K) (q : Fin batch → Fin (heads * rep) → Fin dim → K)
    (kBuffer : List (Fin heads → Fin dim → K)) (vBuffer : List (Fin heads → Fin width → K)) (reqToToken : Table)
    (reqPoolIdx sequenceLens : Fin batch → Nat) (topkIndices : Fin batch → Fin topk → Int) :
    Option (Fin batch → Fin (heads * rep * width) → K) := do
  let slots ← gatherSlots reqToToken reqPoolIdx topkIndices
  let kG ← collect fun row => collect fun col => kBuffer[slots row col]?
  let vG ← collect fun row => collect fun col => vBuffer[slots row col]?
  let nvalid := fun row => (Finset.univ.filter fun col => valid topkIndices sequenceLens row col).card
  -- permute(0, 2, 3, 1) and permute(0, 2, 1, 3), batch and heads as one axis
  let kf := merge fun row head d col => kG row col head d
  let vf := merge fun row head col d => vG row col head d
  let qf := merge fun row => split (q row)
  let scores := split fun i r col => scaling * bmm qf kf i r col
  let masked := fun row head r col => if valid topkIndices sequenceLens row col then some (scores row head r col) else none
  let probs := merge fun row head r => softmax weight (masked row head r)
  let out := split (bmm probs vf)
  let perHead := fun row => merge (out row)
  let kept := fun row head d => if nvalid row > 0 then perHead row head d else 0
  return fun row => merge (kept row)

def total (weight : K → K) (columns : Finset ι) (score : ι → K) : K := ∑ col ∈ columns, weight (score col)
def weighted (weight : K → K) (columns : Finset ι) (score value : ι → K) : K :=
  (∑ col ∈ columns, weight (score col) * value col) / total weight columns score

theorem softmax_weighted (weight : K → K) (chosen : Fin n → Bool) (score value : Fin n → K) :
    ∑ col, softmax weight (fun c => if chosen c then some (score c) else none) col * value col =
      weighted weight (Finset.univ.filter fun col => chosen col) score value := by
  have each : ∀ col, weightOf weight (if chosen col then some (score col) else none) =
      if chosen col then weight (score col) else 0 := by
    intro col
    cases chosen col <;> rfl
  unfold softmax weighted total
  simp only [each]
  rw [Finset.sum_filter,Finset.sum_filter,Finset.sum_div]
  apply Finset.sum_congr rfl
  intro col _
  rw [div_mul_eq_mul_div]
  split
  · rfl
  · rw [zero_mul]

theorem head_read (x : Fin (batch * heads) → Fin rep → Fin n → K) (y : Fin (batch * heads) → Fin n → Fin width → K)
    (row : Fin batch) (head : Fin (heads * rep)) (d : Fin width) : merge (split (bmm x y) row) head d =
      ∑ m, split x row head.divNat head.modNat m * split y row head.divNat m d := rfl

theorem score_read (scaling : K) (x : Fin (batch * heads) → Fin rep → Fin dim → K)
    (y : Fin (batch * heads) → Fin dim → Fin topk → K) (row : Fin batch) (head : Fin heads) (r : Fin rep) (col : Fin topk) :
    split (fun i r col => scaling * bmm x y i r col) row head r col =
      scaling * ∑ d, split x row head r d * split y row head d col := rfl

def scoreOf (scaling : K) (query : Fin dim → K) (keys : Fin topk → Fin dim → K) (col : Fin topk) : K :=
  scaling * ∑ d, query d * keys col d

theorem read_rows (buffer : List γ) (slots : Fin batch → Fin topk → Nat)
    (held : ∀ row col, slots row col < buffer.length) : ∃ rows : Fin batch → Fin topk → γ,
      (collect fun row => collect fun col => buffer[slots row col]?) = some rows ∧
        ∀ row col, buffer[slots row col]? = some (rows row col) := by
  have read : ∀ row col, buffer[slots row col]? = some (buffer.get ⟨slots row col,held row col⟩) :=
    fun row col => List.getElem?_eq_getElem (held row col)
  refine ⟨fun row col => buffer.get ⟨slots row col,held row col⟩,?_,read⟩
  exact (collect_exact _ _).mpr fun row => (collect_exact _ _).mpr (read row)

theorem forward_read (weight : K → K) (scaling : K) (q : Fin batch → Fin (heads * rep) → Fin dim → K)
    (kBuffer : List (Fin heads → Fin dim → K)) (vBuffer : List (Fin heads → Fin width → K)) (reqToToken : Table)
    (reqPoolIdx sequenceLens : Fin batch → Nat) (topkIndices : Fin batch → Fin topk → Int)
    (slots : Fin batch → Fin topk → Nat) (gathered : gatherSlots reqToToken reqPoolIdx topkIndices = some slots)
    (keys : Fin batch → Fin topk → Fin heads → Fin dim → K) (values : Fin batch → Fin topk → Fin heads → Fin width → K)
    (readK : (collect fun row => collect fun col => kBuffer[slots row col]?) = some keys)
    (readV : (collect fun row => collect fun col => vBuffer[slots row col]?) = some values) :
    ∃ out, forwardPagedAttention weight scaling q kBuffer vBuffer reqToToken reqPoolIdx sequenceLens topkIndices = some out ∧
      ∀ row head d, split (out row) head d =
        if 0 < (Finset.univ.filter fun col => valid topkIndices sequenceLens row col).card then
          weighted weight (Finset.univ.filter fun col => valid topkIndices sequenceLens row col)
            (scoreOf scaling (q row head) fun col => keys row col head.divNat) (fun col => values row col head.divNat d)
        else 0 := by
  unfold forwardPagedAttention
  rw [gathered,Option.bind_eq_bind,Option.bind_some,readK,Option.bind_eq_bind,Option.bind_some,readV,Option.bind_eq_bind,
    Option.bind_some]
  refine ⟨_,rfl,?_⟩
  intro row head d
  have query : split (q row) head.divNat head.modNat = q row head := congrFun (merge_split (q row)) head
  simp only [gt_iff_lt,split_merge,head_read,score_read,query]
  congr 1
  exact softmax_weighted weight (valid topkIndices sequenceLens row)
    (scoreOf scaling (q row head) fun col => keys row col head.divNat) fun col => values row col head.divNat d

end

-- The CPU branch's slots: the token slot table read at the clamped index, -1 where the column is not valid.
def logicalToPhysical (logicalIndices : Fin rows → Fin topk → Int) (tokenToBatchIdx sequenceLengths : List Nat)
    (tokenSlotTable : Table) : Option (Fin rows → Fin topk → Int) := do
  if tokenToBatchIdx.length ≠ rows then none else
  let rowLengths ← gather sequenceLengths tokenToBatchIdx
  collect fun row => do
    let id ← tokenToBatchIdx[row.val]?
    let length ← rowLengths[row.val]?
    collect fun col => do
      let index := logicalIndices row col
      let safe := min (max index 0) (tokenSlotTable.width - 1)
      let slot ← tokenSlotTable.slot id safe
      return if 0 ≤ index ∧ index < length then (slot : Int) else -1

section
variable (reqToToken : Table) (reqPoolIdx sequenceLens : Fin batch → Nat) (topkIndices : Fin batch → Fin topk → Int)

theorem slots_read (slots : Fin batch → Fin topk → Nat)
    (gathered : gatherSlots reqToToken reqPoolIdx topkIndices = some slots) (row : Fin batch) (col : Fin topk) :
    reqToToken.slot (reqPoolIdx row) (max (topkIndices row col) 0) = some (slots row col) :=
  (collect_exact _ _).mp ((collect_exact _ _).mp gathered row) col

variable (maxLength : Nat) (table : Table) (taken : reqToToken.take (List.ofFn reqPoolIdx) maxLength = some table)
include taken

theorem taken_row (row : Fin batch) : table.rows[row.val]? = reqToToken.rows[reqPoolIdx row]? := by
  refine (take_parts reqToToken table _ maxLength taken).2 row.val (reqPoolIdx row) ?_
  rw [List.getElem?_ofFn,dif_pos row.isLt]

-- Where the table covers a row its column reads the slot the direct branch reads.
theorem physical_exact (slots : Fin batch → Fin topk → Nat)
    (gathered : gatherSlots reqToToken reqPoolIdx topkIndices = some slots) (covers : ∀ row, sequenceLens row ≤ table.width)
    (physical : Fin batch → Fin topk → Int)
    (ran : logicalToPhysical topkIndices (List.range batch) (List.ofFn sequenceLens) table = some physical)
    (row : Fin batch) (col : Fin topk) :
    physical row col = if valid topkIndices sequenceLens row col then (slots row col : Int) else -1 := by
  unfold logicalToPhysical at ran
  rw [if_neg (by simp)] at ran
  obtain ⟨rowLengths,lengths,ran⟩ := Option.bind_eq_some_iff.mp ran
  have atRow := (collect_exact _ _).mp ran row
  have place : (List.range batch)[row.val]? = some row.val := List.getElem?_range row.isLt
  have length : rowLengths[row.val]? = some (sequenceLens row) := by
    rw [mapM_read _ _ rowLengths lengths row.val row.val place,List.getElem?_ofFn,dif_pos row.isLt]
  rw [place,length,Option.bind_eq_bind,Option.bind_some,Option.bind_eq_bind,Option.bind_some] at atRow
  obtain ⟨slot,found,same⟩ := Option.bind_eq_some_iff.mp ((collect_exact _ _).mp atRow col)
  rw [← Option.some_inj.mp same]
  have direct := slots_read reqToToken reqPoolIdx topkIndices slots gathered row col
  by_cases counts : 0 ≤ topkIndices row col ∧ topkIndices row col < sequenceLens row
  · have bound := covers row
    obtain ⟨position,known⟩ := Int.eq_ofNat_of_zero_le counts.1
    have safe : min (max (topkIndices row col) 0) (table.width - 1) = (position : Int) := by omega
    have inside : position < table.width := by omega
    rw [safe,slot_column,if_pos inside,taken_row reqToToken reqPoolIdx maxLength table taken] at found
    rw [known,max_eq_left (by omega),slot_column] at direct
    rw [if_pos counts,if_pos (show valid topkIndices sequenceLens row col = true from decide_eq_true counts)]
    split at direct
    · rw [found,Option.some_inj] at direct
      rw [direct]
    · cases direct
  · rw [if_neg counts,if_neg]
    intro chosen
    exact counts (of_decide_eq_true chosen)

theorem physical_returns (requests : ∀ row, reqPoolIdx row < reqToToken.rows.length) (width : 0 < table.width) :
    ∃ physical, logicalToPhysical topkIndices (List.range batch) (List.ofFn sequenceLens) table = some physical := by
  have lengths : gather (List.ofFn sequenceLens) (List.range batch) = some (List.ofFn sequenceLens) :=
    gather_range _ List.length_ofFn
  unfold logicalToPhysical
  rw [if_neg (by simp),lengths,Option.bind_eq_bind,Option.bind_some]
  apply collect_returns
  intro row
  have place : (List.range batch)[row.val]? = some row.val := List.getElem?_range row.isLt
  have length : (List.ofFn sequenceLens)[row.val]? = some (sequenceLens row) := by
    rw [List.getElem?_ofFn,dif_pos row.isLt]
  rw [place,length,Option.bind_eq_bind,Option.bind_some,Option.bind_eq_bind,Option.bind_some]
  apply collect_returns
  intro col
  simp only
  obtain ⟨safe,known⟩ := Int.eq_ofNat_of_zero_le
    (show 0 ≤ min (max (topkIndices row col) 0) ((table.width : Int) - 1) by omega)
  have inside : safe < table.width := by omega
  rw [known,slot_column,if_pos inside,taken_row reqToToken reqPoolIdx maxLength table taken row,
    List.getElem?_eq_getElem (requests row)]
  exact ⟨_,rfl⟩

omit taken in
theorem slots_returns (requests : ∀ row, reqPoolIdx row < reqToToken.rows.length)
    (below : ∀ row col, max (topkIndices row col) 0 < reqToToken.width) :
    ∃ slots, gatherSlots reqToToken reqPoolIdx topkIndices = some slots := by
  apply collect_returns
  intro row
  apply collect_returns
  intro col
  obtain ⟨position,known⟩ := Int.eq_ofNat_of_zero_le (le_max_right (topkIndices row col) 0)
  have inside := below row col
  rw [known] at inside ⊢
  rw [slot_column,if_pos (by omega),List.getElem?_eq_getElem (requests row)]
  exact ⟨_,rfl⟩

omit taken in
theorem slots_held (slots : Fin batch → Fin topk → Nat) (gathered : gatherSlots reqToToken reqPoolIdx topkIndices = some slots)
    (size : Nat) (held : ∀ content ∈ reqToToken.rows, ∀ column < reqToToken.width, content column < size) (row : Fin batch)
    (col : Fin topk) : slots row col < size := by
  have read := slots_read reqToToken reqPoolIdx topkIndices slots gathered row col
  obtain ⟨position,known⟩ := Int.eq_ofNat_of_zero_le (le_max_right (topkIndices row col) 0)
  rw [known,slot_column] at read
  split at read
  · rename_i inside
    obtain ⟨content,found,same⟩ := Option.map_eq_some_iff.mp read
    exact same ▸ held content (List.mem_of_getElem? found) position inside
  · cases read

end

section
variable {K : Type} [Field K] [LinearOrder K] [IsStrictOrderedRing K]

-- Every head of every row is the weighted mean over exactly the row's valid columns, under its own
-- group's keys and values, and those columns are the ones the CPU branch has a slot for.
theorem direct_attends (weight : K → K) (positive : ∀ score, 0 < weight score) (scaling : K)
    (q : Fin batch → Fin (heads * rep) → Fin dim → K) (kBuffer : List (Fin heads → Fin dim → K))
    (vBuffer : List (Fin heads → Fin width → K)) (reqToToken : Table) (reqPoolIdx sequenceLens : Fin batch → Nat)
    (topkIndices : Fin batch → Fin topk → Int) (requests : ∀ row, reqPoolIdx row < reqToToken.rows.length)
    (below : ∀ row col, max (topkIndices row col) 0 < reqToToken.width)
    (held : ∀ content ∈ reqToToken.rows, ∀ column < reqToToken.width,
      content column < min kBuffer.length vBuffer.length) :
    ∃ (slots : Fin batch → Fin topk → Nat) (keys : Fin batch → Fin topk → Fin heads → Fin dim → K)
      (values : Fin batch → Fin topk → Fin heads → Fin width → K) (out : Fin batch → Fin (heads * rep * width) → K),
      gatherSlots reqToToken reqPoolIdx topkIndices = some slots ∧
      (∀ row col, kBuffer[slots row col]? = some (keys row col) ∧ vBuffer[slots row col]? = some (values row col)) ∧
      forwardPagedAttention weight scaling q kBuffer vBuffer reqToToken reqPoolIdx sequenceLens topkIndices = some out ∧
      (∀ row head d, let columns := Finset.univ.filter fun col => valid topkIndices sequenceLens row col
        let score := scoreOf scaling (q row head) fun col => keys row col head.divNat
        (columns.Nonempty → 0 < total weight columns score ∧
          split (out row) head d = weighted weight columns score fun col => values row col head.divNat d) ∧
        (columns = ∅ → split (out row) head d = 0)) ∧
      ∀ maxLength table, reqToToken.take (List.ofFn reqPoolIdx) maxLength = some table →
        (∀ row, sequenceLens row ≤ table.width) →
        (0 < table.width → ∃ physical,
          logicalToPhysical topkIndices (List.range batch) (List.ofFn sequenceLens) table = some physical) ∧
        ∀ physical, logicalToPhysical topkIndices (List.range batch) (List.ofFn sequenceLens) table = some physical →
          ∀ row col, physical row col = if valid topkIndices sequenceLens row col then (slots row col : Int) else -1 := by
  obtain ⟨slots,gathered⟩ := slots_returns reqToToken reqPoolIdx topkIndices requests below
  have inside := slots_held reqToToken reqPoolIdx topkIndices slots gathered _ held
  obtain ⟨keys,readK,atK⟩ := read_rows kBuffer slots fun row col => lt_of_lt_of_le (inside row col) (min_le_left _ _)
  obtain ⟨values,readV,atV⟩ := read_rows vBuffer slots fun row col => lt_of_lt_of_le (inside row col) (min_le_right _ _)
  obtain ⟨out,ran,read⟩ := forward_read weight scaling q kBuffer vBuffer reqToToken reqPoolIdx sequenceLens topkIndices
    slots gathered keys values readK readV
  refine ⟨slots,keys,values,out,gathered,fun row col => ⟨atK row col,atV row col⟩,ran,?_,?_⟩
  · intro row head d columns score
    constructor
    · intro some_column
      refine ⟨Finset.sum_pos (fun col _ => positive _) some_column,?_⟩
      rw [read row head d,if_pos some_column.card_pos]
    · intro none
      rw [read row head d,if_neg]
      rw [show (Finset.univ.filter fun col => valid topkIndices sequenceLens row col) = ∅ from none]
      simp
  · intro maxLength table taken covers
    exact ⟨physical_returns reqToToken reqPoolIdx sequenceLens topkIndices maxLength table taken requests,
      physical_exact reqToToken reqPoolIdx sequenceLens topkIndices maxLength table taken slots gathered covers⟩

end

-- One row of two keys behind a hole between them; two groups of two query heads.
def sampleSlots : Table := ⟨3,[fun column => column + 1]⟩

def sampleKeys : List (Fin 2 → Fin 1 → ℚ) := (List.range 4).map fun slot head _ => slot + 10 * head.val
def sampleValues : List (Fin 2 → Fin 1 → ℚ) := (List.range 4).map fun slot head _ => 100 * slot + head.val

theorem sample_attends : ∃ out, forwardPagedAttention (fun score : ℚ => score * score + 1) 1
      (fun (_ : Fin 1) (head : Fin (2 * 2)) (_ : Fin 1) => (head.val : ℚ)) sampleKeys sampleValues sampleSlots (fun _ => 0)
      (fun _ => 2) (fun _ => ![1,-1,0]) = some out ∧
    split (out 0) 2 0 = (577 * 201 + 485 * 101) / 1062 := by
  obtain ⟨slots,keys,values,out,gathered,rows,ran,read,_⟩ := direct_attends (fun score : ℚ => score * score + 1)
    (fun score => add_pos_of_nonneg_of_pos (mul_self_nonneg score) one_pos) 1
    (fun (_ : Fin 1) (head : Fin (2 * 2)) (_ : Fin 1) => (head.val : ℚ)) sampleKeys sampleValues sampleSlots (fun _ => 0)
      (fun _ => 2) (fun _ => ![1,-1,0]) (by decide) (by decide) (by decide)
  refine ⟨out,ran,((read 0 2 0).1 (by decide)).2.trans ?_⟩
  have known : slots = fun _ => ![2,1,1] := by
    cases gathered
    decide
  subst known
  have keyed : keys = fun row col head _ => ((![2,1,1] : Fin 3 → ℚ) col) + 10 * head.val := by
    funext row col
    exact Option.some_inj.mp ((rows row col).1.symm.trans (by match col with | 0 | 1 | 2 => rfl))
  have valued : values = fun row col head _ => 100 * ((![2,1,1] : Fin 3 → ℚ) col) + head.val := by
    funext row col
    exact Option.some_inj.mp ((rows row col).2.symm.trans (by match col with | 0 | 1 | 2 => rfl))
  subst keyed valued
  decide +kernel

end OneSpark.DirectGather
