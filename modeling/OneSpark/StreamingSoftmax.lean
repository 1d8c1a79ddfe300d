import Mathlib

namespace OneSpark.StreamingSoftmax

-- Exact numbers with the two infinities and NaN; zero has no sign.
inductive Extended (K : Type) where
  | neg
  | fin (value : K)
  | pos
  | nan
deriving DecidableEq, Repr

namespace Extended

def map (f : K → K) : Extended K → Extended K
  | .fin x => .fin (f x)
  | other => other

section
variable {K : Type} [Field K]

def add : Extended K → Extended K → Extended K
  | .nan,_ | _,.nan | .pos,.neg | .neg,.pos => .nan
  | .pos,_ | _,.pos => .pos
  | .neg,_ | _,.neg => .neg
  | .fin x,.fin y => .fin (x + y)

def negate : Extended K → Extended K
  | .neg => .pos
  | .fin x => .fin (-x)
  | .pos => .neg
  | .nan => .nan

def sub (x y : Extended K) : Extended K := add x (negate y)

def total : List (Extended K) → Extended K := List.foldr add (.fin 0)

@[simp] theorem add_fin (x y : K) : add (.fin x) (.fin y) = .fin (x + y) := rfl
@[simp] theorem nan_add (x : Extended K) : add .nan x = .nan := by cases x <;> rfl
@[simp] theorem add_nan (x : Extended K) : add x .nan = .nan := by cases x <;> rfl
@[simp] theorem sub_neg (x : K) : sub .neg (.fin x) = .neg := rfl
@[simp] theorem sub_fin (x y : K) : sub (.fin x) (.fin y) = .fin (x - y) := by
  rw [sub_eq_add_neg]
  rfl

end

section
variable {K : Type} [LinearOrder K]

-- A NaN gives way to the other operand.
def max : Extended K → Extended K → Extended K
  | .nan,y => y
  | x,.nan => x
  | .neg,y => y
  | x,.neg => x
  | .fin x,.fin y => .fin (Max.max x y)
  | _,_ => .pos

def highest : List (Extended K) → Extended K := List.foldr max .neg

@[simp] theorem max_fin (x y : K) : max (.fin x) (.fin y) = .fin (Max.max x y) := rfl
@[simp] theorem fin_max_neg (x : K) : max (.fin x) .neg = .fin x := rfl
@[simp] theorem neg_max_fin (x : K) : max .neg (.fin x) = .fin x := rfl

end

section
variable {K : Type} [Field K] [LinearOrder K]

-- An infinity times x, or x over zero.
def endless (x : K) : Extended K := if x = 0 then .nan else if 0 < x then .pos else .neg

def mul : Extended K → Extended K → Extended K
  | .nan,_ | _,.nan => .nan
  | .fin x,.fin y => .fin (x * y)
  | .pos,.pos | .neg,.neg => .pos
  | .pos,.neg | .neg,.pos => .neg
  | .pos,.fin x | .fin x,.pos => endless x
  | .neg,.fin x | .fin x,.neg => endless (-x)

def div : Extended K → Extended K → Extended K
  | .nan,_ | _,.nan => .nan
  | .fin x,.fin y => if y = 0 then endless x else .fin (x / y)
  | .fin _,_ => .fin 0
  | .pos,.fin y => if y < 0 then .neg else .pos
  | .neg,.fin y => if y < 0 then .pos else .neg
  | _,_ => .nan

@[simp] theorem mul_fin (x y : K) : mul (.fin x) (.fin y) = .fin (x * y) := rfl
@[simp] theorem nan_mul (x : Extended K) : mul .nan x = .nan := by cases x <;> rfl
@[simp] theorem mul_nan (x : Extended K) : mul x .nan = .nan := by cases x <;> rfl
@[simp] theorem nan_div (x : Extended K) : div .nan x = .nan := by cases x <;> rfl
theorem div_fin (x y : K) (nonzero : y ≠ 0) : div (.fin x) (.fin y) = .fin (x / y) := if_neg nonzero
theorem div_none : div (.fin 0) (.fin 0) = (.nan : Extended K) := by
  rw [div,if_pos rfl,endless,if_pos rfl]

end

end Extended

structure Exponential (K : Type) [Field K] [LinearOrder K] where
  power : K → K
  positive : ∀ x, 0 < power x
  power_add : ∀ x y, power (x + y) = power x * power y
  mono : Monotone power

-- One column: its score, none where it is masked, and its row of values.
structure Column (K ι : Type) where
  score : Option K
  value : ι → K

def Column.scored (column : Column K ι) : Extended K := column.score.elim .neg .fin

def live (columns : List (Column K ι)) : List (K × (ι → K)) :=
  columns.filterMap fun column => column.score.map fun score => (score,column.value)

theorem live_masked (value : ι → K) (rest : List (Column K ι)) : live (⟨none,value⟩ :: rest) = live rest := rfl
theorem live_counts (score : K) (value : ι → K) (rest : List (Column K ι)) :
    live (⟨some score,value⟩ :: rest) = (score,value) :: live rest := rfl

section
variable {K ι : Type} [LinearOrder K]

structure Top (columns : List (K × (ι → K))) (top : K) : Prop where
  attained : ∃ column ∈ columns, column.1 = top
  below : ∀ column ∈ columns, column.1 ≤ top

theorem Top.append (first second : List (K × (ι → K))) (a b : K) (left : Top first a) (right : Top second b) :
    Top (first ++ second) (max a b) := by
  constructor
  · rcases le_total b a with above | above
    · obtain ⟨column,member,same⟩ := left.attained
      exact ⟨column,List.mem_append_left _ member,by rw [same,max_eq_left above]⟩
    · obtain ⟨column,member,same⟩ := right.attained
      exact ⟨column,List.mem_append_right _ member,by rw [same,max_eq_right above]⟩
  · intro column member
    rcases List.mem_append.mp member with old | new
    · exact le_trans (left.below column old) (le_max_left _ _)
    · exact le_trans (right.below column new) (le_max_right _ _)

theorem highest_none (block : List (Column K ι)) (nothing : live block = []) :
    Extended.highest (block.map Column.scored) = .neg := by
  induction block with
  | nil => rfl
  | cons column rest ih =>
      obtain ⟨score,value⟩ := column
      cases score with
      | some score => cases nothing
      | none =>
          have tail := ih nothing
          rw [Extended.highest] at tail
          rw [List.map_cons,Extended.highest,List.foldr_cons,tail]
          rfl

theorem highest_top (block : List (Column K ι)) (something : live block ≠ []) :
    ∃ top, Extended.highest (block.map Column.scored) = .fin top ∧ Top (live block) top := by
  induction block with
  | nil => exact absurd rfl something
  | cons column rest ih =>
      obtain ⟨score,value⟩ := column
      have unfolded : Extended.highest ((⟨score,value⟩ :: rest).map Column.scored) =
          Extended.max (Column.scored ⟨score,value⟩) (Extended.highest (rest.map Column.scored)) := rfl
      rw [unfolded]
      cases score with
      | none =>
          obtain ⟨top,found,best⟩ := ih something
          exact ⟨top,by rw [found]; rfl,best⟩
      | some score =>
          rw [live_counts]
          have single : Top [(score,value)] score := ⟨⟨_,List.mem_singleton_self _,rfl⟩,by simp⟩
          by_cases nothing : live rest = []
          · rw [highest_none rest nothing,nothing]
            exact ⟨score,rfl,single⟩
          · obtain ⟨top,found,best⟩ := ih nothing
            exact ⟨max score top,by rw [found]; rfl,Top.append _ _ _ _ single best⟩

end

section
variable {K ι : Type} [Field K] [LinearOrder K] (e : Exponential K)

namespace Exponential

def of : Extended K → Extended K
  | .neg => .fin 0
  | .fin x => .fin (e.power x)
  | .pos => .pos
  | .nan => .nan

theorem power_zero : e.power 0 = 1 := by
  have square := e.power_add 0 0
  rw [add_zero] at square
  exact mul_left_cancel₀ (ne_of_gt (e.positive 0)) (by rw [mul_one,← square])

theorem power_shift (x a b : K) : e.power (x - b) = e.power (x - a) * e.power (a - b) := by
  rw [← e.power_add,sub_add_sub_cancel]

theorem power_le_one [IsStrictOrderedRing K] (x a : K) (below : x ≤ a) : e.power (x - a) ≤ 1 := by
  rw [← e.power_zero]
  exact e.mono (sub_nonpos.mpr below)

end Exponential

structure State (K ι : Type) where
  highest : Extended K
  normalizer : Extended K
  accumulator : ι → Extended K

def State.start : State K ι := ⟨.neg,.fin 0,fun _ => .fin 0⟩

-- One block of columns: the running maximum, and the two sums rescaled to it with the block's part.
-- `round` is the cast of a weight before it meets the values.
def step (round : K → K) (s : State K ι) (block : List (Column K ι)) : State K ι :=
  let nextMax := Extended.max s.highest (Extended.highest (block.map Column.scored))
  let alpha := e.of (Extended.sub s.highest nextMax)
  let probability := fun column : Column K ι => e.of (Extended.sub column.scored nextMax)
  { highest := nextMax
    normalizer := Extended.add (Extended.mul s.normalizer alpha) (Extended.total (block.map probability))
    accumulator := fun d => Extended.add (Extended.mul (s.accumulator d) alpha)
      (Extended.total (block.map fun column =>
        Extended.mul (Extended.map round (probability column)) (.fin (column.value d)))) }

def stream (round : K → K) (blocks : List (List (Column K ι))) : State K ι := blocks.foldl (step e round) State.start

def State.finish (s : State K ι) (d : ι) : Extended K := Extended.div (s.accumulator d) s.normalizer

def totalWeight (shift : K) (columns : List (K × (ι → K))) : K := (columns.map fun column => e.power (column.1 - shift)).sum
def weightedSum (shift : K) (columns : List (K × (ι → K))) (f : (ι → K) → K) : K :=
  (columns.map fun column => e.power (column.1 - shift) * f column.2).sum
def mean (columns : List (K × (ι → K))) (f : (ι → K) → K) : K := weightedSum e 0 columns f / totalWeight e 0 columns

-- A cast of weights: a relative error, and an absolute one where the relative one is lost.
structure Rounds (round : K → K) (relative absolute : K) : Prop where
  zero : round 0 = 0
  near : ∀ x, 0 ≤ x → x ≤ 1 → |round x - x| ≤ relative * x + absolute
  relative : 0 ≤ relative
  absolute : 0 ≤ absolute

theorem total_shift (a b : K) (columns : List (K × (ι → K))) :
    totalWeight e b columns = totalWeight e a columns * e.power (a - b) := by
  rw [totalWeight,totalWeight,← List.sum_map_mul_right]
  congr 1
  apply List.map_congr_left
  intro column _
  exact e.power_shift column.1 a b

theorem weighted_shift (a b : K) (columns : List (K × (ι → K))) (f : (ι → K) → K) :
    weightedSum e b columns f = weightedSum e a columns f * e.power (a - b) := by
  rw [weightedSum,weightedSum,← List.sum_map_mul_right]
  congr 1
  apply List.map_congr_left
  intro column _
  rw [e.power_shift column.1 a b]
  ring

theorem mean_shift (peak : K) (columns : List (K × (ι → K))) (f : (ι → K) → K) :
    mean e columns f = weightedSum e peak columns f / totalWeight e peak columns := by
  rw [mean,weighted_shift e peak 0,total_shift e peak 0]
  exact mul_div_mul_right _ _ (ne_of_gt (e.positive _))

theorem total_cons (shift : K) (column : K × (ι → K)) (rest : List (K × (ι → K))) :
    totalWeight e shift (column :: rest) = e.power (column.1 - shift) + totalWeight e shift rest := by
  rw [totalWeight,List.map_cons,List.sum_cons]
  rfl

theorem weighted_cons (shift : K) (column : K × (ι → K)) (rest : List (K × (ι → K))) (f : (ι → K) → K) :
    weightedSum e shift (column :: rest) f = e.power (column.1 - shift) * f column.2 + weightedSum e shift rest f := by
  rw [weightedSum,List.map_cons,List.sum_cons]
  rfl

theorem total_append (shift : K) (first second : List (K × (ι → K))) :
    totalWeight e shift (first ++ second) = totalWeight e shift first + totalWeight e shift second := by
  rw [totalWeight,List.map_append,List.sum_append]
  rfl

theorem weighted_append (shift : K) (first second : List (K × (ι → K))) (f : (ι → K) → K) :
    weightedSum e shift (first ++ second) f = weightedSum e shift first f + weightedSum e shift second f := by
  rw [weightedSum,List.map_append,List.sum_append]
  rfl

theorem probability_total (peak : K) (block : List (Column K ι)) :
    Extended.total (block.map fun column => e.of (Extended.sub column.scored (.fin peak))) =
      .fin (totalWeight e peak (live block)) := by
  induction block with
  | nil => rfl
  | cons column rest ih =>
      obtain ⟨score,value⟩ := column
      rw [Extended.total] at ih
      rw [List.map_cons,Extended.total,List.foldr_cons,ih]
      cases score with
      | none =>
          rw [live_masked]
          show Extended.add (.fin 0) _ = _
          rw [Extended.add_fin,zero_add]
      | some score =>
          show Extended.add (e.of (Extended.sub (.fin score) (.fin peak))) _ = _
          rw [Extended.sub_fin,live_counts,total_cons]
          rfl

theorem value_total (round : K → K) (zero : round 0 = 0) (peak : K) (block : List (Column K ι)) (d : ι) :
    Extended.total (block.map fun column => Extended.mul (Extended.map round (e.of (Extended.sub column.scored (.fin peak))))
      (.fin (column.value d))) =
      .fin (((live block).map fun column => round (e.power (column.1 - peak)) * column.2 d).sum) := by
  induction block with
  | nil => rfl
  | cons column rest ih =>
      obtain ⟨score,value⟩ := column
      rw [Extended.total] at ih
      rw [List.map_cons,Extended.total,List.foldr_cons,ih]
      cases score with
      | none =>
          rw [live_masked]
          show Extended.add (Extended.mul (.fin (round 0)) (.fin (value d))) _ = _
          rw [zero,Extended.mul_fin,zero_mul,Extended.add_fin,zero_add]
      | some score =>
          rw [live_counts,List.map_cons,List.sum_cons]
          show Extended.add (Extended.mul (Extended.map round (e.of (Extended.sub (.fin score) (.fin peak))))
            (.fin (value d))) _ = _
          rw [Extended.sub_fin]
          rfl

-- After a block without a column, or with none at all before it, the two sums are no numbers.
structure Lost (s : State K ι) : Prop where
  normalizer : s.normalizer = .nan
  accumulator : ∀ d, s.accumulator d = .nan

theorem lost_step (round : K → K) (s : State K ι) (block : List (Column K ι)) (lost : Lost s) : Lost (step e round s block) := by
  constructor
  · rw [step,lost.normalizer]
    simp
  · intro d
    rw [step]
    simp only [lost.accumulator d,Extended.nan_mul,Extended.nan_add]

theorem lost_start (round : K → K) (block : List (Column K ι)) (nothing : live block = []) :
    Lost (step e round (State.start : State K ι) block) := by
  have same : Extended.max (State.start : State K ι).highest (Extended.highest (block.map Column.scored)) = .neg := by
    rw [highest_none block nothing]
    rfl
  have alpha : e.of (Extended.sub (State.start : State K ι).highest .neg) = .nan := rfl
  constructor
  · simp only [step,same,alpha,Extended.mul_nan,Extended.nan_add]
  · intro d
    simp only [step,same,alpha,Extended.mul_nan,Extended.nan_add]

structure Held (relative absolute : K) (seen : List (K × (ι → K))) (s : State K ι) (peak : K) : Prop where
  highest : s.highest = .fin peak
  top : Top seen peak
  normalizer : s.normalizer = .fin (totalWeight e peak seen)
  accumulator : ∀ d, ∃ sum, s.accumulator d = .fin sum ∧ |sum - weightedSum e peak seen fun value => value d| ≤
    relative * weightedSum e peak seen (fun value => |value d|) + absolute * (seen.map fun column => |column.2 d|).sum

end

section
variable {K ι : Type} [Field K] [LinearOrder K] [IsStrictOrderedRing K] (e : Exponential K)
    {round : K → K} {relative absolute : K}
  (rounds : Rounds round relative absolute)
include rounds

theorem rounded_near (peak : K) (d : ι) (columns : List (K × (ι → K))) (below : ∀ column ∈ columns, column.1 ≤ peak) :
    |(columns.map fun column => round (e.power (column.1 - peak)) * column.2 d).sum -
        weightedSum e peak columns fun value => value d| ≤
      relative * weightedSum e peak columns (fun value => |value d|) + absolute *
        (columns.map fun column => |column.2 d|).sum := by
  induction columns with
  | nil => simp [weightedSum]
  | cons column rest ih =>
      have tail := ih fun other member => below other (List.mem_cons_of_mem _ member)
      have small := e.power_le_one column.1 peak (below column List.mem_cons_self)
      have near := rounds.near _ (le_of_lt (e.positive (column.1 - peak))) small
      have head : |round (e.power (column.1 - peak)) * column.2 d - e.power (column.1 - peak) * column.2 d| ≤
          (relative * e.power (column.1 - peak) + absolute) * |column.2 d| := by
        rw [← sub_mul,abs_mul]
        exact mul_le_mul_of_nonneg_right near (abs_nonneg _)
      simp only [weighted_cons,List.map_cons,List.sum_cons]
      rw [add_sub_add_comm]
      refine (abs_add_le _ _).trans ((add_le_add head tail).trans (le_of_eq ?_))
      ring

omit rounds in
theorem values_nonneg (columns : List (K × (ι → K))) (d : ι) : 0 ≤ (columns.map fun column => |column.2 d|).sum := by
  apply List.sum_nonneg
  intro value member
  obtain ⟨column,_,rfl⟩ := List.mem_map.mp member
  exact abs_nonneg _

omit rounds in
theorem weights_bounded (peak : K) (columns : List (K × (ι → K))) (top : Top columns peak) :
    1 ≤ totalWeight e peak columns ∧ totalWeight e peak columns ≤ columns.length := by
  constructor
  · obtain ⟨column,member,same⟩ := top.attained
    have one : e.power (column.1 - peak) = 1 := by rw [same,sub_self,e.power_zero]
    rw [← one]
    apply List.single_le_sum
    · intro weight inside
      obtain ⟨other,_,rfl⟩ := List.mem_map.mp inside
      exact le_of_lt (e.positive _)
    · exact List.mem_map.mpr ⟨column,member,rfl⟩
  · have each : ∀ weight ∈ columns.map fun column => e.power (column.1 - peak), weight ≤ 1 := by
      intro weight inside
      obtain ⟨other,member,rfl⟩ := List.mem_map.mp inside
      exact e.power_le_one _ _ (top.below other member)
    have bound := List.sum_le_card_nsmul _ 1 each
    rwa [List.length_map,nsmul_one] at bound

theorem held_next (seen : List (K × (ι → K))) (s : State K ι) (block : List (Column K ι)) (alpha next : K)
    (reached : Extended.max s.highest (Extended.highest (block.map Column.scored)) = .fin next)
    (top : Top (seen ++ live block) next) (scaled : e.of (Extended.sub s.highest (.fin next)) = .fin alpha)
    (weights : ∃ total, s.normalizer = .fin total ∧ total * alpha = totalWeight e next seen)
    (sums : ∀ d, ∃ sum, s.accumulator d = .fin sum ∧ |sum * alpha - weightedSum e next seen fun value => value d| ≤
      relative * weightedSum e next seen (fun value => |value d|) + absolute * (seen.map fun column => |column.2 d|).sum) :
    Held e relative absolute (seen ++ live block) (step e round s block) next := by
  have below : ∀ column ∈ live block, column.1 ≤ next := fun column member => top.below column (List.mem_append_right _ member)
  refine ⟨reached,top,?_,?_⟩
  · obtain ⟨total,found,same⟩ := weights
    simp only [step,reached,scaled,found,probability_total,Extended.mul_fin,Extended.add_fin]
    rw [total_append,same]
  · intro d
    obtain ⟨sum,found,near⟩ := sums d
    refine ⟨_,by simp only [step,reached,scaled,found,value_total e round rounds.zero,Extended.mul_fin,Extended.add_fin]; rfl,?_⟩
    have block_near := rounded_near e rounds next d (live block) below
    rw [weighted_append,weighted_append,List.map_append,List.sum_append,add_sub_add_comm]
    refine (abs_add_le _ _).trans ((add_le_add near block_near).trans (le_of_eq ?_))
    ring

theorem start_held (block : List (Column K ι)) (something : live block ≠ []) :
    ∃ peak, Held e relative absolute (live block) (step e round State.start block) peak := by
  obtain ⟨peak,found,top⟩ := highest_top block something
  refine ⟨peak,held_next e rounds [] State.start block 0 peak ?_ top ?_ ⟨0,rfl,?_⟩ fun d => ⟨0,rfl,?_⟩⟩
  · rw [found]
    rfl
  · rfl
  · simp [totalWeight]
  · simp [weightedSum]

theorem held_step (seen : List (K × (ι → K))) (s : State K ι) (peak : K) (block : List (Column K ι))
    (held : Held e relative absolute seen s peak) :
    ∃ next, Held e relative absolute (seen ++ live block) (step e round s block) next := by
  obtain ⟨next,above,reached,top⟩ : ∃ next, peak ≤ next ∧
      Extended.max s.highest (Extended.highest (block.map Column.scored)) = .fin next ∧ Top (seen ++ live block) next := by
    rw [held.highest]
    by_cases nothing : live block = []
    · rw [highest_none block nothing,nothing,List.append_nil]
      exact ⟨peak,le_refl _,rfl,held.top⟩
    · obtain ⟨top,found,best⟩ := highest_top block nothing
      exact ⟨max peak top,le_max_left _ _,by rw [found]; rfl,Top.append _ _ _ _ held.top best⟩
  have small := e.power_le_one peak next above
  have positive := le_of_lt (e.positive (peak - next))
  refine ⟨next,held_next e rounds seen s block (e.power (peak - next)) next reached top ?_ ⟨_,held.normalizer,?_⟩ fun d => ?_⟩
  · rw [held.highest,Extended.sub_fin]
    rfl
  · exact (total_shift e peak next seen).symm
  · obtain ⟨sum,found,near⟩ := held.accumulator d
    refine ⟨sum,found,?_⟩
    have values := values_nonneg seen d
    rw [weighted_shift e peak next,weighted_shift e peak next,← sub_mul,abs_mul,abs_of_nonneg positive]
    refine (mul_le_mul_of_nonneg_right near positive).trans ?_
    rw [add_mul,mul_assoc]
    exact add_le_add_right (mul_le_of_le_one_right (mul_nonneg rounds.absolute values) small) _

theorem stream_held (first : List (Column K ι)) (rest : List (List (Column K ι))) (something : live first ≠ []) :
    ∃ peak, Held e relative absolute ((first :: rest).flatMap live) (stream e round (first :: rest)) peak := by
  have runs : ∀ (blocks : List (List (Column K ι))) (seen : List (K × (ι → K))) (s : State K ι) (peak : K),
      Held e relative absolute seen s peak →
        ∃ last, Held e relative absolute (seen ++ blocks.flatMap live) (blocks.foldl (step e round) s) last := by
    intro blocks
    induction blocks with
    | nil =>
        intro seen s peak held
        exact ⟨peak,by rwa [List.flatMap_nil,List.append_nil]⟩
    | cons block later ih =>
        intro seen s peak held
        obtain ⟨next,stepped⟩ := held_step e rounds seen s peak block held
        obtain ⟨last,done⟩ := ih _ _ next stepped
        exact ⟨last,by rwa [List.flatMap_cons,← List.append_assoc]⟩
  obtain ⟨peak,started⟩ := start_held e rounds first something
  exact runs rest _ _ peak started

omit [IsStrictOrderedRing K] rounds in
theorem stream_lost (first : List (Column K ι)) (rest : List (List (Column K ι))) (nothing : live first = []) :
    Lost (stream e round (first :: rest)) := by
  have started := lost_start e round first nothing
  unfold stream
  rw [List.foldl_cons]
  generalize step e round State.start first = s at started
  induction rest generalizing s with
  | nil => exact started
  | cons block later ih => exact ih _ (lost_step e round s block started)

-- What a stream of blocks leaves: the mean over all its columns up to the cast of the weights where
-- the first block has a column that counts, and otherwise no number.
theorem finish_near (first : List (Column K ι)) (rest : List (List (Column K ι))) (d : ι) (something : live first ≠ []) :
    ∃ out, (stream e round (first :: rest)).finish d = .fin out ∧
      |out - mean e ((first :: rest).flatMap live) fun value => value d| ≤
        relative * mean e ((first :: rest).flatMap live) (fun value => |value d|) +
          absolute * (((first :: rest).flatMap live).map fun column => |column.2 d|).sum := by
  obtain ⟨peak,held⟩ := stream_held e rounds first rest something
  obtain ⟨sum,found,near⟩ := held.accumulator d
  have one := (weights_bounded e peak _ held.top).1
  have positive := lt_of_lt_of_le one_pos one
  refine ⟨sum / totalWeight e peak ((first :: rest).flatMap live),?_,?_⟩
  · rw [State.finish,found,held.normalizer]
    exact Extended.div_fin _ _ (ne_of_gt positive)
  · have values := values_nonneg ((first :: rest).flatMap live) d
    rw [mean_shift e peak,mean_shift e peak,← sub_div,abs_div,abs_of_pos positive]
    refine (div_le_div_of_nonneg_right near (le_of_lt positive)).trans ?_
    rw [add_div,mul_div_assoc]
    exact add_le_add_right (div_le_self (mul_nonneg rounds.absolute values) one) _

omit [IsStrictOrderedRing K] rounds in
theorem finish_lost (blocks : List (List (Column K ι))) (d : ι) (lost : ∀ first ∈ blocks.head?, live first = []) :
    (stream e round blocks).finish d = .nan := by
  cases blocks with
  | nil => exact Extended.div_none
  | cons first rest =>
      rw [State.finish,(stream_lost e first rest (lost first rfl)).accumulator d]
      exact Extended.nan_div _

end

end OneSpark.StreamingSoftmax
