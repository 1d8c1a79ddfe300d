import Mathlib.Algebra.BigOperators.Group.List.Basic

namespace OneSpark.Scatter

variable {E : Type} [AddCommMonoid E]

-- One row of an accumulating scatter; a slot outside the table is an error.
def addAt (table : List E) (slot : Int) (value : E) : Option (List E) :=
  if 0 ≤ slot ∧ slot < table.length then some (table.modify slot.toNat (· + value)) else none

def scatterAdd (table : List E) (adds : List (Int × E)) : Option (List E) :=
  adds.foldlM (fun rows add => addAt rows add.1 add.2) table

def landed (adds : List (Int × E)) (slot : Int) : E :=
  ((adds.filter fun add => add.1 == slot).map Prod.snd).sum

def Inside (length : Nat) (adds : List (Int × E)) : Prop :=
  ∀ add ∈ adds, 0 ≤ add.1 ∧ add.1 < length

def accumulated (table : List E) (adds : List (Int × E)) : List E :=
  table.mapIdx fun s old => old + landed adds s

@[simp] theorem landed_nil (slot : Int) : landed ([] : List (Int × E)) slot = 0 := rfl

theorem landed_cons (add : Int × E) (rest : List (Int × E)) (slot : Int) :
    landed (add :: rest) slot = (if add.1 = slot then add.2 else 0) + landed rest slot := by
  unfold landed
  by_cases same : add.1 = slot
  · simp [same]
  · simp [same]

theorem landed_perm (left right : List (Int × E)) (slot : Int) (shuffled : left.Perm right) :
    landed left slot = landed right slot :=
  ((shuffled.filter _).map _).sum_eq

@[simp] theorem accumulated_length (table : List E) (adds : List (Int × E)) :
    (accumulated table adds).length = table.length := by simp [accumulated]

theorem accumulated_nil (table : List E) : accumulated table [] = table := by
  simp [accumulated,List.mapIdx_eq_zipIdx_map]

theorem accumulated_getElem? (table : List E) (adds : List (Int × E)) (s : Nat) :
    (accumulated table adds)[s]? = table[s]?.map (· + landed adds s) := by simp [accumulated]

theorem accumulated_cons (table : List E) (add : Int × E) (rest : List (Int × E)) (nonneg : 0 ≤ add.1) :
    accumulated (table.modify add.1.toNat (· + add.2)) rest = accumulated table (add :: rest) := by
  apply List.ext_getElem?
  intro s
  rw [accumulated_getElem?,accumulated_getElem?,List.getElem?_modify,landed_cons]
  by_cases same : add.1 = s
  · cases table[s]? <;> simp [same,add_assoc]
  · have elsewhere : add.1.toNat ≠ s := by omega
    cases table[s]? <;> simp [same,elsewhere]

-- The table a scatter leaves, whatever the slots repeat.
theorem scatterAdd_exact (table : List E) (adds : List (Int × E)) (inside : Inside table.length adds) :
    scatterAdd table adds = some (accumulated table adds) := by
  induction adds generalizing table with
  | nil => simp [scatterAdd,accumulated_nil]
  | cons add rest ih =>
      have bounds := inside add (by simp)
      have later : Inside (table.modify add.1.toNat (· + add.2)).length rest := by
        intro other member
        simpa using inside other (List.mem_cons_of_mem _ member)
      have step : addAt table add.1 add.2 = some (table.modify add.1.toNat (· + add.2)) := if_pos bounds
      have tail := ih _ later
      unfold scatterAdd at tail ⊢
      rw [List.foldlM_cons,step]
      simp only [Option.bind_eq_bind,Option.bind_some]
      rw [tail,accumulated_cons table add rest bounds.1]

theorem accumulated_append (table : List E) (left right : List (Int × E)) :
    accumulated (accumulated table left) right = accumulated table (left ++ right) := by
  apply List.ext_getElem?
  intro s
  simp [accumulated_getElem?,landed,Function.comp_def,add_assoc]

theorem accumulated_perm (table : List E) (left right : List (Int × E)) (shuffled : left.Perm right) :
    accumulated table left = accumulated table right := by
  unfold accumulated
  simp only [landed_perm left right _ shuffled]

theorem landed_map (indices : List ι) (slot : ι → Int) (value : ι → E) (s : Int) :
    landed (indices.map fun i => (slot i,value i)) s =
      ((indices.filter fun i => slot i == s).map value).sum := by
  unfold landed
  rw [List.filter_map,List.map_map]
  rfl

end OneSpark.Scatter
