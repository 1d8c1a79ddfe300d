import Mathlib

namespace OneSpark.Tensors

-- One-dimensional tensors as lists. `none` is the error an index outside the
-- tensor raises; no operation below invents a value for such an index.
def gather (values : List α) (indices : List Nat) : Option (List α) :=
  indices.mapM fun i => values[i]?

-- torch.where on equally long tensors.
def select (mask : List Bool) (yes no : List α) : List α :=
  mask.zipWith (fun chosen pair => if chosen then pair.1 else pair.2) (yes.zip no)

-- torch.repeat_interleave; the two tensors must have one length.
def repeatInterleave (values : List α) (repeats : List Nat) : Option (List α) :=
  if values.length = repeats.length then
    some ((values.zip repeats).flatMap fun row => List.replicate row.2 row.1)
  else none

-- buffer[indices] = values, written row after row.
def put [DecidableEq ι] (buffer : ι → α) : List (ι × α) → ι → α
  | [] => buffer
  | row :: rest => put (Function.update buffer row.1 row.2) rest

theorem place_parts (tile width place : Nat) (small : place < width) :
    (tile * width + place) / width = tile ∧ (tile * width + place) % width = place := by
  rw [Nat.mul_comm,Nat.mul_add_div (Nat.zero_lt_of_lt small),Nat.div_eq_of_lt small,Nat.mul_add_mod,Nat.mod_eq_of_lt small]
  exact ⟨rfl,rfl⟩

theorem place_unique (tile place tile' place' width : Nat) (small : place < width) (small' : place' < width)
    (same : tile * width + place = tile' * width + place') : tile = tile' ∧ place = place' := by
  obtain ⟨quotient,rest⟩ := place_parts tile width place small
  obtain ⟨quotient',rest'⟩ := place_parts tile' width place' small'
  rw [same] at quotient rest
  exact ⟨quotient.symm.trans quotient',rest.symm.trans rest'⟩

theorem mapM_found (f : α → Option β) (g : α → β) (values : List α)
    (found : ∀ value ∈ values, f value = some (g value)) : values.mapM f = some (values.map g) := by
  induction values with
  | nil => rfl
  | cons value rest ih =>
      have tail := ih fun later member => found later (List.mem_cons_of_mem _ member)
      simp [List.mapM_cons,found value (by simp),tail]

theorem mapM_agreed (f g : α → Option β) (values : List α) (agreed : ∀ value ∈ values, f value = g value) :
    values.mapM f = values.mapM g := by
  induction values with
  | nil => rfl
  | cons value rest ih =>
      rw [List.mapM_cons,List.mapM_cons,agreed value (by simp),
        ih fun later member => agreed later (List.mem_cons_of_mem _ member)]

theorem mapM_parts (f : α → Option β) (values : List α) (out : List β) (ran : values.mapM f = some out) :
    List.Forall₂ (fun value result => f value = some result) values out := by
  induction values generalizing out with
  | nil => cases ran; exact .nil
  | cons value rest ih =>
      rw [List.mapM_cons] at ran
      simp only [Option.bind_eq_bind,Option.bind_eq_some_iff,Option.pure_def,Option.some_inj] at ran
      obtain ⟨first,here,later,there,rfl⟩ := ran
      exact .cons here (ih later there)

theorem mapM_joined (f : α → Option β) (values : List α) (out : List β)
    (parts : List.Forall₂ (fun value result => f value = some result) values out) : values.mapM f = some out := by
  induction parts with
  | nil => rfl
  | cons here _ ih => simp [List.mapM_cons,here,ih]

theorem mapM_member (f : α → Option β) (values : List α) (out : List β) (ran : values.mapM f = some out)
    (result : β) (member : result ∈ out) : ∃ value ∈ values, f value = some result := by
  have parts := mapM_parts f values out ran
  clear ran
  induction parts with
  | nil => cases member
  | cons here _ ih =>
      rcases List.mem_cons.mp member with rfl | later
      · exact ⟨_,List.mem_cons_self,here⟩
      · obtain ⟨value,old,found⟩ := ih later
        exact ⟨value,List.mem_cons_of_mem _ old,found⟩

theorem mapM_read (f : α → Option β) (values : List α) (out : List β) (ran : values.mapM f = some out) (i : Nat)
    (value : α) (here : values[i]? = some value) : out[i]? = f value := by
  have parts := mapM_parts f values out ran
  clear ran
  induction parts generalizing i with
  | nil => simp at here
  | cons first _ ih =>
      cases i with
      | zero =>
          cases here
          exact first.symm
      | succ i => exact ih i here

theorem mapM_returns (f : α → Option β) (values : List α)
    (returns : ∀ value ∈ values, ∃ result, f value = some result) :
    ∃ out, values.mapM f = some out ∧ out.length = values.length := by
  induction values with
  | nil => exact ⟨[],rfl,rfl⟩
  | cons value rest ih =>
      obtain ⟨result,here⟩ := returns value (by simp)
      obtain ⟨out,there,length⟩ := ih fun later member => returns later (List.mem_cons_of_mem _ member)
      exact ⟨result :: out,by simp [List.mapM_cons,here,there],by simp [length]⟩

theorem mapM_range (f : Nat → Option β) (out : List β) (found : ∀ i < out.length, f i = out[i]?) :
    (List.range out.length).mapM f = some out := by
  obtain ⟨results,ran,length⟩ := mapM_returns f (List.range out.length) fun i member =>
    ⟨out.get ⟨i,List.mem_range.mp member⟩,by rw [found i (List.mem_range.mp member),List.getElem?_eq_getElem,List.get_eq_getElem]⟩
  rw [List.length_range] at length
  rw [ran]
  congr 1
  apply List.ext_getElem?
  intro i
  by_cases inside : i < out.length
  · rw [mapM_read f _ results ran i i (List.getElem?_range inside),found i inside]
  · rw [List.getElem?_eq_none (by omega),List.getElem?_eq_none (by omega)]

theorem mapM_known (f : α → Option β) (g : α → β) (values : List α) (out : List β)
    (ran : values.mapM f = some out) (known : ∀ value ∈ values, ∀ result, f value = some result → result = g value) :
    out = values.map g := by
  have parts := mapM_parts f values out ran
  clear ran
  induction parts with
  | nil => rfl
  | cons here _ ih =>
      rw [List.map_cons,known _ List.mem_cons_self _ here,
        ih fun value member => known value (List.mem_cons_of_mem _ member)]

theorem gather_found (values : List α) (indices : List Nat) (f : Nat → α)
    (found : ∀ i ∈ indices, values[i]? = some (f i)) : gather values indices = some (indices.map f) :=
  mapM_found _ f indices found

theorem foldlM_stepped (f : β → α → Option β) (values : List α) (start out : β)
    (ran : values.foldlM f start = some out) (value : α) (member : value ∈ values) :
    ∃ before after, f before value = some after := by
  induction values generalizing start with
  | nil => cases member
  | cons first rest ih =>
      rw [List.foldlM_cons] at ran
      obtain ⟨next,step,tail⟩ := Option.bind_eq_some_iff.mp ran
      rcases List.mem_cons.mp member with rfl | later
      · exact ⟨start,next,step⟩
      · exact ih next tail later

theorem select_read (mask : List Bool) (yes no : List α) (i : Nat) (chosen : Bool) (first second : α)
    (atMask : mask[i]? = some chosen) (atYes : yes[i]? = some first) (atNo : no[i]? = some second) :
    (select mask yes no)[i]? = some (if chosen then first else second) := by
  have paired : (yes.zip no)[i]? = some (first,second) := List.getElem?_zip_eq_some.mpr ⟨atYes,atNo⟩
  rw [select,List.getElem?_zipWith,atMask,paired]

theorem gather_range (values : List α) (length : values.length = n) :
    gather values (List.range n) = some values := by
  subst n
  cases values with
  | nil => rfl
  | cons head tail =>
      rw [gather_found _ _ (fun i => (head :: tail).getD i head)]
      · congr 1
        apply List.ext_getElem
        · simp
        · intro i _ bound
          simp [List.getElem?_eq_getElem bound]
      · intro i member
        have bound := List.mem_range.mp member
        simp [List.getElem?_eq_getElem bound]

theorem gather_singleton (value : α) : gather [value] [0] = some [value] := rfl

theorem repeatInterleave_length (ran : repeatInterleave values repeats = some out) :
    out.length = repeats.sum := by
  unfold repeatInterleave at ran
  split at ran
  · rename_i same
    cases ran
    simp [List.length_flatMap,List.map_snd_zip (Nat.le_of_eq same.symm)]
  · cases ran

theorem put_other [DecidableEq ι] (buffer : ι → α) (rows : List (ι × α)) (i : ι)
    (untouched : ∀ row ∈ rows, row.1 ≠ i) : put buffer rows i = buffer i := by
  induction rows generalizing buffer with
  | nil => rfl
  | cons row rest ih =>
      have first := untouched row (by simp)
      rw [put,ih _ fun later member => untouched later (List.mem_cons_of_mem _ member),
        Function.update_of_ne (Ne.symm first)]

theorem put_each [DecidableEq ι] (P : α → Prop) (buffer : ι → α) (rows : List (ι × α)) (before : ∀ i, P (buffer i))
    (written : ∀ row ∈ rows, P row.2) (i : ι) : P (put buffer rows i) := by
  induction rows generalizing buffer with
  | nil => exact before i
  | cons row rest ih =>
      apply ih
      · intro other
        by_cases same : other = row.1
        · rw [same,Function.update_self]
          exact written row (by simp)
        · rw [Function.update_of_ne same]
          exact before other
      · exact fun later member => written later (List.mem_cons_of_mem _ member)

-- Rows that agree on every write to one index leave the agreed value there.
theorem put_agreed [DecidableEq ι] (buffer : ι → α) (rows : List (ι × α)) (i : ι) (value : α)
    (written : ∃ row ∈ rows, row.1 = i) (agreed : ∀ row ∈ rows, row.1 = i → row.2 = value) :
    put buffer rows i = value := by
  induction rows generalizing buffer with
  | nil => obtain ⟨row,member,_⟩ := written; cases member
  | cons row rest ih =>
      have tail : ∀ later ∈ rest, later.1 = i → later.2 = value :=
        fun later member => agreed later (List.mem_cons_of_mem _ member)
      by_cases again : ∃ later ∈ rest, later.1 = i
      · exact ih _ again tail
      · have untouched : ∀ later ∈ rest, later.1 ≠ i := fun later member same => again ⟨later,member,same⟩
        obtain ⟨first,member,same⟩ := written
        rcases List.mem_cons.mp member with rfl | old
        · rw [put,put_other _ _ _ untouched,same,Function.update_self]
          exact agreed first (by simp) same
        · exact absurd same (untouched first old)

end OneSpark.Tensors
