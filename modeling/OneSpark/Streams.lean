import Mathlib

namespace OneSpark.Streams

-- A step moved past the steps it does not clash with; two orders that keep every clashing pair in its order end alike.
theorem moved_front (act : α → M → M) (clash : α → α → Prop)
    (commutes : ∀ a b, ¬clash a b → ∀ m, act b (act a m) = act a (act b m)) (a : α) (front : List α)
    (apart : ∀ b ∈ front, ¬clash a b) (m : M) :
    front.foldl (fun m b => act b m) (act a m) = act a (front.foldl (fun m b => act b m) m) := by
  induction front generalizing m with
  | nil => rfl
  | cons b front ih =>
      rw [List.foldl_cons,List.foldl_cons,commutes a b (apart b List.mem_cons_self)]
      exact ih (fun b member => apart b (List.mem_cons_of_mem _ member)) (act b m)

theorem reordered (act : α → M → M) (clash : α → α → Prop)
    (commutes : ∀ a b, ¬clash a b → ∀ m, act b (act a m) = act a (act b m)) (one two : List α) (perm : one.Perm two)
    (keeps : ∀ a b, [a,b].Sublist one → clash a b → ¬[b,a].Sublist two) (m : M) :
    two.foldl (fun m a => act a m) m = one.foldl (fun m a => act a m) m := by
  induction one generalizing two m with
  | nil => rw [List.nil_perm.mp perm]
  | cons a one ih =>
      obtain ⟨front,rest,rfl,absent⟩ := List.eq_append_cons_of_mem (perm.subset List.mem_cons_self)
      have remaining : one.Perm (front ++ rest) := (perm.trans List.perm_middle).cons_inv
      have apart : ∀ b ∈ front, ¬clash a b := by
        intro b member clashes
        have later : b ∈ one := remaining.symm.subset (List.mem_append_left _ member)
        refine keeps a b ((List.singleton_sublist.mpr later).cons_cons a) clashes ?_
        exact (List.singleton_sublist.mpr member).append (List.singleton_sublist.mpr List.mem_cons_self)
      have shorter : (front ++ rest).Sublist (front ++ a :: rest) :=
        (List.Sublist.refl front).append (List.sublist_cons_self a rest)
      rw [List.foldl_append,List.foldl_cons,List.foldl_cons,← ih (front ++ rest) remaining
        (fun b c ordered clashes swapped => keeps b c (ordered.cons a) clashes (swapped.trans shorter)),List.foldl_append,
        ← moved_front act clash commutes a front apart]

section
variable {R : Type} {V : R → Type}

-- A piece of work of a device: the cells it may read, those it may write, and what it does to the memory.
structure Work (V : R → Type) where
  reads : Set R
  writes : Set R
  effect : (∀ cell, V cell) → ∀ cell, V cell
  frame : ∀ memory cell, cell ∉ writes → effect memory cell = memory cell
  known : ∀ memory other, (∀ cell ∈ reads, memory cell = other cell) → ∀ cell ∈ writes, effect memory cell = effect other cell

structure Apart (one two : Work V) : Prop where
  later : Disjoint one.writes two.reads
  earlier : Disjoint one.reads two.writes
  both : Disjoint one.writes two.writes

theorem Apart.symm {one two : Work V} (apart : Apart one two) : Apart two one :=
  ⟨apart.earlier.symm,apart.later.symm,apart.both.symm⟩

theorem apart_once {one two : Work V} (apart : Apart one two) (memory : ∀ cell, V cell) (cell : R) (member : cell ∈ one.writes) :
    two.effect (one.effect memory) cell = one.effect (two.effect memory) cell := by
  rw [two.frame _ cell (Set.disjoint_left.mp apart.both member)]
  refine one.known _ _ (fun read inside => ?_) cell member
  rw [two.frame _ read (Set.disjoint_left.mp apart.earlier inside)]

theorem apart_commute {one two : Work V} (apart : Apart one two) (memory : ∀ cell, V cell) :
    two.effect (one.effect memory) = one.effect (two.effect memory) := by
  funext cell
  by_cases first : cell ∈ one.writes
  · exact apart_once apart memory cell first
  · by_cases second : cell ∈ two.writes
    · exact (apart_once apart.symm memory cell second).symm
    · rw [two.frame _ cell second,one.frame _ cell first,one.frame _ cell first,two.frame _ cell second]

end

section
variable {S R : Type} {V : R → Type}

inductive Command (S : Type) (V : R → Type) where
  -- work queued on a stream
  | run (stream : S) (work : Work V)
  -- stream.wait_stream(other): what comes on the stream is after what the other has so far
  | wait (stream other : S)
  -- the host has seen the stream's work so far finish
  | observe (stream : S)

structure Issued (V : R → Type) where
  work : Work V
  after : Set Nat

-- The works in the order the host issued them, and those that the next work of a stream is after.
structure Timeline (S : Type) (V : R → Type) where
  works : List (Issued V)
  seen : S → Set Nat

def Timeline.empty : Timeline S V := ⟨[],fun _ => ∅⟩

def Timeline.issue [DecidableEq S] (t : Timeline S V) : Command S V → Timeline S V
  | .run stream work =>
      ⟨t.works ++ [⟨work,t.seen stream⟩],Function.update t.seen stream (insert t.works.length (t.seen stream))⟩
  | .wait stream other => { t with seen := Function.update t.seen stream (t.seen stream ∪ t.seen other) }
  | .observe stream => { t with seen := fun other => t.seen other ∪ t.seen stream }

def Timeline.issueAll [DecidableEq S] (t : Timeline S V) (commands : List (Command S V)) : Timeline S V :=
  commands.foldl Timeline.issue t

def Timeline.act (t : Timeline S V) (k : Nat) (memory : ∀ cell, V cell) : ∀ cell, V cell :=
  match t.works[k]? with
  | some issued => issued.work.effect memory
  | none => memory

def Timeline.execute (t : Timeline S V) (order : List Nat) (memory : ∀ cell, V cell) : ∀ cell, V cell :=
  order.foldl (fun memory k => t.act k memory) memory

-- An order the device may take: every work once, behind those it is after.
structure Schedule (t : Timeline S V) (order : List Nat) : Prop where
  all : order.Perm (List.range t.works.length)
  after : ∀ (front : List Nat) (k : Nat) (rest : List Nat) (issued : Issued V), order = front ++ k :: rest →
    t.works[k]? = some issued → ∀ i ∈ issued.after, i ∈ front

-- No race: of two works that are not apart the later one is after the earlier.
def Ordered (t : Timeline S V) : Prop :=
  ∀ (i j : Nat) (one two : Issued V), i < j → t.works[i]? = some one → t.works[j]? = some two → ¬Apart one.work two.work →
    i ∈ two.after

def Command.perform : Command S V → (∀ cell, V cell) → ∀ cell, V cell
  | .run _ work,memory => work.effect memory
  | .wait _ _,memory => memory
  | .observe _,memory => memory

def performAll (commands : List (Command S V)) (memory : ∀ cell, V cell) : ∀ cell, V cell :=
  commands.foldl (fun memory command => command.perform memory) memory

theorem perform_append (one two : List (Command S V)) (memory : ∀ cell, V cell) :
    performAll (one ++ two) memory = performAll two (performAll one memory) := List.foldl_append

-- Without races every order the device may take ends like the order of issue.
theorem schedule_exact (t : Timeline S V) (ordered : Ordered t) (order : List Nat) (schedule : Schedule t order)
    (memory : ∀ cell, V cell) : t.execute order memory = t.execute (List.range t.works.length) memory := by
  let clash (i j : Nat) : Prop := ∃ one two, t.works[i]? = some one ∧ t.works[j]? = some two ∧ ¬Apart one.work two.work
  have commutes : ∀ i j, ¬clash i j → ∀ m, t.act j (t.act i m) = t.act i (t.act j m) := by
    intro i j quiet m
    unfold Timeline.act
    cases first : t.works[i]? with
    | none => rfl
    | some one =>
        cases second : t.works[j]? with
        | none => rfl
        | some two => exact apart_commute (by_contra fun clashes => quiet ⟨one,two,first,second,clashes⟩) m
  refine reordered t.act clash commutes _ order schedule.all.symm ?_ memory
  rintro i j forward ⟨one,two,first,second,clashes⟩ backward
  have below : i < j := (List.pairwise_iff_forall_sublist.mp List.pairwise_lt_range) forward
  have needed := ordered i j one two below first second clashes
  obtain ⟨front,rest,rfl,before,behind⟩ := List.cons_sublist_iff.mp backward
  obtain ⟨left,right,rfl⟩ := List.append_of_mem before
  have placed := schedule.after left j (right ++ rest) two (by rw [List.append_assoc,List.cons_append]) second i needed
  have once : (left ++ j :: right ++ rest).Nodup := (schedule.all.nodup_iff).mpr List.nodup_range
  have apart := (List.nodup_append.mp once).2.2 i (List.mem_append_left _ placed) i (List.singleton_sublist.mp behind)
  exact apart rfl

-- Forks and joins: one main stream, and side streams whose work the main stream waits for. `out` holds the side works
-- nothing has waited for yet.
inductive Fits (main : S) : List (S × Work V) → List (Command S V) → Prop where
  | done : Fits main [] []
  | work (w : Work V) (apart : ∀ side ∈ out, Apart side.2 w) (rest : Fits main out commands) :
      Fits main out (.run main w :: commands)
  | fork (stream : S) (w : Work V) (aside : stream ≠ main) (apart : ∀ side ∈ out, Apart side.2 w)
      (rest : Fits main ((stream,w) :: out) commands) : Fits main out (.wait stream main :: .run stream w :: commands)
  | join (stream : S) (left : List (S × Work V))
      (others : ∀ side ∈ out, side.1 ≠ stream → side ∈ left) (rest : Fits main left commands) :
      Fits main out (.wait main stream :: commands)
  | observe (stream : S) (left : List (S × Work V))
      (others : ∀ side ∈ out, side.1 ≠ stream → side ∈ left) (rest : Fits main left commands) :
      Fits main out (.observe stream :: commands)

theorem fits_append (main : S) (out : List (S × Work V)) (one two : List (Command S V)) (first : Fits main out one)
    (second : Fits main [] two) : Fits main out (one ++ two) := by
  induction first with
  | done => exact second
  | work w apart _ ih => exact .work w apart ih
  | fork stream w aside apart _ ih => exact .fork stream w aside apart ih
  | join stream left others _ ih => exact .join stream left others ih
  | observe stream left others _ ih => exact .observe stream left others ih

def Leads (main : S) (out : List (S × Work V)) (commands : List (Command S V)) (left : List (S × Work V)) : Prop :=
  ∀ rest, Fits main left rest → Fits main out (commands ++ rest)

theorem leads_nil (main : S) (out : List (S × Work V)) : Leads main out ([] : List (Command S V)) out := fun _ fits => fits

theorem leads_append {main : S} {out middle left : List (S × Work V)} {one two : List (Command S V)}
    (first : Leads main out one middle) (second : Leads main middle two left) : Leads main out (one ++ two) left := by
  intro rest fits
  rw [List.append_assoc]
  exact first _ (second rest fits)

theorem leads_fits {main : S} {commands : List (Command S V)} (leads : Leads main [] commands []) : Fits main [] commands := by
  rw [← List.append_nil commands]
  exact leads [] .done

-- What the main stream has not seen is outstanding, and its own stream has seen it.
structure Tracks (main : S) (out : List (S × Work V)) (t : Timeline S V) : Prop where
  ordered : Ordered t
  outstanding : ∀ (i : Nat) (one : Issued V), t.works[i]? = some one → i ∉ t.seen main →
    ∃ side ∈ out, one.work = side.2 ∧ i ∈ t.seen side.1

variable [DecidableEq S]

@[simp] theorem seen_run (t : Timeline S V) (stream : S) (work : Work V) :
    (t.issue (.run stream work)).seen stream = insert t.works.length (t.seen stream) := Function.update_self ..

@[simp] theorem seen_wait (t : Timeline S V) (stream other : S) :
    (t.issue (.wait stream other)).seen stream = t.seen stream ∪ t.seen other := Function.update_self ..

theorem seen_run_other (t : Timeline S V) (stream other : S) (work : Work V) (apart : other ≠ stream) :
    (t.issue (.run stream work)).seen other = t.seen other := Function.update_of_ne apart ..

theorem seen_wait_other (t : Timeline S V) (stream other named : S) (apart : named ≠ stream) :
    (t.issue (.wait stream other)).seen named = t.seen named := Function.update_of_ne apart ..

theorem works_run (t : Timeline S V) (stream : S) (work : Work V) (i : Nat) (one : Issued V)
    (found : (t.issue (.run stream work)).works[i]? = some one) :
    t.works[i]? = some one ∨ i = t.works.length ∧ one = ⟨work,t.seen stream⟩ := by
  rcases lt_trichotomy i t.works.length with old | last | beyond
  · exact .inl (List.getElem?_append_left old ▸ found)
  · subst last
    exact .inr ⟨rfl,(Option.some_inj.mp (List.getElem?_concat_length ▸ found)).symm⟩
  · have bound := (List.getElem?_eq_some_iff.mp found).1
    rw [Timeline.issue,List.length_append,List.length_singleton] at bound
    omega

theorem issue_ordered (t : Timeline S V) (ordered : Ordered t) (stream : S) (work : Work V)
    (apart : ∀ (i : Nat) (one : Issued V), t.works[i]? = some one → i ∉ t.seen stream → Apart one.work work) :
    Ordered (t.issue (.run stream work)) := by
  intro i j one two below first second clashes
  rcases works_run t stream work i one first with earlier | ⟨rfl,_⟩
  · rcases works_run t stream work j two second with old | ⟨_,rfl⟩
    · exact ordered i j one two below earlier old clashes
    · by_contra unseen
      exact clashes (apart i one earlier unseen)
  · rcases works_run t stream work j two second with old | ⟨rfl,_⟩
    · have bound := (List.getElem?_eq_some_iff.mp old).1
      omega
    · omega

theorem tracks_work (main : S) (out : List (S × Work V)) (t : Timeline S V) (tracks : Tracks main out t) (w : Work V)
    (apart : ∀ side ∈ out, Apart side.2 w) : Tracks main out (t.issue (.run main w)) := by
  refine ⟨issue_ordered t tracks.ordered main w ?_,?_⟩
  · intro i one found unseen
    obtain ⟨side,member,same,_⟩ := tracks.outstanding i one found unseen
    rw [same]
    exact apart side member
  · intro i one found unseen
    rw [seen_run,Set.mem_insert_iff,not_or] at unseen
    rcases works_run t main w i one found with earlier | ⟨last,_⟩
    · obtain ⟨side,member,same,own⟩ := tracks.outstanding i one earlier unseen.2
      have away : side.1 ≠ main := fun equal => unseen.2 (equal ▸ own)
      refine ⟨side,member,same,?_⟩
      rwa [seen_run_other t main side.1 w away]
    · exact absurd last unseen.1

theorem tracks_fork (main : S) (out : List (S × Work V)) (t : Timeline S V) (tracks : Tracks main out t) (stream : S)
    (w : Work V) (aside : stream ≠ main) (apart : ∀ side ∈ out, Apart side.2 w) :
    Tracks main ((stream,w) :: out) ((t.issue (.wait stream main)).issue (.run stream w)) := by
  refine ⟨issue_ordered (t.issue (.wait stream main)) tracks.ordered stream w ?_,?_⟩
  · intro i one found unseen
    rw [seen_wait] at unseen
    obtain ⟨side,member,same,_⟩ := tracks.outstanding i one found (fun old => unseen (.inr old))
    rw [same]
    exact apart side member
  · intro i one found unseen
    rw [seen_run_other _ _ _ _ aside.symm,seen_wait_other _ _ _ _ aside.symm] at unseen
    rcases works_run _ stream w i one found with earlier | ⟨rfl,rfl⟩
    · obtain ⟨side,member,same,own⟩ := tracks.outstanding i one earlier unseen
      refine ⟨side,List.mem_cons_of_mem _ member,same,?_⟩
      by_cases equal : side.1 = stream
      · rw [equal,seen_run,seen_wait]
        exact .inr (.inl (equal ▸ own))
      · rwa [seen_run_other _ _ _ _ equal,seen_wait_other _ _ _ _ equal]
    · refine ⟨(stream,w),List.mem_cons_self,rfl,?_⟩
      rw [seen_run]
      exact .inl rfl

omit [DecidableEq S] in
-- A wait of the main stream or the host's sight of a finished stream leaves the works of the other streams outstanding.
theorem tracks_seen (main : S) (out left : List (S × Work V)) (t after : Timeline S V) (tracks : Tracks main out t)
    (stream : S) (others : ∀ side ∈ out, side.1 ≠ stream → side ∈ left) (works : after.works = t.works)
    (main_seen : after.seen main = t.seen main ∪ t.seen stream)
      (grows : ∀ other, other ≠ main → t.seen other ⊆ after.seen other) :
    Tracks main left after := by
  refine ⟨?_,?_⟩
  · intro i j one two below first second
    rw [works] at first second
    exact tracks.ordered i j one two below first second
  · intro i one found unseen
    rw [main_seen,Set.mem_union,not_or] at unseen
    rw [works] at found
    obtain ⟨side,member,same,own⟩ := tracks.outstanding i one found unseen.1
    have other : side.1 ≠ stream := fun equal => unseen.2 (equal ▸ own)
    have away : side.1 ≠ main := fun equal => unseen.1 (equal ▸ own)
    exact ⟨side,others side member other,same,grows _ away own⟩

theorem fits_tracks (main : S) (out : List (S × Work V)) (commands : List (Command S V)) (fits : Fits main out commands)
    (t : Timeline S V) (tracks : Tracks main out t) : Tracks main [] (t.issueAll commands) := by
  induction fits generalizing t with
  | done => exact tracks
  | work w apart _ ih => exact ih _ (tracks_work main _ t tracks w apart)
  | fork stream w aside apart _ ih => exact ih _ (tracks_fork main _ t tracks stream w aside apart)
  | join stream left others _ ih =>
      refine ih _ (tracks_seen main _ left t _ tracks stream others rfl (seen_wait t main stream) ?_)
      intro other away
      rw [seen_wait_other t main stream other away]
  | observe stream left others _ ih =>
      exact ih _ (tracks_seen main _ left t _ tracks stream others rfl rfl fun _ _ => Set.subset_union_left)

theorem execute_issue (t : Timeline S V) (command : Command S V) (memory : ∀ cell, V cell) :
    (t.issue command).execute (List.range (t.issue command).works.length) memory =
      command.perform (t.execute (List.range t.works.length) memory) := by
  cases command with
  | wait stream other => rfl
  | observe stream => rfl
  | run stream work =>
      have length : (t.issue (.run stream work)).works.length = t.works.length + 1 := List.length_append
      rw [length,List.range_succ,Timeline.execute,List.foldl_append]
      have last : (t.issue (.run stream work)).act t.works.length = work.effect := by
        funext memory
        rw [Timeline.act,Timeline.issue,List.getElem?_concat_length]
      have before : ∀ (order : List Nat) (memory : ∀ cell, V cell), (∀ k ∈ order, k < t.works.length) →
          order.foldl (fun memory k => (t.issue (.run stream work)).act k memory) memory = t.execute order memory := by
        intro order memory inside
        induction order generalizing memory with
        | nil => rfl
        | cons k order ih =>
            have same : (t.issue (.run stream work)).act k memory = t.act k memory := by
              rw [Timeline.act,Timeline.issue,List.getElem?_append_left (inside k List.mem_cons_self)]
              rfl
            rw [List.foldl_cons,same]
            exact ih _ fun k member => inside k (List.mem_cons_of_mem _ member)
      rw [before _ _ fun k member => List.mem_range.mp member,List.foldl_cons,List.foldl_nil,last]
      rfl

theorem execute_issueAll (t : Timeline S V) (commands : List (Command S V)) (memory : ∀ cell, V cell) :
    (t.issueAll commands).execute (List.range (t.issueAll commands).works.length) memory =
      performAll commands (t.execute (List.range t.works.length) memory) := by
  induction commands generalizing t with
  | nil => rfl
  | cons command commands ih => exact (ih (t.issue command)).trans (congrArg _ (execute_issue t command memory))

theorem fits_schedules (main : S) (commands : List (Command S V)) (fits : Fits main [] commands) (order : List Nat)
    (schedule : Schedule (Timeline.empty.issueAll commands) order) (memory : ∀ cell, V cell) :
    (Timeline.empty.issueAll commands).execute order memory = performAll commands memory := by
  have start : Tracks main [] (Timeline.empty : Timeline S V) := by
    refine ⟨?_,?_⟩
    · intro i j one two below first
      cases first
    · intro i one found
      cases found
  have ordered := (fits_tracks main [] commands fits _ start).ordered
  exact (schedule_exact _ ordered order schedule memory).trans (execute_issueAll Timeline.empty commands memory)

-- Every work is after earlier ones only, so the order of issue is one the device may take.
theorem issue_earlier (commands : List (Command S V)) (t : Timeline S V)
    (works : ∀ (k : Nat) (issued : Issued V), t.works[k]? = some issued → ∀ i ∈ issued.after, i < k)
    (seen : ∀ stream, ∀ i ∈ t.seen stream, i < t.works.length) (k : Nat) (issued : Issued V)
    (found : (t.issueAll commands).works[k]? = some issued) : ∀ i ∈ issued.after, i < k := by
  induction commands generalizing t with
  | nil => exact works k issued found
  | cons command commands ih =>
      refine ih (t.issue command) ?_ ?_ found
      · intro j one listed i needed
        cases command with
        | wait stream other => exact works j one listed i needed
        | observe stream => exact works j one listed i needed
        | run stream work =>
            rcases works_run t stream work j one listed with earlier | ⟨rfl,rfl⟩
            · exact works j one earlier i needed
            · exact seen stream i needed
      · intro stream i known
        cases command with
        | observe other => exact known.elim (seen stream i) (seen other i)
        | wait waiting other =>
            by_cases equal : stream = waiting
            · rw [equal,seen_wait] at known
              exact known.elim (seen waiting i) (seen other i)
            · rw [seen_wait_other _ _ _ _ equal] at known
              exact seen stream i known
        | run own work =>
            have length : (t.issue (.run own work)).works.length = t.works.length + 1 := List.length_append
            rw [length]
            by_cases equal : stream = own
            · rw [equal,seen_run] at known
              rcases known with rfl | old
              · exact Nat.lt_succ_self _
              · exact Nat.lt_succ_of_lt (seen own i old)
            · rw [seen_run_other _ _ _ _ equal] at known
              exact Nat.lt_succ_of_lt (seen stream i known)

theorem issue_schedule (commands : List (Command S V)) :
    Schedule (Timeline.empty.issueAll commands) (List.range (Timeline.empty.issueAll commands).works.length) := by
  refine ⟨List.Perm.refl _,?_⟩
  intro front k rest issued split found i needed
  have below := issue_earlier commands Timeline.empty (fun k issued none => by cases none) (fun stream i none => none.elim)
    k issued found i needed
  have inside : i ∈ front ++ k :: rest := by
    rw [← split]
    exact List.mem_range.mpr (Nat.lt_trans below (List.getElem?_eq_some_iff.mp found).1)
  have sorted : (front ++ k :: rest).Pairwise (· < ·) := split ▸ List.pairwise_lt_range
  rcases List.mem_append.mp inside with earlier | later
  · exact earlier
  · rcases List.mem_cons.mp later with rfl | later
    · exact absurd below (Nat.lt_irrefl i)
    · have above := (List.pairwise_cons.mp (List.pairwise_append.mp sorted).2.1).1 i later
      omega

end

end OneSpark.Streams
