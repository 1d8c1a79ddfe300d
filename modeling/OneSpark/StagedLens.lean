import OneSpark.GraphRuns
import OneSpark.Streams

namespace OneSpark.StagedLens
open RingSlots GraphLayout GraphRuns Streams

-- The host's own writes, and the stream that copies and launches go to.
inductive Party where
  | host | device
  deriving DecidableEq

-- The two halves of _graph_extend_lens_pin, _graph_extend_lens, and the lengths each launched refresh has read.
inductive Cell where
  | pin (half : Bool)
  | staged
  | rows
  deriving DecidableEq

def Value : Cell → Type
  | .pin _ => Nat → Nat
  | .staged => Nat → Nat
  | .rows => List (List Nat)

abbrev Memory := ∀ cell, Value cell

def Memory.pinAt (memory : Memory) (half : Bool) : Nat → Nat := memory (.pin half)
def Memory.stagedAt (memory : Memory) : Nat → Nat := memory .staged
def Memory.rowsAt (memory : Memory) : List (List Nat) := memory .rows

-- buffer[:len(values)] = values
def overwritten (buffer : Nat → Nat) (values : List Nat) : Nat → Nat := fun i => values.getD i (buffer i)

def firstOf (buffer : Nat → Nat) (n : Nat) : List Nat := (List.range n).map buffer

-- pin[:bs].copy_ or fill_, by the host.
def writePin (half : Bool) (values : List Nat) : Work Value where
  reads := {.pin half}
  writes := {.pin half}
  effect := fun memory cell =>
    match cell with
    | .pin own => if own = half then overwritten (Memory.pinAt memory own) values else memory (.pin own)
    | .staged => memory .staged
    | .rows => memory .rows
  frame := by
    intro memory cell outside
    cases cell with
    | pin own => exact if_neg fun same => outside (congrArg Cell.pin same)
    | staged => rfl
    | rows => rfl
  known := by
    intro memory other same cell inside
    cases inside
    have own : memory (.pin half) = other (.pin half) := same _ rfl
    show (if half = half then overwritten (memory (.pin half)) values else memory (.pin half)) =
      if half = half then overwritten (other (.pin half)) values else other (.pin half)
    rw [own]

-- staged[:bs].copy_(pin[:bs], non_blocking=True).
def copyStaged (half : Bool) (n : Nat) : Work Value where
  reads := {.pin half,.staged}
  writes := {.staged}
  effect := fun memory cell =>
    match cell with
    | .pin own => memory (.pin own)
    | .staged => overwritten (Memory.stagedAt memory) (firstOf (Memory.pinAt memory half) n)
    | .rows => memory .rows
  frame := by
    intro memory cell outside
    cases cell with
    | pin own => rfl
    | staged => exact absurd rfl outside
    | rows => rfl
  known := by
    intro memory other same cell inside
    cases inside
    have pin : memory (.pin half) = other (.pin half) := same _ (.inl rfl)
    have staged : memory .staged = other .staged := same _ (.inr rfl)
    show overwritten (memory .staged) (firstOf (memory (.pin half)) n) =
      overwritten (other .staged) (firstOf (other (.pin half)) n)
    rw [pin,staged]

-- What _stage_extend_lens returns: the runner's own tensor, or the first rows of the staging buffer.
inductive Source where
  | given (lens : List Nat)
  | staged (n : Nat)

def Source.read (source : Source) (staged : Nat → Nat) : List Nat :=
  match source with
  | .given lens => lens
  | .staged n => firstOf staged n

-- launch_graph_metadata, of which only the lengths it reads are shown.
def launch (source : Source) : Work Value where
  reads := {.staged,.rows}
  writes := {.rows}
  effect := fun memory cell =>
    match cell with
    | .pin own => memory (.pin own)
    | .staged => memory .staged
    | .rows => Memory.rowsAt memory ++ [source.read (Memory.stagedAt memory)]
  frame := by
    intro memory cell outside
    cases cell with
    | pin own => rfl
    | staged => rfl
    | rows => exact absurd rfl outside
  known := by
    intro memory other same cell inside
    cases inside
    have staged : memory .staged = other .staged := same _ (.inl rfl)
    have rows : memory .rows = other .rows := same _ (.inr rfl)
    show Memory.rowsAt memory ++ [source.read (memory .staged)] = Memory.rowsAt other ++ [source.read (other .staged)]
    rw [staged,Memory.rowsAt,Memory.rowsAt,rows]

abbrev Commands := List (Command Party Value)

-- _stage_extend_lens: the next half, what it queues, and where the lengths are to be read.
def stageExtendLens (maxBs : Nat) (pinIdx : Bool) (r : Refresh) : Except Refusal (Bool × Commands × Source) :=
  match ownTensor r with
  | some lens => .ok (pinIdx,[],.given lens)
  | none => do
      let values ← shaped (pinned maxBs r)
      .ok (!pinIdx,[.run .host (writePin pinIdx values),.wait .device .host,
        .run .device (copyStaged pinIdx (min r.bs maxBs))],.staged (min r.bs maxBs))

inductive Event where
  | refresh (r : Refresh)
  | sync

def serve (maxBs : Nat) : Bool → List Event → Except Refusal Commands
  | _,[] => .ok []
  | pinIdx,.sync :: events => do
      let rest ← serve maxBs pinIdx events
      .ok (.observe .device :: rest)
  | pinIdx,.refresh r :: events => do
      let (next,queued,source) ← stageExtendLens maxBs pinIdx r
      let rest ← serve maxBs next events
      .ok (queued ++ [.wait .device .host,.run .device (launch source)] ++ rest)

def lensOf (maxBs : Nat) (r : Refresh) : List Nat :=
  match ownTensor r with
  | some lens => lens
  | none => (pinned maxBs r).getD []

def meant (maxBs : Nat) : List Event → List (List Nat)
  | [] => []
  | .sync :: events => meant maxBs events
  | .refresh r :: events => lensOf maxBs r :: meant maxBs events

-- No more than two stagings between two sights of the device.
def Paced : Nat → List Event → Prop
  | _,[] => True
  | _,.sync :: events => Paced 0 events
  | staged,.refresh r :: events =>
      if ownTensor r = none then staged < 2 ∧ Paced (staged + 1) events else Paced staged events

theorem firstOf_overwritten (buffer : Nat → Nat) (values : List Nat) : firstOf (overwritten buffer values) values.length =
    values := by
  apply List.ext_getElem?
  intro i
  rw [firstOf,List.getElem?_map]
  cases found : values[i]? with
  | none =>
      rw [List.getElem?_eq_none (by simpa using List.getElem?_eq_none_iff.mp found)]
      rfl
  | some value =>
      obtain ⟨inside,_⟩ := List.getElem?_eq_some_iff.mp found
      rw [List.getElem?_range inside,Option.map_some,overwritten,List.getD_eq_getElem?_getD,found,Option.getD_some]

theorem pinned_length {maxBs : Nat} {r : Refresh} {values : List Nat} (made : pinned maxBs r = some values) :
    values.length = min r.bs maxBs := by
  unfold pinned at made
  split at made
  · cases made
    exact List.length_replicate
  · exact spread_length _ _ _ made

theorem stage_parts {maxBs : Nat} {pinIdx next : Bool} {r : Refresh} {queued : Commands} {source : Source}
    (ran : stageExtendLens maxBs pinIdx r = .ok (next,queued,source)) :
    (∃ lens, ownTensor r = some lens ∧ next = pinIdx ∧ queued = [] ∧ source = .given lens) ∨
    ∃ values, ownTensor r = none ∧ pinned maxBs r = some values ∧ next = !pinIdx ∧ source = .staged values.length ∧
      queued = [.run .host (writePin pinIdx values),.wait .device .host,.run .device (copyStaged pinIdx values.length)] := by
  unfold stageExtendLens at ran
  split at ran
  · rename_i lens own
    cases ran
    exact .inl ⟨lens,own,rfl,rfl,rfl⟩
  · rename_i own
    obtain ⟨values,made,ran⟩ := bind_ok ran
    cases ran
    have whole := shaped_ok _ _ made
    rw [← pinned_length whole]
    exact .inr ⟨values,own,whole,rfl,rfl,rfl⟩

theorem serve_refresh {maxBs : Nat} {pinIdx : Bool} {r : Refresh} {events : List Event} {commands : Commands}
    (ran : serve maxBs pinIdx (.refresh r :: events) = .ok commands) : ∃ next queued source rest,
      stageExtendLens maxBs pinIdx r = .ok (next,queued,source) ∧ serve maxBs next events = .ok rest ∧
        commands = queued ++ [.wait .device .host,.run .device (launch source)] ++ rest := by
  obtain ⟨⟨next,queued,source⟩,staged,ran⟩ := bind_ok ran
  obtain ⟨rest,served,ran⟩ := bind_ok ran
  cases ran
  exact ⟨next,queued,source,rest,staged,served,rfl⟩

theorem serve_meant (maxBs : Nat) (events : List Event) (pinIdx : Bool) (commands : Commands)
    (ran : serve maxBs pinIdx events = .ok commands) (memory : Memory) :
    performAll commands memory .rows = Memory.rowsAt memory ++ meant maxBs events := by
  induction events generalizing pinIdx commands memory with
  | nil =>
      cases ran
      exact (List.append_nil _).symm
  | cons event events ih =>
      cases event with
      | sync =>
          obtain ⟨rest,served,ran⟩ := bind_ok ran
          cases ran
          exact ih pinIdx rest served memory
      | refresh r =>
          obtain ⟨next,queued,source,rest,staged,served,rfl⟩ := serve_refresh ran
          rw [perform_append,ih next rest served,meant,lensOf]
          rcases stage_parts staged with ⟨lens,own,rfl,rfl,rfl⟩ | ⟨values,own,made,rfl,rfl,rfl⟩
          · rw [own]
            exact List.append_assoc ..
          · rw [own,made]
            have written : firstOf (overwritten (Memory.pinAt memory pinIdx) values) values.length = values :=
              firstOf_overwritten _ values
            have copied : firstOf (overwritten (Memory.stagedAt memory) values) values.length = values :=
              firstOf_overwritten _ values
            have shown : performAll (([.run .host (writePin pinIdx values),.wait .device .host,
                .run .device (copyStaged pinIdx values.length)] : Commands) ++
                ([.wait .device .host,.run .device (launch (.staged values.length))] : Commands)) memory .rows =
                Memory.rowsAt memory ++ [values] := by
              show Memory.rowsAt memory ++ [firstOf (overwritten (Memory.stagedAt memory)
                (firstOf (if pinIdx = pinIdx then overwritten (Memory.pinAt memory pinIdx) values else Memory.pinAt memory pinIdx)
                values.length))
                values.length] = _
              rw [if_pos rfl,written,copied]
            rw [Memory.rowsAt,shown,List.append_assoc]
            rfl

-- The device has seen everything, and of what the host has not seen nothing touches a half it may write next.
structure Halves (pinIdx : Bool) (staged : Nat) (t : Timeline Party Value) : Prop where
  ordered : Ordered t
  device : ∀ k < t.works.length, k ∈ t.seen .device
  unseen : ∀ (k : Nat) (one : Issued Value), t.works[k]? = some one → k ∉ t.seen .host →
    ∀ half, staged = 0 ∨ staged = 1 ∧ half = pinIdx → .pin half ∉ one.work.reads ∧ .pin half ∉ one.work.writes

theorem halves_wait {pinIdx : Bool} {staged : Nat} {t : Timeline Party Value} (halves : Halves pinIdx staged t) :
    Halves pinIdx staged (t.issue (.wait .device .host)) := by
  refine ⟨halves.ordered,?_,?_⟩
  · intro k below
    rw [seen_wait]
    exact .inl (halves.device k below)
  · intro k one found unseen
    rw [seen_wait_other _ _ _ _ (by decide)] at unseen
    exact halves.unseen k one found unseen

theorem halves_device {pinIdx : Bool} {staged : Nat} {t : Timeline Party Value} (halves : Halves pinIdx staged t)
    (w : Work Value) (apart : ∀ half, staged = 0 ∨ staged = 1 ∧ half = pinIdx →
      .pin half ∉ w.reads ∧ .pin half ∉ w.writes) : Halves pinIdx staged (t.issue (.run .device w)) := by
  refine ⟨issue_ordered t halves.ordered .device w ?_,?_,?_⟩
  · intro k one found unseen
    exact absurd (halves.device k (List.getElem?_eq_some_iff.mp found).1) unseen
  · intro k below
    have length : (t.issue (.run .device w)).works.length = t.works.length + 1 := List.length_append
    rw [length] at below
    rw [seen_run]
    rcases Nat.lt_succ_iff_lt_or_eq.mp below with old | rfl
    · exact .inr (halves.device k old)
    · exact .inl rfl
  · intro k one found unseen half free
    rw [seen_run_other _ _ _ _ (by decide)] at unseen
    rcases works_run t .device w k one found with earlier | ⟨rfl,rfl⟩
    · exact halves.unseen k one earlier unseen half free
    · exact apart half free

-- The host writes a half nothing outstanding touches, and hands it over.
theorem halves_host {pinIdx : Bool} {staged : Nat} {t : Timeline Party Value} (halves : Halves pinIdx staged t)
    (few : staged < 2) (values : List Nat) :
    Halves (!pinIdx) (staged + 1) ((t.issue (.run .host (writePin pinIdx values))).issue (.wait .device .host)) := by
  have free : staged = 0 ∨ staged = 1 ∧ pinIdx = pinIdx := by
    rcases Nat.lt_succ_iff_lt_or_eq.mp few with none | one
    · exact .inl (Nat.lt_one_iff.mp none)
    · exact .inr ⟨one,rfl⟩
  refine ⟨issue_ordered t halves.ordered .host _ ?_,?_,?_⟩
  · intro k one found unseen
    obtain ⟨reads,writes⟩ := halves.unseen k one found unseen pinIdx free
    exact ⟨Set.disjoint_singleton_right.mpr writes,Set.disjoint_singleton_right.mpr reads,
      Set.disjoint_singleton_right.mpr writes⟩
  · intro k below
    have length : (t.issue (.run .host (writePin pinIdx values))).works.length = t.works.length + 1 := List.length_append
    rw [seen_wait,seen_run,seen_run_other _ _ _ _ (by decide)]
    rcases Nat.lt_succ_iff_lt_or_eq.mp (length ▸ below) with old | rfl
    · exact .inl (halves.device k old)
    · exact .inr (.inl rfl)
  · intro k one found unseen half next
    rw [seen_wait_other _ _ _ _ (by decide),seen_run,Set.mem_insert_iff,not_or] at unseen
    rcases works_run t .host _ k one found with earlier | ⟨last,_⟩
    · exact halves.unseen k one earlier unseen.2 half (.inl (by omega))
    · exact absurd last unseen.1

theorem halves_sync {pinIdx : Bool} {staged : Nat} {t : Timeline Party Value} (halves : Halves pinIdx staged t) :
    Halves pinIdx 0 (t.issue (.observe .device)) := by
  refine ⟨halves.ordered,fun k below => .inl (halves.device k below),?_⟩
  intro k one found unseen
  exact absurd (.inr (halves.device k (List.getElem?_eq_some_iff.mp found).1)) unseen

theorem serve_ordered (maxBs : Nat) (events : List Event) (pinIdx : Bool) (staged : Nat) (commands : Commands)
    (ran : serve maxBs pinIdx events = .ok commands) (paced : Paced staged events) (t : Timeline Party Value)
    (halves : Halves pinIdx staged t) : Ordered (t.issueAll commands) := by
  induction events generalizing pinIdx staged commands t with
  | nil =>
      cases ran
      exact halves.ordered
  | cons event events ih =>
      cases event with
      | sync =>
          obtain ⟨rest,served,ran⟩ := bind_ok ran
          cases ran
          exact ih pinIdx 0 rest served paced _ (halves_sync halves)
      | refresh r =>
          obtain ⟨next,queued,source,rest,queue,served,rfl⟩ := serve_refresh ran
          have quiet : ∀ (source : Source) (half : Bool), .pin half ∉ (launch source).reads ∧
              .pin half ∉ (launch source).writes := by
            intro source half
            constructor
            · rintro (same | same) <;> cases same
            · intro member
              cases member
          unfold Paced at paced
          rw [Timeline.issueAll,List.foldl_append]
          rcases stage_parts queue with ⟨lens,own,rfl,rfl,rfl⟩ | ⟨values,own,_,rfl,rfl,rfl⟩
          · rw [own,if_neg (by simp)] at paced
            exact ih next staged rest served paced _ (halves_device (halves_wait halves) _ fun half _ => quiet _ half)
          · rw [if_pos own] at paced
            refine ih (!pinIdx) (staged + 1) rest served paced.2 _ (halves_device (halves_wait (halves_device
              (halves_host halves paced.1 values) _ ?_)) _ fun half _ => quiet _ half)
            intro half free
            have other : half ≠ pinIdx := by
              rintro rfl
              rcases free with none | ⟨_,same⟩
              · exact Nat.succ_ne_zero _ none
              · cases half <;> cases same
            constructor
            · rintro (same | same)
              · cases same
                exact other rfl
              · cases same
            · intro member
              cases member

theorem firstOf_again (buffer : Nat → Nat) (values : List Nat) (n : Nat) (below : n ≤ values.length) :
    firstOf (overwritten buffer values) n = values.take n := by
  have all := congrArg (List.take n) (firstOf_overwritten buffer values)
  rwa [firstOf,← List.map_take,List.take_range,Nat.min_eq_left below] at all

theorem schedule_places (t : Timeline Party Value) (order : List Nat) (all : order.Perm (List.range t.works.length))
    (places : ∀ (j k : Nat) (issued : Issued Value), order[j]? = some k → t.works[k]? = some issued →
      ∀ i ∈ issued.after, i ∈ order.take j) : Schedule t order := by
  refine ⟨all,?_⟩
  rintro front k rest issued rfl found i needed
  have placed := places front.length k issued (by simp) found i needed
  rwa [List.take_left] at placed

def sampleEvents : List Event :=
  [.refresh ⟨2,6,none,some [3,5]⟩,.refresh ⟨2,8,none,none⟩,.sync,.refresh ⟨1,4,some [1,9],none⟩,
    .refresh ⟨2,6,some [1],some [2,4]⟩]

def blankMemory : Memory
  | .pin _ => fun _ => 0
  | .staged => fun _ => 0
  | .rows => []

def staging (half : Bool) (values : List Nat) : Commands :=
  [.run .host (writePin half values),.wait .device .host,.run .device (copyStaged half values.length),.wait .device .host,
    .run .device (launch (.staged values.length))]

theorem serve_staged {maxBs : Nat} {pinIdx : Bool} {r : Refresh} {events : List Event} {commands : Commands}
    (ran : serve maxBs pinIdx (.refresh r :: events) = .ok commands) (own : ownTensor r = none) : ∃ values rest,
      pinned maxBs r = some values ∧ serve maxBs (!pinIdx) events = .ok rest ∧ commands = staging pinIdx values ++ rest := by
  obtain ⟨next,queued,source,rest,queue,served,rfl⟩ := serve_refresh ran
  rcases stage_parts queue with ⟨lens,given,_⟩ | ⟨values,_,made,rfl,rfl,rfl⟩
  · rw [own] at given
    cases given
  · exact ⟨values,rest,made,served,rfl⟩

-- A staging adds to what the host is after its own write only.
theorem host_seen (t : Timeline Party Value) (half : Bool) (values : List Nat) :
    (t.issueAll (staging half values)).seen .host = insert t.works.length (t.seen .host) := by
  have copied := seen_run_other (t.issue (.run .host (writePin half values)) |>.issue (.wait .device .host)) .device .host
    (copyStaged half values.length) (by decide)
  have launched := seen_run_other (t.issue (.run .host (writePin half values)) |>.issue (.wait .device .host) |>.issue
    (.run .device (copyStaged half values.length)) |>.issue (.wait .device .host)) .device .host
    (launch (.staged values.length)) (by decide)
  rw [seen_wait_other _ _ _ _ (by decide),copied,seen_wait_other _ _ _ _ (by decide),seen_run] at launched
  exact launched

theorem copied_rows (half : Bool) (n : Nat) (memory : Memory) :
    (launch (.staged n)).effect ((copyStaged half n).effect memory) .rows =
      Memory.rowsAt memory ++ [firstOf (Memory.pinAt memory half) n] := by
  have whole : (firstOf (Memory.pinAt memory half) n).length = n := by simp [firstOf]
  have copied := firstOf_overwritten (Memory.stagedAt memory) (firstOf (Memory.pinAt memory half) n)
  rw [whole] at copied
  exact congrArg (fun read => Memory.rowsAt memory ++ [read]) copied

section
variable (pinIdx : Bool) (a b c : List Nat)

def threeStaged : Commands := staging pinIdx a ++ (staging (!pinIdx) b ++ (staging pinIdx c ++ []))

-- All three of the host's writes before the device's first copy.
theorem lagging_schedule : Schedule (Timeline.empty.issueAll (threeStaged pinIdx a b c)) [0,3,6,1,2,4,5,7,8] := by
  refine schedule_places _ _ (show List.Perm _ (List.range 9) from by decide) ?_
  intro j k issued placed found i needed
  have below : j < 9 := (List.getElem?_eq_some_iff.mp placed).1
  have earlier := issue_earlier _ Timeline.empty (fun _ _ none => by cases none) (fun _ _ none => none.elim) k issued found
    i needed
  interval_cases j <;> cases placed
  -- the host's own writes are after each other only
  · cases found
    exact needed.elim
  · cases found
    have one : i ∈ (Timeline.empty.issueAll (staging pinIdx a)).seen .host := needed
    rw [host_seen] at one
    rcases one with rfl | none
    · decide
    · exact none.elim
  · cases found
    have both : i ∈ ((Timeline.empty.issueAll (staging pinIdx a)).issueAll (staging (!pinIdx) b)).seen .host := needed
    rw [host_seen,host_seen] at both
    rcases both with rfl | rfl | none
    · exact .tail 0 (.head _)
    · exact .head _
    · exact none.elim
  -- the device's are after everything issued before them, which the order keeps
  all_goals
    clear needed found
    interval_cases i <;> decide

-- The first copy then takes its number of places of the third lengths.
theorem lagging_reads (covers : a.length ≤ c.length) (memory : Memory) :
    (Timeline.empty.issueAll (threeStaged pinIdx a b c)).execute [0,3,6,1,2,4,5,7,8] memory .rows =
      Memory.rowsAt memory ++ [c.take a.length,b,c] := by
  let written := (writePin pinIdx c).effect ((writePin (!pinIdx) b).effect ((writePin pinIdx a).effect memory))
  have own : firstOf (Memory.pinAt written pinIdx) a.length = c.take a.length ∧
      firstOf (Memory.pinAt written pinIdx) c.length = c := by
    have held : Memory.pinAt written pinIdx = overwritten (Memory.pinAt
        ((writePin (!pinIdx) b).effect ((writePin pinIdx a).effect memory)) pinIdx) c := if_pos rfl
    rw [held]
    exact ⟨firstOf_again _ c _ covers,firstOf_overwritten _ c⟩
  have other : firstOf (Memory.pinAt written (!pinIdx)) b.length = b := by
    have apart : (!pinIdx) ≠ pinIdx := by cases pinIdx <;> decide
    have held : Memory.pinAt written (!pinIdx) = overwritten (Memory.pinAt ((writePin pinIdx a).effect memory) (!pinIdx)) b :=
      (if_neg apart).trans (if_pos rfl)
    rw [held]
    exact firstOf_overwritten _ b
  have one := copied_rows pinIdx a.length written
  have two := copied_rows (!pinIdx) b.length ((launch (.staged a.length)).effect ((copyStaged pinIdx a.length).effect written))
  have three := copied_rows pinIdx c.length ((launch (.staged b.length)).effect ((copyStaged (!pinIdx) b.length).effect
    ((launch (.staged a.length)).effect ((copyStaged pinIdx a.length).effect written))))
  refine three.trans ?_
  calc Memory.rowsAt ((launch (.staged b.length)).effect ((copyStaged (!pinIdx) b.length).effect
        ((launch (.staged a.length)).effect ((copyStaged pinIdx a.length).effect written)))) ++
          [firstOf (Memory.pinAt written pinIdx) c.length]
    _ = Memory.rowsAt ((launch (.staged a.length)).effect ((copyStaged pinIdx a.length).effect written)) ++
          [firstOf (Memory.pinAt written (!pinIdx)) b.length] ++ [firstOf (Memory.pinAt written pinIdx) c.length] :=
      congrArg (· ++ [_]) two
    _ = Memory.rowsAt written ++ [firstOf (Memory.pinAt written pinIdx) a.length] ++
          [firstOf (Memory.pinAt written (!pinIdx)) b.length] ++ [firstOf (Memory.pinAt written pinIdx) c.length] :=
      congrArg (· ++ [_] ++ [_]) one
    _ = Memory.rowsAt memory ++ [c.take a.length,b,c] := by
      rw [own.1,own.2,other,List.append_assoc,List.append_assoc]
      rfl

end

end OneSpark.StagedLens
