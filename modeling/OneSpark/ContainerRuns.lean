import OneSpark.Containers
import Mathlib.Logic.Relation

namespace OneSpark.ContainerRuns
open Containers

structure Idle (world : World) : Prop where
  unique : (world.containers.map fun c => c.name).Nodup
  none : ∀ i, world.processes i = none

def Step (before after : World) : Prop := ∃ move event, step before move = some (after,event)

def Reached (first world : World) : Prop := Relation.ReflTransGen Step first world

def Creates (world : World) (move : Move) (checkout : Checkout) (name : String) : Prop :=
  ∃ i outcome, move = .go i outcome ∧ outcome ≠ .fails ∧ world.processes i = some (.launch checkout name .run) ∧
    find world.containers name = none

-- No stop.sh run of another checkout is between its owner check and its docker rm for that name.
def Guarded (world : World) (move : Move) : Prop :=
  ∀ checkout name, Creates world move checkout name → ∀ j process other, world.processes j = some process →
    Past process other name → other = checkout

def GuardedStep (before after : World) : Prop := ∃ move event, Guarded before move ∧ step before move = some (after,event)

def GuardedReached (first world : World) : Prop := Relation.ReflTransGen GuardedStep first world

def Owned : Event → Prop
  | .stopped checkout c => c.label = some checkout.path
  | .removed checkout c => c.label = some checkout.path
  | _ => True

inductive Moved (before : World) (move : Move) : World → Event → Prop where
  | started : (∀ j process, after.processes j = some process → before.processes j = some process ∨
      ∀ checkout name, ¬ Past process checkout name) → after.containers = before.containers → Moved before move after .quiet
  | exited : move = .exits name → Moved before move {before with containers := halt before.containers name} .quiet
  | went : move = .go i outcome → before.processes i = some process →
      Did before.containers process outcome (containers,next,event) →
      Moved before move ⟨containers,Function.update before.processes i (some next)⟩ event

theorem start_moved (ran : start before i process = some (after,event))
    (fresh : ∀ checkout name, ¬ Past process checkout name) : Moved before move after event := by
  unfold start at ran
  split at ran
  · cases ran
  · cases ran
    refine .started ?_ rfl
    intro j other found
    by_cases same : j = i
    · subst same
      simp only [Function.update_self,Option.some_inj] at found
      subst found
      exact .inr fresh
    · simp only [Function.update_of_ne same] at found
      exact .inl found

theorem step_moved (ran : step before move = some (after,event)) : Moved before move after event := by
  cases move with
  | stop i checkout name =>
      refine start_moved ran ?_
      rintro other same (past | past) <;> cases past
  | launch i checkout name => exact start_moved ran (launch_not_past _ _ _)
  | go i outcome =>
      obtain ⟨process,found,same⟩ := Option.map_eq_some_iff.mp ran
      cases same
      exact .went rfl found (next_did _ _ _)
  | exits name =>
      cases ran
      exact .exited rfl

theorem halt_names (containers : List Container) (name : String) :
    (halt containers name).map (fun c => c.name) = containers.map fun c => c.name := by
  unfold halt
  rw [List.map_map]
  apply List.map_congr_left
  intro c _
  dsimp only [Function.comp_apply]
  split <;> rfl

theorem halt_member (name : String) (member : c ∈ halt containers name) :
    ∃ old ∈ containers, old.name = c.name ∧ old.label = c.label := by
  obtain ⟨old,present,rfl⟩ := List.mem_map.mp member
  refine ⟨old,present,?_⟩
  split <;> exact ⟨rfl,rfl⟩

theorem did_unique (did : Did containers process outcome (after,next,event))
    (unique : (containers.map fun c => c.name).Nodup) : (after.map fun c => c.name).Nodup := by
  cases did with
  | quiet => exact unique
  | stopped =>
      rw [halt_names]
      exact unique
  | removed => exact unique.sublist (List.filter_sublist.map _)
  | created _ _ free =>
      rw [List.map_append,List.nodup_append]
      refine ⟨unique,List.nodup_singleton _,?_⟩
      intro held present made new same
      obtain ⟨c,member,rfl⟩ := List.mem_map.mp present
      obtain rfl := List.mem_singleton.mp new
      exact (find_none _ _).mp free c member same

theorem reached_unique (idle : Idle first) (run : Reached first world) : (world.containers.map fun c => c.name).Nodup := by
  induction run with
  | refl => exact idle.unique
  | tail _ last ih =>
      obtain ⟨move,event,ran⟩ := last
      cases step_moved ran with
      | started _ same =>
          rw [same]
          exact ih
      | exited _ =>
          rw [halt_names]
          exact ih
      | went _ _ did => exact did_unique did ih

-- Past its check a run names a container of its own, or none.
def PastOwned (world : World) : Prop :=
  ∀ j process, world.processes j = some process → ∀ checkout name, Past process checkout name →
    ∀ c ∈ world.containers, c.name = name → c.label = some checkout.path

theorem idle_owned (idle : Idle first) : PastOwned first := by
  intro j process found
  rw [idle.none j] at found
  cases found

theorem named_once (unique : (containers.map fun c => c.name).Nodup) (found : find containers name = some c)
    (other : Container) (member : other ∈ containers) (named : other.name = name) : other = c := by
  obtain ⟨present,same⟩ := find_parts found
  exact List.inj_on_of_nodup_map unique member present (named.trans same.symm)

-- A run past its check stays right while containers are only halted or removed.
theorem past_fewer {containers after : List Container} (past : ∀ c ∈ containers, c.name = name → c.label = some path)
    (fewer : ∀ c ∈ after, ∃ old ∈ containers, old.name = c.name ∧ old.label = c.label) :
    ∀ c ∈ after, c.name = name → c.label = some path := by
  intro c member named
  obtain ⟨old,present,sameName,sameLabel⟩ := fewer c member
  rw [← sameLabel]
  exact past old present (sameName.trans named)

section
variable {before : World} {move : Move} {i : Nat} {outcome : Outcome} {process next : Process} {containers : List Container}
  {event : Event} (went : move = .go i outcome) (running : before.processes i = some process)
  (unique : (before.containers.map fun c => c.name).Nodup) (past : PastOwned before)
include running past

theorem did_owned (did : Did before.containers process outcome (containers,next,event)) : Owned event := by
  have own : ∀ checkout name, Past process checkout name → ∀ c, find before.containers name = some c →
      c.label = some checkout.path := by
    intro checkout name passed c found
    obtain ⟨member,named⟩ := find_parts found
    exact past i process running checkout name passed c member named
  cases did with
  | quiet => trivial
  | stopped here found => exact own _ _ (.inl here) _ found
  | removed here found _ => exact own _ _ (.inr here) _ found
  | created => trivial

include went unique in
theorem did_past (guard : Guarded before move) (did : Did before.containers process outcome (containers,next,event)) :
    PastOwned ⟨containers,Function.update before.processes i (some next)⟩ := by
  intro j other found checkout name passed
  by_cases same : j = i
  · subst same
    simp only [Function.update_self,Option.some_inj] at found
    subst found
    cases did with
    | quiet checked =>
        obtain ⟨c,held,label⟩ := checked checkout name passed
        intro other member named
        rw [named_once unique held other member named]
        exact label
    | stopped here _ =>
        rcases passed with impossible | again
        · cases impossible
        · cases again
          exact past_fewer (past j process running checkout name (.inl here)) fun c member => halt_member name member
    | removed =>
        rcases passed with impossible | impossible <;> cases impossible
    | created => exact absurd passed (launch_not_past _ _ _ _ _)
  · simp only [Function.update_of_ne same] at found
    have held := past j other found checkout name passed
    cases did with
    | quiet => exact held
    | stopped => exact past_fewer held fun c member => halt_member _ member
    | removed => exact past_fewer held fun c member => ⟨c,(List.mem_filter.mp member).1,rfl,rfl⟩
    | created here runs free =>
        intro c member named
        rcases List.mem_append.mp member with old | new
        · exact held c old named
        · obtain rfl := List.mem_singleton.mp new
          subst named
          rw [guard _ _ ⟨i,outcome,went,runs,here ▸ running,free⟩ j other checkout found passed]

end

theorem moved_past (moved : Moved before move after event) (guard : Guarded before move)
    (unique : (before.containers.map fun c => c.name).Nodup) (past : PastOwned before) : PastOwned after := by
  cases moved with
  | started kept same =>
      intro j process found checkout name passed
      rw [same]
      rcases kept j process found with old | fresh
      · exact past j process old checkout name passed
      · exact absurd passed (fresh checkout name)
  | exited _ =>
      intro j process found checkout name passed
      exact past_fewer (past j process found checkout name passed) fun c member => halt_member _ member
  | went here running did => exact did_past here running unique past guard did

theorem moved_owned (moved : Moved before move after event) (past : PastOwned before) : Owned event := by
  cases moved with
  | started => trivial
  | exited => trivial
  | went _ running did => exact did_owned running past did

theorem guarded_reached (run : GuardedReached first world) : Reached first world := by
  induction run with
  | refl => exact .refl
  | tail _ last ih =>
      obtain ⟨move,event,_,ran⟩ := last
      exact ih.tail ⟨move,event,ran⟩

theorem reached_past (idle : Idle first) (run : GuardedReached first world) : PastOwned world := by
  induction run with
  | refl => exact idle_owned idle
  | tail earlier last ih =>
      obtain ⟨move,event,guard,ran⟩ := last
      exact moved_past (step_moved ran) guard (reached_unique idle (guarded_reached earlier)) ih

theorem launch_keeps (ran : step before (.go i outcome) = some (after,event))
    (running : before.processes i = some (.launch checkout name next)) : before.containers <+: after.containers := by
  cases step_moved ran with
  | started _ same => exact same ▸ List.prefix_refl _
  | exited impossible => cases impossible
  | went here found did =>
      cases here
      cases running.symm.trans found
      cases did with
      | quiet => exact List.prefix_refl _
      | stopped impossible => cases impossible
      | removed impossible => cases impossible
      | created => exact List.prefix_append _ _

theorem path_exact {one two : Checkout} (same : one.path = two.path) : one = two := by
  cases one
  cases two
  cases same
  rfl

theorem find_new (free : find containers name = none) (made : Container) (named : made.name = name) :
    find (containers ++ [made]) name = some made := by
  unfold find at free ⊢
  rw [List.find?_append,free]
  simp [named]

theorem find_halt (containers : List Container) (name : String) :
    find (halt containers name) name = (find containers name).map fun c => {c with running := false} := by
  have test : ((fun c : Container => c.name == name) ∘ fun c => if c.name = name then {c with running := false} else c) =
      fun c => c.name == name := by
    funext c
    dsimp only [Function.comp_apply]
    split <;> rfl
  unfold find halt
  rw [List.find?_map,test]
  cases found : containers.find? fun c => c.name == name with
  | none => rfl
  | some c =>
      have named := (find_parts found).2
      rw [Option.map_some,Option.map_some,if_pos named]

theorem run_step (runs : outcome ≠ .fails) (running : before.processes i = some (.launch checkout name .run))
    (free : find before.containers name = none) (ran : step before (.go i outcome) = some (after,event)) :
    after.containers = before.containers ++ [⟨name,some checkout.path,outcome == .ok⟩] ∧
      ∀ j ≠ i, after.processes j = before.processes j := by
  have made : dockerRun before.containers name checkout.path (outcome == .ok) =
      some (⟨name,some checkout.path,outcome == .ok⟩,before.containers ++ [⟨name,some checkout.path,outcome == .ok⟩]) := by
    unfold dockerRun
    rw [free]
  simp only [step,running,Option.map_some,Process.next,launchNext,if_neg runs,made,Option.some_inj] at ran
  cases ran
  exact ⟨rfl,fun j apart => Function.update_of_ne apart _ _⟩

theorem stop_step (world : World) (waiting : world.processes j = some (.stop checkout name .stopping))
    (held : find world.containers name = some c) : ∃ final, step world (.go j .ok) = some (final,.stopped checkout c) := by
  refine ⟨⟨halt world.containers name,Function.update world.processes j (some (.stop checkout name .removing))⟩,?_⟩
  simp only [step,waiting,Option.map_some,Process.next,stopNext,dockerStop,held,if_true]

theorem rm_step (world : World) (waiting : world.processes j = some (.stop checkout name .removing))
    (held : find world.containers name = some c) (halted : c.running = false) :
    ∃ final, step world (.go j .ok) = some (final,.removed checkout c) := by
  refine ⟨⟨world.containers.filter fun other => other.name ≠ name,
    Function.update world.processes j (some (.stop checkout name .exited))⟩,?_⟩
  simp only [step,waiting,Option.map_some,Process.next,stopNext,dockerRm,held,halted,if_true,if_false,Bool.false_eq_true]

-- A docker run outside of the guard lets the other checkout's run stop or remove the new container.
theorem unguarded_follows (ran : step before move = some (after,event)) (open_run : ¬ Guarded before move) :
    ∃ world next final last, Reached after world ∧ step world next = some (final,last) ∧ ¬ Owned last := by
  unfold Guarded at open_run
  push Not at open_run
  obtain ⟨checkout,name,⟨i,outcome,rfl,runs,running,free⟩,j,process,other,found,passed,different⟩ := open_run
  have apart : j ≠ i := by
    rintro rfl
    cases running.symm.trans found
    exact launch_not_past _ _ _ _ _ passed
  obtain ⟨containers,processes⟩ := run_step runs running free ran
  have waiting := (processes j apart).trans found
  have held := find_new free ⟨name,some checkout.path,outcome == .ok⟩ rfl
  rw [← containers] at held
  have foreign : ¬ some checkout.path = some other.path :=
    fun same => different (path_exact (Option.some_inj.mp same)).symm
  rcases passed with rfl | rfl
  · obtain ⟨final,stops⟩ := stop_step after waiting held
    exact ⟨after,_,final,_,.refl,stops,foreign⟩
  · have halted := (find_halt after.containers name).trans (congrArg _ held)
    obtain ⟨final,removes⟩ := rm_step {after with containers := halt after.containers name} waiting halted rfl
    exact ⟨_,_,final,_,.single ⟨.exits name,_,rfl⟩,removes,foreign⟩

-- In every run names stay unique and a launch leaves every container in place. A run in which no
-- container is made while another checkout's stop.sh is past its owner check stops and removes
-- only containers of the checkout itself; one container made then can be stopped or removed by it.
theorem owned_while_guarded (first : World) (idle : Idle first) :
    (∀ world, Reached first world → (world.containers.map fun c => c.name).Nodup ∧
      ∀ i outcome after event checkout name next, step world (.go i outcome) = some (after,event) →
        world.processes i = some (.launch checkout name next) → world.containers <+: after.containers) ∧
    (∀ world, GuardedReached first world → ∀ move after event, step world move = some (after,event) → Owned event) ∧
    ∀ world, Reached first world → ∀ move after event, step world move = some (after,event) → ¬ Guarded world move →
      ∃ later next final last, Reached after later ∧ step later next = some (final,last) ∧ ¬ Owned last := by
  refine ⟨?_,?_,?_⟩
  · intro world run
    exact ⟨reached_unique idle run,fun i outcome after event checkout name next => launch_keeps⟩
  · intro world run move after event ran
    exact moved_owned (step_moved ran) (reached_past idle run)
  · intro world _ move after event ran open_run
    exact unguarded_follows ran open_run

def here : Checkout := ⟨"/here",by decide⟩
def there : Checkout := ⟨"/there",by decide⟩

def served : World := ⟨[⟨"onespark",some "/here",true⟩],fun _ => none⟩

def runMoves (world : World) : List Move → Option (World × Event)
  | [] => some (world,.quiet)
  | [move] => step world move
  | move :: rest => (step world move).bind fun made => runMoves made.1 rest

-- Two stop.sh runs here pass their check, one goes to its end, the other checkout launches, and the
-- first run stops what it launched.
def race : List Move :=
  [.stop 0 here "onespark",.go 0 .ok,.go 0 .ok,.go 0 .ok,.stop 1 here "onespark",.go 1 .ok,.go 1 .ok,.go 1 .ok,
    .go 1 .ok,.go 1 .ok,.launch 2 there "onespark",.go 2 .ok,.go 2 .ok,.go 2 .ok,.go 2 .ok,.go 2 .ok,.go 2 .ok,.go 2 .ok,
    .go 0 .ok]

theorem foreign_stopped : Idle served ∧
    (runMoves served race).map (fun made => made.2) = some (.stopped here ⟨"onespark",some "/there",true⟩) ∧
    ¬ Owned (.stopped here ⟨"onespark",some "/there",true⟩) := by
  refine ⟨⟨by decide,fun _ => rfl⟩,by decide +kernel,?_⟩
  intro same
  exact absurd (Option.some_inj.mp same) (by decide)

def stopping (next : StopAt) : World :=
  ⟨served.containers,Function.update served.processes 0 (some (.stop here "onespark" next))⟩

theorem stopping_guarded (next : StopAt) (move : Move) : Guarded (stopping next) move := by
  rintro checkout name ⟨i,outcome,_,_,running,_⟩
  by_cases own : i = 0
  · subst own
    exact absurd running (by simp [stopping])
  · exact absurd running (by simp [stopping,served,Function.update_of_ne own])

theorem stopping_step (ran : stopNext served.containers here "onespark" next .ok = (served.containers,later,event)) :
    step (stopping next) (.go 0 .ok) = some (stopping later,event) := by
  simp [step,stopping,Process.next,ran]

theorem stopping_reached : GuardedReached served (stopping .stopping) := by
  have starts : GuardedStep served (stopping .info) :=
    ⟨.stop 0 here "onespark",.quiet,fun _ _ ⟨_,_,named,_⟩ => Move.noConfusion named,rfl⟩
  have goes : ∀ next later, stopNext served.containers here "onespark" next .ok = (served.containers,later,.quiet) →
      GuardedStep (stopping next) (stopping later) :=
    fun next later ran => ⟨.go 0 .ok,.quiet,stopping_guarded next _,stopping_step ran⟩
  exact (((Relation.ReflTransGen.single starts).tail (goes .info .inspect rfl)).tail (goes .inspect .owner rfl)).tail
    (goes .owner .stopping rfl)

theorem served_owned : (∀ world, Reached served world → (world.containers.map fun c => c.name).Nodup) ∧
    GuardedReached served (stopping .stopping) ∧
    ∃ after, step (stopping .stopping) (.go 0 .ok) = some (after,.stopped here ⟨"onespark",some "/here",true⟩) ∧
      Owned (.stopped here ⟨"onespark",some "/here",true⟩) := by
  obtain ⟨unique,owned,_⟩ := owned_while_guarded served ⟨by decide,fun _ => rfl⟩
  have waiting : (stopping .stopping).processes 0 = some (.stop here "onespark" .stopping) := rfl
  have held : find (stopping .stopping).containers "onespark" = some ⟨"onespark",some "/here",true⟩ := by decide
  obtain ⟨after,stops⟩ := stop_step (stopping .stopping) waiting held
  exact ⟨fun world run => (unique world run).1,stopping_reached,after,stops,
    owned (stopping .stopping) stopping_reached (.go 0 .ok) after _ stops⟩

end OneSpark.ContainerRuns
