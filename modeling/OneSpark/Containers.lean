import Mathlib.Data.List.Nodup
import Mathlib.Logic.Function.Basic

namespace OneSpark.Containers

-- REPO of common.sh: the directory pwd prints.
structure Checkout where
  path : String
  named : path ≠ ""
  deriving DecidableEq

-- What the daemon keeps of a container; `label` is the value of the owner label, if it has one.
structure Container where
  name : String
  label : Option String
  running : Bool
  deriving DecidableEq

def find (containers : List Container) (name : String) : Option Container := containers.find? fun c => c.name == name

-- container_owner prints nothing for a missing label, and nothing when there is no container.
def containerOwner (containers : List Container) (name : String) : String :=
  ((find containers name).bind fun c => c.label).getD ""

def halt (containers : List Container) (name : String) : List Container :=
  containers.map fun c => if c.name = name then {c with running := false} else c

-- docker stop, docker rm and docker run as the daemon carries them out; `none` is the error that
-- leaves everything as it is. A run whose container does not start leaves the container.
def dockerStop (containers : List Container) (name : String) : Option (Container × List Container) :=
  (find containers name).map fun c => (c,halt containers name)

def dockerRm (containers : List Container) (name : String) : Option (Container × List Container) :=
  match find containers name with
  | none => none
  | some c => if c.running then none else some (c,containers.filter fun other => other.name ≠ name)

def dockerRun (containers : List Container) (name owner : String) (starts : Bool) : Option (Container × List Container) :=
  match find containers name with
  | some _ => none
  | none => some (⟨name,some owner,starts⟩,containers ++ [⟨name,some owner,starts⟩])

-- The next command of each script. `poll left` has that many rounds of the health loop to go.
inductive StopAt where
  | info | inspect | owner | stopping | removing | exited
  deriving DecidableEq

inductive LaunchAt where
  | preflight | info | image | inspect | memory | port | run | record | poll (left : Nat) | exited
  deriving DecidableEq

inductive Process where
  | stop (checkout : Checkout) (name : String) (next : StopAt)
  | launch (checkout : Checkout) (name : String) (next : LaunchAt)
  deriving DecidableEq

-- How a command ends apart from what the daemon holds: any may fail, and docker run may fail with
-- its container made.
inductive Outcome where
  | ok | fails | unstarted
  deriving DecidableEq

inductive Event where
  | quiet
  | stopped (checkout : Checkout) (container : Container)
  | removed (checkout : Checkout) (container : Container)
  | created (checkout : Checkout) (container : Container)
  deriving DecidableEq

def stopNext (containers : List Container) (checkout : Checkout) (name : String) (next : StopAt) (outcome : Outcome) :
    List Container × StopAt × Event :=
  match next with
  | .info => (containers,if outcome = .ok then .inspect else .exited,.quiet)
  | .inspect => (containers,if outcome = .ok ∧ (find containers name).isSome then .owner else .exited,.quiet)
  | .owner => (containers,if outcome = .ok ∧ containerOwner containers name = checkout.path then .stopping else .exited,.quiet)
  | .stopping =>
      match dockerStop containers name with
      | some (c,rest) => if outcome = .ok then (rest,.removing,.stopped checkout c) else (containers,.exited,.quiet)
      | none => (containers,.exited,.quiet)
  | .removing =>
      match dockerRm containers name with
      | some (c,rest) => if outcome = .ok then (rest,.exited,.removed checkout c) else (containers,.exited,.quiet)
      | none => (containers,.exited,.quiet)
  | .exited => (containers,.exited,.quiet)

def launchNext (containers : List Container) (checkout : Checkout) (name : String) (next : LaunchAt) (outcome : Outcome) :
    List Container × LaunchAt × Event :=
  match next with
  | .preflight => (containers,if outcome = .ok then .info else .exited,.quiet)
  | .info => (containers,if outcome = .ok then .image else .exited,.quiet)
  | .image => (containers,if outcome = .ok then .inspect else .exited,.quiet)
  -- an inspect that fails reads as a name that is free
  | .inspect => (containers,if outcome = .ok ∧ (find containers name).isSome then .exited else .memory,.quiet)
  | .memory => (containers,if outcome = .ok then .port else .exited,.quiet)
  | .port => (containers,if outcome = .ok then .run else .exited,.quiet)
  | .run =>
      if outcome = .fails then (containers,.exited,.quiet)
      else
        match dockerRun containers name checkout.path (outcome == .ok) with
        | some (c,rest) => (rest,if outcome = .ok then .record else .exited,.created checkout c)
        | none => (containers,.exited,.quiet)
  | .record => (containers,if outcome = .ok then .poll 120 else .exited,.quiet)
  | .poll left =>
      if ((find containers name).map fun c => c.running) = some true ∧ outcome ≠ .ok ∧ 1 < left then
        (containers,.poll (left - 1),.quiet)
      else (containers,.exited,.quiet)
  | .exited => (containers,.exited,.quiet)

def Process.next (containers : List Container) (process : Process) (outcome : Outcome) :
    List Container × Process × Event :=
  match process with
  | .stop checkout name next =>
      let (containers,next,event) := stopNext containers checkout name next outcome
      (containers,.stop checkout name next,event)
  | .launch checkout name next =>
      let (containers,next,event) := launchNext containers checkout name next outcome
      (containers,.launch checkout name next,event)

structure World where
  containers : List Container
  processes : Nat → Option Process

inductive Move where
  | stop (i : Nat) (checkout : Checkout) (name : String)
  | launch (i : Nat) (checkout : Checkout) (name : String)
  | go (i : Nat) (outcome : Outcome)
  | exits (name : String)
  deriving DecidableEq

def start (world : World) (i : Nat) (process : Process) : Option (World × Event) :=
  match world.processes i with
  | some _ => none
  | none => some ({world with processes := Function.update world.processes i (some process)},.quiet)

def step (world : World) (move : Move) : Option (World × Event) :=
  match move with
  | .stop i checkout name => start world i (.stop checkout name .info)
  | .launch i checkout name => start world i (.launch checkout name .preflight)
  | .go i outcome => (world.processes i).map fun process =>
      let (containers,process,event) := process.next world.containers outcome
      (⟨containers,Function.update world.processes i (some process)⟩,event)
  | .exits name => some ({world with containers := halt world.containers name},.quiet)

-- A stop.sh run that has read its owner and has a docker stop or a docker rm to go.
def Past (process : Process) (checkout : Checkout) (name : String) : Prop :=
  process = .stop checkout name .stopping ∨ process = .stop checkout name .removing

theorem find_parts (found : find containers name = some c) : c ∈ containers ∧ c.name = name :=
  ⟨List.mem_of_find?_eq_some found,by simpa using List.find?_some found⟩

theorem find_none (containers : List Container) (name : String) :
    find containers name = none ↔ ∀ c ∈ containers, c.name ≠ name := by
  simp [find]

theorem owner_parts (checkout : Checkout) (same : containerOwner containers name = checkout.path) :
    ∃ c, find containers name = some c ∧ c.label = some checkout.path := by
  unfold containerOwner at same
  cases found : find containers name with
  | none =>
      rw [found] at same
      exact absurd same.symm checkout.named
  | some c =>
      cases label : c.label with
      | none =>
          rw [found,Option.bind_some,label] at same
          exact absurd same.symm checkout.named
      | some path =>
          rw [found,Option.bind_some,label] at same
          exact ⟨c,rfl,label.trans (congrArg some same)⟩

theorem rm_parts (removed : dockerRm containers name = some (c,rest)) :
    find containers name = some c ∧ c.running = false ∧ rest = containers.filter fun other => other.name ≠ name := by
  unfold dockerRm at removed
  split at removed
  · cases removed
  · rename_i found
    split at removed
    · cases removed
    · rename_i halted
      cases removed
      exact ⟨found,Bool.eq_false_iff.mpr halted,rfl⟩

theorem run_parts (ran : dockerRun containers name owner starts = some (c,rest)) :
    find containers name = none ∧ c = ⟨name,some owner,starts⟩ ∧ rest = containers ++ [c] := by
  unfold dockerRun at ran
  split at ran
  · cases ran
  · rename_i free
    cases ran
    exact ⟨free,rfl,rfl⟩

-- Everything one command can do. Only docker stop, docker rm and docker run touch a container, and
-- only a read of the own label takes a run past its check.
inductive Did (containers : List Container) (process : Process) (outcome : Outcome) : List Container × Process × Event →
    Prop where
  | quiet : (∀ checkout name, Past after checkout name →
      ∃ c, find containers name = some c ∧ c.label = some checkout.path) →
        Did containers process outcome (containers,after,.quiet)
  | stopped : process = .stop checkout name .stopping → find containers name = some c →
      Did containers process outcome (halt containers name,.stop checkout name .removing,.stopped checkout c)
  | removed : process = .stop checkout name .removing → find containers name = some c → c.running = false →
      Did containers process outcome (containers.filter fun other => other.name ≠ name,.stop checkout name .exited,
        .removed checkout c)
  | created : process = .launch checkout name .run → outcome ≠ .fails → find containers name = none →
      Did containers process outcome (containers ++ [⟨name,some checkout.path,starts⟩],.launch checkout name after,
        .created checkout ⟨name,some checkout.path,starts⟩)

theorem launch_not_past (checkout : Checkout) (name : String) (next : LaunchAt) (other : Checkout) (same : String) :
    ¬ Past (.launch checkout name next) other same := by
  rintro (impossible | impossible) <;> cases impossible

theorem launch_did (containers : List Container) (checkout : Checkout) (name : String) (next : LaunchAt) (outcome : Outcome) :
    Did containers (.launch checkout name next) outcome
      (Process.next containers (.launch checkout name next) outcome) := by
  have quiet : ∀ after, Did containers (.launch checkout name next) outcome (containers,.launch checkout name after,.quiet) :=
    fun after => .quiet fun other same past => absurd past (launch_not_past _ _ _ _ _)
  cases next with
  | run =>
      unfold Process.next launchNext
      dsimp only
      split
      · exact quiet _
      · rename_i runs
        split
        · rename_i c rest ran
          obtain ⟨free,rfl,rfl⟩ := run_parts ran
          exact .created rfl runs free
        · exact quiet _
  | poll left =>
      unfold Process.next launchNext
      dsimp only
      split <;> exact quiet _
  | preflight | info | image | inspect | memory | port | record | exited => exact quiet _

theorem stop_did (containers : List Container) (checkout : Checkout) (name : String) (next : StopAt) (outcome : Outcome) :
    Did containers (.stop checkout name next) outcome (Process.next containers (.stop checkout name next) outcome) := by
  have quiet : ∀ after, after ≠ .stopping → after ≠ .removing →
      Did containers (.stop checkout name next) outcome (containers,.stop checkout name after,.quiet) := by
    intro after stopping removing
    refine .quiet ?_
    rintro other same (past | past)
    · cases past
      exact absurd rfl stopping
    · cases past
      exact absurd rfl removing
  cases next with
  | info =>
      unfold Process.next stopNext
      dsimp only
      split <;> exact quiet _ (by decide) (by decide)
  | inspect =>
      unfold Process.next stopNext
      dsimp only
      split <;> exact quiet _ (by decide) (by decide)
  | owner =>
      unfold Process.next stopNext
      dsimp only
      split
      · rename_i owned
        refine .quiet ?_
        rintro other same (past | past)
        · cases past
          exact owner_parts checkout owned.2
        · cases past
      · exact quiet _ (by decide) (by decide)
  | stopping =>
      unfold Process.next stopNext dockerStop
      dsimp only
      cases found : find containers name with
      | none => exact quiet .exited (by decide) (by decide)
      | some c =>
          dsimp only [Option.map_some]
          split
          · exact .stopped rfl found
          · exact quiet _ (by decide) (by decide)
  | removing =>
      unfold Process.next stopNext
      dsimp only
      split
      · rename_i removed
        obtain ⟨found,halted,rfl⟩ := rm_parts removed
        split
        · exact .removed rfl found halted
        · exact quiet _ (by decide) (by decide)
      · exact quiet .exited (by decide) (by decide)
  | exited => exact quiet .exited (by decide) (by decide)

theorem next_did (containers : List Container) (process : Process) (outcome : Outcome) :
    Did containers process outcome (process.next containers outcome) := by
  cases process with
  | stop checkout name next => exact stop_did containers checkout name next outcome
  | launch checkout name next => exact launch_did containers checkout name next outcome

end OneSpark.Containers
