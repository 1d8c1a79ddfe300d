import Mathlib.Logic.Relation

namespace OneSpark.Programs
open Relation

-- Programs over operations that may fail; an error that is not handled is raised.
inductive Prog (Op : Type → Type) (Err Result : Type) : Type 1 where
  | done (result : Result)
  | raise (error : Err)
  | perform {Reply : Type} (op : Op Reply) (next : Except Err Reply → Prog Op Err Result)

variable {Op : Type → Type} {Err World α β Reply : Type}

def Prog.bind : Prog Op Err α → (α → Prog Op Err β) → Prog Op Err β
  | .done a,f => f a
  | .raise error,_ => .raise error
  | .perform op next,f => .perform op fun reply => (next reply).bind f

instance : Monad (Prog Op Err) where
  pure := .done
  bind := .bind

def call (op : Op Reply) : Prog Op Err Reply :=
  .perform op fun
    | .ok reply => .done reply
    | .error error => .raise error

-- try .. finally: the cleanup runs either way, and its own error wins.
def Prog.tryFinally : Prog Op Err α → Prog Op Err Unit → Prog Op Err α
  | .done a,cleanup => cleanup.bind fun _ => .done a
  | .raise error,cleanup => cleanup.bind fun _ => .raise error
  | .perform op next,cleanup => .perform op fun reply => (next reply).tryFinally cleanup

def check (condition : Bool) (error : Err) : Prog Op Err Unit := if condition then .done () else .raise error

def each (f : α → Prog Op Err β) : List α → Prog Op Err (List β)
  | [] => .done []
  | a :: rest => do
    let b ← f a
    let later ← each f rest
    return b :: later

-- What an operation may do, and what others may do between two operations.
structure Machine (Op : Type → Type) (Err World : Type) where
  step : {Reply : Type} → Op Reply → World → Except Err Reply → World → Prop
  moves : World → World → Prop

inductive Outcome (Err Result : Type) where
  | returned (result : Result)
  | raised (error : Err)
  | killed
  deriving DecidableEq

inductive Execution (machine : Machine Op Err World) :
    Prog Op Err α → World → Outcome Err α → World → Prop where
  | done : Execution machine (.done result) world (.returned result) world
  | raise : Execution machine (.raise error) world (.raised error) world
  | killed : Execution machine program world .killed world
  | moved : machine.moves world next → Execution machine program next outcome last →
      Execution machine program world outcome last
  | performed : machine.step op world reply next → Execution machine (continuation reply) next outcome last →
      Execution machine (.perform op continuation) world outcome last

theorem execution_call {machine : Machine Op Err World} {op : Op Reply} {reply : Reply}
    (stepped : machine.step op world (.ok reply) next) : Execution machine (call op) world (.returned reply) next :=
  .performed stepped .done

theorem execution_bind {machine : Machine Op Err World} {program : Prog Op Err α} {f : α → Prog Op Err β} {a : α}
    {outcome : Outcome Err β} (ran : Execution machine program world (.returned a) middle)
    (rest : Execution machine (f a) middle outcome last) : Execution machine (program >>= f) world outcome last := by
  generalize shape : Outcome.returned a = ended at ran
  induction ran with
  | done =>
      cases shape
      exact rest
  | raise => cases shape
  | killed => cases shape
  | moved moves _ ih => exact .moved moves (ih rest shape)
  | performed stepped _ ih => exact .performed stepped (ih rest shape)

theorem execution_check {machine : Machine Op Err World} {condition : Bool} {error : Err} (passes : condition = true) :
    Execution machine (check condition error) world (.returned ()) world := by
  rw [passes]
  exact .done

theorem execution_each {machine : Machine Op Err World} {f : α → Prog Op Err β} {items : List α}
    (once : ∀ a ∈ items, ∃ b, Execution machine (f a) world (.returned b) world) :
    ∃ results, Execution machine (each f items) world (.returned results) world := by
  induction items with
  | nil => exact ⟨[],.done⟩
  | cons a rest ih =>
      obtain ⟨b,first⟩ := once a List.mem_cons_self
      obtain ⟨results,later⟩ := ih fun other member => once other (List.mem_cons_of_mem _ member)
      exact ⟨b :: results,execution_bind first (execution_bind later .done)⟩

def Prog.run {State : Type} (perform : {Reply : Type} → Op Reply → State → Except Err Reply × State) :
    Prog Op Err α → State → Outcome Err α × State
  | .done a,state => (.returned a,state)
  | .raise error,state => (.raised error,state)
  | .perform op next,state => (next (perform op state).1).run perform (perform op state).2

theorem run_execution {State : Type} {machine : Machine Op Err World} (view : State → World)
    {perform : {Reply : Type} → Op Reply → State → Except Err Reply × State}
    (agrees : ∀ {Reply} (op : Op Reply) state,
      machine.step op (view state) (perform op state).1 (view (perform op state).2))
    (program : Prog Op Err α) (state : State) :
    Execution machine program (view state) (program.run perform state).1 (view (program.run perform state).2) := by
  induction program generalizing state with
  | done a => exact .done
  | raise error => exact .raise
  | perform op continuation ih => exact .performed (agrees op state) (ih _ _)

-- inv at every point a kill can leave the world at, returns and raises at the ends.
structure Post (Err World α : Type) where
  inv : World → Prop
  returns : α → World → Prop
  raises : Err → World → Prop

def Post.meets (post : Post Err World α) : Outcome Err α → World → Prop
  | .returned a,world => post.returns a world
  | .raised error,world => post.raises error world
  | .killed,world => post.inv world

def Holds (machine : Machine Op Err World) (post : Post Err World α) :
    Prog Op Err α → World → Prop
  | .done a,world => ∀ next, ReflTransGen machine.moves world next → post.inv next ∧ post.returns a next
  | .raise error,world => ∀ next, ReflTransGen machine.moves world next → post.inv next ∧ post.raises error next
  | .perform op continuation,world => ∀ next, ReflTransGen machine.moves world next → post.inv next ∧
      ∀ reply last, machine.step op next reply last → Holds machine post (continuation reply) last

variable {machine : Machine Op Err World} {post : Post Err World α} {program : Prog Op Err α}
  {world next last : World}

theorem holds_moved (moves : ReflTransGen machine.moves world next) (holds : Holds machine post program world) :
    Holds machine post program next := by
  cases program with
  | done a => exact fun last more => holds last (moves.trans more)
  | raise error => exact fun last more => holds last (moves.trans more)
  | perform op continuation => exact fun last more => holds last (moves.trans more)

theorem holds_inv (holds : Holds machine post program world) : post.inv world := by
  cases program with
  | done a => exact (holds world .refl).1
  | raise error => exact (holds world .refl).1
  | perform op continuation => exact (holds world .refl).1

theorem holds_sound (holds : Holds machine post program world)
    (ran : Execution machine program world outcome last) : post.meets outcome last := by
  induction ran with
  | done => exact (holds _ .refl).2
  | raise => exact (holds _ .refl).2
  | killed => exact holds_inv holds
  | moved moves _ ih => exact ih (holds_moved (.single moves) holds)
  | performed stepped _ ih => exact ih ((holds _ .refl).2 _ _ stepped)

theorem holds_weaken {weaker : Post Err World α} (holds : Holds machine post program world)
    (inv : ∀ world, post.inv world → weaker.inv world)
    (returns : ∀ a world, post.returns a world → weaker.returns a world)
    (raises : ∀ error world, post.raises error world → weaker.raises error world) : Holds machine weaker program world := by
  induction program generalizing world with
  | done a => exact fun next moves => ⟨inv _ (holds next moves).1,returns _ _ (holds next moves).2⟩
  | raise error => exact fun next moves => ⟨inv _ (holds next moves).1,raises _ _ (holds next moves).2⟩
  | perform op continuation ih =>
      exact fun next moves => ⟨inv _ (holds next moves).1,
        fun reply last stepped => ih reply ((holds next moves).2 reply last stepped)⟩

theorem holds_bind {f : α → Prog Op Err β} {after : Post Err World β}
    (holds : Holds machine ⟨after.inv,fun a world => Holds machine after (f a) world,after.raises⟩ program world) :
    Holds machine after (program >>= f) world := by
  induction program generalizing world with
  | done a => exact (holds world .refl).2
  | raise error => exact holds
  | perform op continuation ih =>
      exact fun next moves => ⟨(holds next moves).1,
        fun reply last stepped => ih reply ((holds next moves).2 reply last stepped)⟩

theorem bind_assoc {γ : Type} (program : Prog Op Err α) (f : α → Prog Op Err β) (g : β → Prog Op Err γ) :
    (program >>= f) >>= g = program >>= fun a => f a >>= g := by
  induction program with
  | done a => rfl
  | raise error => rfl
  | perform op continuation ih => exact congrArg (Prog.perform op) (funext ih)

theorem holds_then {cleanup : Prog Op Err β} {ending : Prog Op Err α} {returns : World → Prop}
    (holds : Holds machine ⟨post.inv,fun _ => returns,post.raises⟩ cleanup world)
    (ends : ∀ world, (∀ next, ReflTransGen machine.moves world next → post.inv next ∧ returns next) →
      Holds machine post ending world) : Holds machine post (cleanup.bind fun _ => ending) world := by
  induction cleanup generalizing world with
  | done a => exact ends world holds
  | raise error => exact holds
  | perform op continuation ih =>
      exact fun next moves => ⟨(holds next moves).1,
        fun reply last stepped => ih reply ((holds next moves).2 reply last stepped)⟩

theorem holds_finally {cleanup : Prog Op Err Unit}
    (holds : Holds machine ⟨post.inv,
      fun a world => Holds machine ⟨post.inv,fun _ => post.returns a,post.raises⟩ cleanup world,
      fun error world => Holds machine ⟨post.inv,fun _ => post.raises error,post.raises⟩ cleanup world⟩
      program world) : Holds machine post (program.tryFinally cleanup) world := by
  induction program generalizing world with
  | done a => exact holds_then (holds world .refl).2 fun _ ends => ends
  | raise error => exact holds_then (holds world .refl).2 fun _ ends => ends
  | perform op continuation ih =>
      exact fun next moves => ⟨(holds next moves).1,
        fun reply last stepped => ih reply ((holds next moves).2 reply last stepped)⟩

theorem execution_ends (total : ∀ {Reply} (op : Op Reply) world, ∃ reply next, machine.step op world reply next)
    (program : Prog Op Err α) (world : World) : ∃ outcome last, Execution machine program world outcome last ∧
      ((∃ result, outcome = .returned result) ∨ ∃ error, outcome = .raised error) := by
  induction program generalizing world with
  | done result => exact ⟨_,_,.done,.inl ⟨result,rfl⟩⟩
  | raise error => exact ⟨_,_,.raise,.inr ⟨error,rfl⟩⟩
  | perform op continuation ih =>
      obtain ⟨reply,next,stepped⟩ := total op world
      obtain ⟨outcome,last,ran,ended⟩ := ih reply next
      exact ⟨outcome,last,.performed stepped ran,ended⟩

theorem holds_map {f : α → β} {after : Post Err World β}
    (holds : Holds machine ⟨after.inv,fun a => after.returns (f a),after.raises⟩ program world) :
    Holds machine after (program >>= fun a => .done (f a)) world := by
  induction program generalizing world with
  | done a => exact holds
  | raise error => exact holds
  | perform op continuation ih =>
      exact fun next moves => ⟨(holds next moves).1,
        fun reply last stepped => ih reply ((holds next moves).2 reply last stepped)⟩

theorem holds_each_from {f : α → Prog Op Err β} {whole : List α} (loop : List α → List β → World → Prop)
    (inv : World → Prop) (raises : Err → World → Prop)
    (once : ∀ done a rest results world, whole = done ++ a :: rest → loop done results world →
      Holds machine ⟨inv,fun b => loop (done ++ [a]) (results ++ [b]),raises⟩ (f a) world)
    (items done : List α) (results : List β) (returns : List β → World → Prop) (split : whole = done ++ items)
    (ends : ∀ last world, loop whole (results ++ last) world →
      Holds machine ⟨inv,returns,raises⟩ (.done last) world)
    (start : loop done results world) : Holds machine ⟨inv,returns,raises⟩ (each f items) world := by
  induction items generalizing done results world returns with
  | nil =>
      rw [List.append_nil] at split
      exact ends [] world (by simpa [split] using start)
  | cons a rest ih =>
      apply holds_bind
      refine holds_weaken (once done a rest results world split start) (fun _ here => here) ?_ fun _ _ here => here
      intro b world here
      apply holds_map
      refine ih (done ++ [a]) (results ++ [b]) _ (by simp [split]) ?_ here
      intro last world finished
      exact ends (b :: last) world (by simpa using finished)

theorem holds_each {f : α → Prog Op Err β} {post : Post Err World (List β)} (loop : List α → List β → World → Prop)
    (items : List α)
    (once : ∀ done a rest results world, items = done ++ a :: rest → loop done results world →
      Holds machine ⟨post.inv,fun b => loop (done ++ [a]) (results ++ [b]),post.raises⟩ (f a) world)
    (ends : ∀ results world, loop items results world → Holds machine post (.done results) world)
    (start : loop [] [] world) : Holds machine post (each f items) world :=
  holds_each_from loop post.inv post.raises once items [] [] post.returns rfl ends start

theorem holds_with (kept : World → Prop)
    (steps : ∀ {Reply} (op : Op Reply) world reply next, machine.step op world reply next → kept world → kept next)
    (moved : ∀ world next, machine.moves world next → kept world → kept next)
    (holds : Holds machine post program world) (start : kept world) :
    Holds machine ⟨fun world => post.inv world ∧ kept world,fun a world => post.returns a world ∧ kept world,
      fun error world => post.raises error world ∧ kept world⟩ program world := by
  have star : ∀ {world next}, ReflTransGen machine.moves world next → kept world → kept next := by
    intro world next moves start
    induction moves with
    | refl => exact start
    | tail _ last ih => exact moved _ _ last ih
  induction program generalizing world with
  | done a => exact fun next moves => ⟨⟨(holds next moves).1,star moves start⟩,(holds next moves).2,star moves start⟩
  | raise error =>
      exact fun next moves => ⟨⟨(holds next moves).1,star moves start⟩,(holds next moves).2,star moves start⟩
  | perform op continuation ih =>
      exact fun next moves => ⟨⟨(holds next moves).1,star moves start⟩,fun reply last stepped =>
        ih reply ((holds next moves).2 reply last stepped) (steps op next reply last stepped (star moves start))⟩

def Prog.Uses (allowed : {Reply : Type} → Op Reply → Prop) : Prog Op Err α → Prop
  | .done _ | .raise _ => True
  | .perform op next => allowed op ∧ ∀ reply, (next reply).Uses allowed

section Uses
variable {allowed : {Reply : Type} → Op Reply → Prop}

theorem uses_bind {f : α → Prog Op Err β} (first : program.Uses allowed) (rest : ∀ a, (f a).Uses allowed) :
    (program >>= f).Uses allowed := by
  induction program with
  | done a => exact rest a
  | raise error => trivial
  | perform op continuation ih => exact ⟨first.1,fun reply => ih reply (first.2 reply)⟩

theorem uses_call {op : Op Reply} (own : allowed op) : (call op : Prog Op Err Reply).Uses allowed := by
  refine ⟨own,fun reply => ?_⟩
  cases reply with
  | ok _ => trivial
  | error _ => trivial

theorem uses_check {condition : Bool} {error : Err} : (check condition error : Prog Op Err Unit).Uses allowed := by
  cases condition with
  | true => trivial
  | false => trivial

theorem uses_each {f : α → Prog Op Err β} (each_uses : ∀ a, (f a).Uses allowed) (items : List α) :
    (each f items).Uses allowed := by
  induction items with
  | nil => trivial
  | cons a rest ih => exact uses_bind (each_uses a) fun _ => uses_bind ih fun _ => trivial

theorem uses_finally {cleanup : Prog Op Err Unit} (first : program.Uses allowed) (last : cleanup.Uses allowed) :
    (program.tryFinally cleanup).Uses allowed := by
  induction program with
  | done a =>
      show (cleanup >>= fun _ => (.done a : Prog Op Err α)).Uses allowed
      exact uses_bind last fun _ => trivial
  | raise error =>
      show (cleanup >>= fun _ => (.raise error : Prog Op Err α)).Uses allowed
      exact uses_bind last fun _ => trivial
  | perform op continuation ih => exact ⟨first.1,fun reply => ih reply (first.2 reply)⟩

-- A machine that keeps more state runs the program as the smaller one does.
theorem holds_project {Big : Type} {big : Machine Op Err Big} (view : Big → World) (uses : program.Uses allowed)
    (steps : ∀ {Reply} (op : Op Reply) world reply next, allowed op → big.step op world reply next →
      machine.step op (view world) reply (view next))
    (moved : ∀ world next, big.moves world next → ReflTransGen machine.moves (view world) (view next))
    {world : Big} (holds : Holds machine post program (view world)) :
    Holds big ⟨fun world => post.inv (view world),fun a world => post.returns a (view world),
      fun error world => post.raises error (view world)⟩ program world := by
  have star : ∀ {world next}, ReflTransGen big.moves world next →
      ReflTransGen machine.moves (view world) (view next) := by
    intro world next moves
    induction moves with
    | refl => exact .refl
    | tail _ last ih => exact ih.trans (moved _ _ last)
  induction program generalizing world with
  | done a => exact fun next moves => holds _ (star moves)
  | raise error => exact fun next moves => holds _ (star moves)
  | perform op continuation ih =>
      intro next moves
      refine ⟨(holds _ (star moves)).1,fun reply last stepped => ih reply (uses.2 reply) ?_⟩
      exact (holds _ (star moves)).2 reply (view last) (steps op next reply last uses.1 stepped)

end Uses

def Stable (moves : World → World → Prop) (assertion : World → Prop) : Prop :=
  ∀ world next, moves world next → assertion world → assertion next

theorem stable_star {moves : World → World → Prop} {assertion : World → Prop} (stable : Stable moves assertion)
    (moved : ReflTransGen moves world next) (start : assertion world) : assertion next := by
  induction moved with
  | refl => exact start
  | tail _ last ih => exact stable _ _ last ih

theorem holds_frame {allowed : {Reply : Type} → Op Reply → Prop} {fact : World → Prop} (uses : program.Uses allowed)
    (stable : Stable machine.moves fact)
    (steps : ∀ {Reply} (op : Op Reply) world reply next, allowed op → machine.step op world reply next →
      fact world → fact next)
    (start : fact world) : Holds machine ⟨fact,fun _ => fact,fun _ => fact⟩ program world := by
  induction program generalizing world with
  | done a => exact fun next moves => ⟨stable_star stable moves start,stable_star stable moves start⟩
  | raise error => exact fun next moves => ⟨stable_star stable moves start,stable_star stable moves start⟩
  | perform op continuation ih =>
      intro next moves
      have here := stable_star stable moves start
      refine ⟨here,fun reply last stepped => ih reply (uses.2 reply) ?_⟩
      exact steps op next reply last uses.1 stepped here

theorem holds_done {assertion : World → Prop} {a : α} (stable : Stable machine.moves assertion)
    (ends : ∀ world, assertion world → post.inv world ∧ post.returns a world) (start : assertion world) :
    Holds machine post (.done a) world :=
  fun next moves => ends next (stable_star stable moves start)

theorem holds_raise {assertion : World → Prop} {error : Err} (stable : Stable machine.moves assertion)
    (ends : ∀ world, assertion world → post.inv world ∧ post.raises error world) (start : assertion world) :
    Holds machine post (.raise error) world :=
  fun next moves => ends next (stable_star stable moves start)

theorem holds_call {assertion : World → Prop} {op : Op Reply} {f : Reply → Prog Op Err α}
    (stable : Stable machine.moves assertion) (inv : ∀ world, assertion world → post.inv world)
    (succeeds : ∀ world reply next, assertion world → machine.step op world (.ok reply) next →
      Holds machine post (f reply) next)
    (fails : ∀ world error next, assertion world → machine.step op world (.error error) next →
      Holds machine post (.raise error) next)
    (start : assertion world) : Holds machine post (call op >>= f) world := by
  intro next moves
  have here := stable_star stable moves start
  refine ⟨inv next here,fun reply last stepped => ?_⟩
  cases reply with
  | ok reply => exact succeeds next reply last here stepped
  | error error => exact fails next error last here stepped

theorem holds_last {assertion : World → Prop} {op : Op α} (stable : Stable machine.moves assertion)
    (inv : ∀ world, assertion world → post.inv world)
    (succeeds : ∀ world reply next, assertion world → machine.step op world (.ok reply) next →
      Holds machine post (.done reply) next)
    (fails : ∀ world error next, assertion world → machine.step op world (.error error) next →
      Holds machine post (.raise error) next)
    (start : assertion world) : Holds machine post (call op) world := by
  intro next moves
  have here := stable_star stable moves start
  refine ⟨inv next here,fun reply last stepped => ?_⟩
  cases reply with
  | ok reply => exact succeeds next reply last here stepped
  | error error => exact fails next error last here stepped

theorem holds_check {condition : Bool} {error : Err} {f : Unit → Prog Op Err α}
    (passes : condition = true → Holds machine post (f ()) world)
    (fails : condition = false → Holds machine post (.raise error) world) :
    Holds machine post (check condition error >>= f) world := by
  cases condition with
  | false => exact fails rfl
  | true => exact passes rfl

def alone (step : {Reply : Type} → Op Reply → World → Except Err Reply → World → Prop) : Machine Op Err World :=
  ⟨step,fun _ _ => False⟩

theorem alone_stable (assertion : World → Prop) : Stable (fun _ _ => False) assertion := fun _ _ moved => nomatch moved

end OneSpark.Programs
