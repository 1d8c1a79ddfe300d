import OneSpark.Programs
import Mathlib.Data.List.Forall2
import Mathlib.Logic.Function.Basic

namespace OneSpark.FileStore
open Programs Relation

abbrev Name := List Char

structure Path where
  dir : List Name
  name : Name
  deriving DecidableEq

structure File (Bytes : Type) where
  content : Bytes
  mtime : Nat
  inode : Nat
  mode : Nat
  deriving DecidableEq

structure Stamp where
  size : Nat
  mtime : Nat
  inode : Nat
  deriving DecidableEq

abbrev Store (Bytes : Type) := Path → Option (File Bytes)

variable {Bytes Err α Reply : Type}

def File.stamp (size : Bytes → Nat) (file : File Bytes) : Stamp := ⟨size file.content,file.mtime,file.inode⟩

-- exists is os.path.exists, which turns every error into False; probe is the
-- Path.exists or Path.is_file that may raise. glob lists the files it selects.
inductive FileOp (Bytes : Type) : Type → Type where
  | read (path : Path) : FileOp Bytes Bytes
  | stat (path : Path) : FileOp Bytes Stamp
  | exists (path : Path) : FileOp Bytes Bool
  | probe (path : Path) : FileOp Bytes Bool
  | glob (select : Path → Bool) : FileOp Bytes (List Path)
  | mkdir (dir : List Name) : FileOp Bytes Unit
  | mkstemp (dir : List Name) (before after : Name) : FileOp Bytes Path
  | mkdtemp (dir : List Name) (before : Name) : FileOp Bytes (List Name)
  | chmod (path : Path) (mode : Nat) : FileOp Bytes Unit
  | write (path : Path) (content : Bytes) : FileOp Bytes Unit
  | copy (source target : Path) : FileOp Bytes Unit
  | replace (source target : Path) : FileOp Bytes Unit
  | unlink (path : Path) : FileOp Bytes Unit
  | rmtree (dir : List Name) : FileOp Bytes Unit

def FileOp.touches : FileOp Bytes Reply → Path → Prop
  | .mkstemp dir before after,path => path.dir = dir ∧
      ∃ random : Name, random.length = 8 ∧ path.name = before ++ random ++ after
  | .chmod target _,path | .write target _,path | .copy _ target,path | .unlink target,path => path = target
  | .replace source target,path => path = source ∨ path = target
  | .rmtree dir,path => dir <+: path.dir
  | _,_ => False

-- What a successful operation returns and leaves; a failed write or copy may
-- leave a torn target, and a failed rmtree has removed a part.
def completes (size : Bytes → Nat) : FileOp Bytes Reply → Store Bytes → Reply → Store Bytes → Prop
  | .read path,store,content,next => next = store ∧ ∃ file, store path = some file ∧ file.content = content
  | .stat path,store,stamp,next => next = store ∧ ∃ file, store path = some file ∧ file.stamp size = stamp
  | .exists path,store,present,next => next = store ∧ (present = true → (store path).isSome = true)
  | .probe path,store,present,next => next = store ∧ (store path).isSome = present
  | .glob select,store,found,next => next = store ∧
      ∀ path, path ∈ found ↔ select path = true ∧ (store path).isSome = true
  | .mkdir _,store,_,next => next = store
  | .mkstemp dir before after,store,path,next => path.dir = dir ∧ (∃ random : Name, random.length = 8 ∧
      path.name = before ++ random ++ after) ∧ store path = none ∧
      ∃ file, next = Function.update store path (some file)
  | .mkdtemp dir before,store,made,next => next = store ∧ (∃ random : Name, random.length = 8 ∧
      made = dir ++ [before ++ random]) ∧ ∀ path, made <+: path.dir → store path = none
  | .chmod path mode,store,_,next => ∃ file, store path = some file ∧
      next = Function.update store path (some {file with mode})
  | .write path content,store,_,next => ∃ file, next = Function.update store path (some file) ∧
      file.content = content ∧ ∀ old, store path = some old → file.mode = old.mode
  | .copy source target,store,_,next => ∃ file copied, store source = some file ∧
      next = Function.update store target (some copied) ∧ copied.content = file.content
  | .replace source target,store,_,next => ∃ file, store source = some file ∧
      next = Function.update (Function.update store source none) target (some file)
  | .unlink path,store,_,next => next = Function.update store path none
  | .rmtree dir,store,_,next => ∀ path, next path = if dir <+: path.dir then none else store path

def fails : FileOp Bytes Reply → Store Bytes → Store Bytes → Prop
  | .exists _,_,_ => False
  | .write target _,store,next | .copy _ target,store,next => next = store ∨
      ∃ torn, next = Function.update store target (some torn)
  | .rmtree dir,store,next => ∀ path, next path = store path ∨ (dir <+: path.dir ∧ next path = none)
  | _,store,next => next = store

def step (size : Bytes → Nat) (op : FileOp Bytes Reply) (store : Store Bytes) :
    Except Err Reply → Store Bytes → Prop
  | .ok reply,next => completes size op store reply next
  | .error _,next => fails op store next

theorem step_frame {size : Bytes → Nat} {op : FileOp Bytes Reply} {store next : Store Bytes} {reply : Except Err Reply}
    (stepped : step size op store reply next) (path : Path) (apart : ¬ op.touches path) : next path = store path := by
  have other : ∀ {target : Path} {file : Option (File Bytes)}, ¬ path = target →
      Function.update store target file path = store path := fun ne => Function.update_of_ne ne _ _
  cases reply with
  | ok reply =>
      cases op <;> simp only [step,completes] at stepped <;> simp only [FileOp.touches] at apart
      case mkstemp dir before after =>
        obtain ⟨here,named,_,_,rfl⟩ := stepped
        exact other fun same => apart ⟨same ▸ here,same ▸ named⟩
      case mkdtemp => rw [stepped.1]
      case chmod target mode =>
        obtain ⟨_,_,rfl⟩ := stepped
        exact other apart
      case write target content =>
        obtain ⟨_,rfl,_⟩ := stepped
        exact other apart
      case copy source target =>
        obtain ⟨_,_,_,rfl,_⟩ := stepped
        exact other apart
      case replace source target =>
        obtain ⟨_,_,rfl⟩ := stepped
        obtain ⟨notSource,notTarget⟩ := not_or.mp apart
        rw [Function.update_of_ne notTarget,other notSource]
      case unlink target => rw [stepped,other apart]
      case rmtree dir => rw [stepped,if_neg apart]
      case mkdir => rw [stepped]
      all_goals rw [stepped.1]
  | error error =>
      cases op <;> simp only [step,fails] at stepped <;> simp only [FileOp.touches] at apart
      case write target content =>
        rcases stepped with rfl | ⟨torn,rfl⟩
        · rfl
        · exact other apart
      case copy source target =>
        rcases stepped with rfl | ⟨torn,rfl⟩
        · rfl
        · exact other apart
      case rmtree dir =>
        rcases stepped path with same | ⟨inside,_⟩
        · exact same
        · exact absurd inside apart
      all_goals rw [stepped]

abbrev FileProg (Bytes Err : Type) := Prog (FileOp Bytes) Err

def FileOp.observes (op : FileOp Bytes Reply) : Prop := ∀ path, ¬ op.touches path

def viewing (store : Store Bytes) (sees : α → Prop) : Post Err (Store Bytes) α where
  inv next := next = store
  returns a next := next = store ∧ sees a
  raises _ next := next = store

section Viewing
variable {size : Bytes → Nat} {store : Store Bytes} {β : Type} {sees : α → Prop}

theorem viewing_raise {error : Err} :
    Holds (alone (step size)) (viewing store sees) (.raise error) store :=
  holds_raise (alone_stable fun next => next = store) (fun _ same => ⟨same,same⟩) rfl

theorem viewing_done {a : α} (ends : sees a) :
    Holds (alone (step size)) (viewing store sees : Post Err _ _) (.done a) store :=
  holds_done (alone_stable fun next => next = store) (fun _ same => ⟨same,same,ends⟩) rfl

theorem viewing_call {op : FileOp Bytes β} {f : β → FileProg Bytes Err α} (observes : op.observes)
    (ends : ∀ reply, completes size op store reply store → Holds (alone (step size)) (viewing store sees) (f reply) store) :
    Holds (alone (step size)) (viewing store sees) (call op >>= f) store := by
  refine holds_call (alone_stable fun next => next = store) (fun _ same => same) ?_ ?_ rfl
  · intro before reply next same stepped
    have observed : step size op before (.ok reply : Except Err β) next := stepped
    have kept : next = before := funext fun path => step_frame observed path (observes path)
    rw [kept,same] at observed
    rw [kept,same]
    exact ends reply observed
  · intro before error next same stepped
    have observed : step size op before (.error error) next := stepped
    have kept : next = before := funext fun path => step_frame observed path (observes path)
    rw [kept,same]
    exact viewing_raise

theorem holds_view {post : Post Err (Store Bytes) α} {program : FileProg Bytes Err β} {f : β → FileProg Bytes Err α}
    {first : β → Prop} (view : Holds (alone (step size)) (viewing store first) program store) (inv : post.inv store)
    (raises : ∀ error, post.raises error store)
    (rest : ∀ b, first b → Holds (alone (step size)) post (f b) store) :
    Holds (alone (step size)) post (program >>= f) store := by
  refine holds_bind (holds_weaken view ?_ ?_ ?_)
  · intro next same
    rw [show next = store from same]
    exact inv
  · intro b next here
    rw [here.1]
    exact rest b here.2
  · intro error next same
    rw [show next = store from same]
    exact raises error

theorem viewing_bind {program : FileProg Bytes Err β} {f : β → FileProg Bytes Err α} {first : β → Prop}
    (holds : Holds (alone (step size)) (viewing store first) program store)
    (rest : ∀ b, first b → Holds (alone (step size)) (viewing store sees) (f b) store) :
    Holds (alone (step size)) (viewing store sees) (program >>= f) store :=
  holds_view holds rfl (fun _ => rfl) rest

theorem viewing_check {condition : Bool} {error : Err} {f : Unit → FileProg Bytes Err α}
    (ends : condition = true → Holds (alone (step size)) (viewing store sees) (f ()) store) :
    Holds (alone (step size)) (viewing store sees) (check condition error >>= f) store :=
  holds_check ends fun _ => viewing_raise

theorem viewing_passed {condition : Prop} [Decidable condition] {error : Err} :
    Holds (alone (step size)) (viewing store fun _ => condition) (check (decide condition) error) store := by
  by_cases passes : condition
  · rw [decide_eq_true passes]
    exact viewing_done passes
  · rw [decide_eq_false passes]
    exact viewing_raise

theorem viewing_each {f : α → FileProg Bytes Err β} {relation : α → β → Prop}
    (once : ∀ a, Holds (alone (step size)) (viewing store (relation a)) (f a) store) (items : List α) :
    Holds (alone (step size)) (viewing store (List.Forall₂ relation items)) (each f items) store := by
  induction items with
  | nil => exact viewing_done .nil
  | cons a rest ih =>
      exact viewing_bind (once a) fun _ first => viewing_bind ih fun _ later => viewing_done (.cons first later)

end Viewing

-- finally: if os.path.exists(tmp): os.unlink(tmp)
def discard (tmp : Path) : FileProg Bytes Err Unit := do
  let present ← call (.exists tmp)
  match present with
  | true => call (.unlink tmp)
  | false => pure ()

def setMode (path : Path) : Option Nat → FileProg Bytes Err Unit
  | some mode => call (.chmod path mode)
  | none => pure ()

-- mkstemp beside the target, fill it, rename it over the target.
def replaceFile (mode : Option Nat) (path : Path) (content : Bytes) : FileProg Bytes Err Unit := do
  let tmp ← call (.mkstemp path.dir (path.name ++ ['.']) [])
  Prog.tryFinally (do
    setMode tmp mode
    call (.write tmp content)
    call (.replace tmp path)) (discard tmp)

def FileOp.publishes : FileOp Bytes Reply → Prop
  | .exists _ | .mkdir _ | .mkstemp .. | .chmod .. | .write .. | .replace .. | .unlink _ => True
  | _ => False

theorem replaceFile_uses (mode : Option Nat) (path : Path) (content : Bytes) :
    (replaceFile mode path content : FileProg Bytes Err Unit).Uses FileOp.publishes := by
  have discarded : ∀ tmp, (discard tmp : FileProg Bytes Err Unit).Uses FileOp.publishes := by
    intro tmp
    refine uses_bind (uses_call trivial) ?_
    intro present
    cases present with
    | true => exact uses_call trivial
    | false => trivial
  refine uses_bind (uses_call trivial) fun tmp => uses_finally ?_ (discarded tmp)
  refine uses_bind ?_ fun _ => uses_bind (uses_call trivial) fun _ => uses_call trivial
  cases mode with
  | none => trivial
  | some mode => exact uses_call trivial

-- Names mkstemp may choose beside a target.
def IsTemp (path tmp : Path) : Prop := tmp.dir = path.dir ∧
  ∃ random : Name, random.length = 8 ∧ tmp.name = path.name ++ ['.'] ++ random ++ []

theorem temp_ne {path tmp : Path} (temp : IsTemp path tmp) : tmp ≠ path := by
  rintro rfl
  obtain ⟨_,random,_,named⟩ := temp
  have lengths := congrArg List.length named
  simp at lengths

def Quiet (moves : Store Bytes → Store Bytes → Prop) (kept : Path → Prop) : Prop :=
  ∀ store next, moves store next → ∀ path, kept path → next path = store path

abbrev onFiles (size : Bytes → Nat) (moves : Store Bytes → Store Bytes → Prop) :
    Machine (FileOp Bytes) Err (Store Bytes) := ⟨step size,moves⟩

def Unpublished (kept : Path → Prop) (path : Path) (before store : Store Bytes) : Prop :=
  ∀ other, kept other → ¬ IsTemp path other → store other = before other

def Published (kept : Path → Prop) (path : Path) (content : Bytes) (before store : Store Bytes) : Prop :=
  (∃ file, store path = some file ∧ file.content = content) ∧
    ∀ other, kept other → ¬ IsTemp path other → other ≠ path → store other = before other

def untouched (kept : Path → Prop) (path : Path) (content : Bytes) (before : Store Bytes) :
    Post Err (Store Bytes) Unit where
  inv store := Unpublished kept path before store ∨ Published kept path content before store
  returns _ := Unpublished kept path before
  raises _ := Unpublished kept path before

def publishing (kept : Path → Prop) (path : Path) (content : Bytes) (before : Store Bytes) :
    Post Err (Store Bytes) Unit where
  inv store := Unpublished kept path before store ∨ Published kept path content before store
  returns _ := Published kept path content before
  raises _ := Unpublished kept path before

section Publication
variable {size : Bytes → Nat} {moves : Store Bytes → Store Bytes → Prop} {kept : Path → Prop} {path tmp : Path}
  {content : Bytes} {before store next : Store Bytes}

theorem unpublished_frame (start : Unpublished kept path before store)
    (frame : ∀ other, kept other → ¬ IsTemp path other → next other = store other) :
    Unpublished kept path before next :=
  fun other keeps permanent => (frame other keeps permanent).trans (start other keeps permanent)

theorem unpublished_temp (temp : IsTemp path tmp) (start : Unpublished kept path before store)
    (frame : ∀ other, other ≠ tmp → next other = store other) : Unpublished kept path before next :=
  unpublished_frame start fun other _ permanent => frame other fun same => permanent (same.symm ▸ temp)

theorem discard_absent {post : Post Err (Store Bytes) Unit} {assertion : Store Bytes → Prop}
    (stable : Stable moves assertion) (absent : ∀ store, assertion store → store tmp = none)
    (ends : ∀ store, assertion store → post.inv store ∧ post.returns () store) (start : assertion store) :
    Holds (onFiles size moves) post (discard tmp) store := by
  refine holds_call stable (fun store here => (ends store here).1) ?_ ?_ start
  · rintro store present next here ⟨rfl,found⟩
    cases present with
    | false => exact holds_done stable ends here
    | true =>
        have isThere := found rfl
        rw [absent _ here] at isThere
        cases isThere
  · rintro store error next here ⟨⟩

theorem discard_frame {post : Post Err (Store Bytes) Unit} {assertion : Store Bytes → Prop}
    (stable : Stable moves assertion)
    (frame : ∀ store next, assertion store → (∀ other, other ≠ tmp → next other = store other) → assertion next)
    (ends : ∀ store, assertion store → post.inv store ∧ post.returns () store ∧ ∀ error, post.raises error store)
    (start : assertion store) : Holds (onFiles size moves) post (discard tmp) store := by
  refine holds_call stable (fun store here => (ends store here).1) ?_ ?_ start
  · rintro store present next here ⟨rfl,_⟩
    cases present with
    | false => exact holds_done stable (fun store here => ⟨(ends store here).1,(ends store here).2.1⟩) here
    | true =>
        intro store moves
        have here := stable_star stable moves here
        refine ⟨(ends store here).1,fun reply last stepped => ?_⟩
        have kept := frame store last here fun other apart => step_frame stepped other apart
        cases reply with
        | ok reply => exact holds_done stable (fun store here => ⟨(ends store here).1,(ends store here).2.1⟩) kept
        | error error =>
            exact holds_raise stable (fun store here => ⟨(ends store here).1,(ends store here).2.2 error⟩) kept
  · rintro store error next here ⟨⟩

def Filled (kept : Path → Prop) (path tmp : Path) (content : Bytes) (before store : Store Bytes) : Prop :=
  Unpublished kept path before store ∧ ∃ file, store tmp = some file ∧ file.content = content

theorem rename_publishes (temp : IsTemp path tmp) (filled : Filled kept path tmp content before store)
    (renamed : ∃ file, store tmp = some file ∧
      next = Function.update (Function.update store tmp none) path (some file)) :
    Published kept path content before next ∧ next tmp = none := by
  obtain ⟨start,file,there,whole⟩ := filled
  obtain ⟨moved,found,rfl⟩ := renamed
  rw [there] at found
  cases found
  refine ⟨⟨⟨file,Function.update_self ..,whole⟩,fun other keeps permanent apart => ?_⟩,?_⟩
  · have notTemp : other ≠ tmp := fun same => permanent (same ▸ temp)
    rw [Function.update_of_ne apart,Function.update_of_ne notTemp,start other keeps permanent]
  · rw [Function.update_of_ne (temp_ne temp),Function.update_self]

variable (quiet : Quiet moves kept)
include quiet

theorem unpublished_stable : Stable moves (Unpublished kept path before) :=
  fun _ _ moved start => unpublished_frame start fun other keeps _ => quiet _ _ moved other keeps

theorem published_stable (own : kept path) : Stable moves (Published kept path content before) := by
  rintro store next moved ⟨⟨file,here,whole⟩,others⟩
  refine ⟨⟨file,(quiet _ _ moved path own).trans here,whole⟩,fun other keeps permanent apart => ?_⟩
  rw [quiet _ _ moved other keeps,others other keeps permanent apart]

theorem discard_unpublished (temp : IsTemp path tmp) (start : Unpublished kept path before store) :
    Holds (onFiles size moves) (untouched kept path content before : Post Err _ _) (discard tmp) store := by
  refine discard_frame (unpublished_stable quiet) ?_ (fun _ here => ⟨.inl here,here,fun _ => here⟩) start
  exact fun store next => unpublished_temp temp

theorem published_absent_stable (own : kept path) (keeps : kept tmp) :
    Stable moves fun store => Published kept path content before store ∧ store tmp = none :=
  fun store next moved here => ⟨published_stable quiet own store next moved here.1,
    (quiet _ _ moved tmp keeps).trans here.2⟩

theorem discard_published (own : kept path) (keeps : kept tmp)
    (start : Published kept path content before store ∧ store tmp = none) :
    Holds (onFiles size moves) (publishing kept path content before : Post Err _ _) (discard tmp) store :=
  discard_absent (published_absent_stable quiet own keeps) (fun _ here => here.2)
    (fun _ here => ⟨.inr here.1,here.1⟩) start

theorem setMode_holds (mode : Option Nat) (temp : IsTemp path tmp) (start : Unpublished kept path before store) :
    Holds (onFiles size moves) (untouched kept path content before : Post Err _ _) (setMode tmp mode) store := by
  have stable : Stable moves (Unpublished kept path before) := unpublished_stable quiet
  cases mode with
  | none => exact holds_done stable (fun _ here => ⟨.inl here,here⟩) start
  | some mode =>
      have kept : ∀ store (reply : Except Err Unit) next, Unpublished kept path before store →
          step size (.chmod tmp mode) store reply next → Unpublished kept path before next := by
        intro store reply next start stepped
        exact unpublished_temp temp start fun other apart => step_frame stepped other apart
      refine holds_last stable (fun _ => .inl) ?_ ?_ start
      · intro store _ next start stepped
        exact holds_done stable (fun _ here => ⟨.inl here,here⟩) (kept store (.ok ()) next start stepped)
      · intro store error next start stepped
        exact holds_raise stable (fun _ here => ⟨.inl here,here⟩) (kept store (.error error) next start stepped)

theorem filled_stable (keeps : kept tmp) : Stable moves
    (Filled kept path tmp content before) := by
  rintro store next moved ⟨start,file,there,whole⟩
  exact ⟨unpublished_stable quiet store next moved start,file,
    (quiet _ _ moved tmp keeps).trans there,whole⟩

-- Either the temporary file alone has changed, or the target is the new file.
theorem replaceFile_holds (mode : Option Nat) (temps : ∀ tmp, IsTemp path tmp → kept tmp) (own : kept path)
    (before : Store Bytes) : Holds (onFiles size moves) (publishing kept path content before : Post Err _ _)
      (replaceFile mode path content) before := by
  have stable : Stable moves (Unpublished kept path before) := unpublished_stable quiet
  refine holds_call stable (fun _ => .inl) ?_ ?_ fun _ _ _ => rfl
  · intro store tmp made start stepped
    have temp : IsTemp path tmp := ⟨stepped.1,stepped.2.1⟩
    have start : Unpublished kept path before made := by
      obtain ⟨_,_,_,file,rfl⟩ := stepped
      exact unpublished_temp temp start fun other apart => Function.update_of_ne apart _ _
    have failed : ∀ store, Unpublished kept path before store →
        Holds (onFiles size moves) (untouched kept path content before : Post Err _ _) (discard tmp) store :=
      fun _ => discard_unpublished quiet temp
    apply holds_finally
    apply holds_bind
    have moded : Holds (onFiles size moves) (untouched kept path content before : Post Err _ _) (setMode tmp mode) made :=
      setMode_holds quiet mode temp start
    refine holds_weaken moded (fun _ here => here) ?_ fun _ => failed
    intro _ store start
    refine holds_call stable (fun _ => .inl) ?_ ?_ start
    · rintro store _ next start ⟨file,rfl,whole,_⟩
      have filled : Filled kept path tmp content before (Function.update store tmp (some file)) :=
        ⟨unpublished_temp temp start fun other apart => Function.update_of_ne apart _ _,
          file,Function.update_self ..,whole⟩
      refine holds_last (filled_stable quiet (temps tmp temp)) (fun _ here => .inl here.1) ?_ ?_ filled
      · intro store _ next filled renamed
        have done := rename_publishes temp filled renamed
        exact holds_done (published_absent_stable quiet own (temps tmp temp))
          (fun _ here => ⟨.inr here.1,discard_published quiet own (temps tmp temp) here⟩) done
      · rintro store error next filled rfl
        exact holds_raise stable (fun _ here => ⟨.inl here,failed _ here⟩) filled.1
    · intro store error next start torn
      have start : Unpublished kept path before next := by
        rcases torn with rfl | ⟨file,rfl⟩
        · exact start
        · exact unpublished_temp temp start fun other apart => Function.update_of_ne apart _ _
      exact holds_raise stable (fun _ here => ⟨.inl here,failed _ here⟩) start
  · rintro store error next start rfl
    exact holds_raise stable (fun _ here => ⟨.inl here,here⟩) start

end Publication

end OneSpark.FileStore
