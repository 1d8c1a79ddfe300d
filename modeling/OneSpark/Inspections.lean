import OneSpark.Checkpoint
import OneSpark.FileTables
import Mathlib.Data.List.Forall2

namespace OneSpark.Inspections
open Programs FileStore FileTables Checkpoint Relation
variable {Bytes Hash α β Reply : Type}

inductive Event (Bytes : Type) where
  | stat (path : Path) (file : File Bytes)
  | read (path : Path) (content : Bytes)

-- The files, every triple each path has ever had, and the current run's events.
structure World (Bytes : Type) where
  store : Store Bytes
  seen : Path → Stamp → Prop
  log : List (Event Bytes)

def World.begin (world : World Bytes) : World Bytes := {world with log := []}

structure Setting (Bytes Hash : Type) where
  site : Site Bytes Hash
  size : Bytes → Nat
  locks : Bytes → Prop
  selections : (Lock Hash → List Name) → Prop

variable (setting : Setting Bytes Hash)

def IsShard (path : Path) : Prop := ∃ bytes lock selected, setting.locks bytes ∧ setting.selections selected ∧
  setting.site.lockJson bytes = some lock ∧ ∃ spec ∈ lock.files, path = ⟨selected lock,spec.name⟩

-- Every write or replacement of a shard gives its path a triple it never had.
def Aged (before after : World Bytes) : Prop :=
  (∀ path stamp, after.seen path stamp ↔ before.seen path stamp ∨
    ∃ file, after.store path = some file ∧ file.stamp setting.size = stamp) ∧
  ∀ path, IsShard setting path → after.store path ≠ before.store path →
    ∀ file, after.store path = some file → ¬ before.seen path (file.stamp setting.size)

-- Not a snapshot file: the lock, the receipt and the receipt's temporary files.
def Private (path : Path) : Prop := path = setting.site.lockPath ∨ path = setting.site.receiptPath ∨
  IsTemp setting.site.receiptPath path

def during (before after : World Bytes) : Prop :=
  (∀ path, Private setting path → after.store path = before.store path) ∧ after.log = before.log ∧
    Aged setting before after

-- A file is read block by block: if another party changes it meanwhile, what the
-- read returns is arbitrary.
def step : {Reply : Type} → FileOp Bytes Reply → World Bytes → Except ToolError Reply → World Bytes → Prop
  | _,.read path,before,.ok content,after => ∃ middle, after = {middle with log := middle.log ++ [.read path content]} ∧
      ((middle = before ∧ ∃ file, before.store path = some file ∧ file.content = content) ∨
        (during setting before middle ∧ middle.store path ≠ before.store path))
  | _,.stat path,before,.ok stamp,after => ∃ file, before.store path = some file ∧ file.stamp setting.size = stamp ∧
      after.store = before.store ∧ after.log = before.log ++ [.stat path file] ∧ Aged setting before after
  | _,op,before,reply,after => FileStore.step setting.size op before.store reply after.store ∧
      after.log = before.log ∧ Aged setting before after

def machine : Machine (FileOp Bytes) ToolError (World Bytes) := ⟨step setting,during setting⟩

def stats (log : List (Event Bytes)) : List (Path × File Bytes) := log.filterMap fun
  | .stat path file => some (path,file)
  | .read .. => none

-- The triple was the path's, and while it is, the content has the hash.
def Pinned (world : World Bytes) (path : Path) (stamp : Stamp) (hash : Hash) : Prop := world.seen path stamp ∧
  ∀ file, world.store path = some file → file.stamp setting.size = stamp → setting.site.digest file.content = hash

def Hashed (world : World Bytes) (path : Path) (hash : Hash) : Prop :=
  ∃ content, Event.read path content ∈ world.log ∧ setting.site.digest content = hash

variable {setting} {before middle after start world : World Bytes} {path : Path} {stamp : Stamp} {hash : Hash}

theorem aged_seen (aged : Aged setting before after) (seen : before.seen path stamp) : after.seen path stamp :=
  (aged.1 path stamp).mpr (.inl seen)

theorem pinned_aged (aged : Aged setting before after) (shard : IsShard setting path)
    (pinned : Pinned setting before path stamp hash) : Pinned setting after path stamp hash := by
  refine ⟨aged_seen aged pinned.1,?_⟩
  intro file here same
  by_cases changed : after.store path = before.store path
  · exact pinned.2 file (changed ▸ here) same
  · exact absurd (same ▸ pinned.1) (aged.2 path shard changed file here)

theorem pinned_outdated (aged : Aged setting before after) (shard : IsShard setting path)
    (seen : before.seen path stamp) (changed : after.store path ≠ before.store path) :
    Pinned setting after path stamp hash := by
  refine ⟨aged_seen aged seen,?_⟩
  intro file here same
  exact absurd (same ▸ seen) (aged.2 path shard changed file here)

structure Later (setting : Setting Bytes Hash) (before after : World Bytes)
    (entries : List (Path × File Bytes)) : Prop where
  same : ∀ path, Private setting path → after.store path = before.store path
  log : ∃ events, after.log = before.log ++ events ∧ stats events = entries
  seen : ∀ path stamp, before.seen path stamp → after.seen path stamp
  pins : ∀ path stamp hash, IsShard setting path → Pinned setting before path stamp hash →
    Pinned setting after path stamp hash
  stated : ∀ entry ∈ entries, ∀ hash, IsShard setting entry.1 →
    Pinned setting before entry.1 (entry.2.stamp setting.size) hash → setting.site.digest entry.2.content = hash

variable {entries others : List (Path × File Bytes)}

theorem later_refl (world : World Bytes) : Later setting world world [] :=
  ⟨fun _ _ => rfl,⟨[],by simp,rfl⟩,fun _ _ seen => seen,fun _ _ _ _ pinned => pinned,fun _ member => nomatch member⟩

theorem later_trans (first : Later setting before middle entries) (second : Later setting middle after others) :
    Later setting before after (entries ++ others) := by
  obtain ⟨events,log,own⟩ := first.log
  obtain ⟨more,longer,next⟩ := second.log
  refine ⟨fun path own => (second.same path own).trans (first.same path own),
    ⟨events ++ more,by simp [longer,log],by simp [stats,← own,← next]⟩,
    fun path stamp seen => second.seen path stamp (first.seen path stamp seen),
    fun path stamp hash shard pinned => second.pins path stamp hash shard (first.pins path stamp hash shard pinned),?_⟩
  intro entry member hash shard pinned
  cases List.mem_append.mp member with
  | inl earlier => exact first.stated entry earlier hash shard pinned
  | inr later => exact second.stated entry later hash shard (first.pins _ _ _ shard pinned)

theorem later_next (first : Later setting before middle entries) (second : Later setting middle after []) :
    Later setting before after entries := by
  simpa using later_trans first second

theorem later_moved (moved : during setting before after) : Later setting before after [] :=
  ⟨moved.1,⟨[],by simp [moved.2.1],rfl⟩,fun _ _ => aged_seen moved.2.2,fun _ _ _ shard => pinned_aged moved.2.2 shard,
    fun _ member => nomatch member⟩

theorem later_logged (first : Later setting before middle []) (content : Bytes) :
    Later setting before {middle with log := middle.log ++ [.read path content]} [] := by
  obtain ⟨events,log,none⟩ := first.log
  refine ⟨first.same,⟨events ++ [.read path content],by simp [log],?_⟩,first.seen,first.pins,first.stated⟩
  simpa [stats] using none

theorem later_read {content : Bytes} (stepped : step setting (.read path) before (.ok content) after) :
    Later setting before after [] := by
  obtain ⟨middle,rfl,cause⟩ := stepped
  cases cause with
  | inl whole =>
      rw [whole.1]
      exact later_logged (later_refl before) content
  | inr torn => exact later_logged (later_moved torn.1) content

theorem read_hashed {content : Bytes} (stepped : step setting (.read path) before (.ok content) after) :
    Hashed setting after path (setting.site.digest content) := by
  obtain ⟨middle,rfl,_⟩ := stepped
  exact ⟨content,by simp,rfl⟩

theorem read_private {content : Bytes} (own : Private setting path)
    (stepped : step setting (.read path) before (.ok content) after) :
    ∃ file, after.store path = some file ∧ file.content = content := by
  obtain ⟨middle,rfl,cause⟩ := stepped
  cases cause with
  | inl whole =>
      rw [whole.1]
      exact whole.2
  | inr torn => exact absurd (torn.1.1 path own) torn.2

-- A shard hashed after its stat: the triple now stands for the hashed content.
theorem read_pinned {content : Bytes} (shard : IsShard setting path) (seen : before.seen path stamp)
    (stepped : step setting (.read path) before (.ok content) after) :
    Pinned setting after path stamp (setting.site.digest content) := by
  obtain ⟨middle,rfl,cause⟩ := stepped
  cases cause with
  | inl whole =>
      obtain ⟨same,file,here,content⟩ := whole
      rw [same]
      refine ⟨seen,?_⟩
      intro other there _
      cases here.symm.trans there
      rw [content]
  | inr torn => exact pinned_outdated torn.1.2.2 shard seen torn.2

theorem later_stat (stepped : step setting (.stat path) before (.ok stamp) after) :
    ∃ file, file.stamp setting.size = stamp ∧ Later setting before after [(path,file)] ∧ after.seen path stamp := by
  obtain ⟨file,here,shown,store,log,aged⟩ := stepped
  refine ⟨file,shown,⟨fun path _ => congrFun store path,⟨[.stat path file],log,rfl⟩,fun _ _ => aged_seen aged,
    fun _ _ _ shard => pinned_aged aged shard,?_⟩,?_⟩
  · intro entry member hash shard pinned
    cases List.mem_singleton.mp member
    exact pinned.2 file here rfl
  · exact (aged.1 path stamp).mpr (.inr ⟨file,by rw [store,here],shown⟩)

theorem later_same (store : after.store = before.store) (log : after.log = before.log)
    (aged : Aged setting before after) : Later setting before after [] :=
  later_moved ⟨fun path _ => congrFun store path,log,aged⟩

theorem later_failed {op : FileOp Bytes Reply} {error : ToolError} (unchanging : ∀ path, ¬ op.touches path)
    (stepped : step setting op before (.error error) after) : Later setting before after [] := by
  have parts : FileStore.step setting.size op before.store (.error error) after.store ∧
      after.log = before.log ∧ Aged setting before after := by
    cases op <;> exact stepped
  exact later_same (funext fun path => step_frame parts.1 path (unchanging path)) parts.2.1 parts.2.2

def Kept (setting : Setting Bytes Hash) (fact : World Bytes → Prop) : Prop :=
  ∀ before after, Later setting before after [] → fact before → fact after

theorem kept_stable {fact : World Bytes → Prop} (kept : Kept setting fact) : Stable (during setting) fact :=
  fun before after moved => kept before after (later_moved moved)

theorem kept_and {fact other : World Bytes → Prop} (kept : Kept setting fact) (keeps : Kept setting other) :
    Kept setting fun world => fact world ∧ other world :=
  fun before after later here => ⟨kept before after later here.1,keeps before after later here.2⟩

theorem kept_since : Kept setting fun world => Later setting start world entries :=
  fun _ _ later since => later_next since later

def Lasting (setting : Setting Bytes Hash) (fact : World Bytes → Prop) : Prop :=
  ∀ before after entries, Later setting before after entries → fact before → fact after

theorem lasting_kept {fact : World Bytes → Prop} (lasting : Lasting setting fact) : Kept setting fact :=
  fun before after => lasting before after []

theorem lasting_and {fact other : World Bytes → Prop} (lasting : Lasting setting fact) (lasts : Lasting setting other) :
    Lasting setting fun world => fact world ∧ other world :=
  fun before after entries later here =>
    ⟨lasting before after entries later here.1,lasts before after entries later here.2⟩

theorem hashed_lasting : Lasting setting fun world => Hashed setting world path hash := by
  intro before after entries later hashed
  obtain ⟨content,member,whole⟩ := hashed
  obtain ⟨events,log,_⟩ := later.log
  exact ⟨content,log ▸ List.mem_append_left events member,whole⟩

theorem pinned_lasting (shard : IsShard setting path) :
    Lasting setting fun world => Pinned setting world path stamp hash :=
  fun _ _ _ later => later.pins path stamp hash shard

theorem forall₂_lasting (relation : α → β → World Bytes → Prop) {items : List α} {results : List β}
    (lasting : ∀ a ∈ items, ∀ b, Lasting setting (relation a b)) :
    Lasting setting fun world => List.Forall₂ (fun a b => relation a b world) items results := by
  intro before after entries later related
  refine ((List.forall₂_and_left items results).mpr ⟨lasting,related⟩).imp ?_
  exact fun a b both => both.1 b before after entries later both.2

def Unchanged (setting : Setting Bytes Hash) (start world : World Bytes) : Prop :=
  world.store setting.site.receiptPath = start.store setting.site.receiptPath

def inspecting (setting : Setting Bytes Hash) (start : World Bytes) (returns : α → World Bytes → Prop) :
    Post ToolError (World Bytes) α := ⟨Unchanged setting start,returns,fun _ => Unchanged setting start⟩

structure Frame (setting : Setting Bytes Hash) (start : World Bytes) (fact : World Bytes → Prop) : Prop where
  kept : Kept setting fact
  unchanged : ∀ world, fact world → Unchanged setting start world

section Parts
variable {fact : World Bytes → Prop} {returns : α → World Bytes → Prop} {error : ToolError}
  (frame : Frame setting start fact)
include frame

theorem inspecting_raise (here : fact world) :
    Holds (machine setting) (inspecting setting start returns) (.raise error) world := by
  refine holds_raise (kept_stable frame.kept) ?_ here
  exact fun world here => ⟨frame.unchanged world here,frame.unchanged world here⟩

theorem inspecting_done {a : α} (kept : Kept setting (returns a)) (here : fact world) (ends : returns a world) :
    Holds (machine setting) (inspecting setting start returns) (.done a) world := by
  refine holds_done (kept_stable (kept_and frame.kept kept)) ?_ ⟨here,ends⟩
  exact fun world both => ⟨frame.unchanged world both.1,both.2⟩

theorem inspecting_call {op : FileOp Bytes Reply} {f : Reply → ToolProg Bytes α}
    (unchanging : ∀ path, ¬ op.touches path)
    (ends : ∀ before reply after, fact before → step setting op before (.ok reply) after →
      Holds (machine setting) (inspecting setting start returns) (f reply) after)
    (here : fact world) : Holds (machine setting) (inspecting setting start returns) (call op >>= f) world := by
  refine holds_call (kept_stable frame.kept) (fun world => frame.unchanged world) ends ?_ here
  intro before error after here stepped
  exact inspecting_raise frame (frame.kept before after (later_failed unchanging stepped) here)

theorem inspecting_read {f : Bytes → ToolProg Bytes α}
    (ends : ∀ before content after, fact before → fact after → step setting (.read path) before (.ok content) after →
      Holds (machine setting) (inspecting setting start returns) (f content) after)
    (here : fact world) : Holds (machine setting) (inspecting setting start returns) (call (.read path) >>= f) world := by
  refine inspecting_call frame (fun _ => id) ?_ here
  intro before content after here stepped
  exact ends before content after here (frame.kept before after (later_read stepped) here) stepped

theorem inspecting_probe {f : Bool → ToolProg Bytes α}
    (ends : ∀ present world, fact world → Holds (machine setting) (inspecting setting start returns) (f present) world)
    (here : fact world) : Holds (machine setting) (inspecting setting start returns) (call (.probe path) >>= f) world := by
  refine inspecting_call frame (fun _ => id) ?_ here
  intro before present after here stepped
  obtain ⟨⟨store,_⟩,log,aged⟩ := stepped
  exact ends present after (frame.kept before after (later_same store log aged) here)

theorem inspecting_check {condition : Bool} {f : Unit → ToolProg Bytes α} (here : fact world)
    (passes : condition = true → Holds (machine setting) (inspecting setting start returns) (f ()) world) :
    Holds (machine setting) (inspecting setting start returns) (check condition error >>= f) world :=
  holds_check passes fun _ => inspecting_raise frame here

theorem inspecting_passed {condition : Bool} {after : Unit → World Bytes → Prop} (kept : Kept setting (after ()))
    (here : fact world) (passes : condition = true → after () world) :
    Holds (machine setting) (inspecting setting start after) (check condition error) world := by
  cases condition with
  | false => exact inspecting_raise frame here
  | true => exact inspecting_done frame kept here (passes rfl)

theorem inspecting_hash {digest : Bytes → Hash} {f : Hash → ToolProg Bytes α}
    (ends : ∀ before content after, fact before → fact after → step setting (.read path) before (.ok content) after →
      Holds (machine setting) (inspecting setting start returns) (f (digest content)) after)
    (here : fact world) :
    Holds (machine setting) (inspecting setting start returns) (sha256 digest path >>= f) world := by
  have joined : sha256 digest path >>= f = call (.read path) >>= fun content => f (digest content) :=
    Programs.bind_assoc ..
  rw [joined]
  exact inspecting_read frame ends here

theorem inspecting_json {loads : Bytes → Option β} {f : β → ToolProg Bytes α}
    (ends : ∀ before content after value, fact before → fact after → step setting (.read path) before (.ok content) after →
      loads content = some value → Holds (machine setting) (inspecting setting start returns) (f value) after)
    (here : fact world) :
    Holds (machine setting) (inspecting setting start returns) (readJson loads path >>= f) world := by
  unfold readJson
  rw [Programs.bind_assoc]
  refine inspecting_read frame ?_ here
  intro before content after earlier later stepped
  cases parsed : loads content with
  | none => exact inspecting_raise frame later
  | some value => exact ends before content after value earlier later stepped parsed

end Parts

theorem inspecting_bind {program : ToolProg Bytes α} {f : α → ToolProg Bytes β} {middle : α → World Bytes → Prop}
    {returns : β → World Bytes → Prop}
    (first : Holds (machine setting) (inspecting setting start middle) program world)
    (rest : ∀ a world, middle a world → Holds (machine setting) (inspecting setting start returns) (f a) world) :
    Holds (machine setting) (inspecting setting start returns) (program >>= f) world :=
  holds_bind (holds_weaken first (fun _ here => here) rest fun _ _ here => here)

theorem inspecting_each {f : α → ToolProg Bytes β} {items : List α} (loop : List α → List β → World Bytes → Prop)
    (frames : ∀ results, Frame setting start (loop items results))
    (once : ∀ done a rest results world, items = done ++ a :: rest → loop done results world →
      Holds (machine setting) (inspecting setting start fun b => loop (done ++ [a]) (results ++ [b])) (f a) world)
    (here : loop [] [] world) :
    Holds (machine setting) (inspecting setting start (loop items)) (each f items) world := by
  refine holds_each loop items once ?_ here
  intro results world ends
  exact inspecting_done (frames results) (frames results).kept ends ends

theorem receipt_private : Private setting setting.site.receiptPath := .inr (.inl rfl)

theorem frame_since {fact : World Bytes → Prop} (lasting : Lasting setting fact) :
    Frame setting start fun world => fact world ∧ Later setting start world entries :=
  ⟨kept_and (lasting_kept lasting) kept_since,fun _ both => both.2.same _ receipt_private⟩

def recordOf (size : Bytes → Nat) (entry : Path × File Bytes) : Record := ⟨entry.1.name,entry.2.stamp size⟩

def Recorded (setting : Setting Bytes Hash) (dir : List Name) (full : Bool) (spec : ShardSpec Hash)
    (entry : Path × File Bytes) (world : World Bytes) : Prop := entry.1 = ⟨dir,spec.name⟩ ∧
  (full = true → Pinned setting world entry.1 (entry.2.stamp setting.size) spec.sha256)

section Inspection
variable {fact : World Bytes → Prop} {dir : List Name} {spec : ShardSpec Hash} {full : Bool}
  (lasting : Lasting setting fact)

theorem recorded_lasting (shard : IsShard setting ⟨dir,spec.name⟩) (entry : Path × File Bytes) :
    Lasting setting (Recorded setting dir full spec entry) := by
  intro before after entries later recorded
  refine ⟨recorded.1,?_⟩
  intro whole
  exact pinned_lasting (recorded.1 ▸ shard) before after entries later (recorded.2 whole)

include lasting

theorem inspectPinned_holds [DecidableEq Hash] (pinned : Name × Hash) (here : fact world ∧ Later setting start world []) :
    Holds (machine setting) (inspecting setting start fun _ world =>
      (fact world ∧ Hashed setting world ⟨dir,pinned.1⟩ pinned.2) ∧ Later setting start world [])
      (inspectPinned setting.site.digest dir pinned) world := by
  refine inspecting_hash (frame_since lasting) ?_ here
  intro before content after _ here stepped
  refine inspecting_passed (frame_since lasting) ?_ here ?_
  · exact (frame_since (lasting_and lasting hashed_lasting)).kept
  · intro same
    have hashed := read_hashed stepped
    rw [of_decide_eq_true same] at hashed
    exact ⟨⟨here.1,hashed⟩,here.2⟩

theorem requireFile_holds (name : Name) (here : fact world ∧ Later setting start world []) :
    Holds (machine setting) (inspecting setting start fun _ world => fact world ∧ Later setting start world [])
      (requireFile dir name) world := by
  refine inspecting_probe (frame_since lasting) ?_ here
  intro present world here
  exact inspecting_passed (frame_since lasting) (frame_since lasting).kept here fun _ => here

theorem hashTokenizer_holds (name : Name) (here : fact world ∧ Later setting start world entries) :
    Holds (machine setting) (inspecting setting start fun result world =>
      (fact world ∧ result.1 = name ∧ Hashed setting world ⟨dir,name⟩ result.2) ∧ Later setting start world entries)
      (hashTokenizer setting.site.digest dir name) world := by
  refine inspecting_hash (frame_since lasting) ?_ here
  intro before content after _ here stepped
  refine inspecting_done (frame_since lasting) ?_ here ⟨⟨here.1,rfl,read_hashed stepped⟩,here.2⟩
  exact (frame_since (lasting_and lasting (lasting_and (fun _ _ _ _ same => same) hashed_lasting))).kept

theorem hashShard_holds [DecidableEq Hash] (shard : IsShard setting ⟨dir,spec.name⟩)
    (here : fact world ∧ Later setting start world entries) (seen : world.seen ⟨dir,spec.name⟩ stamp) :
    Holds (machine setting) (inspecting setting start fun _ world =>
      (fact world ∧ (full = true → Pinned setting world ⟨dir,spec.name⟩ stamp spec.sha256)) ∧
        Later setting start world entries) (hashShard setting.site.digest dir full spec) world := by
  have kept : Kept setting fun world =>
      (fact world ∧ (full = true → Pinned setting world ⟨dir,spec.name⟩ stamp spec.sha256)) ∧
        Later setting start world entries := by
    refine (frame_since (lasting_and lasting ?_)).kept
    exact fun before after entries later pins whole => pinned_lasting shard before after entries later (pins whole)
  cases full with
  | false => exact inspecting_done (frame_since lasting) kept here ⟨⟨here.1,nofun⟩,here.2⟩
  | true =>
      have seen_lasting : Lasting setting fun world => world.seen ⟨dir,spec.name⟩ stamp :=
        fun _ _ _ later => later.seen ⟨dir,spec.name⟩ stamp
      refine inspecting_hash (frame_since (lasting_and lasting seen_lasting)) ?_ ⟨⟨here.1,seen⟩,here.2⟩
      intro before content after there here stepped
      refine inspecting_passed (frame_since lasting) kept ⟨here.1.1,here.2⟩ ?_
      intro same
      have pinned := read_pinned shard there.1.2 stepped
      rw [of_decide_eq_true same] at pinned
      exact ⟨⟨here.1.1,fun _ => pinned⟩,here.2⟩

theorem recordShard_holds [DecidableEq Hash] (shard : IsShard setting ⟨dir,spec.name⟩)
    (here : fact world ∧ Later setting start world entries) :
    Holds (machine setting) (inspecting setting start fun record world => ∃ entry,
      record = recordOf setting.size entry ∧ (fact world ∧ Recorded setting dir full spec entry world) ∧
        Later setting start world (entries ++ [entry]))
      (recordShard setting.site.digest dir full spec) world := by
  refine inspecting_check (frame_since lasting) here fun _ => ?_
  refine inspecting_call (frame_since lasting) (fun _ => id) ?_ here
  intro before stamp after here stepped
  obtain ⟨file,shown,later,seen⟩ := later_stat stepped
  have here : fact after ∧ Later setting start after (entries ++ [(⟨dir,spec.name⟩,file)]) :=
    ⟨lasting _ _ _ later here.1,later_trans here.2 later⟩
  refine inspecting_check (frame_since lasting) here fun _ => ?_
  refine inspecting_bind (hashShard_holds lasting shard here seen) ?_
  intro _ world here
  obtain ⟨⟨here,pins⟩,since⟩ := here
  refine inspecting_done (frame_since lasting) ?_ ⟨here,since⟩ ⟨(⟨dir,spec.name⟩,file),?_,⟨here,rfl,?_⟩,since⟩
  · intro before after later ends
    obtain ⟨entry,named,both,since⟩ := ends
    exact ⟨entry,named,lasting_and lasting (recorded_lasting shard entry) before after [] later both,
      later_next since later⟩
  · rw [← shown]
    rfl
  · rw [shown]
    exact pins

theorem readJson_holds {loads : Bytes → Option α} (here : fact world ∧ Later setting start world []) :
    Holds (machine setting) (inspecting setting start fun _ world => fact world ∧ Later setting start world [])
      (readJson loads path) world := by
  have frame : Frame setting start fun world => fact world ∧ Later setting start world [] := frame_since lasting
  refine inspecting_read frame ?_ here
  intro before content after _ here stepped
  cases loads content with
  | none => exact inspecting_raise frame here
  | some value => exact inspecting_done frame frame.kept here here

end Inspection

structure Inspected (setting : Setting Bytes Hash) (start : World Bytes) (dir : List Name) (lock : Lock Hash)
    (full : Bool) (result : Inspection Hash) (world : World Bytes) : Prop where
  named : result.snapshot = dir ∧ result.revision = lock.revision
  pinned : Hashed setting world ⟨dir,configName⟩ lock.configSha256 ∧ Hashed setting world ⟨dir,indexName⟩ lock.indexSha256
  shards : ∃ entries, result.files = entries.map (recordOf setting.size) ∧
    List.Forall₂ (fun spec entry => Recorded setting dir full spec entry world) lock.files entries ∧
      Later setting start world entries
  tokenizers : List.Forall₂ (fun name entry => entry.1 = name ∧ Hashed setting world ⟨dir,name⟩ entry.2)
    tokenizerNames result.tokenizers

section Whole
variable {dir : List Name} {lock : Lock Hash} {full : Bool} {result : Inspection Hash}
  (shards : ∀ spec ∈ lock.files, IsShard setting ⟨dir,spec.name⟩)

theorem pins_lasting (pins : List (Name × Hash)) :
    Lasting setting fun world => ∀ pinned ∈ pins, Hashed setting world ⟨dir,pinned.1⟩ pinned.2 :=
  fun before after entries later here pinned member =>
    hashed_lasting before after entries later (here pinned member)

theorem tokenizers_lasting (names : List Name) (results : List (Name × Hash)) : Lasting setting fun world =>
    List.Forall₂ (fun name entry => entry.1 = name ∧ Hashed setting world ⟨dir,name⟩ entry.2) names results := by
  refine forall₂_lasting (fun name (entry : Name × Hash) world => entry.1 = name ∧ Hashed setting world ⟨dir,name⟩ entry.2) ?_
  intro name _ entry
  exact lasting_and (fun _ _ _ _ same => same) hashed_lasting

include shards in
theorem records_lasting (full : Bool) {specs : List (ShardSpec Hash)} (part : specs ⊆ lock.files)
    (entries : List (Path × File Bytes)) :
    Lasting setting fun world => List.Forall₂ (fun spec entry => Recorded setting dir full spec entry world) specs entries := by
  refine forall₂_lasting (Recorded setting dir full) ?_
  exact fun spec member entry => recorded_lasting (shards spec (part member)) entry

theorem pins_holds [DecidableEq Hash] (pins : List (Name × Hash)) (here : Later setting start world []) :
    Holds (machine setting) (inspecting setting start fun _ world =>
      (∀ pinned ∈ pins, Hashed setting world ⟨dir,pinned.1⟩ pinned.2) ∧ Later setting start world [])
      (each (inspectPinned setting.site.digest dir) pins) world := by
  refine inspecting_each (fun (done : List (Name × Hash)) _ world =>
    (∀ pinned ∈ done, Hashed setting world ⟨dir,pinned.1⟩ pinned.2) ∧ Later setting start world [])
    (fun _ => frame_since (pins_lasting pins)) ?_ ⟨nofun,here⟩
  intro done pinned rest results world _ here
  refine holds_weaken (inspectPinned_holds (pins_lasting done) pinned here) (fun _ here => here) ?_ fun _ _ here => here
  intro _ world both
  refine ⟨?_,both.2⟩
  intro other member
  cases List.mem_append.mp member with
  | inl earlier => exact both.1.1 other earlier
  | inr last =>
      cases List.mem_singleton.mp last
      exact both.1.2

theorem required_holds {fact : World Bytes → Prop} (lasting : Lasting setting fact) (names : List Name)
    (here : fact world ∧ Later setting start world []) :
    Holds (machine setting) (inspecting setting start fun _ world => fact world ∧ Later setting start world [])
      (each (requireFile dir) names) world := by
  refine inspecting_each (fun _ _ world => fact world ∧ Later setting start world [])
    (fun _ => frame_since lasting) ?_ here
  exact fun _ name _ _ world _ here => requireFile_holds lasting name here

def Listed (setting : Setting Bytes Hash) (start : World Bytes) (dir : List Name) (full : Bool) (fact : World Bytes → Prop)
    (specs : List (ShardSpec Hash)) (records : List Record) (world : World Bytes) : Prop :=
  ∃ entries, records = entries.map (recordOf setting.size) ∧
    (fact world ∧ List.Forall₂ (fun spec entry => Recorded setting dir full spec entry world) specs entries) ∧
      Later setting start world entries

include shards in
theorem listed_frame {fact : World Bytes → Prop} (lasting : Lasting setting fact) {specs : List (ShardSpec Hash)}
    (part : specs ⊆ lock.files) (records : List Record) :
    Frame setting start (Listed setting start dir full fact specs records) := by
  constructor
  · intro before after later listed
    obtain ⟨entries,same,here⟩ := listed
    have lasts := lasting_and lasting (records_lasting shards full part entries)
    exact ⟨entries,same,lasts before after [] later here.1,later_next here.2 later⟩
  · intro world listed
    obtain ⟨_,_,_,since⟩ := listed
    exact since.same _ receipt_private

include shards in
theorem records_holds [DecidableEq Hash] {fact : World Bytes → Prop} (lasting : Lasting setting fact)
    (here : fact world ∧ Later setting start world []) :
    Holds (machine setting) (inspecting setting start (Listed setting start dir full fact lock.files))
      (each (recordShard setting.site.digest dir full) lock.files) world := by
  refine inspecting_each (Listed setting start dir full fact) (listed_frame shards lasting fun _ => id) ?_
    ⟨[],rfl,⟨here.1,.nil⟩,here.2⟩
  intro done spec rest records world split listed
  obtain ⟨entries,same,here⟩ := listed
  have part : done ⊆ lock.files := fun spec member => by simp [split,member]
  have own : IsShard setting ⟨dir,spec.name⟩ := shards spec (by simp [split])
  refine holds_weaken (recordShard_holds (lasting_and lasting (records_lasting shards full part entries)) own here)
    (fun _ here => here) ?_ fun _ _ here => here
  intro record world ends
  obtain ⟨entry,named,⟨⟨kept,earlier⟩,last⟩,since⟩ := ends
  refine ⟨entries ++ [entry],by simp [same,named],⟨kept,?_⟩,since⟩
  exact List.rel_append earlier (.cons last .nil)

theorem hashTokenizers_holds {fact : World Bytes → Prop} (lasting : Lasting setting fact) (names : List Name)
    (here : fact world ∧ Later setting start world entries) :
    Holds (machine setting) (inspecting setting start fun results world => (fact world ∧
      List.Forall₂ (fun name entry => entry.1 = name ∧ Hashed setting world ⟨dir,name⟩ entry.2) names results) ∧
        Later setting start world entries)
      (each (hashTokenizer setting.site.digest dir) names) world := by
  refine inspecting_each (fun done (results : List (Name × Hash)) world => (fact world ∧
    List.Forall₂ (fun name entry => entry.1 = name ∧ Hashed setting world ⟨dir,name⟩ entry.2) done results) ∧
      Later setting start world entries)
    (fun results => frame_since (lasting_and lasting (tokenizers_lasting names results))) ?_ ⟨⟨here.1,.nil⟩,here.2⟩
  intro done name rest results world _ here
  refine holds_weaken (hashTokenizer_holds (lasting_and lasting (tokenizers_lasting done results)) name here)
    (fun _ here => here) ?_ fun _ _ here => here
  intro result world ends
  obtain ⟨⟨⟨kept,earlier⟩,last⟩,since⟩ := ends
  exact ⟨⟨kept,List.rel_append earlier (.cons last .nil)⟩,since⟩

include shards in
theorem inspected_frame : Frame setting start (Inspected setting start dir lock full result) := by
  constructor
  · intro before after later inspected
    obtain ⟨entries,files,recorded,since⟩ := inspected.shards
    refine ⟨inspected.named,?_,⟨entries,files,?_,later_next since later⟩,?_⟩
    · exact lasting_and hashed_lasting hashed_lasting before after [] later inspected.pinned
    · exact records_lasting shards full (fun _ => id) entries before after [] later recorded
    · exact tokenizers_lasting tokenizerNames result.tokenizers before after [] later inspected.tokenizers
  · intro world inspected
    obtain ⟨_,_,_,since⟩ := inspected.shards
    exact since.same _ receipt_private

include shards in
theorem inspectSnapshot_holds [DecidableEq Hash] (weightMap : Bytes → Option (List Name))
    (here : Later setting start world []) :
    Holds (machine setting) (inspecting setting start (Inspected setting start dir lock full))
      (inspectSnapshot setting.site.digest dir weightMap lock full) world := by
  have pins : Lasting setting fun world => ∀ pinned ∈ [(configName,lock.configSha256),(indexName,lock.indexSha256)],
      Hashed setting world ⟨dir,pinned.1⟩ pinned.2 := pins_lasting _
  refine inspecting_bind (pins_holds _ here) ?_
  intro _ world here
  refine inspecting_bind (required_holds pins tokenizerNames here) ?_
  intro _ world here
  refine inspecting_bind (readJson_holds pins here) ?_
  intro values world here
  refine inspecting_check (frame_since pins) here fun _ => ?_
  refine inspecting_bind (records_holds shards pins here) ?_
  intro records world listed
  obtain ⟨entries,files,here⟩ := listed
  have recorded := lasting_and pins (records_lasting shards full (fun _ => id) entries)
  refine inspecting_bind (hashTokenizers_holds recorded tokenizerNames here) ?_
  intro tokenizers world ends
  obtain ⟨⟨⟨pinned,recorded⟩,hashed⟩,since⟩ := ends
  have ends : Inspected setting start dir lock full ⟨dir,lock.revision,records,tokenizers⟩ world :=
    ⟨⟨rfl,rfl⟩,⟨pinned (configName,_) (by simp),pinned (indexName,_) (by simp)⟩,⟨entries,files,recorded,since⟩,hashed⟩
  exact inspecting_done (inspected_frame shards) (inspected_frame shards).kept ends ends

end Whole

structure TableWorld (Bytes : Type) where
  files : Files Bytes
  seen : Path → Stamp → Prop
  log : List (Event Bytes)

def TableWorld.shown (state : TableWorld Bytes) : World Bytes := ⟨state.files.store,state.seen,state.log⟩

def TableWorld.begin (state : TableWorld Bytes) : TableWorld Bytes := {state with log := []}

def TableWorld.grown (size : Bytes → Nat) (files : Files Bytes) (state : TableWorld Bytes) : TableWorld Bytes :=
  {state with files, seen := fun path stamp => state.seen path stamp ∨
    ∃ file, files.store path = some file ∧ file.stamp size = stamp}

theorem grown_aged {files : Files Bytes} {state : TableWorld Bytes}
    (same : ∀ path, IsShard setting path → files.store path = state.files.store path) :
    Aged setting state.shown (state.grown setting.size files).shown :=
  ⟨fun _ _ => Iff.rfl,fun path shard changed => absurd (same path shard) changed⟩

section Perform
variable [Inhabited Bytes] [DecidableEq Bytes]

-- An operation that changes a shard fails instead.
def performFiles (size : Bytes → Nat) (shards : List Path) (op : FileOp Bytes Reply) (state : TableWorld Bytes) :
    Except ToolError Reply × TableWorld Bytes :=
  let ran := FileTables.perform size .osError op state.files
  if ∀ path ∈ shards, ran.2.store path = state.files.store path then (ran.1,state.grown size ran.2)
  else (.error .osError,state.grown size state.files)

def perform (size : Bytes → Nat) (shards : List Path) :
    {Reply : Type} → FileOp Bytes Reply → TableWorld Bytes → Except ToolError Reply × TableWorld Bytes
  | _,.read path,state =>
    match state.files.store path with
    | some file => (.ok file.content,{state with log := state.log ++ [.read path file.content]})
    | none => (.error .osError,state.grown size state.files)
  | _,.stat path,state =>
    match state.files.store path with
    | some file => (.ok (file.stamp size),{state.grown size state.files with log := state.log ++ [.stat path file]})
    | none => (.error .osError,state.grown size state.files)
  | _,.exists path,state => (.ok (state.files.store path).isSome,state.grown size state.files)
  | _,op,state => performFiles size shards op state

variable {shards : List Path} (listed : ∀ path, IsShard setting path → path ∈ shards)
include listed

theorem performFiles_step (op : FileOp Bytes Reply) (state : TableWorld Bytes)
    (mayFail : fails op state.files.store state.files.store) :
    FileStore.step setting.size op state.shown.store (performFiles setting.size shards op state).1
        (performFiles setting.size shards op state).2.shown.store ∧
      (performFiles setting.size shards op state).2.shown.log = state.shown.log ∧
      Aged setting state.shown (performFiles setting.size shards op state).2.shown := by
  unfold performFiles
  by_cases same : ∀ path ∈ shards,
      (FileTables.perform setting.size ToolError.osError op state.files).2.store path = state.files.store path
  · rw [if_pos same]
    exact ⟨FileTables.perform_step setting.size _ op state.files,rfl,
      grown_aged fun path shard => same path (listed path shard)⟩
  · rw [if_neg same]
    exact ⟨mayFail,rfl,grown_aged fun _ _ => rfl⟩

theorem perform_step (op : FileOp Bytes Reply) (state : TableWorld Bytes) :
    step setting op state.shown (perform setting.size shards op state).1
      (perform setting.size shards op state).2.shown := by
  have still : Aged setting state.shown (state.grown setting.size state.files).shown := grown_aged fun _ _ => rfl
  cases op
  case read path =>
    cases here : state.files.store path with
    | none =>
        simp only [perform,here]
        exact ⟨rfl,rfl,still⟩
    | some file =>
        simp only [perform,here]
        exact ⟨state.shown,rfl,.inl ⟨rfl,file,here,rfl⟩⟩
  case stat path =>
    cases here : state.files.store path with
    | none =>
        simp only [perform,here]
        exact ⟨rfl,rfl,still⟩
    | some file =>
        simp only [perform,here]
        exact ⟨file,here,rfl,rfl,rfl,still⟩
  case «exists» path => exact ⟨⟨rfl,id⟩,rfl,still⟩
  case write | copy => exact performFiles_step listed _ state (.inl rfl)
  case rmtree => exact performFiles_step listed _ state fun _ => .inl rfl
  all_goals exact performFiles_step listed _ state rfl

end Perform

end OneSpark.Inspections
