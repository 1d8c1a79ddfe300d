import OneSpark.FileStore
import Mathlib.Logic.Equiv.List

namespace OneSpark.FileTables
open Programs FileStore
variable {Bytes Err Reply : Type}

-- A store as a finite table: the first entry of a path counts.
structure Files (Bytes : Type) where
  entries : List (Path × File Bytes)

def Files.store (files : Files Bytes) : Store Bytes := fun path => files.entries.lookup path

def Files.put (files : Files Bytes) (path : Path) (file : File Bytes) : Files Bytes := ⟨(path,file) :: files.entries⟩

def Files.keep (files : Files Bytes) (kept : Path → Bool) : Files Bytes :=
  ⟨files.entries.filter fun entry => kept entry.1⟩

def Files.remove (files : Files Bytes) (path : Path) : Files Bytes := files.keep fun other => other ≠ path

variable {files : Files Bytes} {path : Path} {file : File Bytes}

theorem store_put : (files.put path file).store = Function.update files.store path (some file) := by
  funext other
  by_cases same : other = path
  · subst same
    simp [Files.store,Files.put]
  · have apart : (other == path) = false := by simp [same]
    simp [Files.store,Files.put,List.lookup_cons,same,apart]

theorem store_keep (kept : Path → Bool) (path : Path) :
    (files.keep kept).store path = if kept path then files.store path else none := by
  obtain ⟨entries⟩ := files
  simp only [Files.store,Files.keep]
  induction entries with
  | nil => simp
  | cons entry rest ih =>
      obtain ⟨key,file⟩ := entry
      by_cases same : path = key
      · subst same
        by_cases keeps : kept path
        · simp [keeps]
        · simpa [List.filter_cons,keeps] using ih
      · have apart : (path == key) = false := by simp [same]
        by_cases keeps : kept key
        · simpa [List.filter_cons,keeps,List.lookup_cons,apart] using ih
        · simpa [List.filter_cons,keeps,List.lookup_cons,apart] using ih

theorem store_remove : (files.remove path).store = Function.update files.store path none := by
  funext other
  by_cases same : other = path
  · subst same
    simp [Files.remove,store_keep]
  · simp [Files.remove,store_keep,same]

theorem store_listed : (files.store path).isSome = true ↔ path ∈ files.entries.map (·.1) := by
  simp only [Files.store,List.lookup_isSome_iff,List.mem_map]
  constructor
  · intro found
    obtain ⟨entry,member,same⟩ := found
    exact ⟨entry,member,(eq_of_beq same).symm⟩
  · intro found
    obtain ⟨entry,member,same⟩ := found
    exact ⟨entry,member,beq_iff_eq.mpr same.symm⟩

section Perform
variable [Inhabited Bytes] (size : Bytes → Nat) (fault : Err)

def perform : {Reply : Type} → FileOp Bytes Reply → Files Bytes → Except Err Reply × Files Bytes
  | _,.read path,files => ((files.store path).elim (.error fault) fun file => .ok file.content,files)
  | _,.stat path,files => ((files.store path).elim (.error fault) fun file => .ok (file.stamp size),files)
  | _,.exists path,files | _,.probe path,files => (.ok (files.store path).isSome,files)
  | _,.glob select,files => (.ok ((files.entries.map (·.1)).filter select),files)
  | _,.mkdir _,files => (.ok (),files)
  | _,.mkstemp dir before after,files =>
    let path : Path := ⟨dir,before ++ List.replicate 8 '0' ++ after⟩
    match files.store path with
    | some _ => (.error fault,files)
    | none => (.ok path,files.put path ⟨default,0,0,0o600⟩)
  | _,.mkdtemp dir before,files =>
    let made := dir ++ [before ++ List.replicate 8 '0']
    if ∀ entry ∈ files.entries, ¬ made <+: entry.1.dir then (.ok made,files) else (.error fault,files)
  | _,.chmod path mode,files =>
    match files.store path with
    | some file => (.ok (),files.put path {file with mode})
    | none => (.error fault,files)
  | _,.write path content,files =>
    (.ok (),files.put path ⟨content,0,0,((files.store path).map (·.mode)).getD 0o600⟩)
  | _,.copy source target,files =>
    match files.store source with
    | some file => (.ok (),files.put target file)
    | none => (.error fault,files)
  | _,.replace source target,files =>
    match files.store source with
    | some file => (.ok (),(files.remove source).put target file)
    | none => (.error fault,files)
  | _,.unlink path,files => (.ok (),files.remove path)
  | _,.rmtree dir,files => (.ok (),files.keep fun path => ¬ dir <+: path.dir)

theorem perform_step (op : FileOp Bytes Reply) (files : Files Bytes) :
    step size op files.store (perform size fault op files).1 (perform size fault op files).2.store := by
  cases op
  case read path | stat path =>
    cases here : files.store path with
    | none => simp [perform,here,step,fails]
    | some file => simp [perform,here,step,completes]
  case «exists» | probe | mkdir => simp [perform,step,completes]
  case glob select =>
    refine ⟨rfl,fun path => ?_⟩
    rw [store_listed,List.mem_filter]
    exact And.comm
  case mkstemp dir before after =>
    simp only [perform]
    split
    case h_1 => simp [step,fails]
    case h_2 absent => exact ⟨rfl,⟨_,List.length_replicate,rfl⟩,absent,_,store_put⟩
  case mkdtemp dir before =>
    simp only [perform]
    split
    case isTrue free =>
      refine ⟨rfl,⟨_,List.length_replicate,rfl⟩,?_⟩
      intro path inside
      cases here : files.store path with
      | none => rfl
      | some file =>
          obtain ⟨entry,member,same⟩ := List.mem_map.mp (store_listed.mp (Option.isSome_iff_exists.mpr ⟨file,here⟩))
          exact absurd (same ▸ inside) (free entry member)
    case isFalse => simp [step,fails]
  case chmod path mode =>
    cases here : files.store path with
    | none => simp [perform,here,step,fails]
    | some file => simp [perform,here,step,completes,store_put]
  case copy source target =>
    cases here : files.store source with
    | none => simp [perform,here,step,fails]
    | some file =>
        simp only [perform,here]
        exact ⟨file,file,here,store_put,rfl⟩
  case replace source target =>
    cases here : files.store source with
    | none => simp [perform,here,step,fails]
    | some file => simp [perform,here,step,completes,store_put,store_remove]
  case write path content =>
    refine ⟨_,store_put,rfl,?_⟩
    intro old here
    simp [here]
  case unlink path => simp [perform,step,completes,store_remove]
  case rmtree dir =>
    intro path
    simp [perform,store_keep]

end Perform

-- Names can be numbered, and with them all that a receipt holds.
instance charCode : Encodable Char := Encodable.ofLeftInverse Char.toNat Char.ofNat Char.ofNat_toNat

end OneSpark.FileTables
