import OneSpark.FileStore

namespace OneSpark.Checkpoint
open Programs FileStore

inductive ToolError where
  | valueError (message : String)
  | osError
  | exit (message : String)
  deriving DecidableEq

variable {Bytes Hash α : Type}

-- json.dump to a file and json.loads of it, for the values of one shape; a file
-- of another shape is read as none.
structure Json (Bytes Value : Type) where
  dumps : Value → Bytes
  loads : Bytes → Option Value
  loads_dumps : ∀ value, loads (dumps value) = some value

abbrev ToolProg (Bytes : Type) := FileProg Bytes ToolError

def sha256 (digest : Bytes → Hash) (path : Path) : ToolProg Bytes Hash := do
  let content ← call (.read path)
  return digest content

def atomicJson (json : Json Bytes α) (path : Path) (value : α) (mode : Nat) : ToolProg Bytes Unit := do
  call (.mkdir path.dir)
  replaceFile (some mode) path (json.dumps value)

def readJson (loads : Bytes → Option α) (path : Path) : ToolProg Bytes α := do
  let content ← call (.read path)
  match loads content with
  | some value => pure value
  | none => .raise (.valueError "JSON")

section Readings
variable {size : Bytes → Nat} {store : Store Bytes} {path : Path} {file : File Bytes}

theorem sha256_view (digest : Bytes → Hash) : Holds (alone (step size)) (viewing store fun hash =>
    ∃ file, store path = some file ∧ digest file.content = hash) (sha256 digest path) store := by
  refine viewing_call (fun _ => id) ?_
  intro content read
  obtain ⟨_,file,here,rfl⟩ := read
  exact viewing_done ⟨file,here,rfl⟩

theorem sha256_returns (digest : Bytes → Hash) (here : store path = some file) :
    Execution (alone (step size)) (sha256 digest path) store (.returned (digest file.content)) store :=
  execution_bind (execution_call ⟨rfl,file,here,rfl⟩) .done

theorem readJson_view (loads : Bytes → Option α) : Holds (alone (step size)) (viewing store fun value =>
    ∃ file, store path = some file ∧ loads file.content = some value) (readJson loads path) store := by
  refine viewing_call (fun _ => id) ?_
  intro content read
  obtain ⟨_,file,here,rfl⟩ := read
  cases parsed : loads file.content with
  | none => exact viewing_raise
  | some value => exact viewing_done ⟨file,here,parsed⟩

theorem readJson_returns {loads : Bytes → Option α} {value : α} (here : store path = some file)
    (parsed : loads file.content = some value) :
    Execution (alone (step size)) (readJson loads path) store (.returned value) store := by
  refine execution_bind (execution_call ⟨rfl,file,here,rfl⟩) ?_
  rw [parsed]
  exact .done

end Readings

structure ShardSpec (Hash : Type) where
  name : Name
  size : Nat
  sha256 : Hash

structure Lock (Hash : Type) where
  revision : Name
  configSha256 : Hash
  indexSha256 : Hash
  files : List (ShardSpec Hash)

-- [name, st_size, st_mtime_ns, st_ino]
structure Record where
  name : Name
  stamp : Stamp
  deriving DecidableEq

structure Inspection (Hash : Type) where
  snapshot : List Name
  revision : Name
  files : List Record
  tokenizers : List (Name × Hash)
  deriving DecidableEq

structure Receipt (Hash : Type) where
  inspection : Inspection Hash
  sourceManifestSha256 : Hash
  deriving DecidableEq

def pathName (name : Name) : Name := ((name.splitOn '/').filter fun part => part ≠ [] ∧ part ≠ ['.']).getLastD []

def configName : Name := "config.json".toList
def indexName : Name := "model.safetensors.index.json".toList
def tokenizerNames : List Name := ["tokenizer.json".toList,"tokenizer_config.json".toList]

section Inspect
variable [DecidableEq Hash] (digest : Bytes → Hash) (dir : List Name)

def inspectPinned (pinned : Name × Hash) : ToolProg Bytes Unit := do
  let found ← sha256 digest ⟨dir,pinned.1⟩
  check (found = pinned.2) (.valueError (String.ofList pinned.1 ++ " differs from the pinned checkpoint"))

def requireFile (name : Name) : ToolProg Bytes Unit := do
  let present ← call (.probe ⟨dir,name⟩)
  check present (.valueError ("Missing " ++ String.ofList name ++ "; download the complete snapshot"))

def hashShard (full : Bool) (spec : ShardSpec Hash) : ToolProg Bytes Unit :=
  match full with
  | false => pure ()
  | true => do
    let found ← sha256 digest ⟨dir,spec.name⟩
    check (found = spec.sha256)
      (.valueError ("SHA256 mismatch (wrong model or damaged file): " ++ String.ofList spec.name))

def recordShard (full : Bool) (spec : ShardSpec Hash) : ToolProg Bytes Record := do
  check (pathName spec.name = spec.name) (.valueError "Only flat checkpoint shard names are supported")
  let stat ← call (.stat ⟨dir,spec.name⟩)
  check (stat.size = spec.size) (.valueError ("Wrong size or incomplete download: " ++ String.ofList spec.name))
  hashShard digest dir full spec
  return ⟨spec.name,stat⟩

def hashTokenizer (name : Name) : ToolProg Bytes (Name × Hash) := do
  let found ← sha256 digest ⟨dir,name⟩
  return (name,found)

def inspectSnapshot (weightMap : Bytes → Option (List Name)) (lock : Lock Hash) (full : Bool) :
    ToolProg Bytes (Inspection Hash) := do
  let _ ← each (inspectPinned digest dir) [(configName,lock.configSha256),(indexName,lock.indexSha256)]
  let _ ← each (requireFile dir) tokenizerNames
  let values ← readJson weightMap ⟨dir,indexName⟩
  let names := lock.files.map (·.name)
  check (values.all (names.contains ·) && names.all (values.contains ·))
    (.valueError "Index and pinned shard manifest disagree")
  let records ← each (recordShard digest dir full) lock.files
  let tokenizers ← each (hashTokenizer digest dir) tokenizerNames
  return ⟨dir,lock.revision,records,tokenizers⟩

end Inspect

structure Site (Bytes Hash : Type) where
  root : List Name
  digest : Bytes → Hash
  lockJson : Bytes → Option (Lock Hash)
  weightMap : Bytes → Option (List Name)
  receiptJson : Json Bytes (Receipt Hash)

def Site.lockPath (site : Site Bytes Hash) : Path := ⟨site.root,"model.lock.json".toList⟩
def Site.receiptPath (site : Site Bytes Hash) : Path := ⟨site.root ++ [".state".toList],"checkpoint.json".toList⟩

def confirm [DecidableEq Hash] (site : Site Bytes Hash) (result : Receipt Hash) : ToolProg Bytes Unit := do
  let refusal := ToolError.valueError
    "Checkpoint not verified here, or changed since verification; run ./install.sh"
  let present ← call (.probe site.receiptPath)
  check present refusal
  let receipt ← readJson site.receiptJson.loads site.receiptPath
  check (receipt = result) refusal

def gather [DecidableEq Hash] (site : Site Bytes Hash) (selected : Lock Hash → List Name) (full : Bool) :
    ToolProg Bytes (Receipt Hash) := do
  let lock ← readJson site.lockJson site.lockPath
  let inspection ← inspectSnapshot site.digest (selected lock) site.weightMap lock full
  let manifest ← sha256 site.digest site.lockPath
  return ⟨inspection,manifest⟩

-- main of checkpoint.py snapshot; it returns the result it holds when it prints.
def main [DecidableEq Hash] (site : Site Bytes Hash) (selected : Lock Hash → List Name) (full : Bool) :
    ToolProg Bytes (Receipt Hash) := do
  let result ← gather site selected full
  match full with
  | true => atomicJson site.receiptJson site.receiptPath result 0o600
  | false => confirm site result
  return result

end OneSpark.Checkpoint
