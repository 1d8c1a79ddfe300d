import OneSpark.Checkpoint

namespace OneSpark.Artifact
open Programs FileStore Checkpoint
variable {Bytes Hash Tables : Type}

inductive Key where
  | formatVersion | modelId | revision | r | sourceManifestSha256 | builderSha256 | bytes | sha256
  deriving DecidableEq

def Key.text : Key → String
  | .formatVersion => "format_version"
  | .modelId => "model_id"
  | .revision => "revision"
  | .r => "R"
  | .sourceManifestSha256 => "source_manifest_sha256"
  | .builderSha256 => "builder_sha256"
  | .bytes => "bytes"
  | .sha256 => "sha256"

inductive Value (Hash : Type) where
  | number (n : Nat)
  | text (s : Name)
  | hash (h : Hash)
  deriving DecidableEq

abbrev Metadata (Hash : Type) := Key → Option (Value Hash)

-- What artifact_metadata reads, and the dict it returns.
structure Provenance (Hash : Type) where
  modelId : Name
  revision : Name
  sourceManifestSha256 : Hash
  builderSha256 : Hash
  deriving DecidableEq

def Provenance.items (provenance : Provenance Hash) : List (Key × Value Hash) :=
  [(.formatVersion,.number 2),(.modelId,.text provenance.modelId),(.revision,.text provenance.revision),
    (.r,.number 4),(.sourceManifestSha256,.hash provenance.sourceManifestSha256),
    (.builderSha256,.hash provenance.builderSha256)]

def metadata (provenance : Provenance Hash) (bytes : Nat) (hash : Hash) : Metadata Hash :=
  Function.update (Function.update (fun key => provenance.items.lookup key) .bytes (some (.number bytes)))
    .sha256 (some (.hash hash))

structure Identity where
  modelId : Name
  revision : Name

structure Art (Hash Tables : Type) where
  provenance : Provenance Hash
  tables : Tables

-- A checkout with the place of its artifact; save is torch.save.
structure Site (Bytes Hash Tables : Type) where
  root : List Name
  out : Path
  digest : Bytes → Hash
  lockJson : Bytes → Option Identity
  sidecarJson : Json Bytes (Metadata Hash)
  save : Art Hash Tables → Bytes

def sidecar (path : Path) : Path := ⟨path.dir,path.name ++ ".json".toList⟩

section Programs
variable (site : Site Bytes Hash Tables)

def Site.lockPath : Path := ⟨site.root,"model.lock.json".toList⟩
def Site.builderPath : Path := ⟨site.root ++ ["tools".toList],"build_hashk_ple.py".toList⟩

def artifactMetadata : ToolProg Bytes (Provenance Hash) := do
  let lock ← readJson site.lockJson site.lockPath
  let manifest ← Checkpoint.sha256 site.digest site.lockPath
  let builder ← Checkpoint.sha256 site.digest site.builderPath
  return ⟨lock.modelId,lock.revision,manifest,builder⟩

section Verify
variable [DecidableEq Hash]

def verifyItem (found : Metadata Hash) (item : Key × Value Hash) : ToolProg Bytes Unit :=
  check (found item.1 = some item.2)
    (.valueError ("HashK " ++ item.1.text ++ " mismatch; rebuild in this checkout"))

def verifyHash (path : Path) (found : Metadata Hash) : Bool → ToolProg Bytes Unit
  | false => pure ()
  | true => do
    let hash ← Checkpoint.sha256 site.digest path
    check (found .sha256 = some (.hash hash)) (.valueError "HashK SHA256 mismatch; rebuild")

def verifyArtifact (path : Path) (expected : List (Key × Value Hash)) (full : Bool) :
    ToolProg Bytes (Metadata Hash) := do
  let found ← readJson site.sidecarJson.loads (sidecar path)
  let _ ← each (verifyItem found) expected
  let stat ← call (.stat path)
  check (found .bytes = some (.number stat.size)) (.valueError "HashK size mismatch; incomplete artifact")
  verifyHash site path found full
  return found

-- main of checkpoint.py artifact.
def checkArtifact : ToolProg Bytes Unit := do
  let expected ← artifactMetadata site
  let _ ← verifyArtifact site site.out expected.items true
  return ()

end Verify

structure Request (Tables : Type) where
  r : Nat
  modelId : Name
  revision : Name
  tables : Except ToolError Tables

def Request.build (request : Request Tables) : ToolProg Bytes Tables :=
  match request.tables with
  | .ok tables => pure tables
  | .error error => .raise error

def refuse : ToolError := .exit "Refusing to overwrite an existing/partial artifact; move it aside explicitly"

def publish (tmp : Path) (art : Art Hash Tables) : ToolProg Bytes Unit := do
  call (.write tmp (site.save art))
  let stat ← call (.stat tmp)
  let hash ← Checkpoint.sha256 site.digest tmp
  call (.chmod tmp 0o644)
  call (.replace tmp site.out)
  atomicJson site.sidecarJson (sidecar site.out) (metadata art.provenance stat.size hash) 0o644

-- main of build_hashk_ple.py.
def main (request : Request Tables) : ToolProg Bytes Unit := do
  check (request.r = 4) (.exit "This port is validated structurally for HASHK_R=4 only")
  let present ← call (.probe site.out)
  check (!present) refuse
  let recorded ← call (.probe (sidecar site.out))
  check (!recorded) refuse
  let provenance ← artifactMetadata site
  check (request.modelId = provenance.modelId && request.revision = provenance.revision)
    (.exit "Builder and pinned checkpoint identity disagree")
  let tables ← request.build
  let tmp ← call (.mkstemp site.out.dir (site.out.name ++ ['.']) ".partial".toList)
  Prog.tryFinally (publish site tmp ⟨provenance,tables⟩) (discard tmp)
  let _ ← call (.stat site.out)
  return ()

-- [ -e .. ] || [ -e .. ]
def existing : ToolProg Bytes Bool := do
  let artifact ← call (.exists site.out)
  match artifact with
  | true => pure true
  | false => call (.exists (sidecar site.out))

-- The HashK branch of install.sh.
def install [DecidableEq Hash] (request : Request Tables) : ToolProg Bytes Unit := do
  let found ← existing site
  match found with
  | true => checkArtifact site
  | false => do
    main site request
    checkArtifact site

end Programs

end OneSpark.Artifact
