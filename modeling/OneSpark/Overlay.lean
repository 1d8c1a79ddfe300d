import OneSpark.Checkpoint
import OneSpark.Patchers

namespace OneSpark.Overlay
open Programs FileStore Checkpoint TextEdits PatchTexts
variable {Bytes Hash : Type}

structure Receipt (Hash : Type) where
  imageId : Name
  imageRef : Name
  inputs : List (Path × Hash)
  overlaySha256 : Hash

-- interpret is a patcher run as a process: what it makes of its target depends
-- on its own text and the target's.
structure Site (Bytes Hash : Type) where
  root : List Name
  digest : Bytes → Hash
  decode : Bytes → Option Text
  encode : Text → Bytes
  parses : Text → Bool
  interpret : Bytes → Bytes → Option Bytes
  receiptJson : Json Bytes (Receipt Hash)

-- re.fullmatch(r"sha256:[0-9a-f]{64}", ..)
def isImageId (id : Name) : Bool := id.take 7 = "sha256:".toList && (id.drop 7).length = 64 &&
  (id.drop 7).all fun c => '0' ≤ c && c ≤ '9' || 'a' ≤ c && c ≤ 'f'

def isPython (name : Name) : Bool := ".py".toList.isSuffixOf name

def hashkAnchor : Text := "torch.load(_hashk_path(), map_location=\"cpu\", weights_only=False)".toList

-- anchor.replace("False", "True")
def hashkFixed : Text := simultaneous [⟨"False".toList,"True".toList⟩] hashkAnchor

def sameItems [DecidableEq Hash] (first second : List (Path × Hash)) : Bool :=
  (first.map (·.1) ++ second.map (·.1)).all fun key => first.lookup key = second.lookup key

section Programs
variable (site : Site Bytes Hash)

def Site.patches : List Name := site.root ++ ["patches".toList]
def Site.patch : List Name := site.root ++ ["patch".toList]
def Site.tools : List Name := site.root ++ ["tools".toList]
def Site.state : List Name := site.root ++ [".state".toList]
def Site.lockPath : Path := ⟨site.root,"model.lock.json".toList⟩
def Site.sourcePath : Path := ⟨site.patches,"qwen4_exp_nvfp4.py".toList⟩
def Site.overlayPath : Path := ⟨site.state,"qwen4_exp.py".toList⟩
def Site.runtimePath : Path := ⟨site.state,"runtime.json".toList⟩

def Site.patchers : List Path :=
  [⟨site.patch,"patch_fp8.py".toList⟩,⟨site.patch,"patch_ple_off.py".toList⟩]

def Site.toolPaths : List Path := [⟨site.tools,"prepare_runtime.py".toList⟩,⟨site.tools,"checkpoint.py".toList⟩,
  ⟨site.tools,"build_hashk_ple.py".toList⟩]

-- (root / "patches").rglob("*.py") and (root / "patch").glob("*.py")
def inPatches (path : Path) : Bool := site.patches.isPrefixOf path.dir && isPython path.name
def inPatch (path : Path) : Bool := path.dir = site.patch && isPython path.name

def hashPath (path : Path) : ToolProg Bytes (Path × Hash) := do
  let found ← Checkpoint.sha256 site.digest path
  return (path,found)

-- sorted only orders the items of the dict.
def sourceHashes : ToolProg Bytes (List (Path × Hash)) := do
  let patches ← call (.glob (inPatches site))
  let patch ← call (.glob (inPatch site))
  each (hashPath site) ([site.lockPath] ++ patches ++ patch ++ site.toolPaths)

def runPatcher (target patcher : Path) : ToolProg Bytes Unit := do
  let code ← call (.read patcher)
  let text ← call (.read target)
  match site.interpret code text with
  | some patched => call (.write target patched)
  | none => .raise (.exit "CalledProcessError")

def readText (path : Path) : ToolProg Bytes Text := do
  let content ← call (.read path)
  match site.decode content with
  | some file => pure (Patchers.readText file)
  | none => .raise (.valueError "UnicodeDecodeError")

def editLoader (target : Path) : ToolProg Bytes Unit := do
  let source ← readText site target
  check (count hashkAnchor source = 1) (.valueError "Unexpected HashK loader; refusing to guess")
  let edited := simultaneous [⟨hashkAnchor,hashkFixed⟩] source
  check (site.parses edited) (.exit "SyntaxError")
  call (.write target (site.encode edited))

def makeOverlay (target : Path) : ToolProg Bytes Unit := do
  call (.copy site.sourcePath target)
  let _ ← each (runPatcher site target) site.patchers
  editLoader site target
  call (.replace target site.overlayPath)

def prepare (imageId imageRef : Name) : ToolProg Bytes Unit := do
  check (isImageId imageId) (.valueError "Expected immutable local Docker image ID")
  call (.mkdir site.state)
  let tmp ← call (.mkdtemp site.state "overlay-".toList)
  Prog.tryFinally (makeOverlay site ⟨tmp,"qwen4_exp.py".toList⟩) (call (.rmtree tmp))
  let inputs ← sourceHashes site
  let overlay ← Checkpoint.sha256 site.digest site.overlayPath
  atomicJson site.receiptJson site.runtimePath ⟨imageId,imageRef,inputs,overlay⟩ 0o600

-- check of prepare_runtime.py.
def checkRuntime [DecidableEq Hash] : ToolProg Bytes Name := do
  let lock ← readJson site.receiptJson.loads site.runtimePath
  let inputs ← sourceHashes site
  check (sameItems lock.inputs inputs) (.valueError "Runtime inputs changed; rerun ./install.sh")
  let overlay ← Checkpoint.sha256 site.digest site.overlayPath
  check (lock.overlaySha256 = overlay) (.valueError "Generated overlay changed; rerun ./install.sh")
  check (isImageId lock.imageId) (.valueError "Invalid image ID in runtime receipt")
  return lock.imageId

end Programs

def isInput (site : Site Bytes Hash) (path : Path) : Bool :=
  path = site.lockPath || inPatches site path || inPatch site path || site.toolPaths.contains path

def inputs (site : Site Bytes Hash) (store : Store Bytes) (path : Path) : Option Bytes :=
  if isInput site path then (store path).map (·.content) else none

def patched (site : Site Bytes Hash) (inputs : Path → Option Bytes) : List Path → Bytes → Option Bytes
  | [],text => some text
  | patcher :: rest,text => do
    let code ← inputs patcher
    let next ← site.interpret code text
    patched site inputs rest next

def loaderEdited (site : Site Bytes Hash) (content : Bytes) : Option Bytes := do
  let file ← site.decode content
  let source := Patchers.readText file
  let edited := simultaneous [⟨hashkAnchor,hashkFixed⟩] source
  if count hashkAnchor source = 1 ∧ site.parses edited then some (site.encode edited) else none

def gen (site : Site Bytes Hash) (inputs : Path → Option Bytes) : Option Bytes := do
  let source ← inputs site.sourcePath
  let text ← patched site inputs site.patchers source
  loaderEdited site text

end OneSpark.Overlay
