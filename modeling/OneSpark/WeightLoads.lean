import OneSpark.PleShards

namespace OneSpark.WeightLoads
open RowWrites RingSlots GraphLayout HashBuild TextEdits PleShards

-- str.replace(old, new)
def replaceAll (old new : List Char) (s : List Char) : List Char := simultaneous [⟨old,new⟩] s

def endsWith (name suffix : List Char) : Bool := suffix.isSuffixOf name

inductive Shard where
  | q | k | v | w1 | w2 | w3
  | indices (ids : List Nat)
  deriving DecidableEq

-- Which part of an entry's tensor a weight loader is handed.
inductive View where
  | whole
  | expert (e : Nat)
  | gate (e : Nat)
  | up (e : Nat)
  deriving DecidableEq

-- What item() of an entry shows, and whether it lies within 1e-6 of one.
structure Scalar where
  text : String
  isOne : Bool

-- One pair of the weights; `scalar` is missing where item() raises.
structure Entry where
  call : Call
  shape : List Nat
  scalar : Option Scalar

structure Delivery where
  param : List Char
  shard : Option Shard
  expert : Option Nat
  entry : Entry
  view : View

structure Mapping where
  param : List Char
  weight : List Char
  shard : Shard

structure ExpertMapping where
  param : List Char
  weight : List Char
  expert : Nat
  shard : Shard

-- The configuration, the modules' buffers by name and shape, and what comes from elsewhere: get_layer_id,
-- FusedMoE.make_expert_params_mapping and whether a weight_loader takes what it is handed.
structure Model where
  languageModelOnly : Bool
  tieWordEmbeddings : Bool
  lastRank : Bool
  encoderOnly : Bool
  startLayer : Nat
  endLayer : Nat
  numExperts : Option Nat
  makeExpertParamsMapping : Nat → List ExpertMapping
  getLayerId : List Char → Option Nat
  buffers : List Char → Option (List Nat)
  takes : Delivery → Bool

-- `library` is an exception raised by a callee: torch's or a weight_loader's own.
inductive Failure where
  | refusal (why : Refusal)
  | keyError (text : String)
  | assertion (text : String)
  | library
  deriving DecidableEq

def refused (result : Except Refusal α) : Except Failure α := result.mapError .refusal

def stackedParamsMapping : List Mapping :=
  [⟨"qkv_proj".toList,"q_proj".toList,.q⟩,⟨"qkv_proj".toList,"k_proj".toList,.k⟩,
    ⟨"qkv_proj".toList,"v_proj".toList,.v⟩,
    ⟨"gate_up_proj".toList,"gate_proj".toList,.indices [0]⟩,⟨"gate_up_proj".toList,"up_proj".toList,.indices [1]⟩,
    ⟨"in_proj_qkvz.".toList,"in_proj_qkv.".toList,.indices [0,1,2]⟩,
    ⟨"in_proj_qkvz.".toList,"in_proj_z.".toList,.indices [3]⟩,
    ⟨"in_proj_ba.".toList,"in_proj_b.".toList,.indices [0]⟩,⟨"in_proj_ba.".toList,"in_proj_a.".toList,.indices [1]⟩]

def fusedExpertParamsMapping : List ExpertMapping :=
  [⟨"experts.w13_weight".toList,"experts.gate_up_proj".toList,0,.w1⟩,
    ⟨"experts.w2_weight".toList,"experts.down_proj".toList,0,.w2⟩]

def expertParamsMapping (model : Model) : List ExpertMapping :=
  match model.numExperts with
  | none => []
  | some numExperts => model.makeExpertParamsMapping numExperts

def ignoreSuffixes : List (List Char) :=
  [".bias","_bias",".k_scale","_k_scale",".v_scale","_v_scale",".weight_scale_inv","_weight_scale_inv",
    ".input_scale_inv","_input_scale_inv","_weight_scale","_input_scale"].map String.toList

-- name.endswith(ignore_suffixes) and name not in params_dict
def ignored (paramsDict : List (List Char)) (name : List Char) : Bool :=
  ignoreSuffixes.any (endsWith name) && !paramsDict.contains name

inductive Reading where
  | skip
  | visual
  | named (name : List Char)

def renamed (name : List Char) : List Char :=
  let name := if contains "language_model".toList name then
      replaceAll "model.language_model.".toList "model.".toList name else name
  let name := if contains ".self_attn.".toList name then replaceAll ".self_attn".toList [] name else name
  if endsWith name ".k_proj.k_scale".toList then replaceAll ".k_proj.k_scale".toList ".attn.k_scale".toList name
  else if endsWith name ".v_proj.v_scale".toList then replaceAll ".v_proj.v_scale".toList ".attn.v_scale".toList name
  else name

def reading (model : Model) (name : List Char) : Reading :=
  if contains "rotary_emb.inv_freq".toList name then .skip
  else if contains "mtp".toList name then .skip
  else if contains "visual".toList name && model.languageModelOnly then .visual
  else .named (renamed name)

-- name.rsplit(".", 1)[-1]
def lastPart (name : List Char) : List Char := (name.reverse.takeWhile fun c => c ≠ '.').reverse

def pleBufferNames : List (List Char) :=
  ["layer_multipliers","ngram_heads_offsets","ngram_heads_vocab_sizes","weight_scale"].map String.toList

-- tuple(shape)
def tupleText (shape : List Nat) : String :=
  match shape with
  | [n] => s!"({n},)"
  | _ => "(" ++ String.intercalate ", " (shape.map toString) ++ ")"

-- `some copied` where the entry is taken; a hashstats or token_lookup entry is taken without a copy.
def loadQwen4ExpPleBuffer (model : Model) (name : List Char) (shape : List Nat) : Except Failure (Option Bool) :=
  if !contains ".ple.ple_embedding.".toList name then .ok none
  else if "hashstats_".toList.isPrefixOf (lastPart name) then .ok (some false)
  else if lastPart name = "token_lookup".toList then .ok (some false)
  else if !pleBufferNames.contains (lastPart name) then .ok none
  else match model.buffers name with
    | none => .ok none
    | some expected =>
      if expected ≠ shape then
        .error (.refusal (.value (s!"Shape mismatch for {String.ofList name}: expected {tupleText expected}, " ++
          s!"got {tupleText shape}")))
      else .ok (some true)

def deliver (model : Model) (delivery : Delivery) : Except Failure Delivery :=
  if model.takes delivery then .ok delivery else .error .library

def loadFusedExpertWeights (model : Model) (paramsDict : List (List Char)) (name : List Char) (entry : Entry) (rows : Nat)
    (view : Nat → View) (shard : Shard) : Except Failure (Option (List Delivery)) :=
  if !paramsDict.contains name then .ok none
  else match model.numExperts with
    | none => .error .library
    | some numExperts => do
        let deliveries ← (List.range numExperts).mapM fun e =>
          if e < rows then deliver model ⟨name,some shard,some e,entry,view e⟩ else .error .library
        .ok (some deliveries)

def missing (name : List Char) : Failure := .keyError s!"Parameter {String.ofList name} not found"

-- The first dimensions of loaded_weight.chunk(2, dim=-2), where that has two pieces.
def chunkRows (shape : List Nat) : Option (Nat × Nat) :=
  match shape.reverse with
  | _ :: 1 :: _ => none
  | [_,n] => some ((n + 1) / 2,n - (n + 1) / 2)
  | _ :: _ :: _ => some (shape.headD 0,shape.headD 0)
  | _ => none

def found (name : List Char) : Option (List Delivery) → Except Failure (List Delivery)
  | some deliveries => .ok deliveries
  | none => .error (missing name)

def fusedDeliveries (model : Model) (paramsDict : List (List Char)) (entry : Entry) (name mappedName : List Char)
    (shard : Shard) : Except Failure (List Delivery) :=
  if contains "experts.gate_up_proj".toList name then
    match chunkRows entry.shape with
    | none => .error .library
    | some (gateRows,upRows) => do
        let gates ← loadFusedExpertWeights model paramsDict mappedName entry gateRows .gate .w1
        let gates ← found mappedName gates
        let ups ← loadFusedExpertWeights model paramsDict mappedName entry upRows .up .w3
        let ups ← found mappedName ups
        .ok (gates ++ ups)
  else do
    let pieces ← loadFusedExpertWeights model paramsDict mappedName entry (entry.shape.headD 0) .expert shard
    found mappedName pieces

inductive Expert where
  | loaded (name : List Char) (deliveries : List Delivery)
  | skipped
  | other

def isFusedExpert (name : List Char) : Bool :=
  contains "experts.gate_up_proj".toList name || contains "experts.down_proj".toList name

def expertRoute (model : Model) (paramsDict : List (List Char)) (entry : Entry) (name : List Char)
    (isExpertWeight : Bool) : List ExpertMapping → Except Failure Expert
  | [] => .ok (if isExpertWeight then .skipped else .other)
  | mapping :: mappings =>
      if !contains mapping.weight name then expertRoute model paramsDict entry name isExpertWeight mappings
      else if contains "visual".toList name || model.encoderOnly then
        expertRoute model paramsDict entry name isExpertWeight mappings
      else
        let mappedName := replaceAll mapping.weight mapping.param name
        if isFusedExpert name then do
          let deliveries ← fusedDeliveries model paramsDict entry name mappedName mapping.shard
          .ok (.loaded mappedName deliveries)
        else if ignored paramsDict mappedName then expertRoute model paramsDict entry name true mappings
        else if !paramsDict.contains mappedName then .error (.keyError (String.ofList mappedName))
        else do
          let delivery ← deliver model ⟨mappedName,some mapping.shard,some mapping.expert,entry,.whole⟩
          .ok (.loaded mappedName [delivery])

def stackedTarget (paramsDict : List (List Char)) (name : List Char) : List Mapping → Option (List Char × Shard)
  | [] => none
  | mapping :: mappings =>
      if !contains mapping.weight name then stackedTarget paramsDict name mappings
      else if contains "visual".toList name || contains "mlp.experts".toList name then stackedTarget paramsDict name mappings
      else
        let mappedName := replaceAll mapping.weight mapping.param name
        if ignored paramsDict mappedName then stackedTarget paramsDict name mappings
        else if !paramsDict.contains mappedName then stackedTarget paramsDict name mappings
        else some (mappedName,mapping.shard)

structure Outcome where
  deliveries : List Delivery
  loaded : Option (List Char)

def visualRenamed (name : List Char) : List Char :=
  if contains "visual".toList name then
    replaceAll "model.visual.".toList "visual.".toList (replaceAll "attn.qkv.".toList "attn.qkv_proj.".toList name)
  else name

def directRoute (model : Model) (paramsDict : List (List Char)) (entry : Entry) (name : List Char) :
    Except Failure Outcome :=
  if ignored paramsDict name then .ok ⟨[],none⟩
  else if endsWith name "_scale".toList && !paramsDict.contains name then
    match entry.scalar with
    | none => .error .library
    | some scalar =>
      if scalar.isOne then .ok ⟨[],none⟩
      else .error (.assertion s!"Expected 1.0, got {scalar.text} in skipped {String.ofList name}")
  else if paramsDict.contains name then do
    let delivery ← deliver model ⟨name,none,none,entry,.whole⟩
    .ok ⟨[delivery],some name⟩
  -- logger.warning
  else .ok ⟨[],none⟩

def lmHead : List Char := "lm_head.weight".toList

def tiedDeliveries (model : Model) (paramsDict : List (List Char)) (entry : Entry) (name : List Char) :
    Except Failure (List Delivery) :=
  if model.tieWordEmbeddings && model.lastRank && contains "model.embed_tokens.weight".toList name &&
      paramsDict.contains lmHead then do
    let delivery ← deliver model ⟨lmHead,none,none,entry,.whole⟩
    .ok [delivery]
  else .ok []

def outsideLayers (model : Model) (name : List Char) : Bool :=
  match model.getLayerId name with
  | none => false
  | some layer => layer < model.startLayer || model.endLayer ≤ layer

-- The loop's body behind the tie to lm_head.
def mainRoute (model : Model) (paramsDict : List (List Char)) (entry : Entry) (name : List Char) : Except Failure Outcome :=
  if outsideLayers model name then .ok ⟨[],none⟩
  else match stackedTarget paramsDict name stackedParamsMapping with
  | some (mappedName,shard) => do
      let delivery ← deliver model ⟨mappedName,some shard,none,entry,.whole⟩
      .ok ⟨[delivery],some mappedName⟩
  | none => do
      let mappings := if isFusedExpert name then fusedExpertParamsMapping else expertParamsMapping model
      let expert ← expertRoute model paramsDict entry name false mappings
      match expert with
      | .loaded mappedName deliveries => .ok ⟨deliveries,some mappedName⟩
      | .skipped => .ok ⟨[],none⟩
      | .other => directRoute model paramsDict entry (visualRenamed name)

def route (model : Model) (paramsDict : List (List Char)) (entry : Entry) (name : List Char) : Except Failure Outcome := do
  let tied ← tiedDeliveries model paramsDict entry name
  let outcome ← mainRoute model paramsDict entry name
  .ok ⟨tied ++ outcome.deliveries,outcome.loaded⟩

-- The sets of load_weights, and every copy and weight loader call it made, in order.
structure Loads where
  loader : Loader
  loadedParams : List (List Char)
  loadedBuffers : List (List Char)
  copies : List (List Char × Entry)
  deliveries : List Delivery
  skippedVisualCount : Nat

def pleMark : List Char := ".ple.ple_embedding.ngram_embedding.".toList

def pleLayout (name : List Char) : Bool := contains pleMark name && endsWith name ".weight".toList

def loadNamed (convert : DType → ℚ → ℚ) (model : Model) (state : Loads) (entry : Entry) (name : List Char) :
    Except Failure Loads := do
  let buffer ← loadQwen4ExpPleBuffer model name entry.shape
  match buffer with
  | some true => .ok { state with loadedBuffers := state.loadedBuffers.insert name, copies := state.copies ++ [(name,entry)] }
  | some false => .ok state
  | none => do
      let shard ← refused (loadQwen4ExpPleShard convert state.loader { entry.call with name := name })
      if shard.1 then .ok { state with loader := shard.2 }
      else if pleLayout name then
        .error (.refusal (.value s!"unsupported PLE weight layout (expected shard_N shards): {String.ofList name}"))
      else do
        let outcome ← route model state.loader.paramsDict entry name
        .ok { state with
          loadedParams := outcome.loaded.elim state.loadedParams fun loaded => state.loadedParams.insert loaded
          deliveries := state.deliveries ++ outcome.deliveries }

def loadEntry (convert : DType → ℚ → ℚ) (model : Model) (state : Loads) (entry : Entry) : Except Failure Loads :=
  match reading model entry.call.name with
  | .skip => .ok state
  | .visual => .ok { state with skippedVisualCount := state.skippedVisualCount + 1 }
  | .named name => loadNamed convert model state entry name

def start (loader : Loader) : Loads := ⟨loader,[],[],[],[],0⟩

-- load_weights up to finalize_fused_in_proj.
def loadWeights (convert : DType → ℚ → ℚ) (model : Model) (loader : Loader) (weights : List Entry) :
    Except Failure Loads :=
  weights.foldlM (loadEntry convert model) (start loader)

def Loads.names (state : Loads) : List (List Char) :=
  state.loadedParams ++ state.loadedBuffers ++ state.loader.loadedShardParams

end OneSpark.WeightLoads
