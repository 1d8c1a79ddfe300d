import OneSpark.PleLayer

namespace OneSpark.PleOff
open Longs RingSlots NGramIds PleLayout PleCommit ShortConv Snapshots NGramRuns SilentConv PleLayer

inductive Hidden (K : Type) (hc hiddenSize : Nat) where
  | narrow (rows : List (Fin hiddenSize → K))
  | wide (rows : List (Fin (hc * hiddenSize) → K))

-- torch.cat of hc_count copies along the last axis.
def Hidden.expand : Hidden K hc hiddenSize → List (Fin (hc * hiddenSize) → K)
  | .narrow rows => rows.map fun row i => row i.modNat
  | .wide rows => rows

-- A decoder layer: its PLE layer, if it has one, and all that it does after the injection.
-- That rest may use state of its own but not the PLE layer's.
structure DecoderLayer (K S : Type) [Zero K] [LT K] (hc hiddenSize embedDim : Nat) where
  ple : Option (Layer K hc hiddenSize embedDim)
  rest : ForwardBatch → S → List (Fin (hc * hiddenSize) → K) → Option (List (Fin (hc * hiddenSize) → K)) →
    Option (Hidden K hc hiddenSize × Option (List (Fin (hc * hiddenSize) → K)) × S)

structure Flow (K S : Type) (hc hiddenSize : Nat) where
  hidden : Hidden K hc hiddenSize
  residual : Option (List (Fin (hc * hiddenSize) → K))
  other : S
  pools : Nat → ConvPool K (hc * hiddenSize)
  cached : Option WindowCache

structure LayerTrace (K : Type) (hc hiddenSize : Nat) where
  entered : List (Fin (hc * hiddenSize) → K)
  left : Hidden K hc hiddenSize
  output : Option (List (Fin (hc * hiddenSize) → K))

structure Input (K : Type) (hc hiddenSize : Nat) where
  inputIds : List Long
  inputsEmbeds : Option (Hidden K hc hiddenSize)
  fb : ForwardBatch
  batchTag : Nat
  freshTag : Nat

structure World (K S σ : Type) (hc hiddenSize : Nat) where
  request : σ
  pools : Nat → ConvPool K (hc * hiddenSize)
  other : S

section
variable {K S : Type} [Field K] [LinearOrder K]

def pleQuery (hiddenStates : List (Fin n → K)) (residual : Option (List (Fin n → K))) : Option (List (Fin n → K)) :=
  match residual with
  | none => some hiddenStates
  | some residual => addRows hiddenStates residual

-- The injection of _prepare_qwen4_exp_attn: the hidden states, the output and what the PLE layer leaves.
def inject (env : Env K hc hiddenSize embedDim) (batchTag freshTag index : Nat) (fb : ForwardBatch)
    (batch : Option PleBatch) (ple : Option (Layer K hc hiddenSize embedDim)) (flow : Flow K S hc hiddenSize) :
    Option (List (Fin (hc * hiddenSize) → K) × Option (List (Fin (hc * hiddenSize) → K)) ×
      (Nat → ConvPool K (hc * hiddenSize)) × Option WindowCache) :=
  match ple, batch with
  | none, _ => some (flow.hidden.expand,none,flow.pools,flow.cached)
  | some _, none =>
      if isIdle (getPleForwardMode fb) then some (flow.hidden.expand,none,flow.pools,flow.cached) else none
  | some layer, some batch => do
      let query ← pleQuery flow.hidden.expand flow.residual
      let (output, pool, cached) ← pleForward env layer batchTag freshTag query fb batch (flow.pools index) flow.cached
      let hiddenStates ← addRows flow.hidden.expand output
      return (hiddenStates,some output,Function.update flow.pools index pool,cached)

def runLayer (env : Env K hc hiddenSize embedDim) (batchTag freshTag index : Nat) (fb : ForwardBatch)
    (batch : Option PleBatch) (layer : DecoderLayer K S hc hiddenSize embedDim) (flow : Flow K S hc hiddenSize) :
    Option (LayerTrace K hc hiddenSize × Flow K S hc hiddenSize) := do
  let (entered, output, pools, cached) ← inject env batchTag freshTag index fb batch layer.ple flow
  let (hidden, residual, other) ← layer.rest fb flow.other entered flow.residual
  return (⟨entered,hidden,output⟩,⟨hidden,residual,other,pools,cached⟩)

def runLayers (env : Env K hc hiddenSize embedDim) (batchTag freshTag : Nat) (fb : ForwardBatch)
    (batch : Option PleBatch) : Nat → List (DecoderLayer K S hc hiddenSize embedDim) → Flow K S hc hiddenSize →
      Option (List (LayerTrace K hc hiddenSize) × Flow K S hc hiddenSize)
  | _, [], flow => some ([],flow)
  | index, layer :: rest, flow => do
      let (trace, flow) ← runLayer env batchTag freshTag index fb batch layer flow
      let (traces, flow) ← runLayers env batchTag freshTag fb batch (index + 1) rest flow
      return (trace :: traces,flow)

-- Qwen4ExpModel; `ple` is the N-gram size and EOS token of a model that has PLE layers.
structure Decoder (K S σ : Type) [Zero K] [LT K] (hc hiddenSize embedDim : Nat) where
  env : Env K hc hiddenSize embedDim
  request : RequestPool σ
  fusion : Bool
  embedTokens : List Long → Hidden K hc hiddenSize
  ple : Option (Nat × Long)
  layers : List (DecoderLayer K S hc hiddenSize embedDim)

def Decoder.prepare (model : Decoder K S σ hc hiddenSize embedDim) (input : Input K hc hiddenSize) (request : σ) :
    Option (Option PleBatch) :=
  match model.ple with
  | none => some none
  | some (ngramSize, eos) =>
      preparePleBatch model.fusion (model.request.mambaIndices request) (model.request.ngramContext request)
        input.inputIds input.fb (some ngramSize) (some eos)

def Decoder.forward (model : Decoder K S σ hc hiddenSize embedDim) (input : Input K hc hiddenSize)
    (world : World K S σ hc hiddenSize) : Option (List (LayerTrace K hc hiddenSize) × World K S σ hc hiddenSize) := do
  let batch ← model.prepare input world.request
  let hidden := input.inputsEmbeds.getD (model.embedTokens input.inputIds)
  let (traces, flow) ← runLayers model.env input.batchTag input.freshTag input.fb batch 0 model.layers
    ⟨hidden,none,world.other,world.pools,none⟩
  let request ← commitPleBatch model.request batch input.fb world.request
  return (traces,⟨request,flow.pools,flow.other⟩)

def DecoderLayer.withoutPle (layer : DecoderLayer K S hc hiddenSize embedDim) :
    DecoderLayer K S hc hiddenSize embedDim := ⟨none,layer.rest⟩

def Decoder.withoutPle (model : Decoder K S σ hc hiddenSize embedDim) : Decoder K S σ hc hiddenSize embedDim :=
  { model with ple := none, layers := model.layers.map DecoderLayer.withoutPle }

-- A short-conv state the pool can hand on: one it holds, or a cleared one.
def Held (pool : ConvPool K channels) (state : List (Column K channels)) : Prop :=
  (∃ slot, state = pool.cache slot) ∨
    (∃ states, pool.intermediate = some states ∧ ∃ row step, state = states row step) ∨ ∀ column ∈ state, column = 0

-- Between two forwards the pool copies, moves or selects states.
structure Moved (before after : ConvPool K channels) : Prop where
  cache : ∀ slot, Held before (after.cache slot)
  intermediate : ∀ states, after.intermediate = some states → ∀ row step, Held before (states row step)

inductive Step (model : Decoder K S σ hc hiddenSize embedDim) : World K S σ hc hiddenSize →
    Option (Input K hc hiddenSize × List (LayerTrace K hc hiddenSize)) → World K S σ hc hiddenSize → Prop where
  | forward : model.forward input world = some (traces,after) → Step model world (some (input,traces)) after
  | between (request : σ) (other : S) : (∀ index, Moved (world.pools index) (pools index)) →
      Step model world none ⟨request,pools,other⟩

inductive Run (model : Decoder K S σ hc hiddenSize embedDim) : World K S σ hc hiddenSize →
    List (Option (Input K hc hiddenSize × List (LayerTrace K hc hiddenSize))) → World K S σ hc hiddenSize → Prop where
  | nil : Run model world [] world
  | cons : Step model world shown middle → Run model middle rest last → Run model world (shown :: rest) last

structure Off (env : Env K hc hiddenSize embedDim) (layer : Layer K hc hiddenSize embedDim) : Prop where
  built : ∃ hashkPath nvfp4Enabled offload,
    (layer.lookup,layer.offload) = initLookup true hashkPath nvfp4Enabled offload
  norm : layer.normConv.Agrees env.elementary

structure Decoder.Off (model : Decoder K S σ hc hiddenSize embedDim) : Prop where
  agrees : model.env.Agrees
  layers : ∀ layer ∈ model.layers, ∀ ple, layer.ple = some ple → PleOff.Off model.env ple

theorem off_lookup {env : Env K hc hiddenSize embedDim} {layer : Layer K hc hiddenSize embedDim}
    (off : Off env layer) : layer.lookup = .off ∧ layer.offload = false := by
  obtain ⟨hashkPath,nvfp4Enabled,offload,built⟩ := off.built
  rw [initLookup_off,Prod.mk.injEq] at built
  exact built

def Counted (batch : PleBatch) : Prop :=
  batch.processedTokens ≤ batch.physicalTokens ∧
    (batch.useDecodeFastPath = true → batch.rowWidth = 1 ∧ batch.stateIndices.length = batch.processedTokens)

theorem inject_off (env : Env K hc hiddenSize embedDim) (agrees : env.Agrees) (batchTag freshTag index : Nat)
    (fb : ForwardBatch) (batch : Option PleBatch) (counted : ∀ b, batch = some b → Counted b)
    (ple : Option (Layer K hc hiddenSize embedDim)) (off : ∀ layer, ple = some layer → Off env layer)
    (flow : Flow K S hc hiddenSize) (quiet : ∀ i, Quiet (flow.pools i))
    (entered : List (Fin (hc * hiddenSize) → K)) (output : Option (List (Fin (hc * hiddenSize) → K)))
    (pools : Nat → ConvPool K (hc * hiddenSize)) (cached : Option WindowCache)
    (ran : inject env batchTag freshTag index fb batch ple flow = some (entered,output,pools,cached)) :
    entered = flow.hidden.expand ∧ (∀ rows, output = some rows → ∀ row ∈ rows, row = 0) ∧ ∀ i, Quiet (pools i) := by
  have unchanged : ∀ {pools' : Nat → ConvPool K (hc * hiddenSize)} {cached' : Option WindowCache},
      some (flow.hidden.expand,none,flow.pools,flow.cached) = some (entered,output,pools',cached') →
      pools' = pools → entered = flow.hidden.expand ∧ (∀ rows, output = some rows → ∀ row ∈ rows, row = 0) ∧
        ∀ i, Quiet (pools i) := by
    intro pools' cached' same named
    cases same
    cases named
    exact ⟨rfl,fun _ missing => absurd missing (by simp),quiet⟩
  unfold inject at ran
  cases ple with
  | none => exact unchanged ran rfl
  | some layer =>
      cases batch with
      | none =>
          simp only at ran
          split at ran
          · exact unchanged ran rfl
          · cases ran
      | some batch =>
          obtain ⟨inside,fast⟩ := counted batch rfl
          obtain ⟨lookup,still⟩ := off_lookup (off layer rfl)
          obtain ⟨query,summed,ran⟩ := Option.bind_eq_some_iff.mp ran
          obtain ⟨⟨out,pool,shared⟩,forwarded,ran⟩ := Option.bind_eq_some_iff.mp ran
          obtain ⟨rows,added,same⟩ := Option.bind_eq_some_iff.mp ran
          cases same
          obtain ⟨length,_,kept,_⟩ := addRows_parts _ _ _ added
          have wide : query.length = flow.hidden.expand.length := by
            unfold pleQuery at summed
            cases carried : flow.residual with
            | none =>
                rw [carried] at summed
                cases summed
                rfl
            | some residual =>
                rw [carried] at summed
                exact (addRows_parts _ _ _ summed).2.1
          have padded := pleForward_length env layer batchTag freshTag query fb batch _ _ _ _ out forwarded
          obtain ⟨zero,_,still⟩ := pleForward_off env agrees layer (off layer rfl).norm lookup still batchTag freshTag
            query fb batch fast (by omega) _ pool (quiet index) _ _ out forwarded
          refine ⟨kept zero,?_,?_⟩
          · intro rows same
            cases same
            exact zero
          · intro i
            by_cases equal : i = index
            · subst i
              rw [Function.update_self]
              exact still
            · rw [Function.update_of_ne equal]
              exact quiet i

def LayerTrace.withoutPle (trace : LayerTrace K hc hiddenSize) : LayerTrace K hc hiddenSize :=
  ⟨trace.entered,trace.left,none⟩

def LayerTrace.Silent (trace : LayerTrace K hc hiddenSize) : Prop :=
  ∀ rows, trace.output = some rows → ∀ row ∈ rows, row = 0

-- Two flows that agree on all but the state of the PLE layers.
structure Alike (flow other : Flow K S hc hiddenSize) : Prop where
  hidden : other.hidden = flow.hidden
  residual : other.residual = flow.residual
  state : other.other = flow.other

theorem runLayer_off (env : Env K hc hiddenSize embedDim) (agrees : env.Agrees) (batchTag freshTag index : Nat)
    (fb : ForwardBatch) (batch : Option PleBatch) (counted : ∀ b, batch = some b → Counted b)
    (layer : DecoderLayer K S hc hiddenSize embedDim) (off : ∀ ple, layer.ple = some ple → Off env ple)
    (flow after bare : Flow K S hc hiddenSize) (quiet : ∀ i, Quiet (flow.pools i)) (alike : Alike flow bare)
    (trace : LayerTrace K hc hiddenSize)
    (ran : runLayer env batchTag freshTag index fb batch layer flow = some (trace,after)) :
    trace.Silent ∧ (∀ i, Quiet (after.pools i)) ∧ ∃ bareAfter, Alike after bareAfter ∧
      runLayer env batchTag freshTag index fb none layer.withoutPle bare = some (trace.withoutPle,bareAfter) := by
  obtain ⟨⟨entered,output,pools,cached⟩,injected,ran⟩ := Option.bind_eq_some_iff.mp ran
  obtain ⟨⟨hidden,residual,state⟩,finished,same⟩ := Option.bind_eq_some_iff.mp ran
  cases same
  obtain ⟨kept,silent,still⟩ := inject_off env agrees batchTag freshTag index fb batch counted layer.ple off flow quiet
    entered output pools cached injected
  refine ⟨silent,still,⟨hidden,residual,state,bare.pools,bare.cached⟩,⟨rfl,rfl,rfl⟩,?_⟩
  have rest : layer.rest fb bare.other bare.hidden.expand bare.residual = some (hidden,residual,state) := by
    rw [alike.hidden,alike.residual,alike.state,← kept]
    exact finished
  unfold runLayer
  simp only [DecoderLayer.withoutPle,inject,Option.bind_eq_bind,Option.bind_some,rest]
  rw [kept,alike.hidden]
  rfl

theorem runLayers_off (env : Env K hc hiddenSize embedDim) (agrees : env.Agrees) (batchTag freshTag : Nat)
    (fb : ForwardBatch) (batch : Option PleBatch) (counted : ∀ b, batch = some b → Counted b)
    (layers : List (DecoderLayer K S hc hiddenSize embedDim))
    (off : ∀ layer ∈ layers, ∀ ple, layer.ple = some ple → Off env ple) (index : Nat)
    (flow after bare : Flow K S hc hiddenSize) (quiet : ∀ i, Quiet (flow.pools i)) (alike : Alike flow bare)
    (traces : List (LayerTrace K hc hiddenSize))
    (ran : runLayers env batchTag freshTag fb batch index layers flow = some (traces,after)) :
    (∀ trace ∈ traces, trace.Silent) ∧ (∀ i, Quiet (after.pools i)) ∧ ∃ bareAfter, Alike after bareAfter ∧
      runLayers env batchTag freshTag fb none index (layers.map DecoderLayer.withoutPle) bare =
        some (traces.map LayerTrace.withoutPle,bareAfter) := by
  induction layers generalizing index flow bare traces with
  | nil =>
      cases ran
      exact ⟨by simp,quiet,bare,alike,rfl⟩
  | cons layer rest ih =>
      obtain ⟨⟨trace,middle⟩,first,ran⟩ := Option.bind_eq_some_iff.mp ran
      obtain ⟨⟨later,last⟩,second,same⟩ := Option.bind_eq_some_iff.mp ran
      cases same
      obtain ⟨silent,still,bareMiddle,close,bareFirst⟩ := runLayer_off env agrees batchTag freshTag index fb batch
        counted layer (off layer List.mem_cons_self) flow middle bare quiet alike trace first
      obtain ⟨silents,quietAfter,bareAfter,closer,bareSecond⟩ :=
        ih (fun layer member => off layer (List.mem_cons_of_mem _ member))
        (index + 1) middle bareMiddle still close later second
      refine ⟨?_,quietAfter,bareAfter,closer,?_⟩
      · intro shown member
        rcases List.mem_cons.mp member with rfl | tail
        · exact silent
        · exact silents shown tail
      · simp only [List.map_cons,runLayers,bareFirst,Option.bind_eq_bind,Option.bind_some,bareSecond]
        rfl

theorem prepare_counts (fusion : Bool) (mambaIndices : Nat → Nat) (context : Nat → List Long) (inputIds : List Long)
    (fb : ForwardBatch) (ngramSize : Option Nat) (eos : Option Long) (batch : PleBatch)
    (ran : preparePleBatch fusion mambaIndices context inputIds fb ngramSize eos = some (some batch)) :
    batch.processedTokens ≤ batch.physicalTokens ∧
      batch.useDecodeFastPath = (fusion && isDecode (getPleForwardMode fb)) := by
  unfold preparePleBatch at ran
  split at ran
  · cases ran
  · simp only at ran
    split at ran
    · cases ran
    · simp only [Option.bind_eq_bind,Option.bind_eq_some_iff] at ran
      obtain ⟨processed,counted,layout,_,valid,_,slots,_,shared,_,ran⟩ := ran
      cases ran
      exact ⟨processed_inside fb inputIds.length processed counted,rfl⟩

theorem prepare_counted (model : Decoder K S σ hc hiddenSize embedDim) (input : Input K hc hiddenSize) (request : σ)
    (batch : Option PleBatch) (ran : model.prepare input request = some batch) : ∀ b, batch = some b → Counted b := by
  intro b named
  subst named
  unfold Decoder.prepare at ran
  split at ran
  · cases ran
  · rename_i size eos _
    obtain ⟨inside,fast⟩ := prepare_counts model.fusion _ _ input.inputIds input.fb (some size) (some eos) b ran
    refine ⟨inside,?_⟩
    intro fusing
    have decoding := (Bool.and_eq_true_iff.mp (fast.symm.trans fusing)).2
    have prepared := prepared_exact model.fusion _ _ input.inputIds input.fb
      (fun lengths => by simp [laidFromLengths,decoding] at lengths) size eos b ran
    obtain ⟨ones,single⟩ := prepared.decoded (prepared.mode ▸ decoding)
    refine ⟨single,?_⟩
    rw [prepared.slots,ones]
    simp

theorem forward_off (model : Decoder K S σ hc hiddenSize embedDim) (off : model.Off) (input : Input K hc hiddenSize)
    (world after bare : World K S σ hc hiddenSize) (quiet : ∀ i, Quiet (world.pools i))
    (alike : bare.other = world.other) (traces : List (LayerTrace K hc hiddenSize))
    (ran : model.forward input world = some (traces,after)) :
    (∀ trace ∈ traces, trace.Silent) ∧ (∀ i, Quiet (after.pools i)) ∧ ∃ bareAfter : World K S σ hc hiddenSize,
      bareAfter.other = after.other ∧
        model.withoutPle.forward input bare = some (traces.map LayerTrace.withoutPle,bareAfter) := by
  obtain ⟨batch,prepared,ran⟩ := Option.bind_eq_some_iff.mp ran
  obtain ⟨⟨shown,flow⟩,layered,ran⟩ := Option.bind_eq_some_iff.mp ran
  obtain ⟨request,committed,same⟩ := Option.bind_eq_some_iff.mp ran
  cases same
  obtain ⟨silent,still,bareFlow,close,bareRan⟩ := runLayers_off model.env off.agrees input.batchTag input.freshTag
    input.fb batch (prepare_counted model input world.request batch prepared) model.layers off.layers 0
    ⟨input.inputsEmbeds.getD (model.embedTokens input.inputIds),none,world.other,world.pools,none⟩ flow
    ⟨input.inputsEmbeds.getD (model.embedTokens input.inputIds),none,bare.other,bare.pools,none⟩ quiet
    ⟨rfl,rfl,alike⟩ traces layered
  refine ⟨silent,still,⟨bare.request,bareFlow.pools,bareFlow.other⟩,close.state,?_⟩
  simp only [Decoder.forward,Decoder.prepare,Decoder.withoutPle,Option.bind_eq_bind,Option.bind_some,bareRan,
    commitPleBatch]
  rfl

omit [LinearOrder K] in
theorem held_quiet (pool : ConvPool K channels) (quiet : Quiet pool) (state : List (Column K channels))
    (held : Held pool state) : ∀ column ∈ state, column = 0 := by
  rcases held with ⟨slot,rfl⟩ | ⟨states,stored,row,step,rfl⟩ | cleared
  · exact quiet.cache slot
  · exact quiet.intermediate states stored row step
  · exact cleared

omit [LinearOrder K] in
theorem moved_quiet (before after : ConvPool K channels) (quiet : Quiet before) (moved : Moved before after) :
    Quiet after :=
  ⟨fun slot => held_quiet before quiet _ (moved.cache slot),
    fun states stored row step => held_quiet before quiet _ (moved.intermediate states stored row step)⟩

def bareShown (shown : Option (Input K hc hiddenSize × List (LayerTrace K hc hiddenSize))) :
    Option (Input K hc hiddenSize × List (LayerTrace K hc hiddenSize)) :=
  shown.map fun call => (call.1,call.2.map LayerTrace.withoutPle)

-- Every call injects exactly zero and every state stays zero; without the injection the same
-- calls show the same hidden states.
theorem injection_is_nothing (model : Decoder K S σ hc hiddenSize embedDim) (off : model.Off)
    (start last bare : World K S σ hc hiddenSize)
    (shown : List (Option (Input K hc hiddenSize × List (LayerTrace K hc hiddenSize))))
    (run : Run model start shown last) (quiet : ∀ i, Quiet (start.pools i)) (alike : bare.other = start.other) :
    (∀ i, Quiet (last.pools i)) ∧
      (∀ input traces, some (input,traces) ∈ shown → ∀ trace ∈ traces, ∀ rows, trace.output = some rows →
        ∀ row ∈ rows, row = 0) ∧
      ∃ bareLast : World K S σ hc hiddenSize, bareLast.other = last.other ∧
        Run model.withoutPle bare (shown.map bareShown) bareLast := by
  induction run generalizing bare with
  | nil => exact ⟨quiet,by simp,bare,alike,.nil⟩
  | cons step _ ih =>
      cases step with
      | forward ran =>
          obtain ⟨silent,still,bareMiddle,close,bareRan⟩ := forward_off model off _ _ _ bare quiet alike _ ran
          obtain ⟨quietLast,silents,bareLast,closer,bareRun⟩ := ih bareMiddle still close
          refine ⟨quietLast,?_,bareLast,closer,.cons (.forward bareRan) bareRun⟩
          intro input traces member
          rcases List.mem_cons.mp member with same | tail
          · cases same
            exact silent
          · exact silents input traces tail
      | between request other moved =>
          obtain ⟨quietLast,silents,bareLast,closer,bareRun⟩ := ih ⟨bare.request,bare.pools,other⟩
            (fun i => moved_quiet _ _ (quiet i) (moved i)) rfl
          refine ⟨quietLast,?_,bareLast,closer,.cons (.between bare.request other fun index => ?_) bareRun⟩
          · intro input traces member
            rcases List.mem_cons.mp member with same | tail
            · cases same
            · exact silents input traces tail
          · exact ⟨fun slot => .inl ⟨slot,rfl⟩,fun states stored row step => .inr (.inl ⟨states,stored,row,step,rfl⟩)⟩

end

def sampleElementary : Elementary ℚ where
  rsqrt := fun x => if x = 1 then some 1 else if x = 25 / 16 then some (4 / 5) else none
  sqrt := fun x => if x = 1 / 10 ^ 6 then 1 / 1000 else 1
  sigmoid := fun _ => 1 / 2

def plainNorm : GroupedNorm ℚ 1 1 := ⟨1,one_pos,fun _ => 0,none⟩

-- The first of two ranks of the same tokens; a scatter clears the rows it is not given.
def firstOfTwo (physicalTokens : Nat) (rows : List (Fin 1 → ℚ)) : List (Fin 1 → ℚ) :=
  rows.take physicalTokens ++ List.replicate (physicalTokens - rows.length) 0

theorem firstOfTwo_drawn (physicalTokens : Nat) (rows : List (Fin 1 → ℚ)) :
    ∀ row ∈ firstOfTwo physicalTokens rows, row ∈ rows ∨ row = 0 := by
  intro row member
  rcases List.mem_append.mp member with own | cleared
  · exact .inl (List.mem_of_mem_take own)
  · exact .inr (List.eq_of_mem_replicate cleared)

def sampleEnv : Env ℚ 1 1 1 where
  elementary := sampleElementary
  hash := ⟨fun _ _ => false,fun _ _ => []⟩
  conv := ⟨fun _ _ _ => false,fun cache _ _ => ([],cache)⟩
  gate := ⟨fun _ _ => false,fun _ _ => []⟩
  dp := some ⟨fun ids => some (ids ++ ids),firstOfTwo,firstOfTwo_drawn⟩
  rows := fun _ _ _ => 1
  prefetched := fun _ => none

def offLayer : Layer ℚ 1 1 1 where
  embedding := bigrams
  lookup := .off
  offload := false
  weightScale := 2
  keyProj := fun _ _ => 3
  valueProj := fun _ _ => 5
  normKey := plainNorm
  normQuery := plainNorm
  normConv := plainNorm
  kernelSize := 2
  convWeight := fun _ _ => 7

def offModel : Decoder ℚ Unit Tables 1 1 1 where
  env := sampleEnv
  request := tablePool
  fusion := true
  embedTokens := fun ids => .narrow (ids.map fun _ _ => 3 / 4)
  ple := some (2,5)
  layers := [⟨some offLayer,fun _ _ entered _ => some (.wide entered,none,())⟩]

theorem offModel_off : offModel.Off := by
  refine ⟨⟨fun _ _ _ _ fusing => absurd fusing (by simp [offModel,sampleEnv]),
    fun _ _ fusing => absurd fusing (by simp [offModel,sampleEnv])⟩,?_⟩
  intro layer member ple named
  cases List.mem_singleton.mp member
  cases named
  exact ⟨⟨false,true,true,rfl⟩,fun _ missing => absurd missing (by simp [offLayer,plainNorm])⟩

def chunkInput : Input ℚ 1 1 := ⟨[7],none,sampleForward [true,false],0,0⟩

def zeroWorld : World ℚ Unit Tables 1 1 := ⟨freshTables,fun _ => ⟨fun _ => [0,0],some fun _ _ => []⟩,()⟩

theorem chunk_forwards : (offModel.forward chunkInput zeroWorld).isSome = true := by
  decide +kernel

theorem sample_silence : ∃ traces after, offModel.forward chunkInput zeroWorld = some (traces,after) ∧
    (∀ i, Quiet (after.pools i)) ∧
    (∀ input shown, some (input,shown) ∈ [some (chunkInput,traces)] → ∀ trace ∈ shown, ∀ rows,
      trace.output = some rows → ∀ row ∈ rows, row = 0) ∧
    ∃ bareLast : World ℚ Unit Tables 1 1, bareLast.other = after.other ∧
      Run offModel.withoutPle zeroWorld ([some (chunkInput,traces)].map bareShown) bareLast := by
  obtain ⟨⟨traces,after⟩,ran⟩ := Option.isSome_iff_exists.mp chunk_forwards
  have quiet : ∀ i, Quiet (zeroWorld.pools i) := by
    intro i
    refine ⟨fun slot column member => by simpa [zeroWorld] using member,?_⟩
    intro states stored row step column member
    cases stored
    cases member
  exact ⟨traces,after,ran,injection_is_nothing offModel offModel_off zeroWorld after zeroWorld _
    (.cons (.forward ran) .nil) quiet rfl⟩

end OneSpark.PleOff
