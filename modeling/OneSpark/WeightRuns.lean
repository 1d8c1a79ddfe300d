import OneSpark.WeightLoads

namespace OneSpark.WeightRuns
open RowWrites RingSlots GraphLayout HashBuild TextEdits PleShards WeightLoads

theorem mapM_given {ε α β : Type} {f : α → Except ε β} {g : α → β} (values : List α)
    (given : ∀ a b, f a = .ok b → b = g a) {out : List β} (ran : values.mapM f = .ok out) : out = values.map g := by
  induction values generalizing out with
  | nil =>
      cases ran
      rfl
  | cons a values ih =>
      rw [List.mapM_cons] at ran
      obtain ⟨b,first,ran⟩ := bind_ok ran
      obtain ⟨rest,others,ran⟩ := bind_ok ran
      cases ran
      rw [given a b first,ih others,List.map_cons]

section
variable {model : Model} {paramsDict : List (List Char)} {entry : Entry}

theorem deliver_same {delivery out : Delivery} (ran : deliver model delivery = .ok out) : out = delivery := by
  unfold deliver at ran
  split at ran
  · cases ran
    rfl
  · cases ran

theorem fused_parts {name : List Char} {rows : Nat} {view : Nat → View} {shard : Shard} {deliveries : List Delivery}
    (ran : loadFusedExpertWeights model paramsDict name entry rows view shard = .ok (some deliveries)) :
    name ∈ paramsDict ∧ ∃ numExperts, model.numExperts = some numExperts ∧
      deliveries = (List.range numExperts).map fun e => ⟨name,some shard,some e,entry,view e⟩ := by
  unfold loadFusedExpertWeights at ran
  split at ran
  · cases ran
  · rename_i present
    split at ran
    · cases ran
    · rename_i numExperts counted
      obtain ⟨pieces,made,ran⟩ := bind_ok ran
      cases ran
      refine ⟨by simpa using present,numExperts,counted,mapM_given _ ?_ made⟩
      intro e delivery given
      split at given
      · exact deliver_same given
      · cases given

theorem found_parts {name : List Char} {pieces : Option (List Delivery)} {deliveries : List Delivery}
    (ran : found name pieces = .ok deliveries) : pieces = some deliveries := by
  cases pieces with
  | none => cases ran
  | some pieces =>
      cases ran
      rfl

structure Routed (model : Model) (paramsDict : List (List Char)) (entry : Entry) (outcome : Outcome) : Prop where
  present : ∀ name, outcome.loaded = some name → name ∈ paramsDict
  own : ∀ delivery ∈ outcome.deliveries, outcome.loaded = some delivery.param ∧ delivery.entry = entry
  delivered : ∀ name, outcome.loaded = some name →
    (∃ delivery ∈ outcome.deliveries, delivery.param = name) ∨ model.numExperts = some 0
  halves : ∀ delivery ∈ outcome.deliveries, ∀ e, delivery.view = .gate e ∨ delivery.view = .up e →
    ∃ numExperts, model.numExperts = some numExperts ∧ ∀ i < numExperts,
      ⟨delivery.param,some .w1,some i,entry,.gate i⟩ ∈ outcome.deliveries ∧
      ⟨delivery.param,some .w3,some i,entry,.up i⟩ ∈ outcome.deliveries

theorem nothing_routed : Routed model paramsDict entry ⟨[],none⟩ := by
  refine ⟨?_,?_,?_,?_⟩
  · intro name loaded
    cases loaded
  · intro delivery member
    cases member
  · intro name loaded
    cases loaded
  · intro delivery member
    cases member

theorem single_routed {name : List Char} (present : name ∈ paramsDict) (shard : Option Shard) (expert : Option Nat) :
    Routed model paramsDict entry ⟨[⟨name,shard,expert,entry,.whole⟩],some name⟩ := by
  refine ⟨?_,?_,?_,?_⟩
  · rintro _ loaded
    cases loaded
    exact present
  · intro delivery member
    cases List.mem_singleton.mp member
    exact ⟨rfl,rfl⟩
  · rintro _ loaded
    cases loaded
    exact .inl ⟨_,List.mem_singleton.mpr rfl,rfl⟩
  · intro delivery member e half
    cases List.mem_singleton.mp member
    rcases half with half | half
    · cases half
    · cases half

def pieces (name : List Char) (entry : Entry) (view : Nat → View) (shard : Shard) (numExperts : Nat) : List Delivery :=
  (List.range numExperts).map fun e => ⟨name,some shard,some e,entry,view e⟩

theorem pieces_mem {name : List Char} {view : Nat → View} {shard : Shard} {numExperts : Nat} {delivery : Delivery}
    (member : delivery ∈ pieces name entry view shard numExperts) :
    ∃ e < numExperts, delivery = ⟨name,some shard,some e,entry,view e⟩ := by
  obtain ⟨e,inside,rfl⟩ := List.mem_map.mp member
  exact ⟨e,List.mem_range.mp inside,rfl⟩

theorem pieces_have {name : List Char} {view : Nat → View} {shard : Shard} {numExperts e : Nat} (inside : e < numExperts) :
    ⟨name,some shard,some e,entry,view e⟩ ∈ pieces name entry view shard numExperts :=
  List.mem_map.mpr ⟨e,List.mem_range.mpr inside,rfl⟩

theorem fused_routed {name mappedName : List Char} {shard : Shard} {deliveries : List Delivery}
    (ran : fusedDeliveries model paramsDict entry name mappedName shard = .ok deliveries) :
    Routed model paramsDict entry ⟨deliveries,some mappedName⟩ := by
  unfold fusedDeliveries at ran
  split at ran
  · split at ran
    · cases ran
    · obtain ⟨gates,first,ran⟩ := bind_ok ran
      obtain ⟨gates,own,ran⟩ := bind_ok ran
      obtain ⟨ups,second,ran⟩ := bind_ok ran
      obtain ⟨ups,other,ran⟩ := bind_ok ran
      cases ran
      cases found_parts own
      cases found_parts other
      obtain ⟨present,n,counted,made⟩ := fused_parts first
      obtain ⟨_,n',counted',made'⟩ := fused_parts second
      cases counted.symm.trans counted'
      have whole : gates ++ ups = pieces mappedName entry .gate .w1 n ++ pieces mappedName entry .up .w3 n := by
        rw [made,made']
        rfl
      rw [whole]
      refine ⟨?_,?_,?_,?_⟩
      · rintro _ loaded
        cases loaded
        exact present
      · intro delivery member
        rcases List.mem_append.mp member with gate | up
        · obtain ⟨e,_,rfl⟩ := pieces_mem gate
          exact ⟨rfl,rfl⟩
        · obtain ⟨e,_,rfl⟩ := pieces_mem up
          exact ⟨rfl,rfl⟩
      · rintro _ loaded
        cases loaded
        cases n with
        | zero => exact .inr counted
        | succ n => exact .inl ⟨_,List.mem_append_left _ (pieces_have (Nat.succ_pos n)),rfl⟩
      · intro delivery member e _
        have named : delivery.param = mappedName := by
          rcases List.mem_append.mp member with gate | up
          · obtain ⟨e,_,rfl⟩ := pieces_mem gate
            rfl
          · obtain ⟨e,_,rfl⟩ := pieces_mem up
            rfl
        rw [named]
        exact ⟨n,counted,fun i inside => ⟨List.mem_append_left _ (pieces_have inside),
          List.mem_append_right _ (pieces_have inside)⟩⟩
  · obtain ⟨whole,first,ran⟩ := bind_ok ran
    cases found_parts ran
    obtain ⟨present,n,counted,made⟩ := fused_parts first
    have all : deliveries = pieces mappedName entry .expert shard n := made
    rw [all]
    refine ⟨?_,?_,?_,?_⟩
    · rintro _ loaded
      cases loaded
      exact present
    · intro delivery member
      obtain ⟨e,_,rfl⟩ := pieces_mem member
      exact ⟨rfl,rfl⟩
    · rintro _ loaded
      cases loaded
      cases n with
      | zero => exact .inr counted
      | succ n => exact .inl ⟨_,pieces_have (Nat.succ_pos n),rfl⟩
    · intro delivery member e half
      obtain ⟨i,_,rfl⟩ := pieces_mem member
      rcases half with half | half
      · cases half
      · cases half

theorem expert_routed (mappings : List ExpertMapping) {name loaded : List Char} {isExpertWeight : Bool}
    {deliveries : List Delivery}
    (ran : expertRoute model paramsDict entry name isExpertWeight mappings = .ok (.loaded loaded deliveries)) :
    Routed model paramsDict entry ⟨deliveries,some loaded⟩ := by
  induction mappings generalizing isExpertWeight with
  | nil =>
      unfold expertRoute at ran
      split at ran
      · cases ran
      · cases ran
  | cons mapping mappings ih =>
      unfold expertRoute at ran
      split at ran
      · exact ih ran
      · split at ran
        · exact ih ran
        · dsimp only at ran
          split at ran
          · obtain ⟨pieces,made,ran⟩ := bind_ok ran
            cases ran
            exact fused_routed made
          · split at ran
            · exact ih ran
            · split at ran
              · cases ran
              · rename_i present
                obtain ⟨delivery,made,ran⟩ := bind_ok ran
                cases ran
                cases deliver_same made
                exact single_routed (by simpa using present) _ _

theorem stacked_present (mappings : List Mapping) {name mappedName : List Char} {shard : Shard}
    (target : stackedTarget paramsDict name mappings = some (mappedName,shard)) : mappedName ∈ paramsDict := by
  induction mappings with
  | nil => cases target
  | cons mapping mappings ih =>
      unfold stackedTarget at target
      split at target
      · exact ih target
      · split at target
        · exact ih target
        · dsimp only at target
          split at target
          · exact ih target
          · split at target
            · exact ih target
            · rename_i present
              cases target
              simpa using present

theorem direct_routed {name : List Char} {outcome : Outcome}
    (ran : directRoute model paramsDict entry name = .ok outcome) : Routed model paramsDict entry outcome := by
  unfold directRoute at ran
  split at ran
  · cases ran
    exact nothing_routed
  · split at ran
    · split at ran
      · cases ran
      · split at ran
        · cases ran
          exact nothing_routed
        · cases ran
    · split at ran
      · rename_i present
        obtain ⟨delivery,made,ran⟩ := bind_ok ran
        cases ran
        cases deliver_same made
        exact single_routed (by simpa using present) _ _
      · cases ran
        exact nothing_routed

theorem main_routed {name : List Char} {outcome : Outcome} (ran : mainRoute model paramsDict entry name = .ok outcome) :
    Routed model paramsDict entry outcome := by
  unfold mainRoute at ran
  split at ran
  · cases ran
    exact nothing_routed
  · split at ran
    · rename_i target
      obtain ⟨delivery,made,ran⟩ := bind_ok ran
      cases ran
      cases deliver_same made
      exact single_routed (stacked_present _ target) _ _
    · obtain ⟨expert,led,ran⟩ := bind_ok ran
      cases expert with
      | loaded loaded deliveries =>
          cases ran
          exact expert_routed _ led
      | skipped =>
          cases ran
          exact nothing_routed
      | other => exact direct_routed ran

theorem tied_parts {name : List Char} {deliveries : List Delivery}
    (ran : tiedDeliveries model paramsDict entry name = .ok deliveries) : ∀ delivery ∈ deliveries,
      delivery = ⟨lmHead,none,none,entry,.whole⟩ ∧ lmHead ∈ paramsDict ∧ model.tieWordEmbeddings = true := by
  unfold tiedDeliveries at ran
  split at ran
  · rename_i tied
    obtain ⟨delivery,made,ran⟩ := bind_ok ran
    cases ran
    cases deliver_same made
    simp only [Bool.and_eq_true,List.contains_iff_mem] at tied
    intro other member
    exact ⟨List.mem_singleton.mp member,tied.2,tied.1.1.1⟩
  · cases ran
    intro delivery member
    cases member

end

def weightName (owner : List Char) : List Char := owner ++ ".ngram_embedding.weight".toList

-- A shard that is taken stores its rows in its own module and changes no other; any other entry changes nothing.
theorem shard_parts {convert : DType → ℚ → ℚ} {loader next : Loader} {call : Call} {taken : Bool}
    (ran : loadQwen4ExpPleShard convert loader call = .ok (taken,next)) :
    (taken = false ∧ next = loader) ∨ ∃ shardIdx emb storage, taken = true ∧ contains marker call.name = true ∧
      searchShard call.name = some shardIdx ∧ loader.pleModules (modPrefix call.name) = some emb ∧
      loadRows convert loader.pleNumSyncShards emb call shardIdx emb.storage = .ok storage ∧
      next = { loader with
        pleModules := Function.update loader.pleModules (modPrefix call.name) (some { emb with storage := storage })
        paramsDict := popped emb.storage storage (weightName (modPrefix call.name)) loader.paramsDict
        loadedShardParams := loader.loadedShardParams.insert (weightName (modPrefix call.name)) } := by
  unfold loadQwen4ExpPleShard at ran
  split at ran
  · cases ran
    exact .inl ⟨rfl,rfl⟩
  · rename_i marked
    split at ran
    · cases ran
      exact .inl ⟨rfl,rfl⟩
    · rename_i shardIdx searched
      split at ran
      · cases ran
        exact .inl ⟨rfl,rfl⟩
      · rename_i emb owner
        obtain ⟨storage,loaded,ran⟩ := bind_ok ran
        cases ran
        exact .inr ⟨shardIdx,emb,storage,rfl,by simpa using marked,searched,owner,loaded,rfl⟩

theorem popped_subset (before after : Storage) (name : List Char) (paramsDict : List (List Char)) :
    ∀ other ∈ popped before after name paramsDict, other ∈ paramsDict := by
  intro other member
  unfold popped at member
  split at member
  · split at member
    · exact member
    · exact (List.mem_filter.mp member).1
  · exact member

structure Sharded (model : Model) (initial : Loader) (entry : Entry) (name : List Char) : Prop where
  source : ∃ read emb, reading model entry.call.name = .named read ∧ searchShard read ≠ none ∧
    initial.pleModules (modPrefix read) = some emb ∧ name = weightName (modPrefix read)

structure Reported (model : Model) (initial : Loader) (weights : List Entry) (state : Loads) : Prop where
  params : ∀ name ∈ state.loader.paramsDict, name ∈ initial.paramsDict
  modules : ∀ p, (state.loader.pleModules p).isSome = (initial.pleModules p).isSome
  present : ∀ delivery ∈ state.deliveries, delivery.param ∈ initial.paramsDict ∧ delivery.entry ∈ weights
  told : ∀ delivery ∈ state.deliveries, delivery.param ∈ state.loadedParams ∨
    delivery.param = lmHead ∧ model.tieWordEmbeddings = true
  delivered : ∀ name ∈ state.loadedParams, ∃ delivery ∈ state.deliveries, delivery.param = name
  buffers : ∀ name ∈ state.loadedBuffers, ∃ entry ∈ weights, (name,entry) ∈ state.copies ∧
    model.buffers name = some entry.shape
  shards : ∀ name ∈ state.loader.loadedShardParams, ∃ entry ∈ weights, Sharded model initial entry name
  halves : ∀ delivery ∈ state.deliveries, ∀ e, delivery.view = .gate e ∨ delivery.view = .up e →
    ∃ numExperts, model.numExperts = some numExperts ∧ ∀ i < numExperts,
      ⟨delivery.param,some .w1,some i,delivery.entry,.gate i⟩ ∈ state.deliveries ∧
      ⟨delivery.param,some .w3,some i,delivery.entry,.up i⟩ ∈ state.deliveries

section
variable {convert : DType → ℚ → ℚ} {model : Model} {initial : Loader} {weights : List Entry}

theorem start_reported (empty : initial.loadedShardParams = []) : Reported model initial weights (start initial) := by
  refine ⟨fun name member => member,fun p => rfl,?_,?_,?_,?_,?_,?_⟩
  · intro delivery member
    cases member
  · intro delivery member
    cases member
  · intro name member
    cases member
  · intro name member
    cases member
  · intro name member
    rw [start,empty] at member
    cases member
  · intro delivery member
    cases member

theorem buffer_parts {name : List Char} {shape : List Nat}
    (ran : loadQwen4ExpPleBuffer model name shape = .ok (some true)) : model.buffers name = some shape := by
  unfold loadQwen4ExpPleBuffer at ran
  split at ran
  · cases ran
  · split at ran
    · cases ran
    · split at ran
      · cases ran
      · split at ran
        · cases ran
        · split at ran
          · cases ran
          · rename_i expected kept
            split at ran
            · cases ran
            · rename_i same
              rw [kept,not_not.mp same]

theorem route_reported (counted : model.numExperts ≠ some 0) {state : Loads} (reported : Reported model initial weights state)
    {entry : Entry} (inside : entry ∈ weights) {name : List Char} {outcome : Outcome}
    (ran : route model state.loader.paramsDict entry name = .ok outcome) : Reported model initial weights { state with
      loadedParams := outcome.loaded.elim state.loadedParams fun loaded => state.loadedParams.insert loaded
      deliveries := state.deliveries ++ outcome.deliveries } := by
  obtain ⟨tied,first,ran⟩ := bind_ok ran
  obtain ⟨main,led,ran⟩ := bind_ok ran
  cases ran
  have routed := main_routed led
  have ties := tied_parts first
  have grown : ∀ other ∈ state.loadedParams,
      other ∈ main.loaded.elim state.loadedParams fun loaded => state.loadedParams.insert loaded := by
    intro other member
    cases main.loaded with
    | none => exact member
    | some loaded => exact List.mem_insert_of_mem member
  refine ⟨reported.params,reported.modules,?_,?_,?_,reported.buffers,reported.shards,?_⟩
  · intro delivery member
    rcases List.mem_append.mp member with old | new
    · exact reported.present delivery old
    · rcases List.mem_append.mp new with tie | own
      · obtain ⟨rfl,kept,_⟩ := ties delivery tie
        exact ⟨reported.params _ kept,inside⟩
      · obtain ⟨loaded,same⟩ := routed.own delivery own
        exact ⟨reported.params _ (routed.present _ loaded),same ▸ inside⟩
  · intro delivery member
    rcases List.mem_append.mp member with old | new
    · rcases reported.told delivery old with listed | tie
      · exact .inl (grown _ listed)
      · exact .inr tie
    · rcases List.mem_append.mp new with tie | own
      · obtain ⟨rfl,_,tied⟩ := ties delivery tie
        exact .inr ⟨rfl,tied⟩
      · obtain ⟨loaded,_⟩ := routed.own delivery own
        dsimp only
        rw [loaded]
        exact .inl List.mem_insert_self
  · intro other member
    have split : other ∈ state.loadedParams ∨ main.loaded = some other := by
      cases loaded : main.loaded with
      | none =>
          dsimp only at member
          rw [loaded] at member
          exact .inl member
      | some name =>
          dsimp only at member
          rw [loaded] at member
          rcases List.mem_insert_iff.mp member with rfl | old
          · exact .inr rfl
          · exact .inl old
    rcases split with old | new
    · obtain ⟨delivery,member,same⟩ := reported.delivered other old
      exact ⟨delivery,List.mem_append_left _ member,same⟩
    · rcases routed.delivered other new with ⟨delivery,member,same⟩ | none
      · exact ⟨delivery,List.mem_append_right _ (List.mem_append_right _ member),same⟩
      · exact absurd none counted
  · intro delivery member e half
    rcases List.mem_append.mp member with old | new
    · obtain ⟨n,counted,all⟩ := reported.halves delivery old e half
      exact ⟨n,counted,fun i inside => ⟨List.mem_append_left _ (all i inside).1,List.mem_append_left _ (all i inside).2⟩⟩
    · rcases List.mem_append.mp new with tie | own
      · obtain ⟨rfl,_⟩ := ties delivery tie
        rcases half with half | half
        · cases half
        · cases half
      · obtain ⟨_,rfl⟩ := routed.own delivery own
        obtain ⟨n,counted,all⟩ := routed.halves delivery own e half
        exact ⟨n,counted,fun i inside => ⟨List.mem_append_right _ (List.mem_append_right _ (all i inside).1),
          List.mem_append_right _ (List.mem_append_right _ (all i inside).2)⟩⟩

theorem named_reported (counted : model.numExperts ≠ some 0) {state after : Loads}
    (reported : Reported model initial weights state) {entry : Entry} (inside : entry ∈ weights) {name : List Char}
    (read : reading model entry.call.name = .named name) (ran : loadNamed convert model state entry name = .ok after) :
    Reported model initial weights after := by
  obtain ⟨buffer,first,ran⟩ := bind_ok ran
  cases buffer with
  | some copied =>
      cases copied with
      | false =>
          cases ran
          exact reported
      | true =>
          cases ran
          refine ⟨reported.params,reported.modules,reported.present,reported.told,reported.delivered,?_,reported.shards,
            reported.halves⟩
          intro other member
          rcases List.mem_insert_iff.mp member with rfl | old
          · exact ⟨entry,inside,List.mem_append_right _ (List.mem_singleton.mpr rfl),buffer_parts first⟩
          · obtain ⟨one,listed,copied,shape⟩ := reported.buffers other old
            exact ⟨one,listed,List.mem_append_left _ copied,shape⟩
  | none =>
      obtain ⟨⟨taken,next⟩,loaded,ran⟩ := bind_ok ran
      have shard : loadQwen4ExpPleShard convert state.loader { entry.call with name := name } = .ok (taken,next) := by
        cases kept : loadQwen4ExpPleShard convert state.loader { entry.call with name := name } with
        | error why =>
            rw [kept] at loaded
            cases loaded
        | ok result =>
            rw [kept] at loaded
            cases loaded
            rfl
      rcases shard_parts shard with ⟨rfl,rfl⟩ | ⟨shardIdx,emb,storage,rfl,_,searched,owner,_,rfl⟩
      · rw [if_neg (by simp)] at ran
        split at ran
        · cases ran
        · obtain ⟨outcome,led,ran⟩ := bind_ok ran
          cases ran
          exact route_reported counted reported inside led
      · rw [if_pos rfl] at ran
        cases ran
        dsimp only at searched owner
        refine ⟨?_,?_,reported.present,reported.told,reported.delivered,reported.buffers,?_,reported.halves⟩
        · intro other member
          exact reported.params other (popped_subset _ _ _ _ other member)
        · intro p
          rw [← reported.modules p]
          by_cases same : p = modPrefix name
          · subst same
            simp [owner]
          · exact congrArg Option.isSome (Function.update_of_ne same _ _)
        · intro other member
          rcases List.mem_insert_iff.mp member with rfl | old
          · refine ⟨entry,inside,⟨name,?_⟩⟩
            have kept := reported.modules (modPrefix name)
            rw [owner,Option.isSome_some] at kept
            obtain ⟨first,same⟩ := Option.isSome_iff_exists.mp kept.symm
            exact ⟨first,read,by rw [searched]; simp,same,rfl⟩
          · exact reported.shards other old

theorem entry_reported (counted : model.numExperts ≠ some 0) {state after : Loads}
    (reported : Reported model initial weights state) {entry : Entry} (inside : entry ∈ weights)
    (ran : loadEntry convert model state entry = .ok after) : Reported model initial weights after := by
  unfold loadEntry at ran
  split at ran
  · cases ran
    exact reported
  · cases ran
    exact ⟨reported.params,reported.modules,reported.present,reported.told,reported.delivered,reported.buffers,
      reported.shards,reported.halves⟩
  · rename_i name read
    exact named_reported counted reported inside read ran

theorem run_reported (counted : model.numExperts ≠ some 0) (entries : List Entry) {state after : Loads}
    (reported : Reported model initial weights state) (inside : ∀ entry ∈ entries, entry ∈ weights)
    (ran : entries.foldlM (loadEntry convert model) state = .ok after) : Reported model initial weights after := by
  induction entries generalizing state with
  | nil =>
      cases ran
      exact reported
  | cons entry entries ih =>
      obtain ⟨middle,first,ran⟩ := bind_ok ran
      exact ih (entry_reported counted reported (inside entry List.mem_cons_self) first)
        (fun other member => inside other (List.mem_cons_of_mem _ member)) ran

end

-- One layer with a PLE table, over a checkpoint of a query projection, a fused expert tensor and an fp8 shard.
def layerModel : Model where
  languageModelOnly := true
  tieWordEmbeddings := false
  lastRank := true
  encoderOnly := false
  startLayer := 0
  endLayer := 1
  numExperts := some 2
  makeExpertParamsMapping := fun _ => []
  getLayerId := fun _ => some 0
  buffers := fun _ => none
  takes := fun _ => true

def layerOwner : List Char := "model.layers.0.ple.ple_embedding".toList

def layerLoader : Loader :=
  ⟨fun name => if name = layerOwner then some ⟨2,0,2,false,.raw .bfloat16 ⟨2,1,fun _ _ => 5,[]⟩⟩ else none,2,
    ["model.layers.0.qkv_proj.weight".toList,"model.layers.0.mlp.experts.w13_weight".toList,weightName layerOwner],[]⟩

def layerEntry (name : String) (shape : List Nat) : Entry :=
  ⟨⟨name.toList,⟨.float8e4m3fn,1,[fun _ => 3]⟩,⟨fun _ _ => 0,fun _ _ => 0⟩,fun _ _ => 0⟩,shape,none⟩

def layerWeights : List Entry :=
  [layerEntry "model.language_model.layers.0.self_attn.q_proj.weight" [4,4],
    layerEntry "model.layers.0.mlp.experts.gate_up_proj" [2,4,3],
    layerEntry "model.layers.0.ple.ple_embedding.ngram_embedding.shard_1.weight" [1,1]]

theorem layer_ran : ∃ state, loadWeights (fun _ x => x) layerModel layerLoader layerWeights = .ok state ∧
    state.deliveries.length = 5 := ⟨_,rfl,rfl⟩

end OneSpark.WeightRuns
