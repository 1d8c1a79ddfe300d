import OneSpark.WeightRuns

namespace OneSpark.WeightOrders
open RowWrites RingSlots GraphLayout HashBuild Nvfp4Rows TextEdits PleShards WeightLoads WeightRuns

theorem contains_replaced (old new : List Char) (some_new : new ≠ []) (s : List Char) (inside : contains old s = true) :
    contains new (replaceAll old new s) = true := by
  induction s with
  | nil => cases inside
  | cons c s ih =>
      rw [contains_iff some_new]
      unfold replaceAll
      cases starts : old.isPrefixOf (c :: s) with
      | true =>
          have first : [(⟨old,new⟩ : Edit Char)].find? (fun edit => edit.anchor.isPrefixOf (c :: s)) =
              some ⟨old,new⟩ := by
            simp [starts]
          rw [simultaneous_match first]
          exact (List.prefix_append _ _).isInfix
      | false =>
          rw [simultaneous_copy (by simp [starts])]
          rw [contains,starts,Bool.false_or] at inside
          exact ((contains_iff some_new).mp (ih inside)).trans (List.suffix_cons _ _).isInfix

def visualText : List Char := "visual".toList

theorem visual_kept (name : List Char) (visual : contains visualText name = true) :
    contains visualText (visualRenamed name) = true := by
  have nonempty : visualText ≠ [] := by decide
  unfold visualRenamed
  rw [show "visual".toList = visualText from rfl,if_pos visual]
  obtain ⟨left,right,rfl⟩ := (contains_iff nonempty).mp visual
  have first : contains visualText (replaceAll "attn.qkv.".toList "attn.qkv_proj.".toList (left ++ visualText ++ right)) =
      true := by
    unfold replaceAll
    rw [List.append_assoc,simultaneous_apart (by decide) (by decide),contains_iff nonempty]
    exact ⟨_,_,List.append_assoc ..⟩
  cases model : contains "model.visual.".toList (replaceAll "attn.qkv.".toList "attn.qkv_proj.".toList
    (left ++ visualText ++ right)) with
  | true =>
      have replaced := contains_replaced "model.visual.".toList "visual.".toList (by decide) _ model
      rw [contains_iff (by decide)] at replaced ⊢
      exact (show visualText <:+: "visual.".toList by decide).trans replaced
  | false =>
      have absent := (contains_false (by decide)).mp model
      rw [replaceAll,simultaneous_absent _ absent,simultaneous_nil]
      exact first

def targetTexts (model : Model) : List (List Char) :=
  visualText :: stackedParamsMapping.map (fun mapping => mapping.param) ++
    (fusedExpertParamsMapping ++ expertParamsMapping model).map fun mapping => mapping.param

-- PLE modules stand where the model puts them, and their tables' names hold no such text.
structure PleNames (model : Model) (loader : Loader) : Prop where
  marked : ∀ p emb, loader.pleModules p = some emb → ".ple.ple_embedding".toList <:+ p
  plain : ∀ p emb, loader.pleModules p = some emb → ∀ text ∈ targetTexts model, contains text (weightName p) = false

def IsTable (loader : Loader) (name : List Char) : Prop := ∃ p emb, loader.pleModules p = some emb ∧ name = weightName p

section
variable {model : Model} {loader : Loader} (names : PleNames model loader)
include names

theorem table_layout {name : List Char} (table : IsTable loader name) : pleLayout name = true := by
  obtain ⟨p,emb,owner,rfl⟩ := table
  obtain ⟨front,rfl⟩ := names.marked p emb owner
  have parts : weightName (front ++ ".ple.ple_embedding".toList) = front ++ (pleMark ++ "weight".toList) := by
    rw [weightName,List.append_assoc]
    rfl
  have ending : weightName (front ++ ".ple.ple_embedding".toList) =
      (front ++ ".ple.ple_embedding.ngram_embedding".toList) ++ ".weight".toList := by
    rw [weightName,List.append_assoc,List.append_assoc]
    rfl
  unfold pleLayout
  rw [Bool.and_eq_true]
  constructor
  · rw [contains_iff (by decide),parts]
    exact ⟨front,"weight".toList,List.append_assoc ..⟩
  · rw [endsWith,ending]
    exact List.isSuffixOf_iff_suffix.mpr (List.suffix_append _ _)

theorem target_no_table {name text : List Char} (target : text ∈ targetTexts model) (inside : contains text name = true) :
    ¬ IsTable loader name := by
  rintro ⟨p,emb,owner,rfl⟩
  rw [names.plain p emb owner text target] at inside
  cases inside

theorem mapped_no_table {name old new : List Char} (target : new ∈ targetTexts model) (inside : contains old name = true) :
    ¬ IsTable loader (replaceAll old new name) := by
  intro table
  have nonempty : new ≠ [] := by
    rintro rfl
    obtain ⟨p,emb,owner,_⟩ := table
    have plain := names.plain p emb owner [] target
    have inside : contains [] (weightName p) = true := by
      obtain ⟨c,rest,same⟩ := List.exists_cons_of_ne_nil (show weightName p ≠ [] by simp [weightName])
      rw [same]
      rfl
    rw [inside] at plain
    cases plain
  exact target_no_table names target (contains_replaced old new nonempty name inside) table

def Same (loader : Loader) (one other : List (List Char)) : Prop :=
  ∀ name, ¬ IsTable loader name → (name ∈ one ↔ name ∈ other)

omit names in
theorem same_contains {one other : List (List Char)} (same : Same loader one other) {name : List Char}
    (plain : ¬ IsTable loader name) : one.contains name = other.contains name := by
  rw [Bool.eq_iff_iff,List.contains_iff_mem,List.contains_iff_mem]
  exact same name plain

omit names in
theorem same_ignored {one other : List (List Char)} (same : Same loader one other) {name : List Char}
    (plain : ¬ IsTable loader name) : ignored one name = ignored other name := by
  rw [ignored,ignored,same_contains same plain]

variable {one other : List (List Char)} (same : Same loader one other)
include same

theorem stacked_same (mappings : List Mapping) (known : ∀ mapping ∈ mappings, mapping.param ∈ targetTexts model)
    (name : List Char) : stackedTarget one name mappings = stackedTarget other name mappings := by
  induction mappings with
  | nil => rfl
  | cons mapping mappings ih =>
      have later := ih fun mapping member => known mapping (List.mem_cons_of_mem _ member)
      unfold stackedTarget
      rw [later]
      cases inside : contains mapping.weight name with
      | false => rfl
      | true =>
          have plain := mapped_no_table names (known mapping List.mem_cons_self) inside
          dsimp only
          rw [same_ignored same plain,same_contains same plain]

omit names in
theorem fused_same (entry : Entry) {name : List Char} (plain : ¬ IsTable loader name) (rows : Nat) (view : Nat → View)
    (shard : Shard) : loadFusedExpertWeights model one name entry rows view shard =
      loadFusedExpertWeights model other name entry rows view shard := by
  unfold loadFusedExpertWeights
  rw [same_contains same plain]

omit names in
theorem pieces_same (entry : Entry) (name : List Char) {mappedName : List Char} (plain : ¬ IsTable loader mappedName)
    (shard : Shard) : fusedDeliveries model one entry name mappedName shard =
      fusedDeliveries model other entry name mappedName shard := by
  unfold fusedDeliveries
  simp only [fused_same same entry plain]

theorem expert_same (mappings : List ExpertMapping) (known : ∀ mapping ∈ mappings, mapping.param ∈ targetTexts model)
    (entry : Entry) (name : List Char) (isExpertWeight : Bool) : expertRoute model one entry name isExpertWeight mappings =
      expertRoute model other entry name isExpertWeight mappings := by
  induction mappings generalizing isExpertWeight with
  | nil => rfl
  | cons mapping mappings ih =>
      have later := ih fun mapping member => known mapping (List.mem_cons_of_mem _ member)
      unfold expertRoute
      rw [later,later]
      cases inside : contains mapping.weight name with
      | false => rfl
      | true =>
          have plain := mapped_no_table names (known mapping List.mem_cons_self) inside
          dsimp only
          rw [pieces_same same entry name plain,same_ignored same plain,same_contains same plain]

omit names in
theorem direct_same (entry : Entry) {name : List Char} (plain : ¬ IsTable loader name) :
    directRoute model one entry name = directRoute model other entry name := by
  unfold directRoute
  rw [same_ignored same plain,same_contains same plain]

-- What becomes of an entry that is no shard does not depend on the tables' names.
theorem route_same (entry : Entry) {name : List Char} (apart : pleLayout name = false) :
    route model one entry name = route model other entry name := by
  have own : ¬ IsTable loader name := by
    intro table
    rw [table_layout names table] at apart
    cases apart
  have head : ¬ IsTable loader lmHead := by
    intro table
    have layout := table_layout names table
    revert layout
    decide
  have direct : ¬ IsTable loader (visualRenamed name) := by
    cases visual : contains visualText name with
    | true => exact target_no_table names List.mem_cons_self (visual_kept name visual)
    | false =>
        rw [visualRenamed,show "visual".toList = visualText from rfl,visual]
        exact own
  have tied : tiedDeliveries model one entry name = tiedDeliveries model other entry name := by
    unfold tiedDeliveries
    rw [same_contains same head]
  have main : mainRoute model one entry name = mainRoute model other entry name := by
    have stacked := stacked_same names same stackedParamsMapping (fun mapping member =>
      List.mem_cons_of_mem _ (List.mem_append_left _ (List.mem_map_of_mem member))) name
    have expert := expert_same names same (if isFusedExpert name then fusedExpertParamsMapping else expertParamsMapping model)
      (by
        intro mapping member
        refine List.mem_cons_of_mem _ (List.mem_append_right _ (List.mem_map_of_mem (List.mem_append.mpr ?_)))
        split at member
        · exact .inl member
        · exact .inr member) entry name false
    unfold mainRoute
    rw [stacked]
    simp only [expert,direct_same same entry direct]
  rw [route,route,tied,main]

end

-- What decides whether a shard can be stored: the shapes, and the type of a table pinned in host memory.
inductive Kind where
  | hashk
  | packed (rows width scaleRows scaleWidth : Nat)
  | raw (rows width : Nat) (pinned : Option DType)
  deriving DecidableEq

def kindOf (pinnedHost : Bool) : Storage → Kind
  | .hashk => .hashk
  | .packed bytes scales => .packed bytes.rows bytes.width scales.rows scales.width
  | .raw dtype weight => .raw weight.rows weight.width (if pinnedHost then some dtype else none)

structure Outline where
  orgVocabSize : Nat
  tpStart : Nat
  tpEnd : Nat
  pinnedHost : Bool
  kind : Kind

def outline (emb : Embedding) : Outline :=
  ⟨emb.orgVocabSize,emb.tpStart,emb.tpEnd,emb.pinnedHost,kindOf emb.pinnedHost emb.storage⟩

def Both (related : α → β → Prop) (one : Except ε α) (other : Except δ β) : Prop :=
  (∃ why why', one = .error why ∧ other = .error why') ∨ ∃ a b, one = .ok a ∧ other = .ok b ∧ related a b

theorem both_bind {ε δ : Type} {α β γ η : Type} {related : α → β → Prop} {next : γ → η → Prop}
    {one : Except ε α} {other : Except δ β} {f : α → Except ε γ} {g : β → Except δ η} (first : Both related one other)
    (rest : ∀ a b, related a b → Both next (f a) (g b)) : Both next (one >>= f) (other >>= g) := by
  rcases first with ⟨why,why',left,right⟩ | ⟨a,b,left,right,same⟩
  · rw [left,right]
    exact .inl ⟨why,why',rfl,rfl⟩
  · rw [left,right]
    exact rest a b same

theorem both_refl {ε : Type} {α : Type} (one : Except ε α) : Both (· = ·) one one := by
  cases one with
  | error why => exact .inl ⟨why,why,rfl,rfl⟩
  | ok a => exact .inr ⟨a,a,rfl,rfl,rfl⟩

def BothSome (related : α → β → Prop) (one : Option α) (other : Option β) : Prop :=
  (one = none ∧ other = none) ∨ ∃ a b, one = some a ∧ other = some b ∧ related a b

theorem both_shaped {related : α → β → Prop} {one : Option α} {other : Option β} (both : BothSome related one other) :
    Both related (shaped one) (shaped other) := by
  rcases both with ⟨rfl,rfl⟩ | ⟨a,b,rfl,rfl,same⟩
  · exact .inl ⟨_,_,rfl,rfl⟩
  · exact .inr ⟨a,b,rfl,rfl,same⟩

theorem some_bind {related : α → β → Prop} {next : γ → η → Prop} {one : Option α} {other : Option β}
    {f : α → Option γ} {g : β → Option η} (first : BothSome related one other)
    (rest : ∀ a b, related a b → BothSome next (f a) (g b)) :
    BothSome next (one.bind f) (other.bind g) := by
  rcases first with ⟨rfl,rfl⟩ | ⟨a,b,rfl,rfl,same⟩
  · exact .inl ⟨rfl,rfl⟩
  · exact rest a b same

def Shaped (rows width : Nat) (one other : Tensor V) : Prop :=
  (one.rows = rows ∧ one.width = width) ∧ other.rows = rows ∧ other.width = width

theorem copy_both {rows width : Nat} {one other : Tensor V} (shape : Shaped rows width one other)
    (start count sourceRows sourceWidth : Nat) (entry entry' : Nat → Nat → V) :
    BothSome (Shaped rows width) (one.copyRows start count sourceRows sourceWidth entry)
      (other.copyRows start count sourceRows sourceWidth entry') := by
  obtain ⟨⟨rows_one,width_one⟩,rows_other,width_other⟩ := shape
  unfold Tensor.copyRows
  rw [rows_one,rows_other,width_one,width_other]
  dsimp only
  split
  · exact .inr ⟨_,_,rfl,rfl,⟨rfl,rfl⟩,rfl,rfl⟩
  · exact .inl ⟨rfl,rfl⟩

section
variable (convert : DType → ℚ → ℚ)

theorem rows_both {rows width : Nat} {one other : Tensor ℚ} (shape : Shaped rows width one other) (emb : Embedding)
    (storage : Storage) (dtype dtype' : DType) (loadedWeight : Weight ℚ) (rowStart rowEnd : Nat) :
    BothSome (Shaped rows width) (copyPleRowsToTpEmbedding convert emb dtype one loadedWeight rowStart rowEnd)
      (copyPleRowsToTpEmbedding convert { emb with storage := storage } dtype' other loadedWeight rowStart rowEnd) := by
  unfold copyPleRowsToTpEmbedding
  dsimp only
  split
  · exact copy_both shape ..
  · exact .inr ⟨one,other,rfl,rfl,shape⟩

theorem pack_both {rows width scaleRows scaleWidth : Nat} {one other : Tensor UInt8} {scales scales' : Tensor ℚ}
    (shape : Shaped rows width one other) (shapes : Shaped scaleRows scaleWidth scales scales') (emb : Embedding)
    (storage : Storage) (loadedWeight : Weight ℚ) (empty : Packed) (shardIdx size : Nat) :
    BothSome (fun a b => Shaped rows width a.1 b.1 ∧ Shaped scaleRows scaleWidth a.2 b.2)
      (packPleRows convert emb one scales loadedWeight empty shardIdx size)
      (packPleRows convert { emb with storage := storage } other scales' loadedWeight empty shardIdx size) := by
  unfold packPleRows
  dsimp only
  split
  · refine some_bind (show BothSome (· = ·) _ _ from ?_) ?_
    · cases nvfp4QuantizeRows (convert .float8e4m3fn) _ _ _ 262144 empty with
      | none => exact .inl ⟨rfl,rfl⟩
      | some out => exact .inr ⟨out,out,rfl,rfl,rfl⟩
    · rintro out _ rfl
      refine some_bind (copy_both shape ..) fun bytes bytes' kept => ?_
      refine some_bind (copy_both shapes ..) fun groups groups' kept' => ?_
      exact .inr ⟨_,_,rfl,rfl,kept,kept'⟩
  · exact .inr ⟨_,_,rfl,rfl,shape,shapes⟩

theorem switch_both {rows width : Nat} {one other : Tensor ℚ} (shape : Shaped rows width one other) (emb : Embedding)
    (storage : Storage) (call : Call) (dtype dtype' : DType)
    (pinned : (if emb.pinnedHost then some dtype else none) = if emb.pinnedHost then some dtype' else none) :
    Both (fun a b => Shaped rows width a.2 b.2 ∧ (emb.pinnedHost = true → a.1 = dtype ∧ b.1 = dtype))
      (autoSwitch emb call dtype one) (autoSwitch { emb with storage := storage } call dtype' other) := by
  obtain ⟨⟨rows_one,width_one⟩,rows_other,width_other⟩ := shape
  cases host : emb.pinnedHost with
  | true =>
      rw [host,if_pos rfl,if_pos rfl,Option.some_inj] at pinned
      subst pinned
      unfold autoSwitch
      split
      · exact .inl ⟨_,_,rfl,rfl⟩
      · exact .inr ⟨_,_,rfl,rfl,⟨⟨rows_one,width_one⟩,rows_other,width_other⟩,fun _ => ⟨rfl,rfl⟩⟩
  | false =>
      have stored : ∀ dtype (weight : Tensor ℚ) (emb : Embedding), emb.pinnedHost = false → weight.rows = rows →
          weight.width = width → ∃ switched, autoSwitch emb call dtype weight = .ok switched ∧
            switched.2.rows = rows ∧ switched.2.width = width := by
        intro dtype weight emb host kept wide
        unfold autoSwitch
        split
        · rw [host]
          exact ⟨_,rfl,kept,wide⟩
        · exact ⟨_,rfl,kept,wide⟩
      obtain ⟨a,first,kept,wide⟩ := stored dtype one emb host rows_one width_one
      obtain ⟨b,second,kept',wide'⟩ := stored dtype' other
        { emb with pinnedHost := false, storage := storage } rfl rows_other width_other
      exact .inr ⟨a,b,first,second,⟨⟨kept,wide⟩,kept',wide'⟩,fun pinned => by cases pinned⟩

-- Embeddings of one outline take the same shards and keep the outline.
theorem load_both {emb other : Embedding} (alike : outline emb = outline other) (parts : Nat) (call : Call) (shardIdx : Nat) :
    Both (fun a b => outline { emb with storage := a } = outline emb ∧ outline { other with storage := b } = outline emb)
      (loadRows convert parts emb call shardIdx emb.storage) (loadRows convert parts other call shardIdx other.storage) := by
  obtain ⟨vocab,low,high,pinned,kinds⟩ := Outline.mk.injEq .. ▸ alike
  obtain ⟨V,a,b,host,storage⟩ := emb
  obtain ⟨V',a',b',host',storage'⟩ := other
  dsimp only at vocab low high pinned kinds
  subst vocab low high pinned
  cases storage with
  | hashk =>
      cases storage' with
      | hashk => exact .inr ⟨_,_,rfl,rfl,rfl,rfl⟩
      | packed bytes scales => cases kinds
      | raw dtype weight => cases kinds
  | packed bytes scales =>
      cases storage' with
      | hashk => cases kinds
      | packed bytes' scales' =>
          obtain ⟨rows,width,scaleRows,scaleWidth⟩ := Kind.packed.injEq .. ▸ kinds
          refine both_bind (both_refl _) ?_
          rintro size _ rfl
          refine both_bind (both_shaped (pack_both convert ⟨⟨rfl,rfl⟩,rows.symm,width.symm⟩
            ⟨⟨rfl,rfl⟩,scaleRows.symm,scaleWidth.symm⟩ ⟨V,a,b,host,.packed bytes scales⟩ _ _ _ _ _)) ?_
          rintro filled filled' ⟨⟨⟨r,w⟩,r',w'⟩,⟨sr,sw⟩,sr',sw'⟩
          refine .inr ⟨_,_,rfl,rfl,?_,?_⟩
          · simp only [outline,kindOf,r,w,sr,sw]
          · simp only [outline,kindOf,r',w',sr',sw']
      | raw dtype weight => cases kinds
  | raw dtype weight =>
      cases storage' with
      | hashk => cases kinds
      | packed bytes scales => cases kinds
      | raw dtype' weight' =>
          obtain ⟨rows,width,pinned⟩ := Kind.raw.injEq .. ▸ kinds
          refine both_bind (switch_both ⟨⟨rfl,rfl⟩,rows.symm,width.symm⟩ ⟨V,a,b,host,.raw dtype weight⟩ _ call
            dtype dtype' pinned) ?_
          rintro switched switched' ⟨shape,kept⟩
          refine both_bind (both_refl _) ?_
          rintro size _ rfl
          refine both_bind (both_shaped (rows_both convert shape ⟨V,a,b,host,.raw dtype weight⟩ _ _ _ _ _ _)) ?_
          rintro filled filled' ⟨⟨r,w⟩,r',w'⟩
          refine .inr ⟨_,_,rfl,rfl,?_,?_⟩
          · cases host with
            | false => simp only [outline,kindOf,r,w]; rfl
            | true => simp only [outline,kindOf,r,w,(kept rfl).1]
          · cases host with
            | false => simp only [outline,kindOf,r',w']; rfl
            | true => simp only [outline,kindOf,r',w',(kept rfl).2]

end

theorem insert_or (name : List Char) (listed : List (List Char)) (other : List Char) :
    other ∈ listed.insert name ↔ other ∈ listed ∨ other ∈ List.insert name ([] : List (List Char)) := by
  rw [List.mem_insert_iff,List.mem_insert_iff,or_iff_left (List.not_mem_nil (a := other)),or_comm]

structure Base (initial later : Loader) : Prop where
  params : Same initial initial.paramsDict later.paramsDict
  modules : ∀ p, (later.pleModules p).map outline = (initial.pleModules p).map outline
  parts : later.pleNumSyncShards = initial.pleNumSyncShards

theorem base_refl (initial : Loader) : Base initial initial := ⟨fun _ _ => Iff.rfl,fun _ => rfl,rfl⟩

structure Adds (before one after : Loads) : Prop where
  deliveries : after.deliveries = before.deliveries ++ one.deliveries
  copies : after.copies = before.copies ++ one.copies
  params : ∀ name, name ∈ after.loadedParams ↔ name ∈ before.loadedParams ∨ name ∈ one.loadedParams
  buffers : ∀ name, name ∈ after.loadedBuffers ↔ name ∈ before.loadedBuffers ∨ name ∈ one.loadedBuffers
  shards : ∀ name, name ∈ after.loader.loadedShardParams ↔
    name ∈ before.loader.loadedShardParams ∨ name ∈ one.loader.loadedShardParams
  visual : after.skippedVisualCount = before.skippedVisualCount + one.skippedVisualCount

section
variable {convert : DType → ℚ → ℚ} {model : Model} {initial : Loader} (empty : initial.loadedShardParams = [])

include empty in
theorem adds_nothing (state : Loads) : Adds state (start initial) state := by
  refine ⟨(List.append_nil _).symm,(List.append_nil _).symm,?_,?_,?_,rfl⟩
  · exact fun name => (or_iff_left List.not_mem_nil).symm
  · exact fun name => (or_iff_left List.not_mem_nil).symm
  · intro name
    rw [start,empty]
    exact (or_iff_left List.not_mem_nil).symm

-- Taking a shard, in any state: both refuse, neither takes it, or both store it in the same table.
theorem shard_both {later : Loader} (base : Base initial later) (call : Call) :
    Both (fun a b => a.1 = b.1 ∧ if a.1 then ∃ name, IsTable initial name ∧ Base initial a.2 ∧
        a.2.loadedShardParams = later.loadedShardParams.insert name ∧
        b.2.loadedShardParams = initial.loadedShardParams.insert name else a.2 = later ∧ b.2 = initial)
      (refused (loadQwen4ExpPleShard convert later call)) (refused (loadQwen4ExpPleShard convert initial call)) := by
  have same := base.modules (modPrefix call.name)
  unfold loadQwen4ExpPleShard
  cases contains marker call.name with
  | false => exact .inr ⟨_,_,rfl,rfl,rfl,rfl,rfl⟩
  | true =>
      rw [if_neg (by decide)]
      cases searchShard call.name with
      | none => exact .inr ⟨_,_,rfl,rfl,rfl,rfl,rfl⟩
      | some shardIdx =>
          dsimp only
          cases owner : initial.pleModules (modPrefix call.name) with
          | none =>
              rw [owner,Option.map_none,Option.map_eq_none_iff] at same
              rw [same]
              exact .inr ⟨_,_,rfl,rfl,rfl,rfl,rfl⟩
          | some first =>
              rw [owner,Option.map_some,Option.map_eq_some_iff] at same
              obtain ⟨emb,kept,alike⟩ := same
              rw [kept,base.parts]
              dsimp only
              rcases load_both convert alike initial.pleNumSyncShards call shardIdx with
                ⟨why,why',left,right⟩ | ⟨storage,storage',left,right,outlined,_⟩
              · rw [left,right]
                exact .inl ⟨_,_,rfl,rfl⟩
              · rw [left,right]
                refine .inr ⟨_,_,rfl,rfl,rfl,weightName (modPrefix call.name),⟨_,first,owner,rfl⟩,⟨?_,?_,rfl⟩,rfl,rfl⟩
                · intro name plain
                  rw [base.params name plain]
                  unfold popped
                  have other : name ≠ weightName (modPrefix call.name) := by
                    rintro rfl
                    exact plain ⟨_,first,owner,rfl⟩
                  split
                  · split
                    · exact Iff.rfl
                    · exact ⟨fun member => List.mem_filter.mpr ⟨member,decide_eq_true other⟩,
                        fun member => (List.mem_filter.mp member).1⟩
                  · exact Iff.rfl
                · intro p
                  by_cases own : p = modPrefix call.name
                  · subst own
                    show (Function.update later.pleModules _ _ _).map outline = _
                    rw [Function.update_self,owner,Option.map_some,Option.map_some,outlined,alike]
                  · exact (congrArg (Option.map outline) (Function.update_of_ne own _ _)).trans (base.modules p)

include empty in
theorem entry_both (names : PleNames model initial) {state : Loads} (base : Base initial state.loader) (entry : Entry) :
    Both (fun after one => Adds state one after ∧ Base initial after.loader) (loadEntry convert model state entry)
      (loadEntry convert model (start initial) entry) := by
  have nothing := adds_nothing empty state
  unfold loadEntry
  cases reading model entry.call.name with
  | skip => exact .inr ⟨_,_,rfl,rfl,nothing,base⟩
  | visual =>
      refine .inr ⟨_,_,rfl,rfl,⟨nothing.deliveries,nothing.copies,nothing.params,nothing.buffers,nothing.shards,?_⟩,base⟩
      rfl
  | named name =>
      show Both _ (loadNamed convert model state entry name) (loadNamed convert model (start initial) entry name)
      unfold loadNamed
      refine both_bind (both_refl _) ?_
      rintro buffer _ rfl
      cases buffer with
      | some copied =>
          cases copied with
          | false => exact .inr ⟨_,_,rfl,rfl,nothing,base⟩
          | true =>
              refine .inr ⟨_,_,rfl,rfl,⟨nothing.deliveries,rfl,nothing.params,?_,nothing.shards,rfl⟩,base⟩
              exact insert_or name state.loadedBuffers
      | none =>
          refine both_bind (shard_both base { entry.call with name := name }) ?_
          rintro ⟨taken,next⟩ ⟨taken',next'⟩ ⟨same,parts⟩
          dsimp only at same parts
          subst same
          cases taken with
          | true =>
              obtain ⟨table,_,kept,listed,listed'⟩ := parts
              refine .inr ⟨_,_,rfl,rfl,⟨nothing.deliveries,nothing.copies,nothing.params,nothing.buffers,?_,rfl⟩,kept⟩
              intro other
              show other ∈ next.loadedShardParams ↔ _ ∨ other ∈ next'.loadedShardParams
              rw [listed,listed',empty]
              exact insert_or table _ other
          | false =>
              cases apart : pleLayout name with
              | true => exact .inl ⟨_,_,rfl,rfl⟩
              | false =>
                  have routed := route_same names base.params entry apart
                  show Both _ (route model state.loader.paramsDict entry name >>= _)
                    (route model initial.paramsDict entry name >>= _)
                  rw [← routed]
                  refine both_bind (both_refl _) ?_
                  rintro outcome _ rfl
                  refine .inr ⟨_,_,rfl,rfl,⟨rfl,nothing.copies,?_,nothing.buffers,nothing.shards,rfl⟩,base⟩
                  intro other
                  cases outcome.loaded with
                  | none => exact nothing.params other
                  | some loaded => exact insert_or loaded state.loadedParams other

def alone (convert : DType → ℚ → ℚ) (model : Model) (initial : Loader) (entry : Entry) : Loads :=
  match loadEntry convert model (start initial) entry with
  | .ok one => one
  | .error _ => start initial

structure Sums (convert : DType → ℚ → ℚ) (model : Model) (initial : Loader) (before : Loads) (entries : List Entry)
    (after : Loads) : Prop where
  deliveries : after.deliveries =
    before.deliveries ++ entries.flatMap fun entry => (alone convert model initial entry).deliveries
  copies : after.copies = before.copies ++ entries.flatMap fun entry => (alone convert model initial entry).copies
  params : ∀ name, name ∈ after.loadedParams ↔ name ∈ before.loadedParams ∨
    ∃ entry ∈ entries, name ∈ (alone convert model initial entry).loadedParams
  buffers : ∀ name, name ∈ after.loadedBuffers ↔ name ∈ before.loadedBuffers ∨
    ∃ entry ∈ entries, name ∈ (alone convert model initial entry).loadedBuffers
  shards : ∀ name, name ∈ after.loader.loadedShardParams ↔ name ∈ before.loader.loadedShardParams ∨
    ∃ entry ∈ entries, name ∈ (alone convert model initial entry).loader.loadedShardParams
  visual : after.skippedVisualCount = before.skippedVisualCount +
    (entries.map fun entry => (alone convert model initial entry).skippedVisualCount).sum

theorem sums_nil (state : Loads) : Sums convert model initial state [] state :=
  ⟨(List.append_nil _).symm,(List.append_nil _).symm,by simp,by simp,by simp,rfl⟩

theorem sums_cons {before middle after : Loads} {entry : Entry} {entries : List Entry}
    (first : Adds before (alone convert model initial entry) middle)
    (rest : Sums convert model initial middle entries after) : Sums convert model initial before (entry :: entries) after := by
  refine ⟨?_,?_,?_,?_,?_,?_⟩
  · rw [rest.deliveries,first.deliveries,List.flatMap_cons,List.append_assoc]
  · rw [rest.copies,first.copies,List.flatMap_cons,List.append_assoc]
  · intro name
    rw [rest.params,first.params,List.exists_mem_cons_iff,or_assoc]
  · intro name
    rw [rest.buffers,first.buffers,List.exists_mem_cons_iff,or_assoc]
  · intro name
    rw [rest.shards,first.shards,List.exists_mem_cons_iff,or_assoc]
  · rw [rest.visual,first.visual,List.map_cons,List.sum_cons,Nat.add_assoc]

include empty in
theorem run_both (names : PleNames model initial) (entries : List Entry) {state : Loads} (base : Base initial state.loader) :
    ((∃ after, entries.foldlM (loadEntry convert model) state = .ok after) ↔
      ∀ entry ∈ entries, ∃ one, loadEntry convert model (start initial) entry = .ok one) ∧
    ∀ after, entries.foldlM (loadEntry convert model) state = .ok after → Sums convert model initial state entries after := by
  induction entries generalizing state with
  | nil =>
      refine ⟨⟨fun _ entry member => by simp at member,fun _ => ⟨state,rfl⟩⟩,?_⟩
      intro after ran
      cases ran
      exact sums_nil state
  | cons entry entries ih =>
      rcases entry_both empty names base entry with ⟨why,why',left,right⟩ | ⟨middle,one,left,right,adds,later⟩
      · refine ⟨⟨?_,?_⟩,?_⟩
        · rintro ⟨after,ran⟩
          rw [List.foldlM_cons,left] at ran
          cases ran
        · intro each
          obtain ⟨one,ran⟩ := each entry List.mem_cons_self
          cases right.symm.trans ran
        · intro after ran
          rw [List.foldlM_cons,left] at ran
          cases ran
      · obtain ⟨through,sums⟩ := ih later
        have rest : (entry :: entries).foldlM (loadEntry convert model) state =
            entries.foldlM (loadEntry convert model) middle := by
          rw [List.foldlM_cons,left]
          rfl
        rw [rest,through]
        refine ⟨⟨?_,?_⟩,?_⟩
        · intro each other member
          rcases List.mem_cons.mp member with rfl | inside
          · exact ⟨one,right⟩
          · exact each other inside
        · exact fun each other member => each other (List.mem_cons_of_mem _ member)
        · intro after ran
          have own : alone convert model initial entry = one := by rw [alone,right]
          exact sums_cons (own.symm ▸ adds) (sums after ran)

include empty in
-- In whatever order a checkpoint yields its entries, loading goes through or not alike, makes the same weight loader calls
-- and buffer copies, and returns the same names.
theorem load_order_free (names : PleNames model initial) {weights others : List Entry} (perm : weights.Perm others)
    {state : Loads} (ran : loadWeights convert model initial weights = .ok state) : ∃ other,
      loadWeights convert model initial others = .ok other ∧ state.deliveries.Perm other.deliveries ∧
      state.copies.Perm other.copies ∧ (∀ name, name ∈ state.names ↔ name ∈ other.names) ∧
      state.skippedVisualCount = other.skippedVisualCount := by
  obtain ⟨through,sums⟩ : _ ∧ ∀ after, loadWeights convert model initial weights = .ok after → _ :=
    run_both empty names weights (base_refl initial)
  obtain ⟨through',sums'⟩ : _ ∧ ∀ after, loadWeights convert model initial others = .ok after → _ :=
    run_both empty names others (base_refl initial)
  have each := through.mp ⟨state,ran⟩
  obtain ⟨other,ran'⟩ := through'.mpr fun entry member => each entry (perm.mem_iff.mpr member)
  have one := sums state ran
  have two := sums' other ran'
  refine ⟨other,ran',?_,?_,?_,?_⟩
  · rw [one.deliveries,two.deliveries]
    exact List.Perm.append_left _ (perm.flatMap_right _)
  · rw [one.copies,two.copies]
    exact List.Perm.append_left _ (perm.flatMap_right _)
  · intro name
    simp only [Loads.names,List.mem_append,one.params,two.params,one.buffers,two.buffers,one.shards,two.shards,
      perm.mem_iff]
  · rw [one.visual,two.visual]
    exact congrArg _ (perm.map _).sum_eq

end

theorem layer_names : PleNames layerModel layerLoader := by
  have own : ∀ p emb, layerLoader.pleModules p = some emb → p = layerOwner := by
    intro p emb owner
    change (if p = layerOwner then some _ else none) = some emb at owner
    by_contra other
    rw [if_neg other] at owner
    cases owner
  refine ⟨?_,?_⟩
  · intro p emb owner
    rw [own p emb owner]
    decide
  · intro p emb owner
    rw [own p emb owner]
    decide

-- The shard first: its table's name is gone from the parameters before the other entries are routed.
theorem layer_order : ∃ state other, loadWeights (fun _ x => x) layerModel layerLoader layerWeights = .ok state ∧
    loadWeights (fun _ x => x) layerModel layerLoader layerWeights.reverse = .ok other ∧
      state.deliveries.Perm other.deliveries ∧ ∀ name, name ∈ state.names ↔ name ∈ other.names := by
  obtain ⟨state,ran,_⟩ := layer_ran
  obtain ⟨other,again,deliveries,_,names,_⟩ := load_order_free rfl layer_names (List.reverse_perm layerWeights).symm ran
  exact ⟨state,other,ran,again,deliveries,names⟩

end OneSpark.WeightOrders
