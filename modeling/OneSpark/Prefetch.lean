import OneSpark.Streams

namespace OneSpark.Prefetch
open Streams

inductive Raised where
  | runtime (message : String)
  deriving DecidableEq

-- _prefetch_state: the block that is being filled, and the token counts of the lookup.
structure Pending where
  prefetched : Nat
  lookupTokens : Nat
  deriving DecidableEq

structure Buffer where
  address : Nat
  rows : Nat

-- What Qwen4ExpPLELayer keeps between calls.
structure Layer where
  graphPrefetchBuffers : Nat → Option Nat
  eagerPrefetchBuffer : Option Buffer
  prefetchState : Option Pending

def Layer.fresh : Layer := ⟨fun _ => none,none,none⟩

-- The host's side: the layers, the blocks the caching allocator has given out, and the lookup ids it keeps for a layer's
-- stream (record_stream).
structure Host where
  layers : Nat → Layer
  recorded : Nat → Option Nat
  live : List Nat

def Host.fresh : Host := ⟨fun _ => .fresh,fun _ => none,[]⟩

-- What a forward asks for: an idle batch has no PLE batch, and without a DP gather nothing to look up.
structure Shape where
  idle : Bool
  lookupTokens : Option Nat
  looks : idle = false → lookupTokens.isSome

inductive Content (I E : Type) where
  | ids (id : Nat → I)
  | rows (row : Nat → E)

def Content.id [Inhabited I] : Content I E → Nat → I
  | .ids id => id
  | .rows _ => fun _ => default

def Content.row [Inhabited E] : Content I E → Nat → E
  | .ids _ => fun _ => default
  | .rows row => row

-- The tensors of the PLE batch, everything else the model keeps, and the blocks of memory.
inductive Cell where
  | batch
  | hidden
  | block (address : Nat)
  deriving DecidableEq

def Value (B H I E : Type) : Cell → Type
  | .batch => B
  | .hidden => H
  | .block _ => Content I E

abbrev Memory (B H I E : Type) := ∀ cell, Value B H I E cell

-- What the device computes: the batch from the inputs, a layer's lookup ids from the batch, the row of an id, and what a
-- PLE layer, the rest of a decoder layer and _commit_ple_batch do.
structure Network (B H I E : Type) where
  prepare : H → B × H
  ids : Nat → B → Nat → I
  row : Nat → I → E
  ple : Nat → List E → B → H → H
  body : Nat → B → H → H
  commit : B → H → H

section
variable {B H I E : Type} [Inhabited I] [Inhabited E]

def Memory.blockAt (memory : Memory B H I E) (address : Nat) : Content I E := memory (.block address)

def Network.rows (net : Network B H I E) (layer : Nat) (n : Nat) (batch : B) : List E :=
  (List.range n).map fun t => net.row layer (net.ids layer batch t)

-- A PLE layer without prefetch; an idle batch joins in the lookup and drops what it gives.
def Network.lookup (net : Network B H I E) (shape : Shape) (layer : Nat) (batch : B) (hidden : H) : H :=
  match shape.idle,shape.lookupTokens with
  | false,some n => net.ple layer (net.rows layer n batch) batch hidden
  | _,_ => hidden

def Network.layers (net : Network B H I E) (shape : Shape) (batch : B) : Nat → List Bool → H → H
  | _,[],hidden => hidden
  | i,ple :: rest,hidden =>
      net.layers shape batch (i + 1) rest (net.body i batch (if ple then net.lookup shape i batch hidden else hidden))

def Network.forward (net : Network B H I E) (shape : Shape) (ples : List Bool) (hidden : H) : H :=
  let (batch,hidden) := net.prepare hidden
  net.commit batch (net.layers shape batch 0 ples hidden)

-- Work of the current stream: it may read one block besides the model's own state, and leaves `contents` in the blocks
-- it writes.
def modelWork (source : Option Nat) (scratch : List Nat) (contents : B → Nat → Content I E)
    (f : Option (Content I E) → B → H → B × H) : Work (Value B H I E) where
  reads := { cell | cell = .batch ∨ cell = .hidden ∨ ∃ a, source = some a ∧ cell = .block a }
  writes := { cell | cell = .batch ∨ cell = .hidden ∨ ∃ a ∈ scratch, cell = .block a }
  effect := fun memory cell =>
    let next := f (source.map fun a => memory (.block a)) (memory .batch) (memory .hidden)
    match cell with
    | .batch => next.1
    | .hidden => next.2
    | .block a => if a ∈ scratch then contents (memory .batch) a else memory (.block a)
  frame := by
    intro memory cell outside
    cases cell with
    | batch => exact absurd (.inl rfl) outside
    | hidden => exact absurd (.inr (.inl rfl)) outside
    | block a => exact if_neg fun inside => outside (.inr (.inr ⟨a,inside,rfl⟩))
  known := by
    intro memory other same cell inside
    have batch : memory .batch = other .batch := same _ (.inl rfl)
    have hidden : memory .hidden = other .hidden := same _ (.inr (.inl rfl))
    have block : (source.map fun a => memory (.block a)) = source.map fun a => other (.block a) := by
      cases source with
      | none => rfl
      | some a => exact congrArg some (same _ (.inr (.inr ⟨a,rfl,rfl⟩)))
    rcases inside with rfl | rfl | ⟨a,member,rfl⟩
    · exact congrArg Prod.fst (by rw [block,batch,hidden])
    · exact congrArg Prod.snd (by rw [block,batch,hidden])
    · exact (if_pos member).trans ((congrArg (contents · a) batch).trans (if_pos member).symm)

-- offloaded_embedding.gather(lookup_ids,out=output_view) on the prefetch stream
def gatherWork (net : Network B H I E) (layer ids buffer n : Nat) : Work (Value B H I E) where
  reads := { cell | cell = .block ids ∨ cell = .block buffer }
  writes := { cell | cell = .block buffer }
  effect := fun memory cell =>
    match cell with
    | .batch => memory .batch
    | .hidden => memory .hidden
    | .block a => if a = buffer then .rows fun t =>
        if t < n then net.row layer ((Memory.blockAt memory ids).id t) else (Memory.blockAt memory buffer).row t
      else memory (.block a)
  frame := by
    intro memory cell outside
    cases cell with
    | batch => rfl
    | hidden => rfl
    | block a => exact if_neg fun same => outside (congrArg Cell.block same)
  known := by
    rintro memory other same cell rfl
    have ids : Memory.blockAt memory ids = Memory.blockAt other ids := same _ (.inl rfl)
    have old : Memory.blockAt memory buffer = Memory.blockAt other buffer := same _ (.inr rfl)
    refine (if_pos rfl).trans (Eq.trans ?_ (if_pos rfl).symm)
    rw [ids,old]

theorem model_apart (net : Network B H I E) (layer ids buffer n : Nat) (source : Option Nat) (scratch : List Nat)
    (contents : B → Nat → Content I E) (f : Option (Content I E) → B → H → B × H) (kept : ids ∉ scratch) (held : buffer ∉ scratch)
    (other : source ≠ some buffer) : Apart (gatherWork net layer ids buffer n) (modelWork source scratch contents f) := by
  refine ⟨Set.disjoint_left.mpr ?_,Set.disjoint_left.mpr ?_,Set.disjoint_left.mpr ?_⟩
  · rintro cell rfl (same | same | ⟨a,named,same⟩)
    · cases same
    · cases same
    · cases same
      exact other named
  · rintro cell (rfl | rfl) (same | same | ⟨a,inside,same⟩) <;> cases same
    · exact kept inside
    · exact held inside
  · rintro cell rfl (same | same | ⟨a,inside,same⟩) <;> cases same
    exact held inside

theorem gather_apart (net : Network B H I E) (layer ids buffer n layer' ids' buffer' n' : Nat) (blocks : buffer ≠ buffer')
    (first : buffer ≠ ids') (second : ids ≠ buffer') :
    Apart (gatherWork net layer ids buffer n) (gatherWork net layer' ids' buffer' n') := by
  refine ⟨Set.disjoint_left.mpr ?_,Set.disjoint_left.mpr ?_,Set.disjoint_left.mpr ?_⟩
  · rintro cell rfl (same | same) <;> cases same
    · exact first rfl
    · exact blocks rfl
  · rintro cell (rfl | rfl) same <;> cases same
    · exact second rfl
    · exact blocks rfl
  · rintro cell rfl same
    cases same
    exact blocks rfl

end

-- What the allocator does at a call: the streams it has seen finish, the blocks it gives out and what the temporary ones
-- are left with.
structure Choice (B I E : Type) where
  seen : List Nat
  ids : Nat
  buffer : Nat
  scratch : List Nat
  contents : B → Nat → Content I E

-- The event behind a layer's lookup ids is done: their block can be given out again.
def Host.release (host : Host) (layer : Nat) : Host :=
  match host.recorded layer with
  | some a => { host with recorded := Function.update host.recorded layer none, live := host.live.filter fun b => b ≠ a }
  | none => host

def Host.withLayer (host : Host) (layer : Nat) (own : Layer) (live : List Nat) : Host :=
  ⟨Function.update host.layers layer own,host.recorded,live⟩

def Host.withState (host : Host) (layer : Nat) (state : Option Pending) : Host :=
  host.withLayer layer { host.layers layer with prefetchState := state } host.live

-- lookup_ids.record_stream
def Host.record (host : Host) (layer ids : Nat) : Host :=
  { host with recorded := Function.update host.recorded layer (some ids), live := ids :: host.live }

-- While a graph is captured the allocator looks at no events.
def Host.observe (host : Host) (capture : Bool) (seen : List Nat) : Host :=
  if capture then host else seen.foldl Host.release host

structure Choice.Fresh (host : Host) (capture : Bool) (choice : Choice B I E) : Prop where
  ids : choice.ids ∉ (host.observe capture choice.seen).live
  buffer : choice.buffer ∉ (host.observe capture choice.seen).live
  apart : choice.buffer ≠ choice.ids
  scratch : ∀ a ∈ choice.scratch, a ∉ (host.observe capture choice.seen).live

inductive Site where
  | start | ple | body
  deriving DecidableEq

-- A caching allocator: it never gives out a block that is still held.
structure Allocator (B I E : Type) where
  choose : Site → Nat → Bool → Host → Choice B I E
  fresh : ∀ site layer capture host, (choose site layer capture host).Fresh host capture

def takeBuffer (capture : Bool) (layer : Layer) (live : List Nat) (lookupTokens allocated : Nat) : Nat × Layer × List Nat :=
  if capture then
    match layer.graphPrefetchBuffers lookupTokens with
    | some buffer => (buffer,layer,live)
    | none =>
        let buffers := Function.update layer.graphPrefetchBuffers lookupTokens (some allocated)
        (allocated,{ layer with graphPrefetchBuffers := buffers },allocated :: live)
  else
    match layer.eagerPrefetchBuffer.filter fun buffer => decide (lookupTokens ≤ buffer.rows) with
    | some buffer => (buffer.address,layer,live)
    | none => (allocated,{ layer with eagerPrefetchBuffer := some ⟨allocated,lookupTokens⟩ },
        allocated :: live.filter fun a => layer.eagerPrefetchBuffer.all fun old => decide (a ≠ old.address))

def getPrefetchBuffer (capture : Bool) (layer : Nat) (host : Host) (lookupTokens allocated : Nat) : Nat × Host :=
  let (buffer,own,live) := takeBuffer capture (host.layers layer) host.live lookupTokens allocated
  (buffer,host.withLayer layer own live)

def notConsumed : Raised := .runtime "PLE prefetch state was not consumed before reuse"
def missing : Raised := .runtime "PLE prefetch state is missing"

section
variable {B H I E : Type} [Inhabited I] [Inhabited E] (net : Network B H I E) (alloc : Allocator B I E)
  (prefetching capture : Bool) (shape : Shape)

abbrev Commands (B H I E : Type) := List (Command (Option Nat) (Value B H I E))

def observing (capture : Bool) (seen : List Nat) : Commands B H I E :=
  if capture then [] else seen.map fun layer => .observe (some layer)

def idsWork (layer : Nat) (choice : Choice B I E) : Work (Value B H I E) :=
  modelWork none (choice.ids :: choice.scratch)
    (fun batch a => if a = choice.ids then .ids (net.ids layer batch) else choice.contents batch a)
      fun _ batch hidden => (batch,hidden)

-- start_prefetch; the streams are those of the layers, and `none` is the current stream.
def startPrefetch (layer : Nat) (host : Host) : Except Raised (Host × Commands B H I E) :=
  if prefetching = false then .ok (host,[])
  else if (host.layers layer).prefetchState ≠ none then .error notConsumed
  else
    match shape.lookupTokens with
    | none => .ok (host,[])
    | some n =>
        let choice := alloc.choose .start layer capture host
        let host := host.observe capture choice.seen
        let before := observing capture choice.seen ++ [.run none (idsWork net layer choice)]
        if n = 0 then .ok (host,before)
        else
          let (buffer,host) := getPrefetchBuffer capture layer host n choice.buffer
          .ok ((host.record layer choice.ids).withState layer (some ⟨buffer,n⟩),
            before ++ [.wait (some layer) none,.run (some layer) (gatherWork net layer choice.ids buffer n)])

-- What a PLE layer makes of the embeddings in a block; an idle batch drops them.
def consumed (layer n : Nat) (content : Option (Content I E)) (batch : B) (hidden : H) : B × H :=
  (batch,if shape.idle then hidden
    else net.ple layer ((List.range n).map fun t => (content.elim default Content.row) t) batch hidden)

-- _consume_prefetched_embeddings and what the layer does with them; the reduction may be in place.
def consumePrefetchedEmbeddings (layer : Nat) (choice : Choice B I E) (host : Host) : Except Raised (Host × Commands B H I E) :=
  match (host.layers layer).prefetchState with
  | none => .error missing
  | some pending =>
      .ok ((host.release layer).withState layer none,
        [.wait none (some layer),.run none (modelWork (some pending.prefetched) (pending.prefetched :: choice.scratch)
          choice.contents (consumed net shape layer pending.lookupTokens))])

-- The PLE layer of a decoder layer: forward, or forward_idle.
def runPle (layer : Nat) (host : Host) : Except Raised (Host × Commands B H I E) := do
  let choice := alloc.choose .ple layer capture host
  let host := host.observe capture choice.seen
  let before := observing capture choice.seen
  if (host.layers layer).prefetchState ≠ none then
    let (host,ran) ← consumePrefetchedEmbeddings net shape layer choice host
    return (host,before ++ ran)
  else
    return (host,before ++ [.run none (modelWork none choice.scratch choice.contents fun _ batch hidden =>
      (batch,net.lookup shape layer batch hidden))])

def runBody (layer : Nat) (host : Host) : Host × Commands B H I E :=
  let choice := alloc.choose .body layer capture host
  (host.observe capture choice.seen,observing capture choice.seen ++
    [.run none (modelWork none choice.scratch choice.contents fun _ batch hidden => (batch,net.body layer batch hidden))])

-- next_ple of Qwen4ExpModel.forward, and the ple of the layer itself
def startNext (next : Bool) (layer : Nat) (host : Host) : Except Raised (Host × Commands B H I E) :=
  if next then startPrefetch net alloc prefetching capture shape layer host else .ok (host,[])

def runOwn (ple : Bool) (layer : Nat) (host : Host) : Except Raised (Host × Commands B H I E) :=
  if ple then runPle net alloc capture shape layer host else .ok (host,[])

def runLayers : Nat → List Bool → Host → Except Raised (Host × Commands B H I E)
  | _,[],host => .ok (host,[])
  | i,ple :: rest,host => do
      let (host,started) ← startNext net alloc prefetching capture shape (rest.head? == some true) (i + 1) host
      let (host,looked) ← runOwn net alloc capture shape ple i host
      let (host,ran) := runBody net alloc capture i host
      let (host,more) ← runLayers (i + 1) rest host
      return (host,started ++ looked ++ ran ++ more)

def forward (ples : List Bool) (host : Host) : Except Raised (Host × Commands B H I E) := do
  let (host,ran) ← runLayers net alloc prefetching capture shape 0 ples host
  return (host,[.run none (modelWork none [] (fun _ _ => .rows default) fun _ _ hidden => net.prepare hidden)] ++ ran ++
    [.run none (modelWork none [] (fun _ _ => .rows default) fun _ batch hidden => (batch,net.commit batch hidden))])

end

inductive Owner where
  | eager (layer : Nat)
  | graph (layer lookupTokens : Nat)
  | ids (layer : Nat)

def Host.Holds (host : Host) : Owner → Nat → Prop
  | .eager layer,a => ∃ rows, (host.layers layer).eagerPrefetchBuffer = some ⟨a,rows⟩
  | .graph layer lookupTokens,a => (host.layers layer).graphPrefetchBuffers lookupTokens = some a
  | .ids layer,a => host.recorded layer = some a

-- Every held block is one owner's, the allocator counts it as given out, and a pending lookup fills a block of its layer.
structure Sound (host : Host) : Prop where
  live : ∀ owner a, host.Holds owner a → a ∈ host.live
  once : ∀ owner other a, host.Holds owner a → host.Holds other a → owner = other
  pending : ∀ layer p, (host.layers layer).prefetchState = some p →
    host.Holds (.eager layer) p.prefetched ∨ ∃ n, host.Holds (.graph layer n) p.prefetched

theorem release_layers (host : Host) (layer : Nat) : (host.release layer).layers = host.layers := by
  unfold Host.release
  split <;> rfl

theorem release_recorded (host : Host) (layer other : Nat) :
    (host.release layer).recorded other = if other = layer then none else host.recorded other := by
  unfold Host.release
  split
  · exact Function.update_apply ..
  · rename_i none
    split
    · rename_i same
      rw [same,none]
    · rfl

theorem release_holds (host : Host) (layer : Nat) (owner : Owner) (a : Nat) (holds : (host.release layer).Holds owner a) :
    host.Holds owner a ∧ owner ≠ .ids layer := by
  cases owner with
  | eager other =>
      rw [Host.Holds,release_layers] at holds
      exact ⟨holds,fun same => by cases same⟩
  | graph other n =>
      rw [Host.Holds,release_layers] at holds
      exact ⟨holds,fun same => by cases same⟩
  | ids other =>
      rw [Host.Holds,release_recorded] at holds
      split at holds
      · cases holds
      · rename_i apart
        exact ⟨holds,fun same => apart (Owner.ids.inj same)⟩

theorem release_sound (host : Host) (sound : Sound host) (layer : Nat) : Sound (host.release layer) := by
  refine ⟨?_,?_,?_⟩
  · intro owner a holds
    obtain ⟨held,other⟩ := release_holds host layer owner a holds
    have live := sound.live owner a held
    unfold Host.release
    split
    · rename_i b recorded
      refine List.mem_filter.mpr ⟨live,decide_eq_true fun same => other ?_⟩
      exact sound.once owner (.ids layer) a held (same ▸ recorded)
    · exact live
  · intro owner other a holds also
    exact sound.once owner other a (release_holds host layer owner a holds).1 (release_holds host layer other a also).1
  · intro other p state
    rw [release_layers] at state
    rcases sound.pending other p state with own | ⟨n,own⟩
    · refine .inl ?_
      rw [Host.Holds,release_layers]
      exact own
    · refine .inr ⟨n,?_⟩
      rw [Host.Holds,release_layers]
      exact own

theorem withLayer_self (host : Host) (layer : Nat) (own : Layer) (live : List Nat) :
    (host.withLayer layer own live).layers layer = own := Function.update_self ..

theorem withLayer_other (host : Host) (layer : Nat) (own : Layer) (live : List Nat) (other : Nat) (apart : other ≠ layer) :
    (host.withLayer layer own live).layers other = host.layers other := Function.update_of_ne apart ..

theorem field_kept (field : Layer → α) (host : Host) (layer : Nat) (own : Layer) (live : List Nat)
    (same : field own = field (host.layers layer)) (other : Nat) :
    field ((host.withLayer layer own live).layers other) = field (host.layers other) := by
  by_cases equal : other = layer
  · rw [equal,withLayer_self,same]
  · rw [withLayer_other _ _ _ _ _ equal]

theorem observe_layers (host : Host) (capture : Bool) (seen : List Nat) : (host.observe capture seen).layers = host.layers := by
  cases capture with
  | true => rfl
  | false =>
      show (seen.foldl Host.release host).layers = host.layers
      induction seen generalizing host with
      | nil => rfl
      | cons layer seen ih => exact (ih (host.release layer)).trans (release_layers host layer)

theorem withState_own (host : Host) (layer : Nat) (state : Option Pending) :
    ((host.withState layer state).layers layer).prefetchState = state := congrArg Layer.prefetchState (withLayer_self ..)

theorem withState_other (host : Host) (layer : Nat) (state : Option Pending) (other : Nat) (apart : other ≠ layer) :
    (host.withState layer state).layers other = host.layers other := Function.update_of_ne apart ..

theorem withState_holds (host : Host) (layer : Nat) (state : Option Pending) (owner : Owner) (a : Nat) :
    (host.withState layer state).Holds owner a ↔ host.Holds owner a := by
  cases owner with
  | eager other =>
      rw [Host.Holds,Host.Holds,Host.withState,field_kept Layer.eagerPrefetchBuffer]
      rfl
  | graph other n =>
      rw [Host.Holds,Host.Holds,Host.withState,field_kept Layer.graphPrefetchBuffers]
      rfl
  | ids other => exact Iff.rfl

theorem buffer_parts (host : Host) (sound : Sound host) (capture : Bool) (layer n allocated : Nat) (buffer : Nat) (after : Host)
    (got : getPrefetchBuffer capture layer host n allocated = (buffer,after)) :
    (∃ place, (place = .eager layer ∨ ∃ m, place = .graph layer m) ∧ ∀ owner a, after.Holds owner a →
      a ∈ after.live ∧ (a = allocated ∧ owner = place ∨ host.Holds owner a)) ∧
    (after.Holds (.eager layer) buffer ∨ ∃ m, after.Holds (.graph layer m) buffer) ∧
    (∀ other, other ≠ layer → after.layers other = host.layers other) ∧ after.recorded = host.recorded := by
  unfold getPrefetchBuffer takeBuffer at got
  cases capture with
  | true =>
      cases found : (host.layers layer).graphPrefetchBuffers n with
      | some old =>
          simp only [if_true,found] at got
          have same : host.withLayer layer (host.layers layer) host.live = host := by
            rw [Host.withLayer,Function.update_eq_self]
          rw [same] at got
          cases got
          exact ⟨⟨.eager layer,.inl rfl,fun owner a holds => ⟨sound.live owner a holds,.inr holds⟩⟩,.inr ⟨n,found⟩,
            fun _ _ => rfl,rfl⟩
      | none =>
          simp only [if_true,found] at got
          cases got
          refine ⟨⟨.graph layer n,.inr ⟨n,rfl⟩,?_⟩,.inr ⟨n,?_⟩,?_,rfl⟩
          · intro owner a holds
            cases owner with
            | eager other =>
                rw [Host.Holds,field_kept Layer.eagerPrefetchBuffer] at holds
                · exact ⟨List.mem_cons_of_mem _ (sound.live (.eager other) a holds),.inr holds⟩
                · rfl
            | ids other => exact ⟨List.mem_cons_of_mem _ (sound.live (.ids other) a holds),.inr holds⟩
            | graph other m =>
                by_cases equal : other = layer
                · subst equal
                  rw [Host.Holds,withLayer_self] at holds
                  change Function.update _ n _ m = _ at holds
                  by_cases new : m = n
                  · rw [new,Function.update_self] at holds
                    cases holds
                    exact ⟨List.mem_cons_self,.inl ⟨rfl,by rw [new]⟩⟩
                  · rw [Function.update_of_ne new] at holds
                    exact ⟨List.mem_cons_of_mem _ (sound.live (.graph other m) a holds),.inr holds⟩
                · rw [Host.Holds,withLayer_other _ _ _ _ _ equal] at holds
                  exact ⟨List.mem_cons_of_mem _ (sound.live (.graph other m) a holds),.inr holds⟩
          · rw [Host.Holds,withLayer_self]
            exact Function.update_self ..
          · exact withLayer_other host layer _ _
  | false =>
      cases found : (host.layers layer).eagerPrefetchBuffer.filter fun buffer => decide (n ≤ buffer.rows) with
      | some old =>
          simp only [Bool.false_eq_true,if_false,found] at got
          have same : host.withLayer layer (host.layers layer) host.live = host := by
            rw [Host.withLayer,Function.update_eq_self]
          rw [same] at got
          cases got
          refine ⟨⟨.eager layer,.inl rfl,fun owner a holds => ⟨sound.live owner a holds,.inr holds⟩⟩,.inl ⟨old.rows,?_⟩,
            fun _ _ => rfl,rfl⟩
          exact (Option.filter_eq_some_iff.mp found).1
      | none =>
          simp only [Bool.false_eq_true,if_false,found] at got
          cases got
          refine ⟨⟨.eager layer,.inl rfl,?_⟩,.inl ⟨n,?_⟩,?_,rfl⟩
          · intro owner a holds
            have old_live : owner ≠ .eager layer → host.Holds owner a → a ∈ allocated :: host.live.filter fun b =>
                (host.layers layer).eagerPrefetchBuffer.all fun old => decide (b ≠ old.address) := by
              intro away held
              refine List.mem_cons_of_mem _ (List.mem_filter.mpr ⟨sound.live owner a held,?_⟩)
              cases kept : (host.layers layer).eagerPrefetchBuffer with
              | none => rfl
              | some old =>
                  refine decide_eq_true fun same => away ?_
                  exact sound.once owner (.eager layer) a held ⟨old.rows,by rw [kept,same]⟩
            cases owner with
            | ids other => exact ⟨old_live (by rintro ⟨⟩) holds,.inr holds⟩
            | graph other m =>
                rw [Host.Holds,field_kept Layer.graphPrefetchBuffers] at holds
                · exact ⟨old_live (by rintro ⟨⟩) holds,.inr holds⟩
                · rfl
            | eager other =>
                by_cases equal : other = layer
                · subst equal
                  rw [Host.Holds,withLayer_self] at holds
                  obtain ⟨rows,same⟩ := holds
                  cases same
                  exact ⟨List.mem_cons_self,.inl ⟨rfl,rfl⟩⟩
                · rw [Host.Holds,withLayer_other _ _ _ _ _ equal] at holds
                  exact ⟨old_live (fun same => equal (Owner.eager.inj same)) holds,.inr holds⟩
          · rw [withLayer_self]
          · exact withLayer_other host layer _ _

-- The host with a lookup under way: its ids' block and the one it fills are apart from all the others.
theorem lookup_sound (host : Host) (sound : Sound host) (capture : Bool) (layer n allocated ids buffer : Nat) (after : Host)
    (got : getPrefetchBuffer capture layer host n allocated = (buffer,after)) (newIds : ids ∉ host.live)
    (newBlock : allocated ∉ host.live) (apart : allocated ≠ ids) :
    Sound ((after.record layer ids).withState layer (some ⟨buffer,n⟩)) := by
  obtain ⟨⟨place,kind,places⟩,own,others,recorded⟩ := buffer_parts host sound capture layer n allocated buffer after got
  have parts : ∀ owner a, ((after.record layer ids).withState layer (some ⟨buffer,n⟩)).Holds owner a →
      owner = .ids layer ∧ a = ids ∨ a ∈ after.live ∧ (a = allocated ∧ owner = place ∨ host.Holds owner a) := by
    intro owner a holds
    rw [withState_holds] at holds
    cases owner with
    | eager other => exact .inr (places _ a holds)
    | graph other m => exact .inr (places _ a holds)
    | ids other =>
        change Function.update after.recorded layer (some ids) other = some a at holds
        by_cases equal : other = layer
        · rw [equal,Function.update_self] at holds
          exact .inl ⟨by rw [equal],(Option.some_inj.mp holds).symm⟩
        · rw [Function.update_of_ne equal] at holds
          exact .inr (places (.ids other) a holds)
  refine ⟨?_,?_,?_⟩
  · intro owner a holds
    rcases parts owner a holds with ⟨_,rfl⟩ | ⟨live,_⟩
    · exact List.mem_cons_self
    · exact List.mem_cons_of_mem _ live
  · intro owner other a holds also
    rcases parts owner a holds with ⟨rfl,rfl⟩ | ⟨_,⟨rfl,rfl⟩ | held⟩
    · rcases parts other a also with ⟨rfl,_⟩ | ⟨_,⟨same,_⟩ | held⟩
      · rfl
      · exact absurd same.symm apart
      · exact absurd (sound.live other a held) newIds
    · rcases parts other a also with ⟨_,same⟩ | ⟨_,⟨_,rfl⟩ | held⟩
      · exact absurd same apart
      · rfl
      · exact absurd (sound.live other a held) newBlock
    · rcases parts other a also with ⟨_,rfl⟩ | ⟨_,⟨rfl,_⟩ | their⟩
      · exact absurd (sound.live owner a held) newIds
      · exact absurd (sound.live owner a held) newBlock
      · exact sound.once owner other a held their
  · intro other p state
    by_cases equal : other = layer
    · rw [equal,withState_own] at state
      cases state
      rw [equal]
      exact own.imp (withState_holds _ layer _ _ _).mpr fun ⟨m,holds⟩ =>
        ⟨m,(withState_holds _ layer _ (.graph layer m) _).mpr holds⟩
    · rw [withState_other _ layer _ other equal] at state
      have same : (after.record layer ids).layers other = host.layers other := others other equal
      rw [same] at state
      refine (sound.pending other p state).imp (fun held => (withState_holds _ layer _ _ _).mpr ?_)
        fun ⟨m,held⟩ => ⟨m,(withState_holds _ layer _ (.graph other m) _).mpr ?_⟩
      · rw [Host.Holds,same]
        exact held
      · rw [Host.Holds,same]
        exact held

theorem withState_none (host : Host) (sound : Sound host) (layer : Nat) : Sound (host.withState layer none) := by
  refine ⟨?_,?_,?_⟩
  · intro owner a holds
    exact sound.live owner a ((withState_holds host layer none owner a).mp holds)
  · intro owner other a holds also
    exact sound.once owner other a ((withState_holds host layer none owner a).mp holds)
      ((withState_holds host layer none other a).mp also)
  · intro other p state
    by_cases same : other = layer
    · rw [same,withState_own] at state
      cases state
    · rw [withState_other host layer none other same] at state
      exact (sound.pending other p state).imp (withState_holds host layer none _ _).mpr
        fun ⟨n,own⟩ => ⟨n,(withState_holds host layer none _ _).mpr own⟩

end OneSpark.Prefetch
