import OneSpark.GraphRuns

namespace OneSpark.PoolBuffers
open Tensors RingSlots GraphLayout GraphRuns

-- What QSATokenToKVPool.__init__ checks and sizes its buffers by.
structure PoolArgs where
  size : Nat
  pageSize : Int
  fullAttentionLayerIds : List Nat
  indexKvHeads : Int
  indexHeadDim : Int
  compressRatio : Int
  tokenTopk : Int
  numRequestSlots : Int

inductive Failure where
  | value (text : String)
  | zeroDivision
  -- an index outside a buffer, or values of another shape than the locations
  | runtime
  -- a layer without full attention
  | layer
  deriving DecidableEq

abbrev Row (V : Type) := Nat → Nat → V

structure Pool (V : Type) where
  compressRatio : Nat
  indexKvHeads : Nat
  indexHeadDim : Nat
  blockTopk : Nat
  compressedPageSize : Nat
  compressedCapacity : Nat
  ringWindow : Nat
  ringSlots : Nat
  layers : Nat
  keyState : Nat → Nat → Row V
  ropePosition : Nat → Nat → Int
  -- one allocation for all layers
  compressedFlat : Nat → V

theorem ratio_positive {args : PoolArgs}
    (positive : ¬ min (min (min args.indexKvHeads args.indexHeadDim) args.compressRatio) args.tokenTopk ≤ 0) :
    0 < args.compressRatio.toNat := by
  omega

def ringOf (args : PoolArgs) (window : Option Int) (positive : 0 < args.compressRatio.toNat) : Ring :=
  ⟨args.compressRatio.toNat,positive,window⟩

def pageText (pageSize ratio : Int) : String :=
  s!"compressed QSA requires a paged full-KV cache with the page a multiple of the compress ratio (compressed slots are " ++
  s!"full_slot // ratio): page_size={pageSize}, ratio={ratio}. With MambaRadixCache this needs the mamba extra-buffer " ++
  "strategy or --disable-radix-cache (see the Qwen4-Exp arg overrides)."

def paged (args : PoolArgs) : Except Failure Unit :=
  if args.pageSize ≤ 1 then .error (.value (pageText args.pageSize args.compressRatio))
  else if args.compressRatio = 0 then .error .zeroDivision
  else if args.pageSize.fmod args.compressRatio ≠ 0 then .error (.value (pageText args.pageSize args.compressRatio))
  else .ok ()

def allocate (zero : V) (args : PoolArgs) (ring : Ring) : Pool V where
  compressRatio := ring.compressRatio
  indexKvHeads := args.indexKvHeads.toNat
  indexHeadDim := args.indexHeadDim.toNat
  blockTopk := args.tokenTopk.toNat / ring.compressRatio
  compressedPageSize := args.pageSize.toNat / ring.compressRatio
  -- -(state_size // -ratio)
  compressedCapacity := (-((args.size + args.pageSize).fdiv (-ring.compressRatio))).toNat
  ringWindow := qsaRingStride ring
  ringSlots := args.numRequestSlots.toNat * qsaRingStride ring
  layers := args.fullAttentionLayerIds.length
  keyState := fun _ _ _ _ => zero
  ropePosition := fun _ _ => 0
  compressedFlat := fun _ => zero

def init (zero : V) (args : PoolArgs) (window : Option Int) : Except Failure (Pool V) := do
  paged args
  let slots := args.numRequestSlots
  if positive : min (min (min args.indexKvHeads args.indexHeadDim) args.compressRatio) args.tokenTopk ≤ 0 then
    .error (.value "QSA cache configuration values must be positive")
  else if args.tokenTopk % args.compressRatio ≠ 0 then
    .error (.value "qsa_token_topk must be divisible by qsa_compress_ratio")
  else if slots ≤ 0 then .error (.value s!"QSA pending ring needs request slots, got {slots}")
  else .ok (allocate zero args (ringOf args window (ratio_positive positive)))

-- qsa_compressed_flat[layer].view(capacity, heads, dim): the address of an element in the one allocation.
def Pool.address (pool : Pool V) (layer slot head d : Nat) : Nat :=
  layer * (pool.compressedCapacity * (pool.indexKvHeads * pool.indexHeadDim)) +
    (slot * (pool.indexKvHeads * pool.indexHeadDim) + (head * pool.indexHeadDim + d))

-- get_qsa_compressed_k_buffer(...)[slot].
def Pool.compressedRow (pool : Pool V) (layer slot : Nat) : Row V :=
  fun head d => pool.compressedFlat (pool.address layer slot head d)

def Pool.elements (pool : Pool V) (layer slot : Nat) (row : Row V) : List (Nat × V) :=
  (List.range pool.indexKvHeads).flatMap fun head =>
    (List.range pool.indexHeadDim).map fun d => (pool.address layer slot head d,row head d)

-- buffer[loc] = values, in the order the device writes the places; an index twice in `loc` keeps what lands last.
def landed (loc : List Nat) (values : List α) (order : List Nat) : List (Nat × α) :=
  order.filterMap fun i => (loc.zip ((spread values loc.length).getD []))[i]?

def indexPut (rows : Nat) (loc : List Nat) (values : List α) (order : List Nat) : Except Failure (List (Nat × α)) :=
  if (loc.all fun slot => decide (slot < rows)) && (spread values loc.length).isSome then .ok (landed loc values order)
  else .error .runtime

-- The positions given to set_qsa_rope_position_buffer, by their shape.
inductive Positions where
  | tokens (positions : List Int)
  | grid (rows : List (List Int))
  | other (shape : List Nat)

def sizeText (shape : List Nat) : String := "torch.Size([" ++ ", ".intercalate (shape.map toString) ++ "])"

def Positions.shape : Positions → List Nat
  | .tokens positions => [positions.length]
  | .grid rows => [rows.length,(rows.headD []).length]
  | .other shape => shape

-- positions.transpose(0, 1) after the expansion of one-dimensional positions.
def Positions.rows (positions : Positions) : Except Failure (List (Nat → Int)) :=
  match positions with
  | .tokens positions => .ok (positions.map fun position _ => position)
  | .grid [first,second,third] => .ok ((List.range first.length).map fun token coordinate =>
      ([first,second,third].getD coordinate []).getD token 0)
  | refused => .error (.value ("QSA RoPE positions must be [tokens] or [3, tokens], got " ++ sizeText refused.shape))

inductive Call (V : Type) where
  | setKeyState (layerId : Nat) (loc : List Nat) (tokenK : List (Row V))
  | setRopePosition (loc : List Nat) (positions : Positions)
  | setCompressed (layerId : Nat) (loc : List Nat) (compressedK : List (Row V))

-- values.to(buffer.dtype)
def castRows (cast : V → V) (rows : List (Row V)) : List (Row V) := rows.map fun row head d => cast (row head d)

section
-- _transfer_full_attention_id of the base pool, and the conversion to bfloat16.
variable (transfer : Nat → Option Nat) (cast : V → V)

def layerOf (layers layerId : Nat) : Except Failure Nat :=
  match transfer layerId with
  | some layer => if layer < layers then .ok layer else .error .layer
  | none => .error .layer

def step (pool : Pool V) (call : Call V × List Nat) : Except Failure (Pool V) :=
  match call with
  | (.setKeyState layerId loc tokenK,order) => do
      let layer ← layerOf transfer pool.layers layerId
      let writes ← indexPut pool.ringSlots loc (castRows cast tokenK) order
      .ok { pool with keyState := Function.update pool.keyState layer (put (pool.keyState layer) writes) }
  | (.setRopePosition loc positions,order) => do
      let rows ← positions.rows
      let writes ← indexPut pool.ringSlots loc rows order
      .ok { pool with ropePosition := put pool.ropePosition writes }
  | (.setCompressed layerId loc compressedK,order) => do
      let layer ← layerOf transfer pool.layers layerId
      let writes ← indexPut pool.compressedCapacity loc (castRows cast compressedK) order
      let copied := writes.flatMap fun write => pool.elements layer write.1 write.2
      .ok { pool with compressedFlat := put pool.compressedFlat copied }

def run (pool : Pool V) (calls : List (Call V × List Nat)) : Except Failure (Pool V) := calls.foldlM (step transfer cast) pool

def cacheWrites (layer : Nat) : Call V × List Nat → List (Nat × Row V)
  | (.setCompressed layerId loc compressedK,order) =>
      if transfer layerId = some layer then landed loc (castRows cast compressedK) order else []
  | (.setKeyState ..,_) => []
  | (.setRopePosition ..,_) => []

def ringWrites (layer : Nat) : Call V × List Nat → List (Nat × Row V)
  | (.setKeyState layerId loc tokenK,order) =>
      if transfer layerId = some layer then landed loc (castRows cast tokenK) order else []
  | (.setRopePosition ..,_) => []
  | (.setCompressed ..,_) => []

def ropeWrites : Call V × List Nat → List (Nat × (Nat → Int))
  | (.setRopePosition loc positions,order) => (positions.rows.toOption.map fun rows => landed loc rows order).getD []
  | (.setKeyState ..,_) => []
  | (.setCompressed ..,_) => []

end

def lastWrite (start : α) (writes : List (Nat × α)) (slot : Nat) : α :=
  writes.foldl (fun value write => if write.1 = slot then write.2 else value) start

theorem put_last (buffer : Nat → α) (writes : List (Nat × α)) (slot : Nat) :
    put buffer writes slot = lastWrite (buffer slot) writes slot := by
  induction writes generalizing buffer with
  | nil => rfl
  | cons write writes ih =>
      rw [put,ih,lastWrite,lastWrite,List.foldl_cons]
      congr 1
      by_cases same : write.1 = slot
      · rw [if_pos same,same,Function.update_self]
      · rw [if_neg same,Function.update_of_ne (Ne.symm same)]

theorem put_append (buffer : Nat → α) (first second : List (Nat × α)) :
    put buffer (first ++ second) = put (put buffer first) second := by
  induction first generalizing buffer with
  | nil => rfl
  | cons write first ih => exact ih _

theorem lastWrite_append (start : α) (first second : List (Nat × α)) (slot : Nat) :
    lastWrite start (first ++ second) slot = lastWrite (lastWrite start first slot) second slot := List.foldl_append

theorem place_below (place tile width tiles : Nat) (small : place < width) (inside : tile < tiles) :
    tile * width + place < tiles * width := by
  calc tile * width + place < (tile + 1) * width := by
        rw [Nat.succ_mul]
        exact Nat.add_lt_add_left small _
    _ ≤ tiles * width := Nat.mul_le_mul_right _ inside

section
variable (pool : Pool V)

theorem address_unique (layer slot head d layer' slot' head' d' : Nat) (inside : slot < pool.compressedCapacity)
    (inside' : slot' < pool.compressedCapacity) (heads : head < pool.indexKvHeads) (heads' : head' < pool.indexKvHeads)
    (places : d < pool.indexHeadDim) (places' : d' < pool.indexHeadDim)
    (same : pool.address layer slot head d = pool.address layer' slot' head' d') :
    layer = layer' ∧ slot = slot' ∧ head = head' ∧ d = d' := by
  have row := place_below d head _ _ places heads
  have row' := place_below d' head' _ _ places' heads'
  obtain ⟨layers,rest⟩ := place_unique _ _ _ _ _ (place_below _ slot _ _ row inside) (place_below _ slot' _ _ row' inside') same
  obtain ⟨slots,rest⟩ := place_unique _ _ _ _ _ row row' rest
  obtain ⟨heads,rest⟩ := place_unique _ _ _ _ _ places places' rest
  exact ⟨layers,slots,heads,rest⟩

theorem elements_put (flat : Nat → V) (layer slot : Nat) (row : Row V) (inside : slot < pool.compressedCapacity)
    (layer' slot' head d : Nat) (inside' : slot' < pool.compressedCapacity) (heads : head < pool.indexKvHeads)
    (places : d < pool.indexHeadDim) :
    put flat (pool.elements layer slot row) (pool.address layer' slot' head d) =
      if layer = layer' ∧ slot = slot' then row head d else flat (pool.address layer' slot' head d) := by
  have parts : ∀ element ∈ pool.elements layer slot row, ∃ head < pool.indexKvHeads, ∃ d < pool.indexHeadDim,
      element = (pool.address layer slot head d,row head d) := by
    intro element member
    obtain ⟨head,below,member⟩ := List.mem_flatMap.mp member
    obtain ⟨d,within,rfl⟩ := List.mem_map.mp member
    exact ⟨head,List.mem_range.mp below,d,List.mem_range.mp within,rfl⟩
  by_cases own : layer = layer' ∧ slot = slot'
  · obtain ⟨rfl,rfl⟩ := own
    rw [if_pos ⟨rfl,rfl⟩]
    refine put_agreed _ _ _ _ ⟨(pool.address layer slot head d,row head d),?_,rfl⟩ ?_
    · exact List.mem_flatMap.mpr ⟨head,List.mem_range.mpr heads,List.mem_map.mpr ⟨d,List.mem_range.mpr places,rfl⟩⟩
    · intro element member same
      obtain ⟨h,below,k,within,rfl⟩ := parts element member
      obtain ⟨_,_,rfl,rfl⟩ := address_unique pool _ _ _ _ _ _ _ _ inside inside below heads within places same
      rfl
  · rw [if_neg own]
    refine put_other _ _ _ ?_
    intro element member same
    obtain ⟨h,below,k,within,rfl⟩ := parts element member
    obtain ⟨rfl,rfl,_⟩ := address_unique pool _ _ _ _ _ _ _ _ inside inside' below heads within places same
    exact own ⟨rfl,rfl⟩

theorem view_put (flat : Nat → V) (layer : Nat) (writes : List (Nat × Row V))
    (inside : ∀ write ∈ writes, write.1 < pool.compressedCapacity) (layer' slot head d : Nat)
    (inside' : slot < pool.compressedCapacity) (heads : head < pool.indexKvHeads) (places : d < pool.indexHeadDim) :
    put flat (writes.flatMap fun write => pool.elements layer write.1 write.2) (pool.address layer' slot head d) =
      if layer = layer' then
        lastWrite (flat (pool.address layer' slot head d)) (writes.map fun write => (write.1,write.2 head d)) slot
      else flat (pool.address layer' slot head d) := by
  induction writes generalizing flat with
  | nil => exact (ite_self _).symm
  | cons write writes ih =>
      have later : ∀ other ∈ writes, other.1 < pool.compressedCapacity := fun other member =>
        inside other (List.mem_cons_of_mem _ member)
      have first := elements_put pool flat layer write.1 write.2 (inside write List.mem_cons_self) layer' slot head d inside'
        heads places
      rw [List.flatMap_cons,put_append,ih _ later,first,List.map_cons,lastWrite,lastWrite,List.foldl_cons]
      by_cases own : layer = layer'
      · simp only [own,true_and,if_true]
      · simp only [own,false_and,if_false]

end

theorem landed_inside (rows : Nat) (loc : List Nat) (values : List α) (order : List Nat)
    (inside : ∀ slot ∈ loc, slot < rows) : ∀ write ∈ landed loc values order, write.1 < rows := by
  intro write member
  obtain ⟨i,_,found⟩ := List.mem_filterMap.mp member
  exact inside _ (List.of_mem_zip (List.mem_of_getElem? found)).1

theorem indexPut_parts {rows : Nat} {loc : List Nat} {values : List α} {order : List Nat} {writes : List (Nat × α)}
    (ran : indexPut rows loc values order = .ok writes) :
    writes = landed loc values order ∧ ∀ write ∈ writes, write.1 < rows := by
  unfold indexPut at ran
  split at ran
  · rename_i accepted
    simp only [Bool.and_eq_true,List.all_eq_true,decide_eq_true_eq] at accepted
    cases ran
    exact ⟨rfl,landed_inside rows loc values order accepted.1⟩
  · cases ran

-- What the buffers hold after calls, from what they held before: every layer's cache and ring and the coordinates are
-- stores of their own.
structure Shows (transfer : Nat → Option Nat) (cast : V → V) (start : Pool V) (calls : List (Call V × List Nat))
    (pool : Pool V) : Prop where
  capacity : pool.compressedCapacity = start.compressedCapacity
  heads : pool.indexKvHeads = start.indexKvHeads
  dim : pool.indexHeadDim = start.indexHeadDim
  slots : pool.ringSlots = start.ringSlots
  cache : ∀ layer slot head d, slot < start.compressedCapacity → head < start.indexKvHeads → d < start.indexHeadDim →
    pool.compressedRow layer slot head d = lastWrite (start.compressedRow layer slot head d)
      ((calls.flatMap (cacheWrites transfer cast layer)).map fun write => (write.1,write.2 head d)) slot
  ring : ∀ layer slot, pool.keyState layer slot =
    lastWrite (start.keyState layer slot) (calls.flatMap (ringWrites transfer cast layer)) slot
  rope : ∀ slot, pool.ropePosition slot = lastWrite (start.ropePosition slot) (calls.flatMap ropeWrites) slot

section
variable {transfer : Nat → Option Nat} {cast : V → V} {start pool after : Pool V} {calls : List (Call V × List Nat)}

theorem layerOf_parts {layers layerId layer : Nat} (found : layerOf transfer layers layerId = .ok layer) :
    transfer layerId = some layer := by
  unfold layerOf at found
  cases known : transfer layerId with
  | none =>
      rw [known] at found
      cases found
  | some own =>
      rw [known] at found
      dsimp only at found
      split at found
      · cases found
        rfl
      · cases found

theorem shows_start (pool : Pool V) : Shows transfer cast pool [] pool :=
  ⟨rfl,rfl,rfl,rfl,fun _ _ _ _ _ _ _ => rfl,fun _ _ => rfl,fun _ => rfl⟩

-- Later calls write over what earlier ones left.
theorem shows_trans {more : List (Call V × List Nat)} (first : Shows transfer cast start calls pool)
    (second : Shows transfer cast pool more after) : Shows transfer cast start (calls ++ more) after := by
  refine ⟨second.capacity.trans first.capacity,second.heads.trans first.heads,second.dim.trans first.dim,
    second.slots.trans first.slots,?_,?_,?_⟩
  · intro layer slot head d below heads places
    rw [second.cache layer slot head d (first.capacity ▸ below) (first.heads ▸ heads) (first.dim ▸ places),
      first.cache layer slot head d below heads places,List.flatMap_append,List.map_append,lastWrite_append]
  · intro layer slot
    rw [second.ring,first.ring,List.flatMap_append,lastWrite_append]
  · intro slot
    rw [second.rope,first.rope,List.flatMap_append,lastWrite_append]

theorem key_shows {layerId : Nat} {loc : List Nat} {tokenK : List (Row V)} {order : List Nat}
    (ran : step transfer cast pool (.setKeyState layerId loc tokenK,order) = .ok after) :
    Shows transfer cast pool [(.setKeyState layerId loc tokenK,order)] after := by
  obtain ⟨layer,found,ran⟩ := bind_ok ran
  obtain ⟨writes,written,ran⟩ := bind_ok ran
  cases ran
  obtain ⟨rfl,_⟩ := indexPut_parts written
  refine ⟨rfl,rfl,rfl,rfl,fun _ _ _ _ _ _ _ => rfl,?_,fun _ => rfl⟩
  intro own slot
  rw [List.flatMap_singleton,ringWrites,layerOf_parts found]
  by_cases same : layer = own
  · subst same
    rw [if_pos rfl,← put_last]
    exact congrFun (Function.update_self ..) slot
  · rw [if_neg fun equal => same (Option.some_inj.mp equal)]
    show Function.update pool.keyState layer _ own slot = pool.keyState own slot
    rw [Function.update_of_ne (Ne.symm same)]

theorem position_shows {loc : List Nat} {positions : Positions} {order : List Nat}
    (ran : step transfer cast pool (.setRopePosition loc positions,order) = .ok after) :
    Shows transfer cast pool [(.setRopePosition loc positions,order)] after := by
  obtain ⟨rows,given,ran⟩ := bind_ok ran
  obtain ⟨writes,written,ran⟩ := bind_ok ran
  cases ran
  obtain ⟨rfl,_⟩ := indexPut_parts written
  refine ⟨rfl,rfl,rfl,rfl,fun _ _ _ _ _ _ _ => rfl,fun _ _ => rfl,?_⟩
  intro slot
  rw [List.flatMap_singleton,ropeWrites,given]
  exact put_last _ _ _

theorem compressed_shows {layerId : Nat} {loc : List Nat} {compressedK : List (Row V)} {order : List Nat}
    (ran : step transfer cast pool (.setCompressed layerId loc compressedK,order) = .ok after) :
    Shows transfer cast pool [(.setCompressed layerId loc compressedK,order)] after := by
  obtain ⟨layer,found,ran⟩ := bind_ok ran
  obtain ⟨writes,written,ran⟩ := bind_ok ran
  cases ran
  obtain ⟨rfl,inside⟩ := indexPut_parts written
  refine ⟨rfl,rfl,rfl,rfl,?_,fun _ _ => rfl,fun _ => rfl⟩
  intro own slot head d below heads places
  refine Eq.trans (view_put pool pool.compressedFlat layer _ inside own slot head d below heads places) ?_
  rw [List.flatMap_singleton,cacheWrites,layerOf_parts found]
  by_cases same : layer = own
  · rw [if_pos same,if_pos (congrArg some same)]
    rfl
  · rw [if_neg same,if_neg fun equal => same (Option.some_inj.mp equal)]
    rfl

theorem step_shows (call : Call V × List Nat) (ran : step transfer cast pool call = .ok after) :
    Shows transfer cast pool [call] after := by
  obtain ⟨call,order⟩ := call
  cases call with
  | setKeyState layerId loc tokenK => exact key_shows ran
  | setRopePosition loc positions => exact position_shows ran
  | setCompressed layerId loc compressedK => exact compressed_shows ran

theorem run_shows (calls : List (Call V × List Nat)) (ran : run transfer cast pool calls = .ok after) :
    Shows transfer cast pool calls after := by
  induction calls generalizing pool with
  | nil =>
      cases ran
      exact shows_start _
  | cons call calls ih =>
      obtain ⟨next,stepped,rest⟩ := bind_ok ran
      exact shows_trans (step_shows call stepped) (ih rest)

end

theorem init_parts {zero : V} {args : PoolArgs} {window : Option Int} {pool : Pool V}
    (made : init zero args window = .ok pool) :
    ∃ positive : ¬ min (min (min args.indexKvHeads args.indexHeadDim) args.compressRatio) args.tokenTopk ≤ 0,
      pool = allocate zero args (ringOf args window (ratio_positive positive)) := by
  unfold init at made
  obtain ⟨_,_,made⟩ := bind_ok made
  dsimp only at made
  split at made
  · cases made
  · rename_i positive
    split at made
    · cases made
    · split at made
      · cases made
      · cases made
        exact ⟨positive,rfl⟩

theorem slots_inside {zero : V} {args : PoolArgs} {window : Option Int} {pool : Pool V}
    (made : init zero args window = .ok pool) :
    ∃ ring : Ring, (ring.compressRatio : Int) = args.compressRatio ∧ ring.window = window ∧
      (∀ request position : Nat, request < args.numRequestSlots → ringSlot ring request position < pool.ringSlots) ∧
      ∀ slot : Nat, slot < args.size + args.pageSize → slot / ring.compressRatio < pool.compressedCapacity := by
  obtain ⟨positive,rfl⟩ := init_parts made
  let ring := ringOf args window (ratio_positive positive)
  have ratio : (ring.compressRatio : Int) = args.compressRatio := by
    show ((args.compressRatio.toNat : Nat) : Int) = _
    omega
  refine ⟨ring,ratio,rfl,?_,?_⟩
  · intro request position below
    obtain ⟨_,above⟩ := ringSlot_range ring request position
    have room := Nat.mul_le_mul_right (qsaRingStride ring) (show request + 1 ≤ args.numRequestSlots.toNat by omega)
    exact Nat.lt_of_lt_of_le above room
  · intro slot below
    have small : (0 : Int) < ring.compressRatio := Int.ofNat_lt.mpr ring.ratioPositive
    -- the rounded quotient covers the state
    have rest : (args.size + args.pageSize : Int).fmod (-ring.compressRatio) ≤ 0 := by
      have flipped := Int.neg_fmod_neg (-(args.size + args.pageSize : Int)) ring.compressRatio
      rw [Int.neg_neg] at flipped
      rw [flipped]
      have above := Int.fmod_nonneg_of_pos (-(args.size + args.pageSize : Int)) small
      omega
    have parts := Int.fdiv_mul_add_fmod (args.size + args.pageSize : Int) (-ring.compressRatio)
    rw [Int.mul_neg,← Int.neg_mul] at parts
    have covers : (slot : Int) < -((args.size + args.pageSize : Int).fdiv (-ring.compressRatio)) * ring.compressRatio := by
      omega
    have quotient := Int.ediv_lt_of_lt_mul small covers
    show slot / ring.compressRatio < (-((args.size + args.pageSize : Int).fdiv (-ring.compressRatio))).toNat
    have cast : ((slot / ring.compressRatio : Nat) : Int) = (slot : Int) / ring.compressRatio := Int.natCast_ediv ..
    omega

def pairArgs : PoolArgs := ⟨4,4,[3,7],1,1,4,4,2⟩

def pairTransfer (layerId : Nat) : Option Nat := if layerId = 3 then some 0 else if layerId = 7 then some 1 else none

def pairCalls : List (Call Nat × List Nat) :=
  [(.setCompressed 3 [1] [fun _ _ => 5],[0]),(.setCompressed 7 [1,1] [fun _ _ => 6,fun _ _ => 8],[1,0]),
    (.setKeyState 7 [5] [fun _ _ => 9],[0])]

end OneSpark.PoolBuffers
