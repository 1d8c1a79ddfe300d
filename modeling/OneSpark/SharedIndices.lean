import OneSpark.Tensors

namespace OneSpark.SharedIndices
open Tensors

-- {int(l): i for i, l in enumerate(sorted(layer_ids))}[l]
def layerSlot (layerIds : List Int) (l : Int) : Option Nat :=
  ((layerIds.insertionSort (· ≤ ·)).zipIdx.filter fun entry => decide (entry.1 = l)).getLast?.map Prod.snd

theorem layerSlot_sorted (layerIds : List Int) (l : Int) (slot : Nat) (found : layerSlot layerIds l = some slot) :
    (layerIds.insertionSort (· ≤ ·))[slot]? = some l := by
  unfold layerSlot at found
  obtain ⟨entry,last,rfl⟩ := Option.map_eq_some_iff.mp found
  obtain ⟨member,same⟩ := List.mem_filter.mp (List.mem_of_getLast? last)
  rw [← of_decide_eq_true same]
  exact List.mem_zipIdx_iff_getElem?.mp member

-- QSAMTPSharedSparseIndices. `slots` and trashRow + 1 are the first two sizes of both buffers, and
-- tokenTopk + tailWidth the third of `indices`. No two layers have one slot.
structure SharedSparseIndices where
  layerSlots : Int → Option Nat
  slots : Nat
  tailWidth : Nat
  trashRow : Nat
  tokenTopk : Nat
  indices : Nat → Nat → Nat → Int32
  capturedLen : Nat → Nat → Int32
  apart : ∀ l other slot, layerSlots l = some slot → layerSlots other = some slot → l = other

-- Logical index 0 keeps never-captured rows attending exactly the first token.
def init (layerIds : List Int) (numRequests tokenTopk tailWidth : Nat) : SharedSparseIndices where
  layerSlots := layerSlot layerIds
  slots := layerIds.dedup.length
  tailWidth := tailWidth
  trashRow := numRequests
  tokenTopk := tokenTopk
  indices := fun _ _ _ => 0
  capturedLen := fun _ _ => 1
  apart := by
    intro l other slot first second
    exact Option.some_inj.mp ((layerSlot_sorted _ _ _ first).symm.trans (layerSlot_sorted _ _ _ second))

structure Topk where
  rows : Nat
  width : Nat
  entry : Nat → Nat → Int

structure Capture where
  topkIndices : Topk
  reqPoolIndices : List Nat
  capturedLens : List Int32
  layerId : Int

-- Of the sources that index_copy_ has for one row, the one that lands last; columns need not agree.
structure Landing (rows : List Nat) where
  pick : Nat → Nat → Nat
  own : ∀ row ∈ rows, ∀ col, rows[pick row col]? = some row

def Landing.first (rows : List Nat) : Landing rows := ⟨fun row _ => rows.idxOf row,fun _ member _ => List.getElem?_idxOf member⟩

namespace SharedSparseIndices

def slotOf (s : SharedSparseIndices) (layerId : Int) : Option Nat := do
  let slot ← s.layerSlots layerId
  if slot < s.slots then some slot else none

-- index_copy_ wants the shape of the slice and rows of the buffer.
def capture (s : SharedSparseIndices) (c : Capture) (selected length : Landing c.reqPoolIndices) :
    Option SharedSparseIndices := do
  let slot ← s.slotOf c.layerId
  if c.topkIndices.width ≤ s.tokenTopk + s.tailWidth ∧ c.topkIndices.rows = c.reqPoolIndices.length ∧
      c.capturedLens.length = c.reqPoolIndices.length ∧ ∀ row ∈ c.reqPoolIndices, row ≤ s.trashRow then
    some { s with
      indices := fun slot' row col =>
        if slot' = slot ∧ row ∈ c.reqPoolIndices ∧ col < c.topkIndices.width then
          Int32.ofInt (c.topkIndices.entry (selected.pick row col) col)
        else s.indices slot' row col
      capturedLen := fun slot' row =>
        if slot' = slot ∧ row ∈ c.reqPoolIndices then c.capturedLens.getD (length.pick row 0) 0
        else s.capturedLen slot' row }
  else none

-- One column of a looked-up row; the columns from token_topk on are the tail.
def column (s : SharedSparseIndices) (slot row : Nat) (position : Int32) (col : Nat) : Int32 :=
  if col < s.tokenTopk then s.indices slot row col
  else
    let tail := (s.capturedLen slot row).toInt + ((col - s.tokenTopk : Nat) : Int)
    Int32.ofInt (if tail ≤ position.toInt then tail else -1)

-- unsqueeze(1) stretches a single position over the rows.
def positionOf (reqPoolIndices : List Nat) (currentPositions : List Int32) (j : Nat) : Option Int32 :=
  if currentPositions.length = reqPoolIndices.length then currentPositions[j]?
  else if currentPositions.length = 1 then currentPositions[0]?
  else none

-- Indexing with a tensor of rows copies, so the tail is written beside the buffer.
def lookup (s : SharedSparseIndices) (reqPoolIndices : List Nat) (currentPositions : List Int32) (layerId : Int) :
    Option (List (List Int32) × SharedSparseIndices) := do
  let slot ← s.slotOf layerId
  if reqPoolIndices.all fun row => decide (row ≤ s.trashRow) then
    if currentPositions.length = reqPoolIndices.length ∨ currentPositions.length = 1 then
      let out := reqPoolIndices.zipIdx.map fun at_row =>
        let position := (positionOf reqPoolIndices currentPositions at_row.2).getD 0
        (List.range (s.tokenTopk + s.tailWidth)).map (s.column slot at_row.1 position)
      some (out,s)
    else none
  else none

end SharedSparseIndices

inductive Call where
  | capture (c : Capture) (selected length : Landing c.reqPoolIndices)
  | lookup (reqPoolIndices : List Nat) (currentPositions : List Int32) (layerId : Int)

def Call.perform (s : SharedSparseIndices) : Call → Option SharedSparseIndices
  | .capture c selected length => s.capture c selected length
  | .lookup reqPoolIndices currentPositions layerId => (s.lookup reqPoolIndices currentPositions layerId).map Prod.snd

def run (s : SharedSparseIndices) (calls : List Call) : Option SharedSparseIndices := calls.foldlM Call.perform s

def Call.Spares (layer : Int) (row : Nat) : Call → Prop
  | .capture c _ _ => c.layerId ≠ layer ∨ row ∉ c.reqPoolIndices
  | .lookup .. => True

structure Holds (s : SharedSparseIndices) (layer : Int) (row budget reserve : Nat) (selection : Nat → Int32)
    (len : Int32) : Prop where
  stored : ∃ slot, s.slotOf layer = some slot ∧ (∀ col < budget, s.indices slot row col = selection col) ∧
    s.capturedLen slot row = len
  topk : s.tokenTopk = budget
  tail : s.tailWidth = reserve

namespace SharedSparseIndices
variable (s after : SharedSparseIndices)

theorem slotOf_apart (layer other : Int) (slot : Nat) (first : s.slotOf layer = some slot) (second : s.slotOf other = some slot) :
    layer = other := by
  obtain ⟨one,known,one_below⟩ := Option.bind_eq_some_iff.mp first
  obtain ⟨two,known',two_below⟩ := Option.bind_eq_some_iff.mp second
  split at one_below
  · split at two_below
    · cases one_below
      cases two_below
      exact s.apart layer other slot known known'
    · cases two_below
  · cases one_below

theorem capture_exact (c : Capture) (selected length : Landing c.reqPoolIndices)
    (ran : s.capture c selected length = some after) : ∃ slot, s.slotOf c.layerId = some slot ∧
      c.topkIndices.width ≤ s.tokenTopk + s.tailWidth ∧ (∀ row ∈ c.reqPoolIndices, row ≤ s.trashRow) ∧
      after = { s with
        indices := fun slot' row col =>
          if slot' = slot ∧ row ∈ c.reqPoolIndices ∧ col < c.topkIndices.width then
            Int32.ofInt (c.topkIndices.entry (selected.pick row col) col)
          else s.indices slot' row col
        capturedLen := fun slot' row =>
          if slot' = slot ∧ row ∈ c.reqPoolIndices then c.capturedLens.getD (length.pick row 0) 0
          else s.capturedLen slot' row } := by
  obtain ⟨slot,known,written⟩ := Option.bind_eq_some_iff.mp ran
  split at written
  · rename_i checks
    obtain ⟨narrow,_,_,inside⟩ := checks
    exact ⟨slot,known,narrow,inside,(Option.some_inj.mp written).symm⟩
  · cases written

theorem capture_spares (c : Capture) (selected length : Landing c.reqPoolIndices)
    (ran : s.capture c selected length = some after) (spares : c.layerId ≠ layer ∨ row ∉ c.reqPoolIndices)
    (holds : Holds s layer row budget reserve selection len) : Holds after layer row budget reserve selection len := by
  obtain ⟨slot,known,_,_,rfl⟩ := s.capture_exact after c selected length ran
  obtain ⟨own,found,entries,stored⟩ := holds.stored
  have other : ¬ (own = slot ∧ row ∈ c.reqPoolIndices) := by
    rintro ⟨same,member⟩
    rcases spares with layers | rows
    · exact layers (s.slotOf_apart _ _ slot known (same ▸ found))
    · exact rows member
  refine ⟨⟨own,found,?_,?_⟩,holds.topk,holds.tail⟩
  · intro col inside
    rw [← entries col inside]
    exact if_neg fun written => other ⟨written.1,written.2.1⟩
  · rw [← stored]
    exact if_neg other

theorem capture_holds (c : Capture) (selected length : Landing c.reqPoolIndices)
    (ran : s.capture c selected length = some after) (k row : Nat) (at_row : c.reqPoolIndices[k]? = some row)
    (once : ∀ other, c.reqPoolIndices[other]? = some row → other = k) (width : c.topkIndices.width = s.tokenTopk) (len : Int32)
    (captured : c.capturedLens[k]? = some len) :
    Holds after c.layerId row s.tokenTopk s.tailWidth (fun col => Int32.ofInt (c.topkIndices.entry k col)) len := by
  obtain ⟨slot,known,_,_,rfl⟩ := s.capture_exact after c selected length ran
  have member : row ∈ c.reqPoolIndices := List.mem_of_getElem? at_row
  refine ⟨⟨slot,known,?_,?_⟩,rfl,rfl⟩
  · intro col inside
    have source := once _ (selected.own row member col)
    dsimp only
    rw [if_pos ⟨rfl,member,inside.trans_eq width.symm⟩,source]
  · have source := once _ (length.own row member 0)
    dsimp only
    rw [if_pos ⟨rfl,member⟩,source,List.getD_eq_getElem?_getD,captured,Option.getD_some]

theorem lookup_frame (reqPoolIndices : List Nat) (currentPositions : List Int32) (layerId : Int) (out : List (List Int32))
    (ran : s.lookup reqPoolIndices currentPositions layerId = some (out,after)) : after = s := by
  obtain ⟨slot,_,read⟩ := Option.bind_eq_some_iff.mp ran
  split at read
  · split at read
    · cases read
      rfl
    · cases read
  · cases read

theorem positionOf_shape (reqPoolIndices : List Nat) (currentPositions : List Int32) (j : Nat) (position : Int32)
    (placed : positionOf reqPoolIndices currentPositions j = some position) :
    currentPositions.length = reqPoolIndices.length ∨ currentPositions.length = 1 := by
  unfold positionOf at placed
  split at placed
  · rename_i same
    exact .inl same
  · split at placed
    · rename_i one
      exact .inr one
    · cases placed

theorem lookup_returns (slot : Nat) (known : s.slotOf layerId = some slot) (reqPoolIndices : List Nat)
    (currentPositions : List Int32) (inside : ∀ row ∈ reqPoolIndices, row ≤ s.trashRow)
    (shape : currentPositions.length = reqPoolIndices.length ∨ currentPositions.length = 1) :
    ∃ out, s.lookup reqPoolIndices currentPositions layerId = some (out,s) ∧ ∀ j row position,
      reqPoolIndices[j]? = some row → positionOf reqPoolIndices currentPositions j = some position →
      out[j]? = some ((List.range (s.tokenTopk + s.tailWidth)).map (s.column slot row position)) := by
  have rows : (reqPoolIndices.all fun row => decide (row ≤ s.trashRow)) = true := by simpa using inside
  unfold lookup
  rw [known]
  dsimp only [Option.bind_eq_bind,Option.bind_some]
  rw [if_pos rows,if_pos shape]
  refine ⟨_,rfl,?_⟩
  intro j row position at_row placed
  rw [List.getElem?_map,List.getElem?_zipIdx,at_row]
  simp only [Option.map_some,Nat.zero_add,placed,Option.getD_some]

end SharedSparseIndices

theorem perform_spares (s after : SharedSparseIndices) (call : Call) (ran : call.perform s = some after)
    (spares : call.Spares layer row) (holds : Holds s layer row budget reserve selection len) :
    Holds after layer row budget reserve selection len := by
  cases call with
  | capture c selected length => exact s.capture_spares after c selected length ran spares holds
  | lookup reqPoolIndices currentPositions layerId =>
      obtain ⟨⟨out,next⟩,looked,rfl⟩ := Option.map_eq_some_iff.mp ran
      rw [s.lookup_frame next reqPoolIndices currentPositions layerId out looked]
      exact holds

-- However many captures and lookups come between, a row not captured again keeps its selection.
theorem run_spares (s after : SharedSparseIndices) (calls : List Call) (ran : run s calls = some after)
    (spare : ∀ call ∈ calls, call.Spares layer row) (holds : Holds s layer row budget reserve selection len) :
    Holds after layer row budget reserve selection len := by
  induction calls generalizing s with
  | nil =>
      cases ran
      exact holds
  | cons call rest ih =>
      obtain ⟨next,performed,later⟩ := Option.bind_eq_some_iff.mp ran
      exact ih next later (fun other member => spare other (List.mem_cons_of_mem _ member))
        (perform_spares s next call performed (spare call List.mem_cons_self) holds)

theorem int32_kept (x : Int) (low : -1 ≤ x) (high : x < 2 ^ 31) : (Int32.ofInt x).toInt = x :=
  Int32.toInt_ofInt_of_le (by omega) high

def tailAt (long p offset : Nat) : Int := if long + offset ≤ p then ((long + offset : Nat) : Int) else -1

-- The drafted positions, ascending, then the dropped columns.
theorem tail_filtered (long p width : Nat) (above : long ≤ p) (below : p < long + width) :
    ((List.range width).map (tailAt long p)).filter (fun x => decide (0 ≤ x)) =
      (List.range' long (p + 1 - long)).map fun g : Nat => (g : Int) := by
  obtain ⟨rest,rfl⟩ : ∃ rest, width = p + 1 - long + rest := ⟨width - (p + 1 - long),by omega⟩
  have dropped : (((List.range rest).map fun offset => p + 1 - long + offset).map (tailAt long p)).filter
      (fun x => decide (0 ≤ x)) = [] := by
    apply List.filter_eq_nil_iff.mpr
    intro x member
    obtain ⟨place,there,rfl⟩ := List.mem_map.mp member
    obtain ⟨offset,_,rfl⟩ := List.mem_map.mp there
    rw [tailAt,if_neg (by omega)]
    decide
  have kept : (List.range (p + 1 - long)).map (tailAt long p) =
    (List.range' long (p + 1 - long)).map fun g : Nat => (g : Int) := by
    rw [List.range'_eq_map_range,List.map_map]
    apply List.map_congr_left
    intro offset member
    have inside := List.mem_range.mp member
    rw [tailAt,if_pos (by omega),Function.comp_apply]
  rw [List.range_add,List.map_append,List.filter_append,dropped,List.append_nil,kept]
  apply List.filter_eq_self.mpr
  intro x member
  obtain ⟨g,_,rfl⟩ := List.mem_map.mp member
  exact decide_eq_true (Int.natCast_nonneg g)

theorem tail_once (long p width g : Nat) (above : long ≤ p) (below : p < long + width) (past : long ≤ g) (reached : g ≤ p) :
    ((List.range width).map (tailAt long p)).count (g : Int) = 1 := by
  have nonneg : ((List.range width).map (tailAt long p)).count (g : Int) =
      (((List.range width).map (tailAt long p)).filter fun x => decide (0 ≤ x)).count (g : Int) :=
    (List.count_filter (p := fun x : Int => decide (0 ≤ x)) (decide_eq_true (Int.natCast_nonneg g))).symm
  have distinct : ((List.range' long (p + 1 - long)).map fun g : Nat => (g : Int)).Nodup :=
    List.Nodup.map (fun _ _ same => Int.ofNat.inj same) List.nodup_range'
  rw [nonneg,tail_filtered long p width above below]
  exact List.count_eq_one_of_mem distinct (List.mem_map_of_mem (List.mem_range'_1.mpr ⟨past,by omega⟩))

theorem columns_read (s : SharedSparseIndices) (slot row : Nat) (position : Int32) (selection : Nat → Int) (long p : Nat)
    (stored : ∀ col < s.tokenTopk, (s.indices slot row col).toInt = selection col)
    (length : (s.capturedLen slot row).toInt = long) (placed : position.toInt = p) :
    ((List.range (s.tokenTopk + s.tailWidth)).map (s.column slot row position)).map Int32.toInt =
      (List.range s.tokenTopk).map selection ++ (List.range s.tailWidth).map (tailAt long p) := by
  have most := position.toInt_lt
  rw [List.range_add,List.map_append,List.map_append,List.map_map,List.map_map,List.map_map]
  congr 1
  · apply List.map_congr_left
    intro col member
    have inside := List.mem_range.mp member
    rw [Function.comp_apply,SharedSparseIndices.column,if_pos inside,stored col inside]
  · apply List.map_congr_left
    intro offset _
    simp only [Function.comp_apply,SharedSparseIndices.column,tailAt]
    rw [if_neg (by omega),Nat.add_sub_cancel_left,length,placed,← Int.natCast_add]
    simp only [Int.ofNat_le]
    apply int32_kept
    · split <;> omega
    · split <;> omega

-- The row a draft step reads at position p, for a selection frozen at length `long`.
structure Drafted (budget long p : Nat) (selection : Nat → Int) (found : List Int32) : Prop where
  entries : (found.map Int32.toInt).filter (fun x => decide (0 ≤ x)) =
    ((List.range budget).map selection).filter (fun x => decide (0 ≤ x)) ++
      (List.range' long (p + 1 - long)).map fun g : Nat => (g : Int)
  once : ∀ g, long ≤ g → g ≤ p → (found.map Int32.toInt).count (g : Int) = 1 ∧ (g : Int) ∉ (List.range budget).map selection
  causal : ∀ x ∈ found, x.toInt ≤ p

def Below (budget long : Nat) (selection : Nat → Int) : Prop :=
  ∀ col < budget, selection col = -1 ∨ 0 ≤ selection col ∧ selection col < long

theorem held_lookup (s : SharedSparseIndices) (layer : Int) (row budget reserve : Nat) (selection : Nat → Int) (len : Int32)
    (holds : Holds s layer row budget reserve (fun col => Int32.ofInt (selection col)) len) (long p : Nat)
    (whole : len.toInt = long) (entries : Below budget long selection) (reqPoolIndices : List Nat)
    (currentPositions : List Int32) (inside : ∀ r ∈ reqPoolIndices, r ≤ s.trashRow) (j : Nat)
    (asked : reqPoolIndices[j]? = some row) (position : Int32)
    (placed : SharedSparseIndices.positionOf reqPoolIndices currentPositions j = some position) (here : position.toInt = p)
    (above : long ≤ p) (below : p < long + reserve) :
    ∃ out found, s.lookup reqPoolIndices currentPositions layer = some (out,s) ∧ out[j]? = some found ∧
      Drafted budget long p selection found := by
  obtain ⟨slot,known,stored,stored_len⟩ := holds.stored
  obtain ⟨out,returned,rows⟩ := s.lookup_returns slot known reqPoolIndices currentPositions inside
    (SharedSparseIndices.positionOf_shape _ _ j position placed)
  have most := position.toInt_lt
  have kept : ∀ col < s.tokenTopk, (s.indices slot row col).toInt = selection col := by
    intro col within
    rw [holds.topk] at within
    have bounds := entries col within
    rw [stored col within]
    exact int32_kept _ (by omega) (by omega)
  have read := columns_read s slot row position selection long p kept (by rw [stored_len,whole]) here
  have found := rows j row position asked placed
  rw [holds.topk,holds.tail] at read found
  have apart : ∀ g, long ≤ g → (g : Int) ∉ (List.range budget).map selection := by
    intro g past member
    obtain ⟨col,within,same⟩ := List.mem_map.mp member
    have bounds := entries col (List.mem_range.mp within)
    omega
  refine ⟨out,_,returned,found,?_,?_,?_⟩
  · rw [read,List.filter_append,tail_filtered long p reserve above below]
  · intro g past reached
    refine ⟨?_,apart g past⟩
    rw [read,List.count_append,List.count_eq_zero_of_not_mem (apart g past),Nat.zero_add]
    exact tail_once long p reserve g above below past reached
  · intro x member
    have listed : x.toInt ∈ (List.range budget).map selection ++ (List.range reserve).map (tailAt long p) := by
      rw [← read]
      exact List.mem_map_of_mem member
    rcases List.mem_append.mp listed with old | new
    · obtain ⟨col,within,same⟩ := List.mem_map.mp old
      have bounds := entries col (List.mem_range.mp within)
      omega
    · obtain ⟨offset,_,same⟩ := List.mem_map.mp new
      rw [← same,tailAt]
      split <;> omega

-- A row captured once, at length `long`, with a full-width selection below it, and not captured again:
-- whatever else is captured and looked up in between, its lookup at a position of the tail returns the
-- captured entries and every position drafted since, each once, and leaves the selection stored.
theorem selection_kept (s first before : SharedSparseIndices) (c : Capture) (selected length : Landing c.reqPoolIndices)
    (captured : s.capture c selected length = some first) (k row : Nat) (at_row : c.reqPoolIndices[k]? = some row)
    (once : ∀ other, c.reqPoolIndices[other]? = some row → other = k) (width : c.topkIndices.width = s.tokenTopk)
    (len : Int32) (taken : c.capturedLens[k]? = some len) (long : Nat) (whole : len.toInt = long)
    (entries : ∀ col < s.tokenTopk, c.topkIndices.entry k col = -1 ∨
      0 ≤ c.topkIndices.entry k col ∧ c.topkIndices.entry k col < long)
    (calls : List Call) (ran : run first calls = some before) (spare : ∀ call ∈ calls, call.Spares c.layerId row)
    (reqPoolIndices : List Nat) (currentPositions : List Int32) (inside : ∀ r ∈ reqPoolIndices, r ≤ before.trashRow)
    (j : Nat) (asked : reqPoolIndices[j]? = some row) (position : Int32)
    (placed : SharedSparseIndices.positionOf reqPoolIndices currentPositions j = some position) (p : Nat)
    (here : position.toInt = p) (above : long ≤ p) (below : p < long + s.tailWidth) :
    ∃ out found, before.lookup reqPoolIndices currentPositions c.layerId = some (out,before) ∧ out[j]? = some found ∧
      Drafted s.tokenTopk long p (c.topkIndices.entry k) found ∧
      Holds before c.layerId row s.tokenTopk s.tailWidth (fun col => Int32.ofInt (c.topkIndices.entry k col)) len := by
  have holds := run_spares first before calls ran spare
    (s.capture_holds first c selected length captured k row at_row once width len taken)
  obtain ⟨out,found,returned,read,drafted⟩ := held_lookup before c.layerId row s.tokenTopk s.tailWidth
    (c.topkIndices.entry k) len holds long p whole entries reqPoolIndices currentPositions inside j asked position placed here
    above below
  exact ⟨out,found,returned,read,drafted,holds⟩

-- Two layers, two requests, three selected tokens and a tail of two; two padded captures go to the trash row.
def sampleState : SharedSparseIndices := init [7,3] 2 3 2

def sampleCapture : Capture := ⟨⟨3,3,fun k col => if k = 0 then [0,-1,2].getD col 0 else 1⟩,[1,2,2],[3,9,8],7⟩

def otherCapture (layer : Int) (row : Nat) : Call := .capture ⟨⟨1,5,fun _ _ => 6⟩,[row],[7],layer⟩ (.first _) (.first _)

def sampleCalls : List Call := [otherCapture 7 0,.lookup [1,0] [3] 7,otherCapture 3 1,otherCapture 7 2]

theorem sample_drafted : ∃ (before : SharedSparseIndices) (out : List (List Int32)) (found : List Int32),
    (sampleState.capture sampleCapture (.first _) (.first _)).bind (run · sampleCalls) = some before ∧
    before.lookup [0,1] [8,4] 7 = some (out,before) ∧ out[1]? = some found ∧
    (found.map Int32.toInt).filter (fun x => decide (0 ≤ x)) = [0,2,3,4] := by
  have trash : ((sampleState.capture sampleCapture (.first _) (.first _)).bind (run · sampleCalls)).map (·.trashRow) =
    some 2 := by
    decide +kernel
  obtain ⟨before,ran,two⟩ := Option.map_eq_some_iff.mp trash
  obtain ⟨first,captured,later⟩ := Option.bind_eq_some_iff.mp ran
  have once : ∀ other, sampleCapture.reqPoolIndices[other]? = some 1 → other = 0 := by
    intro other found
    obtain ⟨bound,_⟩ := List.getElem?_eq_some_iff.mp found
    have small : other < 3 := bound
    obtain rfl | rfl | rfl : other = 0 ∨ other = 1 ∨ other = 2 := by omega
    · rfl
    · exact absurd found (by decide)
    · exact absurd found (by decide)
  have spare : ∀ call ∈ sampleCalls, call.Spares sampleCapture.layerId 1 := by
    intro call member
    simp only [sampleCalls,List.mem_cons,List.not_mem_nil,or_false] at member
    rcases member with rfl | rfl | rfl | rfl
    · exact .inr (by decide)
    · trivial
    · exact .inl (by decide)
    · exact .inr (by decide)
  obtain ⟨out,found,returned,read,drafted,_⟩ := selection_kept sampleState first before sampleCapture (.first _) (.first _)
    captured 0 1 rfl once rfl 3 rfl 3 (by decide) (by decide) sampleCalls later spare [0,1] [8,4] (by rw [two]; decide) 1 rfl 4
    rfl 4 (by decide) (by decide) (by decide)
  exact ⟨before,out,found,ran,returned,read,drafted.entries.trans (by decide)⟩

end OneSpark.SharedIndices
