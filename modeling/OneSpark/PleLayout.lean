import OneSpark.Blocks
import OneSpark.Longs
import OneSpark.RingSlots
import OneSpark.Windows

namespace OneSpark.PleLayout
open Longs RingSlots Blocks

def isIdle (mode : ForwardMode) : Bool := mode == .idle
def isDecode (mode : ForwardMode) : Bool := mode == .decode

-- What the PLE code reads of a ForwardBatch. `none` is an attribute that is None.
structure ForwardBatch where
  originalForwardMode : Option ForwardMode
  forwardMode : ForwardMode
  tboParentTokenRange : Option (Nat × Nat)
  specIsNgram : Bool
  specInfo : Option SpecInfo
  numTokenNonPaddedCpu : Option Int
  extendSeqLens : Option (List Nat)
  extendSeqLensCpu : Option (List Nat)
  reqPoolIndices : List Nat
  outCacheLoc : Option (List Nat)
  mambaTrackIndices : Option (List Nat)
  mambaTrackMask : Option (List Bool)
  -- what mamba_track_aligned_lens() returns
  mambaTrackAlignedLens : Option (List Int)

def getPleForwardMode (fb : ForwardBatch) : ForwardMode := fb.originalForwardMode.getD fb.forwardMode

def getProcessedTokenCount (fb : ForwardBatch) (physicalTokens : Nat) : Option Nat :=
  let processed : Option Int := match fb.numTokenNonPaddedCpu with
    | some count => some count
    | none => fb.extendSeqLensCpu.map fun lens => (lens.sum : Int)
  match processed with
  | none => some physicalTokens
  | some count => if 0 ≤ count ∧ count ≤ physicalTokens then some count.toNat else none

structure TokenLayout where
  lengths : List Nat
  rowWidth : Nat
  reqIndices : List Nat
  tokenOffsets : List Nat

-- Eager verify can carry a valid length smaller than its fixed row stride.
def verifyLengths (fb : ForwardBatch) (sequenceCount rowWidth : Nat) : List Nat :=
  match fb.extendSeqLens with
  | some lens => if fb.forwardMode.isTargetVerify then lens.take sequenceCount
      else List.replicate sequenceCount rowWidth
  | none => List.replicate sequenceCount rowWidth

def verifyLayout (fb : ForwardBatch) (processedTokens : Nat) : Option TokenLayout := do
  let spec ← fb.specInfo
  let rowWidth ← spec.draftTokenNum
  if rowWidth = 0 ∨ processedTokens % rowWidth ≠ 0 then none else
  let sequenceCount := processedTokens / rowWidth
  let lengths := verifyLengths fb sequenceCount rowWidth
  if lengths.length ≠ sequenceCount then none else
  let positions := List.range processedTokens
  return ⟨lengths,rowWidth,positions.map (· / rowWidth),positions.map fun p => p - p / rowWidth * rowWidth⟩

def decodeLayout (processedTokens : Nat) : TokenLayout :=
  ⟨List.replicate processedTokens 1,1,List.range processedTokens,List.replicate processedTokens 0⟩

-- torch.searchsorted(starts, position, right=True) on sorted starts.
def searchsortedRight (starts : List Nat) (position : Nat) : Nat :=
  (starts.takeWhile fun start => decide (start ≤ position)).length

def extendLayout (fb : ForwardBatch) (processedTokens : Nat) : Option TokenLayout := do
  let lengths ← fb.extendSeqLens
  let rowWidth := match fb.extendSeqLensCpu with
    | some lens => lens.foldl max 0
    | none => processedTokens
  let queryStartLoc := lengths.scanl (· + ·) 0
  let sequenceCount := lengths.length
  let positions := List.range processedTokens
  let reqIndices := positions.map fun p => min (searchsortedRight queryStartLoc p - 1) (sequenceCount - 1)
  let starts ← Tensors.gather queryStartLoc reqIndices
  return ⟨lengths,rowWidth,reqIndices,positions.zipWith (· - ·) starts⟩

def tokenLayout (fb : ForwardBatch) (processedTokens : Nat) : Option TokenLayout :=
  let mode := getPleForwardMode fb
  if mode.isTargetVerify then verifyLayout fb processedTokens
  else if isDecode mode then some (decodeLayout processedTokens)
  else extendLayout fb processedTokens

def validTokens (useDecodeFastPath : Bool) (layout : TokenLayout) (processedTokens : Nat) : Option (List Bool) :=
  if useDecodeFastPath then some (List.replicate processedTokens true)
  else (Tensors.gather layout.lengths layout.reqIndices).map fun lengths =>
    layout.tokenOffsets.zipWith (fun offset length => decide (offset < length)) lengths

-- torch.where(keep, indices, 0); the tensors must have one length.
def redirect (keep : List Bool) (indices : List Nat) : Option (List Nat) :=
  if keep.length = indices.length then some (keep.zipWith (fun live index => if live then index else 0) indices)
  else none

def stateIndices (fb : ForwardBatch) (mambaIndices : Nat → Nat) (useDecodeFastPath : Bool) (layout : TokenLayout)
    (processedTokens : Nat) : Option (List Nat) :=
  let sequenceCount := layout.lengths.length
  let indices := (fb.reqPoolIndices.take sequenceCount).map mambaIndices
  let mode := getPleForwardMode fb
  if useDecodeFastPath then
    match fb.outCacheLoc with
    | none => some indices
    | some loc => redirect ((loc.take sequenceCount).map (· != 0)) indices
  else
    let nonempty := layout.lengths.map (· != 0)
    match fb.outCacheLoc with
    | none => redirect nonempty indices
    | some loc =>
        if isDecode mode then
          let located := (loc.take sequenceCount).map (· != 0)
          if located.length = sequenceCount then redirect (nonempty.zipWith (· && ·) located) indices else none
        else if mode.isTargetVerify then
          let located := loc.take processedTokens
          if located.length = sequenceCount * layout.rowWidth then
            redirect (nonempty.zipWith (· && ·) ((List.range sequenceCount).map fun row =>
              ((located.drop (row * layout.rowWidth)).take layout.rowWidth).any (· != 0))) indices
          else none
        else redirect nonempty indices

-- padded[rows, offsets] = values on a tensor filled with one value; an index outside is an error.
def indexPut (sequenceCount rowWidth : Nat) (fill : α) (rows offsets : List Nat) (values : List α) :
    Option (List (List α)) :=
  let writes := (rows.zip offsets).zip values
  if ∀ write ∈ writes, write.1.1 < sequenceCount ∧ write.1.2 < rowWidth then
    some ((List.range sequenceCount).map fun row => (List.range rowWidth).map fun offset =>
      Tensors.put (fun _ => fill) writes (row,offset))
  else none

structure PleBatch where
  mode : ForwardMode
  useDecodeFastPath : Bool
  physicalTokens : Nat
  processedTokens : Nat
  lengths : List Nat
  rowWidth : Nat
  reqIndices : List Nat
  tokenOffsets : List Nat
  validTokens : List Bool
  stateIndices : List Nat
  ngramContext : Option (List (List Long))
  ngramEosTokenId : Option Long

def paddedTokens (eos : Long) (useDecodeFastPath : Bool) (tokens : List Long) (layout : TokenLayout)
    (validTokens : List Bool) : Option (List (List Long)) :=
  if useDecodeFastPath then some (tokens.map fun token => [token])
  else indexPut layout.lengths.length layout.rowWidth eos layout.reqIndices layout.tokenOffsets
    (Tensors.select validTokens tokens (tokens.map fun _ => eos))

def ngramContextOf (context : Nat → List Long) (ngramSize : Nat) (eos : Long) (useDecodeFastPath : Bool)
    (tokens : List Long) (layout : TokenLayout) (validTokens : List Bool) (stateIndices : List Nat) :
    Option (List (List Long)) := do
  let padded ← paddedTokens eos useDecodeFastPath tokens layout validTokens
  let history := stateIndices.map context
  if history.all (fun row => row.length + 1 == ngramSize) && history.length == padded.length then
    some (history.zipWith (· ++ ·) padded)
  else none

def sharedContext (context : Nat → List Long) (ngramSize : Option Nat) (ngramEosTokenId : Option Long)
    (useDecodeFastPath : Bool) (tokens : List Long) (layout : TokenLayout) (validTokens : List Bool)
    (stateIndices : List Nat) : Option (Option (List (List Long))) :=
  match ngramSize, ngramEosTokenId with
  | none, _ => some none
  | some _, none => none
  | some size, some eos =>
      (ngramContextOf context size eos useDecodeFastPath tokens layout validTokens stateIndices).map some

-- `fusion` is SGLANG_ENABLE_QWEN4_PLE_FUSION; `mambaIndices` and `context` are the request
-- pool's. The outer none is an exception, the inner none an idle forward.
def preparePleBatch (fusion : Bool) (mambaIndices : Nat → Nat) (context : Nat → List Long) (inputIds : List Long)
    (fb : ForwardBatch) (ngramSize : Option Nat) (ngramEosTokenId : Option Long) : Option (Option PleBatch) :=
  if fb.tboParentTokenRange.isSome || fb.specIsNgram ||
      fb.specInfo.any (fun spec => spec.topk.getD 1 != 1) then none
  else
    let mode := getPleForwardMode fb
    if isIdle mode then some none
    else do
      let useDecodeFastPath := fusion && isDecode mode
      let physicalTokens := inputIds.length
      let processedTokens ← getProcessedTokenCount fb physicalTokens
      let tokens := inputIds.take processedTokens
      let layout ← tokenLayout fb processedTokens
      let validTokens ← validTokens useDecodeFastPath layout processedTokens
      let stateIndices ← stateIndices fb mambaIndices useDecodeFastPath layout processedTokens
      let ngramContext ← sharedContext context ngramSize ngramEosTokenId useDecodeFastPath tokens layout validTokens
        stateIndices
      return some { mode, useDecodeFastPath, physicalTokens, processedTokens, lengths := layout.lengths
                    rowWidth := layout.rowWidth, reqIndices := layout.reqIndices
                    tokenOffsets := layout.tokenOffsets, validTokens, stateIndices, ngramContext, ngramEosTokenId }

section

-- Tokens laid out row after row: every position has its row and its place in the row.
structure Laid (widths : List Nat) (layout : TokenLayout) : Prop where
  rows : layout.reqIndices = (List.range widths.sum).map (blockOf widths)
  offsets : layout.tokenOffsets = (List.range widths.sum).map fun p => p - offset widths (blockOf widths p)
  count : widths.length = layout.lengths.length

theorem decode_unverified (decoding : isDecode mode = true) : mode.isTargetVerify = false := by
  rw [isDecode,beq_iff_eq] at decoding
  rw [decoding]
  rfl

theorem decode_laid (processedTokens : Nat) :
    Laid (List.replicate processedTokens 1) (decodeLayout processedTokens) := by
  have place : ∀ p ∈ List.range processedTokens, blockOf (List.replicate processedTokens 1) p = p := by
    intro p member
    have inside := List.mem_range.mp member
    rw [blockOf_replicate _ _ _ (by omega),Nat.div_one]
  refine ⟨?_,?_,by simp [decodeLayout]⟩
  · rw [List.sum_replicate_nat,Nat.mul_one,List.map_congr_left place]
    simp [decodeLayout]
  · rw [List.sum_replicate_nat,Nat.mul_one]
    apply List.ext_getElem
    · simp [decodeLayout]
    · intro p bound _
      have inside : p < processedTokens := by simpa [decodeLayout] using bound
      have start := offset_replicate processedTokens 1 p (Nat.le_of_lt inside)
      simp [decodeLayout,place p (List.mem_range.mpr inside),start]

theorem verify_parts (fb : ForwardBatch) (processedTokens : Nat) (layout : TokenLayout)
    (ran : verifyLayout fb processedTokens = some layout) :
    0 < layout.rowWidth ∧ processedTokens = layout.lengths.length * layout.rowWidth ∧
      Laid (List.replicate layout.lengths.length layout.rowWidth) layout := by
  unfold verifyLayout at ran
  simp only [Option.bind_eq_bind,Option.bind_eq_some_iff] at ran
  obtain ⟨spec,_,rowWidth,_,ran⟩ := ran
  split at ran
  · cases ran
  · rename_i strides
    simp only [not_or,not_not] at strides
    split at ran
    · cases ran
    · rename_i matched
      rw [not_not] at matched
      cases ran
      have parts := Nat.div_add_mod processedTokens rowWidth
      have whole : processedTokens = processedTokens / rowWidth * rowWidth := by
        rw [Nat.mul_comm]
        omega
      simp only [matched]
      refine ⟨by omega,whole,?_,?_,by simp [matched]⟩
      · rw [List.sum_replicate_nat,← whole]
        apply List.map_congr_left
        intro p member
        have inside := List.mem_range.mp member
        exact (blockOf_replicate _ _ _ (by omega)).symm
      · rw [List.sum_replicate_nat,← whole]
        apply List.map_congr_left
        intro p member
        have inside := List.mem_range.mp member
        have row := blockOf_replicate (processedTokens / rowWidth) rowWidth p (by omega)
        have bound : p / rowWidth < processedTokens / rowWidth :=
          Nat.div_lt_of_lt_mul (by rw [Nat.mul_comm]; omega)
        rw [row,offset_replicate _ _ _ (Nat.le_of_lt bound)]

-- Empty rows share their start with the next row; the search takes the row that has tokens.
theorem extend_laid (fb : ForwardBatch) (processedTokens : Nat) (layout : TokenLayout)
    (ran : extendLayout fb processedTokens = some layout) (whole : layout.lengths.sum = processedTokens) :
    Laid layout.lengths layout := by
  unfold extendLayout at ran
  simp only [Option.bind_eq_bind,Option.bind_eq_some_iff] at ran
  obtain ⟨lengths,given,starts,gathered,ran⟩ := ran
  cases ran
  simp only at whole
  have place : ∀ p ∈ List.range processedTokens,
      min (searchsortedRight (lengths.scanl (· + ·) 0) p - 1) (lengths.length - 1) = blockOf lengths p := by
    intro p member
    have inside := List.mem_range.mp member
    have within := blockOf_within lengths p (by omega)
    have reached := starts_reached lengths _ p within
    obtain ⟨size,found,_⟩ := within
    obtain ⟨bound,_⟩ := List.getElem?_eq_some_iff.mp found
    unfold searchsortedRight
    omega
  rw [List.map_congr_left place] at gathered ⊢
  have starts_exact : starts = (List.range processedTokens).map fun p => offset lengths (blockOf lengths p) := by
    have found := Tensors.gather_found (lengths.scanl (· + ·) 0) ((List.range processedTokens).map (blockOf lengths))
      (offset lengths) (by
        intro h member
        obtain ⟨p,inside,rfl⟩ := List.mem_map.mp member
        have bound := List.mem_range.mp inside
        obtain ⟨size,found,_⟩ := blockOf_within lengths p (by omega)
        obtain ⟨small,_⟩ := List.getElem?_eq_some_iff.mp found
        rw [scanl_offset]
        simp [Nat.lt_succ_of_lt small])
    rw [gathered,Option.some_inj] at found
    rw [found,List.map_map]
    rfl
  refine ⟨by simp only [whole],?_,rfl⟩
  simp only [whole,starts_exact]
  rw [List.zipWith_map_right,List.zipWith_self]

theorem extend_parts (fb : ForwardBatch) (processedTokens : Nat) (layout : TokenLayout)
    (ran : extendLayout fb processedTokens = some layout) : fb.extendSeqLens = some layout.lengths ∧
      layout.rowWidth = match fb.extendSeqLensCpu with
        | some lens => lens.foldl max 0
        | none => processedTokens := by
  unfold extendLayout at ran
  simp only [Option.bind_eq_bind,Option.bind_eq_some_iff] at ran
  obtain ⟨lengths,given,_,_,ran⟩ := ran
  cases ran
  exact ⟨given,rfl⟩

variable (widths : List Nat) (layout : TokenLayout) (laid : Laid widths layout)
include laid

theorem laid_position (p : Nat) (inside : p < widths.sum) :
    layout.reqIndices[p]? = some (blockOf widths p) ∧
      layout.tokenOffsets[p]? = some (p - offset widths (blockOf widths p)) := by
  rw [laid.rows,laid.offsets]
  simp [inside]

theorem laid_place (h k : Nat) (inside : k < widths.getD h 0) :
    offset widths h + k < widths.sum ∧ layout.reqIndices[offset widths h + k]? = some h ∧
      layout.tokenOffsets[offset widths h + k]? = some k := by
  have within := within_place widths h k inside
  have sum := within_sum widths h _ within
  have place := laid_position widths layout laid _ sum
  rw [blockOf_exact widths h _ within,Nat.add_sub_cancel_left] at place
  exact ⟨sum,place⟩

theorem laid_values (values : List α) (whole : values.length = widths.sum) (write : (Nat × Nat) × α)
    (member : write ∈ (layout.reqIndices.zip layout.tokenOffsets).zip values) :
    ∃ p < widths.sum, write.1 = (blockOf widths p,p - offset widths (blockOf widths p)) ∧
      values[p]? = some write.2 := by
  obtain ⟨p,bound,rfl⟩ := List.mem_iff_getElem.mp member
  have inside : p < values.length := by
    rw [List.length_zip] at bound
    omega
  refine ⟨p,by omega,?_,?_⟩
  · simp [laid.rows,laid.offsets]
  · simp [inside]

theorem laid_write (values : List α) (whole : values.length = widths.sum) (h k : Nat)
    (inside : k < widths.getD h 0) :
    ∃ value, values[offset widths h + k]? = some value ∧
      ((h,k),value) ∈ (layout.reqIndices.zip layout.tokenOffsets).zip values := by
  obtain ⟨sum,row,place⟩ := laid_place widths layout laid h k inside
  have bound : offset widths h + k < values.length := by omega
  refine ⟨values[offset widths h + k],List.getElem?_eq_getElem bound,?_⟩
  apply List.mem_of_getElem? (i := offset widths h + k)
  rw [List.getElem?_zip_eq_some,List.getElem?_zip_eq_some]
  exact ⟨⟨row,place⟩,List.getElem?_eq_getElem bound⟩

omit laid in
theorem narrow_bound (rowWidth : Nat) (narrow : ∀ width ∈ widths, width ≤ rowWidth) (h : Nat) :
    widths.getD h 0 ≤ rowWidth := by
  rw [List.getD_eq_getElem?_getD]
  cases found : widths[h]? with
  | none => exact Nat.zero_le _
  | some width => exact narrow width (List.mem_of_getElem? found)

section
variable (values : List α) (whole : values.length = widths.sum) (fill : α)
include whole

theorem put_own (h k : Nat) (own : k < widths.getD h 0) :
    some (Tensors.put (fun _ => fill) ((layout.reqIndices.zip layout.tokenOffsets).zip values) (h,k)) =
      values[offset widths h + k]? := by
  obtain ⟨value,found,written⟩ := laid_write widths layout laid values whole h k own
  rw [found]
  congr 1
  apply Tensors.put_agreed _ _ _ value ⟨_,written,rfl⟩
  intro other member same
  obtain ⟨p,sum,place,read⟩ := laid_values widths layout laid values whole other member
  rw [same,Prod.mk.injEq] at place
  obtain ⟨_,_,above,_⟩ := blockOf_within widths p sum
  rw [← place.1] at above place
  have position : p = offset widths h + k := by omega
  rw [position,found,Option.some_inj] at read
  exact read.symm

theorem put_fill (h k : Nat) (beyond : widths.getD h 0 ≤ k) :
    Tensors.put (fun _ => fill) ((layout.reqIndices.zip layout.tokenOffsets).zip values) (h,k) = fill := by
  apply Tensors.put_other
  intro other member same
  obtain ⟨p,sum,place,_⟩ := laid_values widths layout laid values whole other member
  rw [same,Prod.mk.injEq] at place
  obtain ⟨size,found,above,below⟩ := blockOf_within widths p sum
  rw [← place.1] at found above below place
  rw [List.getD_eq_getElem?_getD,found,Option.getD_some] at beyond
  omega

-- Writing the tokens to their places leaves each row's own tokens, then the filling.
theorem indexPut_rows (rowWidth : Nat) (narrow : ∀ width ∈ widths, width ≤ rowWidth) :
    indexPut layout.lengths.length rowWidth fill layout.reqIndices layout.tokenOffsets values =
      some ((List.range layout.lengths.length).map fun h =>
        block widths values h ++ List.replicate (rowWidth - widths.getD h 0) fill) := by
  unfold indexPut
  rw [if_pos]
  · congr 1
    apply List.map_congr_left
    intro h _
    have length := block_length widths values whole h
    have bound := narrow_bound widths rowWidth narrow h
    apply List.ext_getElem?
    intro k
    by_cases inside : k < rowWidth
    · rw [List.getElem?_map,List.getElem?_range inside,Option.map_some]
      by_cases own : k < widths.getD h 0
      · rw [List.getElem?_append_left (by omega),block_getElem? widths values h k own]
        exact put_own widths layout laid values whole fill h k own
      · rw [List.getElem?_append_right (by omega),length,List.getElem?_replicate,if_pos (by omega)]
        exact congrArg some (put_fill widths layout laid values whole fill h k (by omega))
    · rw [List.getElem?_eq_none (by simpa using inside),List.getElem?_eq_none]
      simp only [List.length_append,length,List.length_replicate]
      omega
  · intro write member
    obtain ⟨p,sum,place,_⟩ := laid_values widths layout laid values whole write member
    obtain ⟨size,found,above,below⟩ := blockOf_within widths p sum
    obtain ⟨bound,_⟩ := List.getElem?_eq_some_iff.mp found
    have small := narrow size (List.mem_of_getElem? found)
    have count := laid.count
    rw [place]
    exact ⟨by omega,by omega⟩

end

end

-- A row of padding has no cache location of its own.
def located (fb : ForwardBatch) (rowWidth row : Nat) : Bool :=
  match fb.outCacheLoc with
  | none => true
  | some loc =>
      if isDecode (getPleForwardMode fb) then loc.getD row 0 != 0
      else if (getPleForwardMode fb).isTargetVerify then ((loc.drop (row * rowWidth)).take rowWidth).any (· != 0)
      else true

def live (fb : ForwardBatch) (lengths : List Nat) (rowWidth row : Nat) : Bool :=
  lengths.getD row 0 != 0 && located fb rowWidth row

def workingSlot (fb : ForwardBatch) (mambaIndices : Nat → Nat) (row : Nat) : Nat :=
  mambaIndices (fb.reqPoolIndices.getD row 0)

theorem redirect_parts (keep : List Bool) (indices out : List Nat) (ran : redirect keep indices = some out) :
    keep.length = indices.length ∧
      out = (List.range keep.length).map fun row => if keep.getD row false then indices.getD row 0 else 0 := by
  unfold redirect at ran
  split at ran
  · rename_i same
    cases ran
    refine ⟨same,?_⟩
    apply List.ext_getElem
    · simp [same]
    · intro row bound _
      have first : row < keep.length := by simp at bound; omega
      have second : row < indices.length := by omega
      simp [first,second]
  · cases ran

theorem working_found (fb : ForwardBatch) (mambaIndices : Nat → Nat) (count row : Nat) (inside : row < count)
    (length : ((fb.reqPoolIndices.take count).map mambaIndices).length = count) :
    ((fb.reqPoolIndices.take count).map mambaIndices).getD row 0 = workingSlot fb mambaIndices row := by
  simp only [List.length_map,List.length_take] at length
  have bound : row < fb.reqPoolIndices.length := by omega
  unfold workingSlot
  simp [bound,inside]

theorem redirect_live (fb : ForwardBatch) (mambaIndices : Nat → Nat) (lengths : List Nat) (rowWidth : Nat)
    (keep : List Bool) (out : List Nat)
    (ran : redirect keep ((fb.reqPoolIndices.take lengths.length).map mambaIndices) = some out)
    (count : keep.length = lengths.length)
    (kept : ∀ row < lengths.length, keep.getD row false = live fb lengths rowWidth row) :
    out = (List.range lengths.length).map fun row =>
      if live fb lengths rowWidth row then workingSlot fb mambaIndices row else 0 := by
  obtain ⟨same,rfl⟩ := redirect_parts keep _ out ran
  rw [count]
  apply List.map_congr_left
  intro row member
  have inside := List.mem_range.mp member
  rw [kept row inside,working_found fb mambaIndices _ row inside (by omega)]

section
variable (fb : ForwardBatch) (mambaIndices : Nat → Nat) (layout : TokenLayout) (processedTokens : Nat) (out : List Nat)

-- On the fast path every row has a token, so the cache location alone says which rows live.
theorem fastIndices_exact (ran : stateIndices fb mambaIndices true layout processedTokens = some out)
    (decoding : isDecode (getPleForwardMode fb) = true) (ones : layout.lengths = List.replicate layout.lengths.length 1)
    (length : out.length = layout.lengths.length) : out = (List.range layout.lengths.length).map fun row =>
      if live fb layout.lengths layout.rowWidth row then workingSlot fb mambaIndices row else 0 := by
  have filled : ∀ row < layout.lengths.length, live fb layout.lengths layout.rowWidth row =
      located fb layout.rowWidth row := by
    intro row inside
    unfold live
    rw [ones]
    simp [inside]
  unfold stateIndices at ran
  simp only [if_true] at ran
  cases place : fb.outCacheLoc with
  | none =>
      simp only [place,Option.some_inj] at ran
      subst ran
      apply List.ext_getElem
      · simpa using length
      · intro row bound _
        have inside : row < layout.lengths.length := by rwa [length] at bound
        have found := working_found fb mambaIndices _ row inside length
        rw [List.getD_eq_getElem?_getD,List.getElem?_eq_getElem bound,Option.getD_some] at found
        rw [found]
        simp [filled row inside,located,place]
  | some loc =>
      simp only [place] at ran
      obtain ⟨same,shape⟩ := redirect_parts _ _ _ ran
      have count : ((loc.take layout.lengths.length).map (· != 0)).length = layout.lengths.length := by
        rw [shape] at length
        simpa using length
      apply redirect_live fb mambaIndices layout.lengths layout.rowWidth _ out ran count
      intro row inside
      simp only [List.length_map,List.length_take] at count
      have bound : row < loc.length := by omega
      rw [filled row inside]
      simp [located,place,decoding,bound,inside]

theorem generalIndices_exact (ran : stateIndices fb mambaIndices false layout processedTokens = some out)
    (strides : (getPleForwardMode fb).isTargetVerify = true → processedTokens = layout.lengths.length * layout.rowWidth) :
    out = (List.range layout.lengths.length).map fun row =>
      if live fb layout.lengths layout.rowWidth row then workingSlot fb mambaIndices row else 0 := by
  have nonempty : ∀ row < layout.lengths.length,
      (layout.lengths.map (· != 0)).getD row false = (layout.lengths.getD row 0 != 0) := by
    intro row inside
    simp [inside]
  unfold stateIndices at ran
  simp only [Bool.false_eq_true,if_false] at ran
  cases place : fb.outCacheLoc with
  | none =>
      simp only [place] at ran
      apply redirect_live fb mambaIndices layout.lengths layout.rowWidth _ out ran (by simp)
      intro row inside
      rw [nonempty row inside]
      simp [live,located,place]
  | some loc =>
      simp only [place] at ran
      by_cases decoding : isDecode (getPleForwardMode fb) = true
      · rw [if_pos decoding] at ran
        split at ran
        · rename_i count
          apply redirect_live fb mambaIndices layout.lengths layout.rowWidth _ out ran (by simpa using count)
          intro row inside
          simp only [List.length_map,List.length_take] at count
          have bound : row < loc.length := by omega
          simp [live,located,place,decoding,bound,inside]
        · cases ran
      · rw [if_neg decoding] at ran
        by_cases verifying : (getPleForwardMode fb).isTargetVerify = true
        · rw [if_pos verifying] at ran
          split at ran
          · rename_i count
            apply redirect_live fb mambaIndices layout.lengths layout.rowWidth _ out ran (by simp)
            intro row inside
            have whole := strides verifying
            have window : ((loc.take processedTokens).drop (row * layout.rowWidth)).take layout.rowWidth =
                (loc.drop (row * layout.rowWidth)).take layout.rowWidth := by
              have next := Nat.mul_le_mul_right layout.rowWidth inside
              rw [Nat.succ_mul] at next
              rw [List.drop_take,List.take_take,Nat.min_eq_left (by omega)]
            simp [live,located,place,decoding,verifying,inside,window]
          · cases ran
        · rw [if_neg verifying] at ran
          apply redirect_live fb mambaIndices layout.lengths layout.rowWidth _ out ran (by simp)
          intro row inside
          rw [nonempty row inside]
          simp [live,located,place,decoding,verifying]

theorem stateIndices_exact (useDecodeFastPath : Bool)
    (ran : stateIndices fb mambaIndices useDecodeFastPath layout processedTokens = some out)
    (fast : useDecodeFastPath = true → isDecode (getPleForwardMode fb) = true ∧
      layout.lengths = List.replicate layout.lengths.length 1)
    (length : out.length = layout.lengths.length)
    (strides : (getPleForwardMode fb).isTargetVerify = true → processedTokens = layout.lengths.length * layout.rowWidth) :
    out = (List.range layout.lengths.length).map fun row =>
      if live fb layout.lengths layout.rowWidth row then workingSlot fb mambaIndices row else 0 := by
  cases useDecodeFastPath with
  | true =>
      obtain ⟨decoding,ones⟩ := fast rfl
      exact fastIndices_exact fb mambaIndices layout processedTokens out ran decoding ones length
  | false => exact generalIndices_exact fb mambaIndices layout processedTokens out ran strides

end

-- The tokens each row of the layout spans; verify rows span their whole stride.
def PleBatch.widths (batch : PleBatch) : List Nat :=
  if batch.mode.isTargetVerify then List.replicate batch.lengths.length batch.rowWidth else batch.lengths

def PleBatch.layout (batch : PleBatch) : TokenLayout :=
  ⟨batch.lengths,batch.rowWidth,batch.reqIndices,batch.tokenOffsets⟩

-- A row's tokens as the history sees them: EOS at the steps past the row's length.
def PleBatch.shown (batch : PleBatch) (eos : Long) (inputIds : List Long) : List Long :=
  Tensors.select batch.validTokens (inputIds.take batch.processedTokens)
    ((inputIds.take batch.processedTokens).map fun _ => eos)

def slotOf (fb : ForwardBatch) (mambaIndices : Nat → Nat) (batch : PleBatch) (row : Nat) : Nat :=
  if live fb batch.lengths batch.rowWidth row then workingSlot fb mambaIndices row else 0

def laidFromLengths (mode : ForwardMode) : Bool := !isDecode mode && !mode.isTargetVerify

-- What the scheduler sends with such a forward: the lengths cover the tokens, and the
-- host copy of the lengths is a copy.
structure Ragged (fb : ForwardBatch) (inputIds : List Long) : Prop where
  whole : ∀ lengths processed, fb.extendSeqLens = some lengths →
    getProcessedTokenCount fb inputIds.length = some processed → lengths.sum = processed
  mirrored : ∀ lengths, fb.extendSeqLensCpu = some lengths → fb.extendSeqLens = some lengths

structure Prepared (fusion : Bool) (mambaIndices : Nat → Nat) (context : Nat → List Long) (inputIds : List Long)
    (fb : ForwardBatch) (ngramSize : Nat) (eos : Long) (batch : PleBatch) : Prop where
  mode : batch.mode = getPleForwardMode fb
  active : isIdle batch.mode = false
  fast : batch.useDecodeFastPath = (fusion && isDecode batch.mode)
  physical : batch.physicalTokens = inputIds.length
  inside : batch.processedTokens ≤ inputIds.length
  processed : getProcessedTokenCount fb inputIds.length = some batch.processedTokens
  decoded : isDecode batch.mode = true → batch.lengths = List.replicate batch.processedTokens 1 ∧ batch.rowWidth = 1
  verified : batch.mode.isTargetVerify = true →
    0 < batch.rowWidth ∧ batch.processedTokens = batch.lengths.length * batch.rowWidth
  extended : isDecode batch.mode = false → batch.mode.isTargetVerify = false → fb.extendSeqLens = some batch.lengths
  laid : Laid batch.widths batch.layout
  whole : batch.widths.sum = batch.processedTokens
  narrow : ∀ width ∈ batch.widths, width ≤ batch.rowWidth
  valid : batch.validTokens = (List.range batch.processedTokens).map fun p =>
    decide (p - offset batch.widths (blockOf batch.widths p) < batch.lengths.getD (blockOf batch.widths p) 0)
  slots : batch.stateIndices = (List.range batch.lengths.length).map (slotOf fb mambaIndices batch)
  wide : ∀ row < batch.lengths.length, (context (slotOf fb mambaIndices batch row)).length + 1 = ngramSize
  shared : batch.ngramContext = some ((List.range batch.lengths.length).map fun row =>
    context (slotOf fb mambaIndices batch row) ++ (block batch.widths (batch.shown eos inputIds) row ++
      List.replicate (batch.rowWidth - batch.widths.getD row 0) eos))
  told : batch.ngramEosTokenId = some eos

theorem maximum_bound (values : List Nat) (start : Nat) :
    start ≤ values.foldl max start ∧ ∀ value ∈ values, value ≤ values.foldl max start := by
  induction values generalizing start with
  | nil => simp
  | cons first rest ih =>
      obtain ⟨above,others⟩ := ih (max start first)
      rw [List.foldl_cons]
      refine ⟨by omega,?_⟩
      intro value member
      rcases List.mem_cons.mp member with rfl | later
      · omega
      · exact others value later

theorem layout_parts (fb : ForwardBatch) (inputIds : List Long)
    (ragged : laidFromLengths (getPleForwardMode fb) = true → Ragged fb inputIds) (processedTokens : Nat)
    (counted : getProcessedTokenCount fb inputIds.length = some processedTokens) (layout : TokenLayout)
    (ran : tokenLayout fb processedTokens = some layout) (widths : List Nat)
    (widths_exact : widths = if (getPleForwardMode fb).isTargetVerify then
      List.replicate layout.lengths.length layout.rowWidth else layout.lengths) :
    Laid widths layout ∧ widths.sum = processedTokens ∧ (∀ width ∈ widths, width ≤ layout.rowWidth) ∧
      (isDecode (getPleForwardMode fb) = true →
        layout.lengths = List.replicate processedTokens 1 ∧ layout.rowWidth = 1) ∧
      ((getPleForwardMode fb).isTargetVerify = true →
        0 < layout.rowWidth ∧ processedTokens = layout.lengths.length * layout.rowWidth) ∧
      (isDecode (getPleForwardMode fb) = false → (getPleForwardMode fb).isTargetVerify = false →
        fb.extendSeqLens = some layout.lengths) := by
  unfold tokenLayout at ran
  simp only at ran
  by_cases verifying : (getPleForwardMode fb).isTargetVerify = true
  · rw [if_pos verifying] at ran widths_exact
    subst widths_exact
    obtain ⟨positive,whole,laid⟩ := verify_parts fb processedTokens layout ran
    refine ⟨laid,?_,?_,?_,fun _ => ⟨positive,whole⟩,?_⟩
    · rw [List.sum_replicate_nat,whole]
    · intro width member
      exact Nat.le_of_eq (List.eq_of_mem_replicate member)
    · intro decoding
      rw [decode_unverified decoding] at verifying
      cases verifying
    · intro _ other
      rw [verifying] at other
      cases other
  · rw [if_neg verifying] at ran widths_exact
    subst widths_exact
    by_cases decoding : isDecode (getPleForwardMode fb) = true
    · rw [if_pos decoding] at ran
      cases ran
      refine ⟨decode_laid processedTokens,?_,?_,fun _ => ⟨rfl,rfl⟩,fun other => absurd other verifying,?_⟩
      · simp [decodeLayout]
      · intro width member
        exact Nat.le_of_eq (List.eq_of_mem_replicate member)
      · intro other
        rw [decoding] at other
        cases other
    · rw [if_neg decoding] at ran
      obtain ⟨sent,width⟩ := extend_parts fb processedTokens layout ran
      obtain ⟨covered,mirrored⟩ := ragged (by simp [laidFromLengths,verifying,decoding])
      have whole := covered layout.lengths processedTokens sent counted
      refine ⟨extend_laid fb processedTokens layout ran whole,whole,?_,fun other => absurd other decoding,
        fun other => absurd other verifying,fun _ _ => sent⟩
      rw [width]
      intro size member
      cases copied : fb.extendSeqLensCpu with
      | none =>
          obtain ⟨h,found⟩ := List.getElem?_of_mem member
          have next := offset_next layout.lengths h size found
          have small := offset_le_sum layout.lengths (h + 1)
          dsimp only
          omega
      | some copies =>
          have same := mirrored copies copied
          rw [sent,Option.some_inj] at same
          rw [same] at member
          exact (maximum_bound copies 0).2 size member

-- Every processed token is inside its row unless a verify row is short.
theorem valid_exact (useDecodeFastPath : Bool) (widths : List Nat) (layout : TokenLayout) (laid : Laid widths layout)
    (fast : useDecodeFastPath = true → layout.lengths = List.replicate widths.sum 1 ∧ widths = layout.lengths)
    (valid : List Bool) (ran : validTokens useDecodeFastPath layout widths.sum = some valid) :
    valid = (List.range widths.sum).map fun p =>
      decide (p - offset widths (blockOf widths p) < layout.lengths.getD (blockOf widths p) 0) := by
  unfold validTokens at ran
  split at ran
  · rename_i fusing
    obtain ⟨ones,same⟩ := fast fusing
    cases ran
    apply List.ext_getElem
    · simp
    · intro p bound _
      have inside : p < widths.sum := by simpa using bound
      obtain ⟨size,found,above,below⟩ := blockOf_within widths p inside
      have length : layout.lengths.getD (blockOf widths p) 0 = size := by
        rw [← same,List.getD_eq_getElem?_getD,found,Option.getD_some]
      simp only [List.getElem_replicate,List.getElem_map,List.getElem_range,length]
      symm
      rw [decide_eq_true_iff]
      omega
  · have gathered := Tensors.gather_found layout.lengths layout.reqIndices (layout.lengths.getD · 0) (by
      intro h member
      rw [laid.rows] at member
      obtain ⟨p,inside,rfl⟩ := List.mem_map.mp member
      obtain ⟨size,found,_⟩ := blockOf_within widths p (List.mem_range.mp inside)
      obtain ⟨bound,_⟩ := List.getElem?_eq_some_iff.mp found
      rw [laid.count] at bound
      simp [bound])
    rw [gathered,Option.map_some,Option.some_inj] at ran
    rw [← ran,laid.rows,laid.offsets,List.map_map,List.zipWith_map,List.zipWith_self]
    rfl

theorem select_true (yes no : List α) (same : yes.length = no.length) :
    Tensors.select (List.replicate yes.length true) yes no = yes := by
  unfold Tensors.select
  apply List.ext_getElem
  · simp [same]
  · intro i bound _
    simp

theorem padded_rows (eos : Long) (useDecodeFastPath : Bool) (tokens : List Long) (widths : List Nat)
    (layout : TokenLayout) (laid : Laid widths layout) (whole : tokens.length = widths.sum)
    (narrow : ∀ width ∈ widths, width ≤ layout.rowWidth) (valid : List Bool)
    (marked : valid.length = widths.sum)
    (fast : useDecodeFastPath = true → widths = List.replicate tokens.length 1 ∧ layout.rowWidth = 1 ∧
      valid = List.replicate tokens.length true) (padded : List (List Long))
    (ran : paddedTokens eos useDecodeFastPath tokens layout valid = some padded) :
    padded = (List.range layout.lengths.length).map fun row =>
      block widths (Tensors.select valid tokens (tokens.map fun _ => eos)) row ++
        List.replicate (layout.rowWidth - widths.getD row 0) eos := by
  unfold paddedTokens at ran
  split at ran
  · rename_i fusing
    obtain ⟨ones,single,all⟩ := fast fusing
    cases ran
    have count := laid.count
    rw [ones,List.length_replicate] at count
    rw [all,select_true tokens _ (by simp),block_singletons,← ones,← count]
    apply List.map_congr_left
    intro row member
    have width : widths.getD row 0 = 1 := by
      rw [ones]
      simp [List.mem_range.mp member]
    simp only [single,width,Nat.sub_self,List.replicate_zero,List.append_nil]
  · have rows := indexPut_rows widths layout laid (Tensors.select valid tokens (tokens.map fun _ => eos))
      (by simp [Tensors.select,marked,whole]) eos layout.rowWidth narrow
    rw [ran,Option.some_inj] at rows
    exact rows

theorem processed_inside (fb : ForwardBatch) (physicalTokens processed : Nat)
    (counted : getProcessedTokenCount fb physicalTokens = some processed) : processed ≤ physicalTokens := by
  unfold getProcessedTokenCount at counted
  simp only at counted
  split at counted
  · cases counted
    exact Nat.le_refl _
  · split at counted
    · cases counted
      omega
    · cases counted

theorem prepared_exact (fusion : Bool) (mambaIndices : Nat → Nat) (context : Nat → List Long) (inputIds : List Long)
    (fb : ForwardBatch) (ragged : laidFromLengths (getPleForwardMode fb) = true → Ragged fb inputIds) (ngramSize : Nat)
    (eos : Long) (batch : PleBatch)
    (ran : preparePleBatch fusion mambaIndices context inputIds fb (some ngramSize) (some eos) = some (some batch)) :
    Prepared fusion mambaIndices context inputIds fb ngramSize eos batch := by
  unfold preparePleBatch at ran
  split at ran
  · cases ran
  · simp only at ran
    split at ran
    · cases ran
    · rename_i active
      simp only [Option.bind_eq_bind,Option.bind_eq_some_iff] at ran
      obtain ⟨processed,counted,layout,laidOut,valid,marked,slots,mapped,shared,joined,ran⟩ := ran
      cases ran
      obtain ⟨widths,widths_exact⟩ : ∃ widths, widths = if (getPleForwardMode fb).isTargetVerify then
        List.replicate layout.lengths.length layout.rowWidth else layout.lengths := ⟨_,rfl⟩
      obtain ⟨laid,whole,narrow,decoded,verified,extended⟩ :=
        layout_parts fb inputIds ragged processed counted layout laidOut widths widths_exact
      have inside := processed_inside fb inputIds.length processed counted
      have tokens_length : (inputIds.take processed).length = processed := by simp [inside]
      have decoding : (fusion && isDecode (getPleForwardMode fb)) = true → isDecode (getPleForwardMode fb) = true :=
        fun both => (Bool.and_eq_true_iff.mp both).2
      have single : (fusion && isDecode (getPleForwardMode fb)) = true →
          layout.lengths = List.replicate processed 1 ∧ widths = layout.lengths := by
        intro both
        rw [decode_unverified (decoding both)] at widths_exact
        exact ⟨(decoded (decoding both)).1,widths_exact⟩
      subst whole
      have valid_form := valid_exact _ widths layout laid single valid marked
      simp only [sharedContext,ngramContextOf,Option.map_eq_some_iff,Option.bind_eq_bind,Option.bind_eq_some_iff]
        at joined
      obtain ⟨rows,⟨padded,filled,joined⟩,rfl⟩ := joined
      split at joined
      · rename_i matched
        cases joined
        simp only [Bool.and_eq_true,List.all_eq_true,beq_iff_eq,List.length_map] at matched
        have padded_form := padded_rows eos _ _ widths layout laid tokens_length narrow valid (by simp [valid_form])
          (by
            intro both
            obtain ⟨ones,same⟩ := single both
            refine ⟨by rw [tokens_length]; exact same.trans ones,(decoded (decoding both)).2,?_⟩
            unfold validTokens at marked
            rw [if_pos both,Option.some_inj] at marked
            rw [tokens_length,marked]) padded filled
        have count : slots.length = layout.lengths.length := by
          rw [matched.2,padded_form]
          simp
        have slots_form := stateIndices_exact fb mambaIndices layout _ slots _ mapped
          (fun both => ⟨decoding both,by
            have ones := (single both).1
            have same := congrArg List.length ones
            rw [List.length_replicate] at same
            rw [same]
            exact ones⟩) count (fun verify => (verified verify).2)
        refine ⟨rfl,by simpa using active,rfl,rfl,inside,counted,decoded,verified,extended,?_,?_,?_,?_,slots_form,?_,
          ?_,rfl⟩
        · rwa [PleBatch.widths,← widths_exact]
        · rw [PleBatch.widths,← widths_exact]
        · rwa [PleBatch.widths,← widths_exact]
        · rwa [PleBatch.widths,← widths_exact]
        · intro row bound
          apply matched.1
          rw [slots_form]
          exact List.mem_map_of_mem (List.mem_map_of_mem (List.mem_range.mpr bound))
        · rw [PleBatch.widths,← widths_exact,padded_form,slots_form,List.map_map,List.zipWith_map,List.zipWith_self]
          rfl
      · cases joined

end OneSpark.PleLayout
