import OneSpark.HashMeans
import OneSpark.PleShards

namespace OneSpark.ShardRuns
open Blocks RowChunks RowWrites RingSlots HashBuild HashMeans Nvfp4Rows TextEdits PleShards

structure Named (p : List Char) (n : Nat) (name : List Char) : Prop where
  marked : contains marker name = true
  index : searchShard name = some n
  owner : modPrefix name = p

-- Shards of one dtype and width for the table of V rows that shards of `size` rows make up.
structure ShardSet (p : List Char) (V parts size width : Nat) (t : DType) (calls : Nat → Call) : Prop where
  named : ∀ n < parts, Named p n (calls n).name
  typed : ∀ n < parts, (calls n).weight.dtype = t
  wide : ∀ n < parts, (calls n).weight.width = width
  short : ∀ n < parts, (calls n).weight.rows.length ≤ size
  covered : ∀ g < V, ∃ n < parts, n * size ≤ g ∧ g < n * size + (calls n).weight.rows.length

def shardCeil (V parts : Nat) : Nat := (V + parts - 1) / parts

def shardSpans (emb : Embedding) (size : Nat) (calls : Nat → Call) (order : List Nat) : List (Nat × Nat) :=
  order.flatMap fun n => overlap (n * size) (n * size + (calls n).weight.rows.length) emb.tpStart emb.tpEnd

theorem spans_next (emb : Embedding) (size : Nat) (calls : Nat → Call) (done : List Nat) (n : Nat) :
    shardSpans emb size calls (done ++ [n]) = shardSpans emb size calls done ++
      overlap (n * size) (n * size + (calls n).weight.rows.length) emb.tpStart emb.tpEnd := by
  rw [shardSpans,List.flatMap_append,List.flatMap_singleton]
  rfl

section
variable (convert : DType → ℚ → ℚ) (p : List Char) (emb : Embedding) (calls : Nat → Call)

theorem load_stored (loader : Loader) (n : Nat) (storage next : Storage) (named : Named p n (calls n).name)
    (found : loader.pleModules p = some { emb with storage := storage })
    (loaded : loadRows convert loader.pleNumSyncShards emb (calls n) n storage = .ok next) :
    ∃ after, loadQwen4ExpPleShard convert loader (calls n) = .ok (true,after) ∧
      after.pleModules p = some { emb with storage := next } ∧ after.pleNumSyncShards = loader.pleNumSyncShards := by
  have same : loadRows convert loader.pleNumSyncShards { emb with storage := storage } (calls n) n storage = .ok next := loaded
  unfold loadQwen4ExpPleShard
  rw [named.marked,named.index,named.owner,if_neg (by decide),found]
  dsimp only
  rw [same]
  refine ⟨_,rfl,?_,rfl⟩
  exact Function.update_self p _ loader.pleModules

theorem load_refused (loader : Loader) (n : Nat) (refusal : Refusal) (named : Named p n (calls n).name)
    (found : loader.pleModules p = some emb)
    (refused : loadRows convert loader.pleNumSyncShards emb (calls n) n emb.storage = .error refusal) :
    loadQwen4ExpPleShard convert loader (calls n) = .error refusal := by
  unfold loadQwen4ExpPleShard
  rw [named.marked,named.index,named.owner,if_neg (by decide),found]
  dsimp only
  rw [refused]
  rfl

theorem run_stored (parts : Nat) (Inv : List Nat → Storage → Prop) (named : ∀ n < parts, Named p n (calls n).name)
    (step : ∀ done n storage, n < parts → Inv done storage →
      ∃ next, loadRows convert parts emb (calls n) n storage = .ok next ∧ Inv (done ++ [n]) next)
    (order : List Nat) (inside : ∀ n ∈ order, n < parts) (done : List Nat) (loader : Loader) (storage : Storage)
    (shards : loader.pleNumSyncShards = parts) (found : loader.pleModules p = some { emb with storage := storage })
    (holds : Inv done storage) : ∃ final stored, loadShards convert loader (order.map calls) = .ok final ∧
      final.pleModules p = some { emb with storage := stored } ∧ Inv (done ++ order) stored := by
  induction order generalizing done loader storage with
  | nil => exact ⟨loader,storage,rfl,found,by rwa [List.append_nil]⟩
  | cons n rest ih =>
      have here := inside n List.mem_cons_self
      obtain ⟨next,loaded,more⟩ := step done n storage here holds
      obtain ⟨after,ran,kept,count⟩ := load_stored convert p emb calls loader n storage next (named n here) found
        (by rwa [shards])
      obtain ⟨final,stored,rest_ran,last,all⟩ := ih (fun m later => inside m (List.mem_cons_of_mem _ later)) (done ++ [n])
        after next (count.trans shards) kept more
      refine ⟨final,stored,?_,last,by rwa [List.append_assoc] at all⟩
      rw [loadShards,List.map_cons,List.foldlM_cons,ran]
      exact rest_ran

theorem first_refused (order : List Nat) (n : Nat) (loader : Loader) (refusal : Refusal)
    (refused : loadQwen4ExpPleShard convert loader (calls n) = .error refusal) :
    loadShards convert loader ((n :: order).map calls) = .error refusal := by
  rw [loadShards,List.map_cons,List.foldlM_cons,refused]
  rfl

end

theorem shardSize_exact (V parts : Nat) (positive : 0 < parts) : shardSize V parts = .ok (shardCeil V parts) :=
  if_neg (Nat.ne_of_gt positive)

def Switches (t dtype : DType) : Prop := t = .float8e4m3fn ∧ dtype ≠ .float8e4m3fn

instance (t dtype : DType) : Decidable (Switches t dtype) := inferInstanceAs (Decidable (_ ∧ _))

theorem order_nonempty (parts : Nat) (positive : 0 < parts) (order : List Nat) (perm : order.Perm (List.range parts)) :
    order ≠ [] := by
  rintro rfl
  have empty := perm.length_eq
  rw [List.length_nil,List.length_range] at empty
  omega

section
variable (convert : DType → ℚ → ℚ) (p : List Char) (emb : Embedding) (parts width : Nat) (t : DType) (calls : Nat → Call)
    (positive : 0 < parts) (shards : ShardSet p emb.orgVocabSize parts (shardCeil emb.orgVocabSize parts) width t calls)

def rankRow (row : Nat) : Nat → ℚ :=
  tableRow (fun n => (calls n).weight) (shardCeil emb.orgVocabSize parts) emb.tpStart row

def rawRow (dtype : DType) (row col : Nat) : ℚ := toDType convert t dtype (rankRow emb parts calls row col)

def scaleRow (row group : Nat) : ℚ := convert .float8e4m3fn (scaleAt (rankRow emb parts calls row) group)

def byteRow (row : Nat) : Nat → UInt8 := packedRow (rankRow emb parts calls row)

include positive shards

theorem raw_step (dtype : DType) (stays : ¬ Switches t dtype) (base : Tensor ℚ) (wide : base.width = width)
    (room : emb.tpEnd - emb.tpStart ≤ base.rows) (done : List Nat) (n : Nat) (part : n < parts) (before : Tensor ℚ)
    (filled : Filled (rawRow convert emb parts t calls dtype) base before
      (shardSpans emb (shardCeil emb.orgVocabSize parts) calls done)) :
    ∃ after, loadRows convert parts emb (calls n) n (.raw dtype before) = .ok (.raw dtype after) ∧
      Filled (rawRow convert emb parts t calls dtype) base after
        (shardSpans emb (shardCeil emb.orgVocabSize parts) calls (done ++ [n])) := by
  obtain ⟨after,copied,more⟩ := copy_filled convert emb (fun n => (calls n).weight) (shardCeil emb.orgVocabSize parts) n
    (shards.short n part) dtype t before (shards.typed n part) ((shards.wide n part).trans (wide.symm.trans filled.width.symm))
    (room.trans_eq filled.rows.symm)
  refine ⟨after,?_,?_⟩
  · have typed : ¬ ((calls n).weight.dtype = .float8e4m3fn ∧ dtype ≠ .float8e4m3fn) := by
      rw [shards.typed n part]
      exact stays
    simp only [loadRows,autoSwitch,if_neg typed,shardSize_exact _ _ positive,bind,Except.bind,copied]
    rfl
  · rw [spans_next]
    exact filled.trans more

theorem packed_step (bytes : Tensor UInt8) (scales : Tensor ℚ) (groups : width % 16 = 0) (wide : bytes.width = width / 2)
    (wideScales : scales.width = width / 16) (room : emb.tpEnd - emb.tpStart ≤ bytes.rows)
    (roomScales : emb.tpEnd - emb.tpStart ≤ scales.rows) (done : List Nat) (n : Nat) (part : n < parts)
    (before : Tensor UInt8) (beforeScales : Tensor ℚ)
    (filled : Filled (byteRow emb parts calls) bytes before (shardSpans emb (shardCeil emb.orgVocabSize parts) calls done))
    (filledScales : Filled (scaleRow convert emb parts calls) scales beforeScales
      (shardSpans emb (shardCeil emb.orgVocabSize parts) calls done)) :
    ∃ after afterScales, loadRows convert parts emb (calls n) n (.packed before beforeScales) = .ok (.packed after afterScales) ∧
      Filled (byteRow emb parts calls) bytes after (shardSpans emb (shardCeil emb.orgVocabSize parts) calls (done ++ [n])) ∧
      Filled (scaleRow convert emb parts calls) scales afterScales
        (shardSpans emb (shardCeil emb.orgVocabSize parts) calls (done ++ [n])) := by
  have across := shards.wide n part
  obtain ⟨after,afterScales,packed,more,moreScales⟩ := pack_filled convert emb (fun n => (calls n).weight)
    (shardCeil emb.orgVocabSize parts) n (shards.short n part) before beforeScales (calls n).empty
    (by rw [across,groups]) (by rw [across,filled.width,wide]) (by rw [across,filledScales.width,wideScales])
    (room.trans_eq filled.rows.symm) (roomScales.trans_eq filledScales.rows.symm)
  refine ⟨after,afterScales,?_,?_,?_⟩
  · simp only [loadRows,shardSize_exact _ _ positive,bind,Except.bind,packed]
    rfl
  · rw [spans_next]
    exact filled.trans more
  · rw [spans_next]
    exact filledScales.trans moreScales

omit positive in
theorem rows_once (below : emb.tpEnd ≤ emb.orgVocabSize) (order : List Nat) (perm : order.Perm (List.range parts)) :
    (spanned (shardSpans emb (shardCeil emb.orgVocabSize parts) calls order)).Perm (List.range (emb.tpEnd - emb.tpStart)) := by
  refine overlaps_once parts (shardCeil emb.orgVocabSize parts) emb.tpStart emb.tpEnd (fun n => (calls n).weight.rows.length)
    shards.short ?_ order perm
  intro row _ inside
  exact shards.covered row (Nat.lt_of_lt_of_le inside below)

-- The first shard decides the storage type; after it no shard changes it again.
theorem raw_first (dtype : DType) (weight : Tensor ℚ) (wide : weight.width = width) (room : emb.tpEnd - emb.tpStart ≤ weight.rows)
    (fresh : weight.writes = []) (accepted : Switches t dtype → emb.pinnedHost = false) (n : Nat) (part : n < parts) :
    ∃ stored base after, ¬ Switches t stored ∧ (t = .float8e4m3fn → stored = .float8e4m3fn) ∧
      (¬ Switches t dtype → stored = dtype ∧ base = weight) ∧ base.width = width ∧ base.rows = weight.rows ∧ base.writes = [] ∧
      loadRows convert parts emb (calls n) n (.raw dtype weight) = .ok (.raw stored after) ∧
      Filled (rawRow convert emb parts t calls stored) base after
        (shardSpans emb (shardCeil emb.orgVocabSize parts) calls [n]) := by
  by_cases switches : Switches t dtype
  · have stays : ¬ Switches t .float8e4m3fn := fun again => again.2 rfl
    obtain ⟨after,loaded,filled⟩ := raw_step convert p emb parts width t calls positive shards .float8e4m3fn stays
      ⟨weight.rows,weight.width,(calls n).emptyLike,[]⟩ wide room [] n part _ (Filled.refl _ _)
    refine ⟨_,⟨weight.rows,weight.width,(calls n).emptyLike,[]⟩,after,stays,fun _ => rfl,fun other => absurd switches other,
      wide,rfl,rfl,?_,filled⟩
    have typed : (calls n).weight.dtype = .float8e4m3fn := (shards.typed n part).trans switches.1
    rw [← loaded]
    simp only [loadRows,autoSwitch,typed,ne_eq,switches.2,not_false_eq_true,and_self,if_true,accepted switches,
      not_true_eq_false,and_false,if_false,Bool.false_eq_true]
  · obtain ⟨after,loaded,filled⟩ := raw_step convert p emb parts width t calls positive shards dtype switches weight wide room
      [] n part weight (Filled.refl _ _)
    refine ⟨dtype,weight,after,switches,?_,fun _ => ⟨rfl,rfl⟩,wide,rfl,fresh,loaded,filled⟩
    intro fp8
    by_contra other
    exact switches ⟨fp8,other⟩

theorem raw_run (dtype : DType) (weight : Tensor ℚ) (storage : emb.storage = .raw dtype weight) (wide : weight.width = width)
    (room : emb.tpEnd - emb.tpStart ≤ weight.rows) (fresh : weight.writes = [])
    (accepted : Switches t dtype → emb.pinnedHost = false) (below : emb.tpEnd ≤ emb.orgVocabSize) (loader : Loader)
    (count : loader.pleNumSyncShards = parts) (found : loader.pleModules p = some emb) (order : List Nat)
    (perm : order.Perm (List.range parts)) :
    ∃ final stored after, loadShards convert loader (order.map calls) = .ok final ∧
      final.pleModules p = some { emb with storage := .raw stored after } ∧
      (t = .float8e4m3fn → stored = .float8e4m3fn) ∧ (¬ Switches t dtype → stored = dtype) ∧
      after.writes = shardSpans emb (shardCeil emb.orgVocabSize parts) calls order ∧
      (∀ row < emb.tpEnd - emb.tpStart, ∀ col < width, after.entry row col = rawRow convert emb parts t calls stored row col) ∧
      (¬ Switches t dtype → ∀ row, emb.tpEnd - emb.tpStart ≤ row → after.entry row = weight.entry row) := by
  have once := rows_once p emb parts width t calls shards below order perm
  have inside : ∀ n ∈ order, n < parts := fun n member => List.mem_range.mp (perm.mem_iff.mp member)
  obtain ⟨n,rest,rfl⟩ := List.exists_cons_of_ne_nil (order_nonempty parts positive order perm)
  have here := inside n List.mem_cons_self
  obtain ⟨stored,base,after,stays,typed,kept,baseWide,baseRows,baseFresh,loaded,filled⟩ :=
    raw_first convert p emb parts width t calls positive shards dtype weight wide room fresh accepted n here
  obtain ⟨next,ran,found',count'⟩ := load_stored convert p emb calls loader n emb.storage (.raw stored after)
    (shards.named n here) found (by rw [count,storage,loaded])
  obtain ⟨final,_,rest_ran,last,tensor,rfl,all⟩ := run_stored convert p emb calls parts
    (fun done st => ∃ tensor, st = .raw stored tensor ∧ Filled (rawRow convert emb parts t calls stored) base tensor
      (shardSpans emb (shardCeil emb.orgVocabSize parts) calls done)) shards.named
    (fun done m st part holds => by
      obtain ⟨before,rfl,reached⟩ := holds
      obtain ⟨more,step,grown⟩ := raw_step convert p emb parts width t calls positive shards stored stays base baseWide
        (room.trans_eq baseRows.symm) done m part before reached
      exact ⟨_,step,more,rfl,grown⟩)
    rest (fun m later => inside m (List.mem_cons_of_mem _ later)) [n] next (.raw stored after) (count'.trans count) found'
    ⟨after,rfl,filled⟩
  refine ⟨final,stored,tensor,?_,last,typed,fun other => (kept other).1,?_,?_,?_⟩
  · rw [loadShards,List.map_cons,List.foldlM_cons,ran]
    exact rest_ran
  · rw [all.writes,baseFresh]
    rfl
  · intro row local_row col within
    exact all.inside row (once.mem_iff.mpr (List.mem_range.mpr local_row)) col (within.trans_eq baseWide.symm)
  · intro other row past
    rw [all.outside row fun member => absurd (List.mem_range.mp (once.mem_iff.mp member)) (by omega),(kept other).2]

theorem raw_refused (dtype : DType) (weight : Tensor ℚ) (storage : emb.storage = .raw dtype weight)
    (switches : Switches t dtype) (pinned : emb.pinnedHost = true) (loader : Loader)
    (count : loader.pleNumSyncShards = parts) (found : loader.pleModules p = some emb) (order : List Nat)
    (perm : order.Perm (List.range parts)) : loadShards convert loader (order.map calls) = .error pinnedRefusal := by
  have inside : ∀ n ∈ order, n < parts := fun n member => List.mem_range.mp (perm.mem_iff.mp member)
  obtain ⟨n,rest,rfl⟩ := List.exists_cons_of_ne_nil (order_nonempty parts positive order perm)
  have here := inside n List.mem_cons_self
  refine first_refused convert calls rest n loader pinnedRefusal ?_
  refine load_refused convert p emb calls loader n pinnedRefusal (shards.named n here) found ?_
  have typed : (calls n).weight.dtype = .float8e4m3fn := (shards.typed n here).trans switches.1
  rw [storage,count]
  simp only [loadRows,autoSwitch,typed,ne_eq,switches.2,not_false_eq_true,and_self,if_true,pinned]
  rfl

theorem packed_run (bytes : Tensor UInt8) (scales : Tensor ℚ) (storage : emb.storage = .packed bytes scales)
    (groups : width % 16 = 0) (wide : bytes.width = width / 2) (wideScales : scales.width = width / 16)
    (room : emb.tpEnd - emb.tpStart ≤ bytes.rows) (roomScales : emb.tpEnd - emb.tpStart ≤ scales.rows)
    (fresh : bytes.writes = []) (freshScales : scales.writes = []) (below : emb.tpEnd ≤ emb.orgVocabSize) (loader : Loader)
    (count : loader.pleNumSyncShards = parts) (found : loader.pleModules p = some emb) (order : List Nat)
    (perm : order.Perm (List.range parts)) :
    ∃ final after afterScales, loadShards convert loader (order.map calls) = .ok final ∧
      final.pleModules p = some { emb with storage := .packed after afterScales } ∧
      after.writes = shardSpans emb (shardCeil emb.orgVocabSize parts) calls order ∧
      afterScales.writes = shardSpans emb (shardCeil emb.orgVocabSize parts) calls order ∧
      (∀ row < emb.tpEnd - emb.tpStart, (∀ place < width / 2, after.entry row place = byteRow emb parts calls row place) ∧
        ∀ group < width / 16, afterScales.entry row group = scaleRow convert emb parts calls row group) ∧
      ∀ row, emb.tpEnd - emb.tpStart ≤ row → after.entry row = bytes.entry row ∧ afterScales.entry row = scales.entry row := by
  have once := rows_once p emb parts width t calls shards below order perm
  have inside : ∀ n ∈ order, n < parts := fun n member => List.mem_range.mp (perm.mem_iff.mp member)
  obtain ⟨final,_,ran,last,after,afterScales,rfl,filled,filledScales⟩ := run_stored convert p emb calls parts
    (fun done st => ∃ after afterScales, st = .packed after afterScales ∧
      Filled (byteRow emb parts calls) bytes after (shardSpans emb (shardCeil emb.orgVocabSize parts) calls done) ∧
      Filled (scaleRow convert emb parts calls) scales afterScales
        (shardSpans emb (shardCeil emb.orgVocabSize parts) calls done)) shards.named
    (fun done m st part holds => by
      obtain ⟨before,beforeScales,rfl,reached,reachedScales⟩ := holds
      obtain ⟨after,afterScales,step,grown,grownScales⟩ := packed_step convert p emb parts width t calls positive shards bytes
        scales groups wide wideScales room roomScales done m part before beforeScales reached reachedScales
      exact ⟨_,step,after,afterScales,rfl,grown,grownScales⟩)
    order inside [] loader emb.storage count found ⟨bytes,scales,storage,Filled.refl _ _,Filled.refl _ _⟩
  have local_row : ∀ row < emb.tpEnd - emb.tpStart,
      row ∈ spanned (shardSpans emb (shardCeil emb.orgVocabSize parts) calls order) :=
    fun row inside => once.mem_iff.mpr (List.mem_range.mpr inside)
  have other_row : ∀ row, emb.tpEnd - emb.tpStart ≤ row →
      row ∉ spanned (shardSpans emb (shardCeil emb.orgVocabSize parts) calls order) :=
    fun row past member => absurd (List.mem_range.mp (once.mem_iff.mp member)) (by omega)
  refine ⟨final,after,afterScales,ran,last,?_,?_,?_,?_⟩
  · rw [filled.writes,fresh]
    rfl
  · rw [filledScales.writes,freshScales]
    rfl
  · intro row inside
    refine ⟨?_,?_⟩
    · intro place within
      exact filled.inside row (local_row row inside) place (within.trans_eq wide.symm)
    · intro group within
      exact filledScales.inside row (local_row row inside) group (within.trans_eq wideScales.symm)
  · intro row past
    exact ⟨filled.outside row (other_row row past),filledScales.outside row (other_row row past)⟩

end

-- Rounding the total up to a divisor of the shard count leaves the rows of a shard as they are.
theorem padded_ceil (total divisor parts : Nat) (divides : divisor ∣ parts) (positive : 0 < parts) :
    shardCeil (paddedVocabSize total divisor) parts = (total + parts - 1) / parts := by
  obtain ⟨blocks,rfl⟩ := divides
  have some : 0 < divisor := Nat.pos_of_mul_pos_right positive
  have more : 0 < blocks := Nat.pos_of_mul_pos_left positive
  obtain ⟨rest,rfl⟩ : ∃ rest, blocks = rest + 1 := ⟨blocks - 1,by omega⟩
  have padded : (total + divisor - 1) / divisor * divisor + divisor * (rest + 1) - 1 =
      divisor * ((total + divisor - 1) / divisor + rest) + (divisor - 1) := by
    rw [Nat.mul_add,Nat.mul_add,Nat.mul_comm divisor ((total + divisor - 1) / divisor)]
    omega
  have plain : total + divisor * (rest + 1) - 1 = total + divisor - 1 + divisor * rest := by
    rw [Nat.mul_add]
    omega
  unfold shardCeil paddedVocabSize
  rw [padded,plain,← Nat.div_div_eq_div_mul,← Nat.div_div_eq_div_mul,Nat.mul_add_div some,Nat.add_mul_div_left _ _ some,
    Nat.div_eq_of_lt (by omega : divisor - 1 < divisor),Nat.add_zero]

theorem checked_rows (c : Constants) (ss n : Nat) (w : Weight ℚ) (rows : List (Fin c.dim → ℚ))
    (ran : checked c ss w = some rows) :
    w.rows.length = ss ∧ rows = (List.range' (n * ss) ss).map fun g (col : Fin c.dim) => entryAt w (g - n * ss) col := by
  unfold checked at ran
  split at ran
  · rename_i shaped
    obtain ⟨_,length,wide⟩ := shaped
    cases ran
    refine ⟨length,?_⟩
    apply List.ext_getElem
    · simp [length]
    · intro i bound _
      have inside : i < w.rows.length := by simpa using bound
      funext col
      have across : col.val < w.width := col.isLt.trans_eq wide.symm
      have entry : entryAt w i col = w.rows[i] ⟨col,across⟩ := by
        rw [entryAt,dif_pos across,List.getElem?_eq_getElem inside]
        rfl
      rw [List.getElem_map,List.getElem_map,List.getElem_range',show n * ss + 1 * i - n * ss = i by omega,entry]
      rfl
  · cases ran

theorem hashed_rows (c : Constants) (l : Layout) (idx : Index) (n : Nat) (w : Weight ℚ) (adds : Adds c ℚ)
    (ran : shardAdds c l idx n w = some adds) : adds.gidx = (realRows l.heads.total l.ss n).map (BitVec.ofNat 64) ∧
    adds.w32 = (realRows l.heads.total l.ss n).map fun g (col : Fin c.dim) => entryAt w (g - n * l.ss) col := by
  unfold shardAdds at ran
  obtain ⟨rows,checks,ran⟩ := Option.bind_eq_some_iff.mp ran
  obtain ⟨gidx,made,ran⟩ := Option.bind_eq_some_iff.mp ran
  obtain ⟨slots,_,ran⟩ := Option.bind_eq_some_iff.mp ran
  obtain ⟨length,rfl⟩ := checked_rows c l.ss n w rows checks
  have fits := Longs.arange_parts _ _ _ made
  rw [Longs.arange_exact _ _ fits,length,Nat.add_sub_cancel_left] at made
  cases made
  have valid : ((List.range' (n * l.ss) l.ss).map (BitVec.ofNat 64)).map
      (fun g : Longs.Long => decide (g.toInt < (l.heads.total : Int))) =
      (List.range' (n * l.ss) l.ss).map fun g => decide (g < l.heads.total) := by
    rw [List.map_map]
    apply List.map_congr_left
    intro g member
    have span := List.mem_range'_1.mp member
    simp only [Function.comp_apply,Longs.toInt_ofNat g (by omega),Nat.cast_lt]
  rw [valid,Longs.compress_map,Longs.compress_map,← realRows] at ran
  cases ran
  exact ⟨rfl,rfl⟩

-- Whatever the order, every rank's rows come from the shards that hold them, each written once and no
-- other row written, the same intervals for the weight and for both packed buffers; and the builder
-- hashes every row under the number it gets here. fp8 shards stop at a pinned weight of another type.
theorem shards_placed (convert : DType → ℚ → ℚ) (p : List Char) (emb : Embedding) (parts width : Nat) (t : DType)
    (calls : Nat → Call) (positive : 0 < parts)
    (shards : ShardSet p emb.orgVocabSize parts (shardCeil emb.orgVocabSize parts) width t calls)
    (ranks : List Nat) (whole : ranks.sum = emb.orgVocabSize) (h : Nat) (first : emb.tpStart = offset ranks h)
    (last : emb.tpEnd = offset ranks (h + 1)) (dtype : DType) (weight : Tensor ℚ) (storage : emb.storage = .raw dtype weight)
    (wide : weight.width = width) (room : emb.tpEnd - emb.tpStart ≤ weight.rows) (fresh : weight.writes = [])
    (loader : Loader) (count : loader.pleNumSyncShards = parts) (found : loader.pleModules p = some emb) (order : List Nat)
    (perm : order.Perm (List.range parts)) :
    let size := shardCeil emb.orgVocabSize parts
    let spans := shardSpans emb size calls order
    let row := fun i => entryAt (calls ((emb.tpStart + i) / size)).weight ((emb.tpStart + i) % size)
    let count := emb.tpEnd - emb.tpStart
    (spanned spans).Perm (List.range count) ∧ (∀ g, Within ranks h g ↔ ∃ i ∈ spanned spans, g = emb.tpStart + i) ∧
    (Switches t dtype → emb.pinnedHost = true → loadShards convert loader (order.map calls) = .error pinnedRefusal) ∧
    ((Switches t dtype → emb.pinnedHost = false) → ∃ final stored after, loadShards convert loader (order.map calls) = .ok final ∧
      final.pleModules p = some { emb with storage := .raw stored after } ∧
      (t = .float8e4m3fn → stored = .float8e4m3fn) ∧ (¬ Switches t dtype → stored = dtype) ∧ after.writes = spans ∧
      (∀ i < count, ∀ col < width, after.entry i col = toDType convert t stored (row i col)) ∧
      (¬ Switches t dtype → ∀ i, count ≤ i → after.entry i = weight.entry i)) ∧
    (width % 16 = 0 → ∃ final bytes scales, loadShards convert
        { loader with pleModules := Function.update loader.pleModules p (some (nvfp4ConvertEmbedding emb)) }
        (order.map calls) = .ok final ∧
      final.pleModules p = some { emb with storage := .packed bytes scales } ∧ bytes.writes = spans ∧ scales.writes = spans ∧
      (∀ i < count, (∀ place < width / 2, bytes.entry i place = packedRow (row i) place) ∧
        ∀ group < width / 16, scales.entry i group = convert .float8e4m3fn (scaleAt (row i) group)) ∧
      ∀ i, count ≤ i → bytes.entry i = (fun _ => 0) ∧ scales.entry i = fun _ => 0) ∧
    ∀ (c : Constants) (heads : HeadSizes) (idx : Index) (divisor : Nat), c.splitParts = parts → divisor ∣ parts →
      emb.orgVocabSize = paddedVocabSize heads.total divisor → (layout c heads).ss = size ∧
      ∀ n < parts, ∀ adds, shardAdds c (layout c heads) idx n (calls n).weight = some adds →
        adds.gidx = (realRows heads.total size n).map (BitVec.ofNat 64) ∧
        adds.w32 = (realRows heads.total size n).map (fun g (col : Fin c.dim) => entryAt (calls n).weight (g - n * size) col) ∧
        ∀ g ∈ realRows heads.total size n, emb.tpStart ≤ g → row (g - emb.tpStart) = entryAt (calls n).weight (g - n * size) := by
  have below : emb.tpEnd ≤ emb.orgVocabSize := by
    rw [last,← whole]
    exact offset_le_sum ranks (h + 1)
  have once := rows_once p emb parts width t calls shards below order perm
  dsimp only
  refine ⟨once,?_,?_,?_,?_,?_⟩
  · intro g
    simp only [within_iff,← first,← last,once.mem_iff,List.mem_range]
    constructor
    · rintro ⟨above,less⟩
      exact ⟨g - emb.tpStart,by omega,by omega⟩
    · rintro ⟨i,inside,rfl⟩
      omega
  · intro switches pinned
    exact raw_refused convert p emb parts width t calls positive shards dtype weight storage switches pinned loader count found
      order perm
  · intro accepted
    exact raw_run convert p emb parts width t calls positive shards dtype weight storage wide room fresh accepted below loader
      count found order perm
  · intro groups
    have swapped : nvfp4ConvertEmbedding emb = { emb with
        storage := .packed ⟨weight.rows,weight.width / 2,fun _ _ => 0,[]⟩ ⟨weight.rows,weight.width / 16,fun _ _ => 0,[]⟩ } := by
      rw [nvfp4ConvertEmbedding,storage]
    rw [swapped]
    refine packed_run convert p { emb with
        storage := .packed ⟨weight.rows,weight.width / 2,fun _ _ => 0,[]⟩ ⟨weight.rows,weight.width / 16,fun _ _ => 0,[]⟩ }
      parts width t calls positive shards _ _ rfl groups (by rw [wide]) (by rw [wide]) room room rfl rfl below _ ?_ ?_ order perm
    · exact count
    · exact Function.update_self _ _ _
  · intro c heads idx divisor split divides padded
    have size : (layout c heads).ss = shardCeil emb.orgVocabSize parts := by
      rw [padded,padded_ceil heads.total divisor parts divides positive,← split]
      rfl
    refine ⟨size,?_⟩
    intro n part adds ran
    obtain ⟨numbers,rows⟩ := hashed_rows c (layout c heads) idx n (calls n).weight adds ran
    rw [size] at numbers rows
    refine ⟨numbers,rows,?_⟩
    intro g member above
    obtain ⟨_,low,high⟩ := mem_realRows _ _ _ _ member
    obtain ⟨quotient,rest⟩ := Tensors.place_parts n (shardCeil emb.orgVocabSize parts)
      (g - n * shardCeil emb.orgVocabSize parts) (by omega)
    rw [Nat.add_sub_cancel' low] at quotient rest
    rw [Nat.add_sub_cancel' above,quotient,rest]

def sampleWeight (n : Nat) : Weight ℚ := ⟨.float8e4m3fn,16,(List.range (2 - n)).map fun (i : Nat) (col : Fin 16) =>
  (100 * n + 10 * i + col.val : ℚ)⟩

def sampleCall (n : Nat) : Call := ⟨if n = 0 then "model.ple.ngram_embedding.shard_0.weight".toList
  else "model.ple.ngram_embedding.shard_1.weight".toList,sampleWeight n,⟨fun _ _ => 255,fun _ _ => 7⟩,fun _ _ => 9⟩

def sampleEmbedding : Embedding := ⟨3,1,3,false,.raw .bfloat16 ⟨2,16,fun _ _ => 5,[]⟩⟩

def sampleLoader : Loader := ⟨fun name => if name = "model.ple".toList then some sampleEmbedding else none,2,[],[]⟩

theorem sample_shards : ShardSet "model.ple".toList 3 2 2 16 .float8e4m3fn sampleCall := by
  refine ⟨?_,?_,?_,?_,?_⟩
  · intro n inside
    obtain rfl | rfl : n = 0 ∨ n = 1 := by omega
    · exact ⟨by decide +kernel,by decide +kernel,by decide +kernel⟩
    · exact ⟨by decide +kernel,by decide +kernel,by decide +kernel⟩
  · exact fun _ _ => rfl
  · exact fun _ _ => rfl
  · intro n inside
    simp [sampleCall,sampleWeight]
  · intro g inside
    refine ⟨g / 2,by omega,by omega,?_⟩
    simp only [sampleCall,sampleWeight,List.length_map,List.length_range]
    omega

theorem sample_placed : ∃ final stored after,
    loadShards (fun _ x => x) sampleLoader [sampleCall 1,sampleCall 0] = .ok final ∧
    final.pleModules "model.ple".toList = some { sampleEmbedding with storage := .raw stored after } ∧
    after.writes = [(1,1),(0,1)] ∧ after.entry 0 3 = 13 ∧ after.entry 1 3 = 103 := by
  obtain ⟨_,_,_,run,_⟩ := shards_placed (fun _ x => x) "model.ple".toList sampleEmbedding 2 16 .float8e4m3fn sampleCall
    (by decide) sample_shards [1,2] rfl 1 rfl rfl .bfloat16 ⟨2,16,fun _ _ => 5,[]⟩ rfl rfl (by decide) rfl sampleLoader rfl rfl
    [1,0] (by decide)
  obtain ⟨final,stored,after,ran,found,typed,_,writes,rows,_⟩ := run fun _ => rfl
  cases typed rfl
  refine ⟨final,_,after,ran,found,writes,?_,?_⟩
  · rw [rows 0 (by decide) 3 (by decide)]
    decide +kernel
  · rw [rows 1 (by decide) 3 (by decide)]
    decide +kernel

end OneSpark.ShardRuns
