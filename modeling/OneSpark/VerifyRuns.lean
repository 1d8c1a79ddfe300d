import OneSpark.RingSlots

namespace OneSpark.VerifyRuns
open Tensors RingSlots
variable {K : Type} {ring : Ring}

-- One layer's key-state buffer, beside what it is compared with: each request's
-- accepted length and the index keys of its accepted tokens.
structure Pool (K : Type) where
  keys : Nat → K
  length : Nat → Nat
  accepted : Nat → Nat → K

-- A request's share of one verify forward: the key of every draft position and
-- how many of the drafts survive.
structure Row (K : Type) where
  request : Nat
  draft : Nat → K
  accept : Nat

structure Verify (K : Type) where
  draftTokenNum : Nat
  rows : List (Row K)
  distinct : (rows.map (·.request)).Nodup
  nonzero : ∀ row ∈ rows, row.request ≠ 0
  accepts : ∀ row ∈ rows, 1 ≤ row.accept ∧ row.accept ≤ draftTokenNum

def rowRequests (batch : Verify K) : List Nat :=
  batch.rows.flatMap fun row => List.replicate batch.draftTokenNum row.request

def rowPositions (pool : Pool K) (batch : Verify K) : List Nat :=
  batch.rows.flatMap fun row => (List.range batch.draftTokenNum).map (pool.length row.request + ·)

def rowKeys (pool : Pool K) (batch : Verify K) : List K :=
  batch.rows.flatMap fun row =>
    (List.range batch.draftTokenNum).map fun i => row.draft (pool.length row.request + i)

-- set_qsa_key_state_buffer at the slots of the forward's paged rows.
def writeDrafts (ring : Ring) (pool : Pool K) (batch : Verify K) : Option (Pool K) := do
  let positions := rowPositions pool batch
  let slots ← buildPendingRingSlots ring (List.range positions.length) (rowRequests batch)
    (positions.map (· + 1)) positions false
  return {pool with keys := put pool.keys (slots.zip (rowKeys pool batch))}

def acceptRow (pool : Pool K) (row : Row K) : Pool K :=
  let before := pool.length row.request
  {pool with
    length := Function.update pool.length row.request (before + row.accept)
    accepted := Function.update pool.accepted row.request fun position =>
      if before ≤ position ∧ position < before + row.accept then row.draft position
      else pool.accepted row.request position}

def verify (ring : Ring) (pool : Pool K) (batch : Verify K) : Option (Pool K) :=
  match requireChainSpeculation ring .targetVerify ⟨some 1,some batch.draftTokenNum,none⟩ with
  | .error _ => none
  | .ok _ => (writeDrafts ring pool batch).map fun written => batch.rows.foldl acceptRow written

def pendingStart (ring : Ring) (length : Nat) : Nat := (length / ring.compressRatio) * ring.compressRatio

def Held (ring : Ring) (pool : Pool K) : Prop :=
  ∀ request, request ≠ 0 → ∀ position, pendingStart ring (pool.length request) ≤ position →
    position < pool.length request → pool.keys (ringSlot ring request position) = pool.accepted request position

-- A group that the accepted drafts complete is compressed, in this forward, from
-- the members build_group_ring_slots names: they must be its r accepted keys.
def GroupsTrue (ring : Ring) (pool : Pool K) (batch : Verify K) (next : Pool K) : Prop :=
  ∀ row ∈ batch.rows, ∀ groupEnd, pool.length row.request ≤ groupEnd →
    groupEnd < pool.length row.request + row.accept → (groupEnd + 1) % ring.compressRatio = 0 →
    ∃ members, buildGroupRingSlots ring [row.request] [groupEnd] [0] = some [members] ∧
      members.map next.keys = (List.range ring.compressRatio).map fun i =>
        next.accepted row.request (groupEnd - (ring.compressRatio - 1) + i)

def Kept (ring : Ring) (pool : Pool K) (batch : Verify K) (next : Pool K) : Prop :=
  Held ring next ∧ GroupsTrue ring pool batch next

-- Drafts reach past the stock ring exactly when a pending tail and the window
-- together exceed one group; a widened ring always leaves them apart.
def Safe (ring : Ring) (pool : Pool K) (batch : Verify K) : Prop :=
  ∀ row ∈ batch.rows, ring.compressRatio < qsaRingStride ring ∨
    pool.length row.request % ring.compressRatio = 0 ∨
    pool.length row.request % ring.compressRatio + batch.draftTokenNum ≤ ring.compressRatio

inductive Runs (ring : Ring) (allowed : Pool K → Verify K → Prop) : Pool K → Pool K → Prop where
  | refl : Runs ring allowed s s
  | step : Runs ring allowed start s → verify ring s batch = some next → allowed s batch →
      Runs ring allowed start next

variable {pool next : Pool K} {batch : Verify K} {row other : Row K}

-- Keys of different tokens differ; only the converse below uses it.
def Fresh (pool : Pool K) (batch : Verify K) : Prop :=
  ∀ row ∈ batch.rows, ∀ position draft, position < pool.length row.request →
    pool.length row.request ≤ draft → row.draft draft ≠ pool.accepted row.request position

def draftWrites (ring : Ring) (pool : Pool K) (batch : Verify K) : List (Nat × K) :=
  batch.rows.flatMap fun row => (List.range batch.draftTokenNum).map fun i =>
    (ringSlot ring row.request (pool.length row.request + i),row.draft (pool.length row.request + i))

theorem rows_aligned (rows : List (Row K)) (width : Nat) (f : Row K → Nat → β) (g : Row K → Nat → γ)
    (combine : β → γ → δ) :
    (rows.flatMap fun row => (List.range width).map (f row)).zipWith combine
        (rows.flatMap fun row => (List.range width).map (g row)) =
      rows.flatMap fun row => (List.range width).map fun i => combine (f row i) (g row i) := by
  induction rows with
  | nil => rfl
  | cons row rest ih =>
      simp only [List.flatMap_cons]
      rw [List.zipWith_append (by simp),ih]
      congr 1
      rw [List.zipWith_map,List.zipWith_self]

theorem writeDrafts_exact (ring : Ring) (pool : Pool K) (batch : Verify K) :
    writeDrafts ring pool batch = some {pool with keys := put pool.keys (draftWrites ring pool batch)} := by
  have requests : rowRequests batch =
      batch.rows.flatMap fun row => (List.range batch.draftTokenNum).map fun _ => row.request := by
    simp [rowRequests,List.map_const']
  have aligned : (rowRequests batch).length = (rowPositions pool batch).length := by
    simp [rowRequests,rowPositions,List.length_flatMap]
  have slots := paged_slots ring (rowRequests batch) ((rowPositions pool batch).map (· + 1))
    (rowPositions pool batch) aligned
  simp only [writeDrafts,slots,Option.bind_eq_bind,Option.bind_some,Option.pure_def]
  congr 2
  rw [requests,rowPositions,rowKeys,rows_aligned,List.zip_eq_zipWith,rows_aligned]
  rfl

theorem verify_admitted (ran : verify ring pool batch = some next) :
    batch.draftTokenNum ≤ draftLimit ring ∧
      next = batch.rows.foldl acceptRow {pool with keys := put pool.keys (draftWrites ring pool batch)} := by
  unfold verify at ran
  split at ran
  · cases ran
  · rename_i admitted
    have window := admitted_window ring _ admitted
    rw [writeDrafts_exact] at ran
    exact ⟨orDefault_some batch.draftTokenNum ▸ window,(Option.some.inj ran).symm⟩

theorem accept_other (rows : List (Row K)) (pool : Pool K) (request : Nat)
    (absent : ∀ row ∈ rows, row.request ≠ request) :
    (rows.foldl acceptRow pool).length request = pool.length request ∧
      (rows.foldl acceptRow pool).accepted request = pool.accepted request := by
  induction rows generalizing pool with
  | nil => exact ⟨rfl,rfl⟩
  | cons row rest ih =>
      have other : request ≠ row.request := Ne.symm (absent row (by simp))
      obtain ⟨length,accepted⟩ := ih (acceptRow pool row) fun later member => absent later (List.mem_cons_of_mem _ member)
      simp only [List.foldl_cons,length,accepted]
      simp [acceptRow,Function.update_of_ne other]

theorem accept_keys (rows : List (Row K)) (pool : Pool K) : (rows.foldl acceptRow pool).keys = pool.keys := by
  induction rows generalizing pool with
  | nil => rfl
  | cons row rest ih => exact ih (acceptRow pool row)

theorem accept_row (rows : List (Row K)) (pool : Pool K) (distinct : (rows.map (·.request)).Nodup)
    (member : row ∈ rows) :
    (rows.foldl acceptRow pool).length row.request = pool.length row.request + row.accept ∧
      (rows.foldl acceptRow pool).accepted row.request = fun position =>
        if pool.length row.request ≤ position ∧ position < pool.length row.request + row.accept
        then row.draft position else pool.accepted row.request position := by
  induction rows generalizing pool with
  | nil => cases member
  | cons first rest ih =>
      rw [List.map_cons,List.nodup_cons] at distinct
      have absent : ∀ later ∈ rest, later.request ≠ first.request :=
        fun later present same => distinct.1 (same ▸ List.mem_map_of_mem present)
      rcases List.mem_cons.mp member with rfl | later
      · obtain ⟨length,accepted⟩ := accept_other rest (acceptRow pool row) row.request absent
        simp only [List.foldl_cons,length,accepted]
        simp [acceptRow]
      · have other := absent row later
        obtain ⟨length,accepted⟩ := ih (acceptRow pool first) distinct.2 later
        simp only [List.foldl_cons,length,accepted]
        simp [acceptRow,Function.update_of_ne other]

theorem mem_draftWrites : write ∈ draftWrites ring pool batch ↔ ∃ row ∈ batch.rows, ∃ i < batch.draftTokenNum,
    write = (ringSlot ring row.request (pool.length row.request + i),row.draft (pool.length row.request + i)) := by
  simp only [draftWrites,List.mem_flatMap,List.mem_map,List.mem_range]
  constructor
  · rintro ⟨row,member,i,bound,rfl⟩; exact ⟨row,member,i,bound,rfl⟩
  · rintro ⟨row,member,i,bound,rfl⟩; exact ⟨row,member,i,bound,rfl⟩

theorem row_unique (batch : Verify K) (left : row ∈ batch.rows) (right : other ∈ batch.rows)
    (same : row.request = other.request) : row = other :=
  List.inj_on_of_nodup_map batch.distinct left right same

-- A draft's own slot holds its key: the window is never longer than the stride,
-- so no other draft of the forward shares the slot.
theorem draft_written (window : batch.draftTokenNum ≤ draftLimit ring) (member : row ∈ batch.rows)
    (bound : i < batch.draftTokenNum) :
    put pool.keys (draftWrites ring pool batch) (ringSlot ring row.request (pool.length row.request + i)) =
      row.draft (pool.length row.request + i) := by
  have within := Nat.le_trans window (draftLimit_le_stride ring)
  apply put_agreed
  · exact ⟨_,mem_draftWrites.mpr ⟨row,member,i,bound,rfl⟩,rfl⟩
  · intro write present same
    obtain ⟨other,belongs,j,inside,rfl⟩ := mem_draftWrites.mp present
    obtain ⟨requests,_⟩ := (ringSlot_inj ring).mp same
    cases row_unique batch belongs member requests
    rcases Nat.lt_trichotomy i j with before | rfl | after
    · exact absurd same.symm (ringSlot_apart ring (by omega) (by omega))
    · rfl
    · exact absurd same (ringSlot_apart ring (by omega) (by omega))

theorem write_frame (request position : Nat)
    (clear : ∀ row ∈ batch.rows, row.request = request → position < pool.length row.request ∧
      pool.length row.request + batch.draftTokenNum ≤ position + qsaRingStride ring) :
    put pool.keys (draftWrites ring pool batch) (ringSlot ring request position) =
      pool.keys (ringSlot ring request position) := by
  apply put_other
  intro write present same
  obtain ⟨row,member,i,bound,rfl⟩ := mem_draftWrites.mp present
  obtain ⟨requests,_⟩ := (ringSlot_inj ring).mp same
  have reach := clear row member requests
  rw [← requests] at same
  have before : position < pool.length row.request + i := by omega
  exact ringSlot_apart ring (by omega) before same.symm

theorem pendingStart_le (ring : Ring) (length : Nat) : pendingStart ring length ≤ length := Nat.div_mul_le_self _ _

theorem pendingStart_mod (ring : Ring) (length : Nat) :
    pendingStart ring length + length % ring.compressRatio = length := Nat.div_add_mod' _ _

theorem pendingStart_mono (ring : Ring) (growth : before ≤ after) : pendingStart ring before ≤ pendingStart ring after :=
  Nat.mul_le_mul_right _ (Nat.div_le_div_right growth)

theorem safe_clear (window : batch.draftTokenNum ≤ draftLimit ring) (safe : Safe ring pool batch)
    (member : row ∈ batch.rows) (pending : pendingStart ring (pool.length row.request) ≤ position)
    (old : position < pool.length row.request) :
    pool.length row.request + batch.draftTokenNum ≤ position + qsaRingStride ring := by
  have split := pendingStart_mod ring (pool.length row.request)
  have tail := Nat.mod_lt (pool.length row.request) ring.ratioPositive
  have stride := ratio_le_stride ring
  unfold draftLimit at window
  rcases safe row member with widened | aligned | short
  · rw [if_pos widened] at window; omega
  · omega
  · omega

-- The whole story of one safe forward: from the old group's start to the new
-- length, each slot holds the accepted key of its position.
theorem verify_window (held : Held ring pool) (ran : verify ring pool batch = some next)
    (safe : Safe ring pool batch) (member : row ∈ batch.rows)
    (pending : pendingStart ring (pool.length row.request) ≤ position)
    (bound : position < pool.length row.request + row.accept) :
    next.keys (ringSlot ring row.request position) = next.accepted row.request position := by
  obtain ⟨window,rfl⟩ := verify_admitted ran
  have accepted := batch.accepts row member
  rw [accept_keys,(accept_row _ _ batch.distinct member).2]
  dsimp only
  by_cases old : position < pool.length row.request
  · rw [if_neg (by omega),write_frame]
    · exact held row.request (batch.nonzero row member) position pending old
    · intro other belongs same
      cases row_unique batch belongs member same
      exact ⟨old,safe_clear window safe member pending old⟩
  · rw [if_pos (by omega)]
    obtain ⟨i,rfl⟩ := Nat.exists_eq_add_of_le (Nat.le_of_not_lt old)
    exact draft_written window member (by omega)

theorem verify_held (held : Held ring pool) (ran : verify ring pool batch = some next)
    (safe : Safe ring pool batch) : Held ring next := by
  intro request nonzero position pending bound
  by_cases present : ∃ row ∈ batch.rows, row.request = request
  · obtain ⟨row,member,rfl⟩ := present
    have length : next.length row.request = pool.length row.request + row.accept := by
      obtain ⟨_,rfl⟩ := verify_admitted ran
      exact (accept_row _ _ batch.distinct member).1
    rw [length] at pending bound
    exact verify_window held ran safe member
      (Nat.le_trans (pendingStart_mono ring (Nat.le_add_right _ _)) pending) bound
  · have absent : ∀ row ∈ batch.rows, row.request ≠ request := fun row member same => present ⟨row,member,same⟩
    obtain ⟨_,rfl⟩ := verify_admitted ran
    obtain ⟨length,accepted⟩ := accept_other batch.rows
      {pool with keys := put pool.keys (draftWrites ring pool batch)} request absent
    rw [length] at pending bound
    rw [accept_keys,accepted]
    dsimp only
    rw [write_frame _ _ fun row member same => absurd same (absent row member)]
    exact held request nonzero position pending bound

theorem group_members (ring : Ring) (bound : ring.compressRatio ≤ groupEnd + 1) (f : Nat → β) :
    (List.range ring.compressRatio).reverse.map (fun offset => f (groupEnd - offset)) =
      (List.range ring.compressRatio).map fun i => f (groupEnd - (ring.compressRatio - 1) + i) := by
  apply List.ext_getElem
  · simp
  · intro i _ inside
    simp only [List.length_map,List.length_range] at inside
    simp only [List.getElem_map,List.getElem_reverse,List.getElem_range,List.length_range]
    congr 1
    omega

-- A completed group starts at or after the pending group's start, so all its
-- members lie in the window the forward keeps.
theorem group_start (ring : Ring) (started : length ≤ groupEnd) (complete : (groupEnd + 1) % ring.compressRatio = 0) :
    ring.compressRatio ≤ groupEnd + 1 ∧ pendingStart ring length ≤ groupEnd - (ring.compressRatio - 1) := by
  have positive := ring.ratioPositive
  have divides := Nat.dvd_of_mod_eq_zero complete
  have bound := Nat.le_of_dvd (Nat.succ_pos groupEnd) divides
  have below : length / ring.compressRatio < (groupEnd + 1) / ring.compressRatio := by
    rw [Nat.div_lt_iff_lt_mul positive,Nat.div_mul_cancel divides]
    omega
  have steps := Nat.mul_le_mul_right ring.compressRatio (Nat.succ_le_of_lt below)
  rw [Nat.div_mul_cancel divides,Nat.succ_mul] at steps
  refine ⟨bound,?_⟩
  unfold pendingStart
  omega

theorem verify_groups (held : Held ring pool) (ran : verify ring pool batch = some next)
    (safe : Safe ring pool batch) : GroupsTrue ring pool batch next := by
  intro row member groupEnd started bound complete
  obtain ⟨whole,first⟩ := group_start ring started complete
  refine ⟨_,group_slots ring row.request groupEnd,?_⟩
  rw [List.map_map,← group_members ring whole]
  apply List.map_congr_left
  intro offset inside
  have small := List.mem_range.mp (List.mem_reverse.mp inside)
  exact verify_window held ran safe member (by omega) (by omega)

theorem unsafe_overwrites (ran : verify ring pool batch = some next) (member : row ∈ batch.rows)
    (stock : qsaRingStride ring ≤ ring.compressRatio)
    (wide : ring.compressRatio < pool.length row.request % ring.compressRatio + batch.draftTokenNum) :
    pool.length row.request ≤ pendingStart ring (pool.length row.request) + ring.compressRatio ∧
      next.keys (ringSlot ring row.request (pendingStart ring (pool.length row.request))) =
        row.draft (pendingStart ring (pool.length row.request) + ring.compressRatio) := by
  obtain ⟨window,rfl⟩ := verify_admitted ran
  have split := pendingStart_mod ring (pool.length row.request)
  have short := Nat.mod_lt (pool.length row.request) ring.ratioPositive
  have stride : qsaRingStride ring = ring.compressRatio := Nat.le_antisymm stock (ratio_le_stride ring)
  have slot : ringSlot ring row.request (pendingStart ring (pool.length row.request)) =
      ringSlot ring row.request (pool.length row.request +
        (ring.compressRatio - pool.length row.request % ring.compressRatio)) := by
    rw [ringSlot_inj]
    refine ⟨rfl,?_⟩
    rw [stride,show pool.length row.request + (ring.compressRatio - pool.length row.request % ring.compressRatio) =
      pendingStart ring (pool.length row.request) + ring.compressRatio by omega,Nat.add_mod_right]
  refine ⟨by omega,?_⟩
  rw [accept_keys,slot]
  dsimp only
  rw [draft_written window member (by omega)]
  congr 1
  omega

theorem kept_safe (ran : verify ring pool batch = some next)
    (fresh : Fresh pool batch) (kept : Kept ring pool batch next) : Safe ring pool batch := by
  intro row member
  apply Classical.byContradiction
  intro bad
  have stock : qsaRingStride ring ≤ ring.compressRatio := by omega
  obtain ⟨beyond,overwritten⟩ := unsafe_overwrites ran member stock (by omega)
  have split := pendingStart_mod ring (pool.length row.request)
  have short := Nat.mod_lt (pool.length row.request) ring.ratioPositive
  have distinct := fresh row member (pendingStart ring (pool.length row.request))
    (pendingStart ring (pool.length row.request) + ring.compressRatio) (by omega) beyond
  obtain ⟨window,equal⟩ := verify_admitted ran
  obtain ⟨length,accepted⟩ := accept_row batch.rows
    {pool with keys := put pool.keys (draftWrites ring pool batch)} batch.distinct member
  rw [← equal] at length accepted
  have old : next.accepted row.request (pendingStart ring (pool.length row.request)) =
      pool.accepted row.request (pendingStart ring (pool.length row.request)) := by
    rw [accepted]
    dsimp only
    exact if_neg (by omega)
  apply distinct
  rw [← overwritten,← old]
  dsimp only at length
  -- Either the old group is still pending, or the accepted drafts complete it.
  by_cases pending : next.length row.request < pendingStart ring (pool.length row.request) + ring.compressRatio
  · apply kept.1 row.request (batch.nonzero row member)
    · unfold pendingStart
      apply Nat.mul_le_mul_right
      apply Nat.le_of_lt_succ
      rw [Nat.div_lt_iff_lt_mul ring.ratioPositive,Nat.succ_mul]
      exact pending
    · rw [length]
      omega
  · have positive := ring.ratioPositive
    rw [length] at pending
    have inside : pendingStart ring (pool.length row.request) + ring.compressRatio - 1 <
        pool.length row.request + row.accept := by omega
    have complete : (pendingStart ring (pool.length row.request) + ring.compressRatio - 1 + 1) % ring.compressRatio = 0 := by
      rw [Nat.sub_add_cancel (by omega),Nat.add_mod_right]
      exact Nat.mul_mod_left _ _
    obtain ⟨members,named,values⟩ := kept.2 row member (pendingStart ring (pool.length row.request) +
      ring.compressRatio - 1) (by omega) inside complete
    rw [group_slots] at named
    cases named
    rw [List.map_map] at values
    have whole : ring.compressRatio ≤
        pendingStart ring (pool.length row.request) + ring.compressRatio - 1 + 1 := by omega
    have first := congrArg List.head? ((group_members ring whole fun position =>
      next.keys (ringSlot ring row.request position)).symm.trans values)
    obtain ⟨n,ratio⟩ := Nat.exists_eq_add_one_of_ne_zero (Nat.ne_of_gt positive)
    simp only [ratio,List.range_succ_eq_map,List.map_cons,List.head?_cons,Option.some.injEq,Nat.add_zero] at first
    simpa [ratio] using first

theorem runs_held (held : Held ring start) (run : Runs ring (Safe ring) start pool) : Held ring pool := by
  induction run with
  | refl => exact held
  | step _ ran safe ih => exact verify_held ih ran safe

-- Over every run of safe forwards the ring stays true, and the next forward
-- keeps it true exactly when it is safe too.
theorem ring_kept_exactly (held : Held ring start) (run : Runs ring (Safe ring) start pool)
    (ran : verify ring pool batch = some next) :
    Held ring pool ∧ (Safe ring pool batch → Kept ring pool batch next) ∧
      (Fresh pool batch → Kept ring pool batch next → Safe ring pool batch) := by
  have current := runs_held held run
  exact ⟨current,fun safe => ⟨verify_held current ran safe,verify_groups current ran safe⟩,
    fun fresh kept => kept_safe ran fresh kept⟩

def prefilled (slot : Nat) : Pool Nat :=
  ⟨fun i => if i = slot then 0 else 900,fun request => if request = 1 then 1 else 0,fun _ position => position⟩

def fourDrafts : Verify Nat :=
  ⟨4,[⟨1,fun position => 100 + position,1⟩],by decide,by decide,by decide⟩

def widened : Ring := ⟨4,stock_positive,some 8⟩

theorem prefilled_held (ring : Ring) : Held ring (prefilled (ringSlot ring 1 0)) := by
  intro request nonzero position pending bound
  by_cases one : request = 1
  · subst one
    have zero : position = 0 := by simpa [prefilled] using bound
    subst zero
    simp [prefilled]
  · simp [prefilled,one] at bound

theorem widened_kept : ∃ next, verify widened (prefilled 8) fourDrafts = some next ∧
    Kept widened (prefilled 8) fourDrafts next := by
  refine ⟨_,rfl,(ring_kept_exactly (prefilled_held widened) .refl rfl).2.1 ?_⟩
  intro row member
  exact .inl (by decide)

-- The stock ring admits four drafts, and the fourth replaces the pending key of
-- position 0 although only the first is accepted.
theorem stock_overwrites : ¬ ∀ (ring : Ring) (start pool next : Pool Nat) (batch : Verify Nat),
    Held ring start → Runs ring (fun _ _ => True) start pool → verify ring pool batch = some next →
      Kept ring pool batch next := by
  intro claim
  have kept := claim stockRing _ _ _ fourDrafts (prefilled_held stockRing) .refl rfl
  have wrong := kept.1 1 (by decide) 0 (by decide) (by decide)
  exact absurd wrong (by decide)

end OneSpark.VerifyRuns
