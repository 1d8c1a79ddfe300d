import OneSpark.Prefetch

namespace OneSpark.PrefetchRuns
open Streams Prefetch

section
variable {B H I E : Type} [Inhabited I] [Inhabited E] (net : Network B H I E) (shape : Shape)

-- Between two calls: what is outstanding are gathers of pending lookups whose ids are still kept.
structure Ready (host : Host) (out : List (Option Nat × Work (Value B H I E))) : Prop where
  sound : Sound host
  asked : ∀ layer p, (host.layers layer).prefetchState = some p → shape.lookupTokens = some p.lookupTokens
  outstanding : ∀ side ∈ out, ∃ layer p ids, (host.layers layer).prefetchState = some p ∧ host.recorded layer = some ids ∧
    side = (some layer,gatherWork net layer ids p.prefetched p.lookupTokens)

def Filled (host : Host) (memory : Memory B H I E) : Prop :=
  ∀ layer p, (host.layers layer).prefetchState = some p → ∀ t < p.lookupTokens,
    (Memory.blockAt memory p.prefetched).row t = net.row layer (net.ids layer (memory .batch) t)

structure Keeps (host : Host) (out : List (Option Nat × Work (Value B H I E))) (commands : Commands B H I E)
    (after : Host) (left : List (Option Nat × Work (Value B H I E))) (f : B → H → H) : Prop where
  ready : Ready net shape after left
  leads : Leads none out commands left
  model : ∀ memory : Memory B H I E, Filled net host memory → performAll commands memory .batch = memory .batch ∧
    performAll commands memory .hidden = f (memory .batch) (memory .hidden) ∧ Filled net after (performAll commands memory)

variable {net shape}

theorem keeps_refl {host : Host} {out : List (Option Nat × Work (Value B H I E))} (ready : Ready net shape host out) :
    Keeps net shape host out [] host out fun _ hidden => hidden :=
  ⟨ready,leads_nil none out,fun _ filled => ⟨rfl,rfl,filled⟩⟩

theorem keeps_trans {host middle after : Host} {out between left : List (Option Nat × Work (Value B H I E))}
    {one two : Commands B H I E} {f g : B → H → H} (first : Keeps net shape host out one middle between f)
    (second : Keeps net shape middle between two after left g) :
    Keeps net shape host out (one ++ two) after left fun batch hidden => g batch (f batch hidden) := by
  refine ⟨second.ready,leads_append first.leads second.leads,?_⟩
  intro memory filled
  obtain ⟨batch,hidden,kept⟩ := first.model memory filled
  obtain ⟨batch',hidden',kept'⟩ := second.model _ kept
  rw [perform_append]
  exact ⟨batch'.trans batch,by rw [hidden',batch,hidden],kept'⟩

theorem ready_release {host : Host} {out : List (Option Nat × Work (Value B H I E))} (ready : Ready net shape host out)
    (layer : Nat) : ∃ left, Ready net shape (host.release layer) left ∧ ∀ side ∈ out, side.1 ≠ some layer → side ∈ left := by
  refine ⟨out.filter fun side => side.1 ≠ some layer,⟨release_sound host ready.sound layer,?_,?_⟩,?_⟩
  · intro other p state
    rw [release_layers] at state
    exact ready.asked other p state
  · intro side member
    obtain ⟨inside,apart⟩ := List.mem_filter.mp member
    obtain ⟨other,p,ids,state,recorded,rfl⟩ := ready.outstanding side inside
    refine ⟨other,p,ids,by rwa [release_layers],?_,rfl⟩
    rw [release_recorded,if_neg fun same => of_decide_eq_true apart (congrArg some same)]
    exact recorded
  · intro side inside apart
    exact List.mem_filter.mpr ⟨inside,decide_eq_true apart⟩

theorem observe_keeps (capture : Bool) (seen : List Nat) {host : Host} {out : List (Option Nat × Work (Value B H I E))}
    (ready : Ready net shape host out) :
    (∃ left, Keeps net shape host out (observing capture seen) (host.observe capture seen) left fun _ hidden => hidden) ∧
      (host.observe capture seen).layers = host.layers := by
  cases capture with
  | true => exact ⟨⟨out,keeps_refl ready⟩,rfl⟩
  | false =>
      show (∃ left, Keeps net shape host out (seen.map fun layer => .observe (some layer)) (seen.foldl Host.release host) left
        fun _ hidden => hidden) ∧ (seen.foldl Host.release host).layers = host.layers
      induction seen generalizing host out with
      | nil => exact ⟨⟨out,keeps_refl ready⟩,rfl⟩
      | cons layer seen ih =>
          obtain ⟨middle,released,others⟩ := ready_release ready layer
          obtain ⟨⟨left,keeps⟩,layers⟩ := ih released
          refine ⟨⟨left,?_⟩,layers.trans (release_layers host layer)⟩
          have one : Keeps net shape host out [.observe (some layer)] (host.release layer) middle fun _ hidden => hidden := by
            refine ⟨released,fun rest fits => .observe (some layer) middle others fits,?_⟩
            intro memory filled
            refine ⟨rfl,rfl,?_⟩
            intro other p state
            rw [release_layers] at state
            exact filled other p state
          exact keeps_trans one keeps

theorem pending_live {host : Host} (sound : Sound host) {layer : Nat} {p : Pending}
    (state : (host.layers layer).prefetchState = some p) : p.prefetched ∈ host.live := by
  rcases sound.pending layer p state with own | ⟨n,own⟩
  · exact sound.live _ _ own
  · exact sound.live _ _ own

theorem ids_apart {host : Host} (sound : Sound host) {layer other ids : Nat} {p : Pending}
    (state : (host.layers layer).prefetchState = some p) (recorded : host.recorded other = some ids) : ids ≠ p.prefetched := by
  rintro rfl
  rcases sound.pending layer p state with own | ⟨n,own⟩
  · cases sound.once _ (.ids other) _ own recorded
  · cases sound.once _ (.ids other) _ own recorded

theorem pending_apart {host : Host} (sound : Sound host) {layer other : Nat} {p q : Pending} (apart : other ≠ layer)
    (state : (host.layers layer).prefetchState = some p) (also : (host.layers other).prefetchState = some q) :
    q.prefetched ≠ p.prefetched := by
  intro same
  rcases sound.pending layer p state with own | ⟨n,own⟩
  · rcases sound.pending other q also with their | ⟨m,their⟩
    · cases sound.once _ _ _ own (same ▸ their)
      exact apart rfl
    · cases sound.once _ _ _ own (same ▸ their)
  · rcases sound.pending other q also with their | ⟨m,their⟩
    · cases sound.once _ _ _ own (same ▸ their)
    · cases sound.once _ _ _ own (same ▸ their)
      exact apart rfl

theorem work_keeps {host : Host} {out : List (Option Nat × Work (Value B H I E))} (ready : Ready net shape host out)
    (scratch : List Nat) (fresh : ∀ a ∈ scratch, a ∉ host.live) (contents : B → Nat → Content I E) (f : B → H → H) :
    Keeps net shape host out [.run none (modelWork none scratch contents fun _ batch hidden => (batch,f batch hidden))]
      host out f := by
  refine ⟨ready,?_,?_⟩
  · intro rest fits
    refine .work _ ?_ fits
    intro side member
    obtain ⟨layer,p,ids,state,recorded,rfl⟩ := ready.outstanding side member
    exact model_apart net layer ids p.prefetched p.lookupTokens none scratch contents _
      (fun inside => fresh _ inside (ready.sound.live (.ids layer) ids recorded))
      (fun inside => fresh _ inside (pending_live ready.sound state)) (by rintro ⟨⟩)
  · intro memory filled
    refine ⟨rfl,rfl,?_⟩
    intro layer p state t inside
    have outside : p.prefetched ∉ scratch := fun member => fresh _ member (pending_live ready.sound state)
    exact (congrArg (Content.row · t) (if_neg outside)).trans (filled layer p state t inside)

variable (alloc : Allocator B I E)

theorem body_keeps (capture : Bool) (layer : Nat) {host : Host} {out : List (Option Nat × Work (Value B H I E))}
    (ready : Ready net shape host out) :
    (∃ left, Keeps net shape host out (runBody net alloc capture layer host).2 (runBody net alloc capture layer host).1 left
      (net.body layer)) ∧ (runBody net alloc capture layer host).1.layers = host.layers := by
  obtain ⟨⟨left,seen⟩,layers⟩ := observe_keeps capture (alloc.choose .body layer capture host).seen ready
  have fresh := (alloc.fresh .body layer capture host).scratch
  exact ⟨⟨left,keeps_trans seen (work_keeps seen.ready _ fresh _ (net.body layer))⟩,layers⟩

omit [Inhabited I] in
theorem filled_rows {host : Host} {memory : Memory B H I E} (filled : Filled net host memory) {layer : Nat} {p : Pending}
    (state : (host.layers layer).prefetchState = some p) :
    ((List.range p.lookupTokens).map fun t => (Memory.blockAt memory p.prefetched).row t) =
      net.rows layer p.lookupTokens (memory .batch) :=
  List.map_congr_left fun t member => filled layer p state t (List.mem_range.mp member)

theorem consume_keeps (layer : Nat) (choice : Choice B I E) {host : Host} {out : List (Option Nat × Work (Value B H I E))}
    (ready : Ready net shape host out) (fresh : ∀ a ∈ choice.scratch, a ∉ host.live) (p : Pending)
    (state : (host.layers layer).prefetchState = some p) :
    ∃ after commands left, consumePrefetchedEmbeddings net shape layer choice host = .ok (after,commands) ∧
      Keeps net shape host out commands after left (net.lookup shape layer) ∧
      (after.layers layer).prefetchState = none ∧ ∀ other, other ≠ layer → after.layers other = host.layers other := by
  obtain ⟨left,released,others⟩ := ready_release ready layer
  have open_state : (host.release layer).layers = host.layers := release_layers host layer
  have after_state : ∀ other q, (((host.release layer).withState layer none).layers other).prefetchState = some q →
      other ≠ layer ∧ (host.layers other).prefetchState = some q := by
    intro other q found
    have apart : other ≠ layer := by
      rintro rfl
      rw [withState_own] at found
      cases found
    rw [withState_other _ layer none other apart,open_state] at found
    exact ⟨apart,found⟩
  have aside : ∀ side ∈ left, ∃ other q ids, other ≠ layer ∧ (host.layers other).prefetchState = some q ∧
      host.recorded other = some ids ∧ side = (some other,gatherWork net other ids q.prefetched q.lookupTokens) := by
    intro side member
    obtain ⟨other,q,ids,found,recorded,same⟩ := released.outstanding side member
    rw [release_recorded] at recorded
    by_cases equal : other = layer
    · rw [if_pos equal] at recorded
      cases recorded
    · rw [if_neg equal] at recorded
      exact ⟨other,q,ids,equal,by rwa [open_state] at found,recorded,same⟩
  unfold consumePrefetchedEmbeddings
  rw [state]
  refine ⟨_,_,left,rfl,⟨⟨withState_none _ released.sound layer,?_,?_⟩,?_,?_⟩,withState_own ..,?_⟩
  · intro other q found
    exact ready.asked other q (after_state other q found).2
  · intro side member
    obtain ⟨other,q,ids,apart,found,recorded,same⟩ := aside side member
    refine ⟨other,q,ids,?_,?_,same⟩
    · rwa [withState_other _ layer none other apart,open_state]
    · rw [← recorded]
      exact (release_recorded host layer other).trans (if_neg apart)
  · intro rest fits
    refine .join (some layer) left others (.work _ ?_ fits)
    intro side member
    obtain ⟨other,q,ids,apart,found,recorded,rfl⟩ := aside side member
    have buffers := pending_apart ready.sound apart state found
    refine model_apart net other ids q.prefetched q.lookupTokens _ _ _ _ ?_ ?_ fun same => buffers (Option.some_inj.mp same).symm
    · intro inside
      rcases List.mem_cons.mp inside with same | temporary
      · exact ids_apart ready.sound state recorded same
      · exact fresh _ temporary (ready.sound.live (.ids other) ids recorded)
    · intro inside
      rcases List.mem_cons.mp inside with same | temporary
      · exact buffers same
      · exact fresh _ temporary (pending_live ready.sound found)
  · intro memory filled
    refine ⟨rfl,?_,?_⟩
    · have asked := ready.asked layer p state
      have rows := filled_rows filled state
      show (if shape.idle then memory .hidden else net.ple layer
        ((List.range p.lookupTokens).map fun t => (Memory.blockAt memory p.prefetched).row t) (memory .batch)
          (memory .hidden)) = _
      rw [rows]
      unfold Network.lookup
      rw [asked]
      cases shape.idle <;> rfl
    · intro other q found t inside
      obtain ⟨apart,found⟩ := after_state other q found
      have outside : q.prefetched ∉ p.prefetched :: choice.scratch := by
        rw [List.mem_cons,not_or]
        exact ⟨pending_apart ready.sound apart state found,fun member => fresh _ member (pending_live ready.sound found)⟩
      exact (congrArg (Content.row · t) (if_neg outside)).trans (filled other q found t inside)
  · intro other apart
    rw [withState_other _ layer none other apart,open_state]

theorem ple_keeps (capture : Bool) (layer : Nat) {host : Host} {out : List (Option Nat × Work (Value B H I E))}
    (ready : Ready net shape host out) :
    ∃ after commands left, runPle net alloc capture shape layer host = .ok (after,commands) ∧
      Keeps net shape host out commands after left (net.lookup shape layer) ∧
      (after.layers layer).prefetchState = none ∧ ∀ other, other ≠ layer → after.layers other = host.layers other := by
  obtain ⟨⟨middle,seen⟩,layers⟩ := observe_keeps capture (alloc.choose .ple layer capture host).seen ready
  have fresh := (alloc.fresh .ple layer capture host).scratch
  unfold runPle
  cases state : ((host.observe capture (alloc.choose .ple layer capture host).seen).layers layer).prefetchState with
  | none =>
      rw [if_neg (not_not_intro state)]
      refine ⟨_,_,middle,rfl,keeps_trans seen (work_keeps seen.ready _ fresh _ _),state,?_⟩
      intro other _
      rw [layers]
  | some p =>
      rw [if_pos (by rw [state]; exact Option.some_ne_none p)]
      obtain ⟨after,commands,left,ran,keeps,none,others⟩ := consume_keeps layer _ seen.ready fresh p state
      rw [ran]
      refine ⟨_,_,left,rfl,keeps_trans seen keeps,none,?_⟩
      intro other apart
      rw [others other apart,layers]

-- A lookup under way: its gather is outstanding on the layer's stream, with what was outstanding before.
theorem lookup_ready (capture : Bool) (layer n allocated ids buffer : Nat) {host after : Host}
    {out : List (Option Nat × Work (Value B H I E))} (ready : Ready net shape host out)
    (idle : (host.layers layer).prefetchState = none) (asked : shape.lookupTokens = some n)
    (got : getPrefetchBuffer capture layer host n allocated = (buffer,after)) (newIds : ids ∉ host.live)
    (newBlock : allocated ∉ host.live) (apart : allocated ≠ ids) :
    Ready net shape ((after.record layer ids).withState layer (some ⟨buffer,n⟩))
        ((some layer,gatherWork net layer ids buffer n) :: out) ∧
      (∀ side ∈ out, Apart side.2 (gatherWork net layer ids buffer n)) ∧
      ∀ other, other ≠ layer → ((after.record layer ids).withState layer (some ⟨buffer,n⟩)).layers other = host.layers other := by
  have sound := lookup_sound host ready.sound capture layer n allocated ids buffer after got newIds newBlock apart
  obtain ⟨_,_,others,recorded⟩ := buffer_parts host ready.sound capture layer n allocated buffer after got
  have same : ∀ other, other ≠ layer →
      ((after.record layer ids).withState layer (some ⟨buffer,n⟩)).layers other = host.layers other := by
    intro other away
    rw [withState_other _ layer _ other away]
    exact others other away
  have own_ids : ((after.record layer ids).withState layer (some ⟨buffer,n⟩)).recorded layer = some ids := Function.update_self ..
  have their_ids : ∀ other, other ≠ layer →
      ((after.record layer ids).withState layer (some ⟨buffer,n⟩)).recorded other = host.recorded other := by
    intro other away
    rw [← recorded]
    exact Function.update_of_ne away ..
  have own_state := withState_own (after.record layer ids) layer (some ⟨buffer,n⟩)
  have aside : ∀ side ∈ out, ∃ other p theirs, other ≠ layer ∧ (host.layers other).prefetchState = some p ∧
      host.recorded other = some theirs ∧ side = (some other,gatherWork net other theirs p.prefetched p.lookupTokens) := by
    intro side member
    obtain ⟨other,p,theirs,state,kept,form⟩ := ready.outstanding side member
    refine ⟨other,p,theirs,?_,state,kept,form⟩
    rintro rfl
    rw [idle] at state
    cases state
  refine ⟨⟨sound,?_,?_⟩,?_,same⟩
  · intro other p state
    by_cases equal : other = layer
    · rw [equal,own_state] at state
      cases state
      exact asked
    · rw [same other equal] at state
      exact ready.asked other p state
  · intro side member
    rcases List.mem_cons.mp member with rfl | member
    · exact ⟨layer,⟨buffer,n⟩,ids,own_state,own_ids,rfl⟩
    · obtain ⟨other,p,theirs,away,state,kept,form⟩ := aside side member
      exact ⟨other,p,theirs,by rwa [same other away],by rwa [their_ids other away],form⟩
  · intro side member
    obtain ⟨other,p,theirs,away,state,kept,rfl⟩ := aside side member
    have state' : (((after.record layer ids).withState layer (some ⟨buffer,n⟩)).layers other).prefetchState = some p := by
      rwa [same other away]
    have kept' : ((after.record layer ids).withState layer (some ⟨buffer,n⟩)).recorded other = some theirs := by
      rwa [their_ids other away]
    exact gather_apart net other theirs p.prefetched p.lookupTokens layer ids buffer n
      (pending_apart sound away own_state state') (fun equal => newIds (equal ▸ pending_live ready.sound state))
      (ids_apart sound own_state kept')

theorem gather_filled {host after : Host} {memory : Memory B H I E} (filled : Filled net host memory) (sound : Sound after)
    (layer ids buffer n : Nat) (own : (after.layers layer).prefetchState = some ⟨buffer,n⟩)
    (same : ∀ other, other ≠ layer → after.layers other = host.layers other)
    (written : Memory.blockAt memory ids = .ids (net.ids layer (memory .batch))) :
    Filled net after ((gatherWork net layer ids buffer n).effect memory) := by
  intro other p state t inside
  by_cases equal : other = layer
  · rw [equal,own] at state
    cases state
    have row : Memory.blockAt ((gatherWork net layer ids buffer n).effect memory) buffer = .rows fun t =>
        if t < n then net.row layer ((Memory.blockAt memory ids).id t) else (Memory.blockAt memory buffer).row t := if_pos rfl
    rw [row,equal]
    show (if t < n then net.row layer ((Memory.blockAt memory ids).id t) else _) = _
    rw [if_pos inside,written]
    rfl
  · have apart := pending_apart sound equal own state
    rw [same other equal] at state
    exact (congrArg (Content.row · t) (if_neg apart)).trans (filled other p state t inside)

theorem ids_keeps (layer : Nat) (choice : Choice B I E) {host : Host} {out : List (Option Nat × Work (Value B H I E))}
    (ready : Ready net shape host out) (new : choice.ids ∉ host.live) (fresh : ∀ a ∈ choice.scratch, a ∉ host.live) :
    Keeps net shape host out [.run none (idsWork net layer choice)] host out fun _ hidden => hidden := by
  refine work_keeps ready (choice.ids :: choice.scratch) ?_ _ fun _ hidden => hidden
  intro a member
  rcases List.mem_cons.mp member with rfl | temporary
  · exact new
  · exact fresh a temporary

theorem fork_keeps (capture : Bool) (layer n : Nat) (choice : Choice B I E) {host after : Host} (buffer : Nat)
    {out : List (Option Nat × Work (Value B H I E))} (ready : Ready net shape host out)
    (idle : (host.layers layer).prefetchState = none) (asked : shape.lookupTokens = some n)
    (got : getPrefetchBuffer capture layer host n choice.buffer = (buffer,after)) (newIds : choice.ids ∉ host.live)
    (newBlock : choice.buffer ∉ host.live) (apart : choice.buffer ≠ choice.ids) (fresh : ∀ a ∈ choice.scratch, a ∉ host.live) :
    ∃ left, Keeps net shape host out ([.run none (idsWork net layer choice)] ++
        [.wait (some layer) none,.run (some layer) (gatherWork net layer choice.ids buffer n)])
      ((after.record layer choice.ids).withState layer (some ⟨buffer,n⟩)) left (fun _ hidden => hidden) ∧
      ∀ other, other ≠ layer → ((after.record layer choice.ids).withState layer (some ⟨buffer,n⟩)).layers other =
        host.layers other := by
  obtain ⟨under,aside,same⟩ := lookup_ready capture layer n _ _ buffer ready idle asked got newIds newBlock apart
  have ids := ids_keeps layer choice ready newIds fresh
  refine ⟨_,⟨under,leads_append ids.leads fun rest fits => .fork (some layer) _ (Option.some_ne_none layer) aside fits,?_⟩,same⟩
  intro memory filled
  obtain ⟨batch,hidden,kept⟩ := ids.model memory filled
  have written : Memory.blockAt (performAll [Command.run (none : Option Nat) (idsWork net layer choice)] memory) choice.ids =
      .ids (net.ids layer (memory .batch)) := (if_pos List.mem_cons_self).trans (if_pos rfl)
  rw [← batch] at written
  rw [perform_append]
  exact ⟨batch,hidden,gather_filled kept under.sound layer choice.ids buffer n (withState_own ..) same written⟩

theorem start_keeps (prefetching capture : Bool) (layer : Nat) {host : Host} {out : List (Option Nat × Work (Value B H I E))}
    (ready : Ready net shape host out) (idle : (host.layers layer).prefetchState = none) :
    ∃ after commands left, startPrefetch net alloc prefetching capture shape layer host = .ok (after,commands) ∧
      Keeps net shape host out commands after left (fun _ hidden => hidden) ∧
      ∀ other, other ≠ layer → after.layers other = host.layers other := by
  unfold startPrefetch
  by_cases on : prefetching = false
  · rw [if_pos on]
    exact ⟨host,[],out,rfl,keeps_refl ready,fun _ _ => rfl⟩
  · rw [if_neg on,if_neg (not_not_intro idle)]
    cases asked : shape.lookupTokens with
    | none => exact ⟨host,[],out,rfl,keeps_refl ready,fun _ _ => rfl⟩
    | some n =>
        have fresh := alloc.fresh .start layer capture host
        obtain ⟨⟨middle,seen⟩,layers⟩ := observe_keeps capture (alloc.choose .start layer capture host).seen ready
        by_cases empty : n = 0
        · simp only [if_pos empty]
          refine ⟨_,_,middle,rfl,keeps_trans seen (ids_keeps layer _ seen.ready fresh.ids fresh.scratch),?_⟩
          intro other _
          rw [layers]
        · simp only [if_neg empty]
          cases got : getPrefetchBuffer capture layer (host.observe capture (alloc.choose .start layer capture host).seen) n
              (alloc.choose .start layer capture host).buffer with
          | mk buffer after =>
              obtain ⟨left,fork,same⟩ := fork_keeps capture layer n _ buffer seen.ready (by rw [layers]; exact idle) asked got
                fresh.ids fresh.buffer fresh.apart fresh.scratch
              refine ⟨_,_,left,rfl,?_,?_⟩
              · rw [List.append_assoc]
                exact keeps_trans seen fork
              · intro other away
                rw [same other away,layers]

-- One turn of the layer loop: the next layer's lookup starts, this one's is used up.
theorem turn_keeps (prefetching capture : Bool) (i : Nat) (ple next : Bool) {host : Host}
    {out : List (Option Nat × Work (Value B H I E))} (ready : Ready net shape host out)
    (due : ∀ layer, (host.layers layer).prefetchState ≠ none → layer = i ∧ ple = true) :
    ∃ first second third one two left,
      startNext net alloc prefetching capture shape next (i + 1) host = .ok (first,one) ∧
      runOwn net alloc capture shape ple i first = .ok (second,two) ∧
      (runBody net alloc capture i second).1 = third ∧
      Keeps net shape host out (one ++ two ++ (runBody net alloc capture i second).2) third left
        (fun batch hidden => net.body i batch (if ple then net.lookup shape i batch hidden else hidden)) ∧
      ∀ layer, (third.layers layer).prefetchState ≠ none → layer = i + 1 ∧ next = true := by
  have idle : (host.layers (i + 1)).prefetchState = none := by
    by_contra pending
    have same := (due (i + 1) pending).1
    omega
  obtain ⟨first,one,middle,started,keeps,due⟩ : ∃ first one middle,
      startNext net alloc prefetching capture shape next (i + 1) host = .ok (first,one) ∧
      Keeps net shape host out one first middle (fun _ hidden => hidden) ∧
      ∀ layer, (first.layers layer).prefetchState ≠ none → layer = i ∧ ple = true ∨ layer = i + 1 ∧ next = true := by
    cases next with
    | false => exact ⟨host,[],out,rfl,keeps_refl ready,fun layer pending => .inl (due layer pending)⟩
    | true =>
        obtain ⟨first,one,middle,started,keeps,same⟩ := start_keeps alloc prefetching capture (i + 1) ready idle
        refine ⟨first,one,middle,started,keeps,?_⟩
        intro layer pending
        by_cases equal : layer = i + 1
        · exact .inr ⟨equal,rfl⟩
        · rw [same layer equal] at pending
          exact .inl (due layer pending)
  obtain ⟨second,two,between,looked,keeps',due⟩ : ∃ second two between,
      runOwn net alloc capture shape ple i first = .ok (second,two) ∧
      Keeps net shape first middle two second between
        (fun batch hidden => if ple then net.lookup shape i batch hidden else hidden) ∧
      ∀ layer, (second.layers layer).prefetchState ≠ none → layer = i + 1 ∧ next = true := by
    cases ple with
    | false =>
        refine ⟨first,[],middle,rfl,keeps_refl keeps.ready,?_⟩
        intro layer pending
        rcases due layer pending with ⟨_,off⟩ | next
        · cases off
        · exact next
    | true =>
        obtain ⟨second,two,between,looked,keeps',none,same⟩ := ple_keeps alloc capture i keeps.ready
        refine ⟨second,two,between,looked,keeps',?_⟩
        intro layer pending
        by_cases equal : layer = i
        · exact absurd (equal ▸ none) pending
        · rw [same layer equal] at pending
          rcases due layer pending with ⟨own,_⟩ | next
          · exact absurd own equal
          · exact next
  obtain ⟨⟨left,body⟩,layers⟩ := body_keeps alloc capture i keeps'.ready
  refine ⟨first,second,_,one,two,left,started,looked,rfl,keeps_trans (keeps_trans keeps keeps') body,?_⟩
  intro layer pending
  rw [layers] at pending
  exact due layer pending

theorem layers_keep (prefetching capture : Bool) (ples : List Bool) (i : Nat) {host : Host}
    {out : List (Option Nat × Work (Value B H I E))} (ready : Ready net shape host out)
    (due : ∀ layer, (host.layers layer).prefetchState ≠ none → layer = i ∧ ples.head? = some true) :
    ∃ after commands left, runLayers net alloc prefetching capture shape i ples host = .ok (after,commands) ∧
      Keeps net shape host out commands after left (fun batch hidden => net.layers shape batch i ples hidden) ∧
      ∀ layer, (after.layers layer).prefetchState = none := by
  induction ples generalizing i host out with
  | nil =>
      refine ⟨host,[],out,rfl,keeps_refl ready,?_⟩
      intro layer
      by_contra pending
      cases (due layer pending).2
  | cons ple rest ih =>
      obtain ⟨first,second,third,one,two,middle,started,looked,ran,turn,due⟩ := turn_keeps alloc prefetching capture i ple
        (rest.head? == some true) ready fun layer pending => ⟨(due layer pending).1,Option.some_inj.mp (due layer pending).2⟩
      obtain ⟨after,commands,left,more,keeps,none⟩ := ih (i + 1) turn.ready
        fun layer pending => ⟨(due layer pending).1,eq_of_beq (due layer pending).2⟩
      unfold runLayers
      simp only [started,looked,ran,more,bind,Except.bind]
      have whole := keeps_trans turn keeps
      exact ⟨after,_,left,rfl,whole,none⟩

structure Plain (net : Network B H I E) (shape : Shape) (ples : List Bool) (commands : Commands B H I E) : Prop where
  fits : Fits none [] commands
  hidden : ∀ memory : Memory B H I E, performAll commands memory .hidden = net.forward shape ples (memory .hidden)

variable (net shape) in
theorem forward_plain (prefetching capture : Bool) (ples : List Bool) {host : Host} (sound : Sound host)
    (settled : ∀ layer, (host.layers layer).prefetchState = none) :
    ∃ after commands, forward net alloc prefetching capture shape ples host = .ok (after,commands) ∧ Sound after ∧
      (∀ layer, (after.layers layer).prefetchState = none) ∧ Plain net shape ples commands := by
  have ready : Ready net shape host [] := by
    refine ⟨sound,?_,fun side member => absurd member List.not_mem_nil⟩
    intro layer p state
    rw [settled] at state
    cases state
  obtain ⟨after,commands,left,ran,keeps,none⟩ := layers_keep alloc prefetching capture ples 0 ready
    fun layer pending => absurd (settled layer) pending
  have closed : left = [] := by
    cases left with
    | nil => rfl
    | cons side left =>
        obtain ⟨layer,p,ids,state,_⟩ := keeps.ready.outstanding side List.mem_cons_self
        rw [none] at state
        cases state
  unfold forward
  rw [ran]
  refine ⟨after,_,rfl,keeps.ready.sound,none,?_,?_⟩
  · refine .work _ (fun side member => absurd member List.not_mem_nil) ?_
    exact fits_append _ _ _ _ (leads_fits (closed ▸ keeps.leads))
      (.work _ (fun side member => absurd member List.not_mem_nil) .done)
  · intro memory
    rw [perform_append,perform_append]
    obtain ⟨batch,hidden,_⟩ := keeps.model (performAll [Command.run (Option.none : Option Nat) (modelWork Option.none []
      (fun _ _ => .rows default) fun _ _ hidden => net.prepare hidden)] memory) (fun layer p state => by
        rw [settled] at state
        cases state)
    show net.commit (performAll commands _ .batch) (performAll commands _ .hidden) = _
    rw [batch,hidden]
    rfl

end

inductive Event (B H I E : Type) where
  | other (scratch : List Nat) (contents : B → Nat → Content I E) (f : H → H)
  | eager (shape : Shape) (alloc : Allocator B I E)
  | capture (shape : Shape) (alloc : Allocator B I E)
  | replay (graph : Nat)

section
variable {B H I E : Type} [Inhabited I] [Inhabited E] (net : Network B H I E) (prefetching : Bool) (ples : List Bool)

-- The commands issued; a capture issues none, and a graph there is no capture of is not replayed.
def serve : List (Event B H I E) → Host → List (Commands B H I E) → Except Raised (Commands B H I E)
  | [],_,_ => .ok []
  | .other scratch contents f :: events,host,graphs => do
      let commands ← serve events host graphs
      return .run none (modelWork none scratch contents fun _ batch hidden => (batch,f hidden)) :: commands
  | .eager shape alloc :: events,host,graphs => do
      let (host,ran) ← forward net alloc prefetching false shape ples host
      let commands ← serve events host graphs
      return ran ++ commands
  | .capture shape alloc :: events,host,graphs => do
      let (host,captured) ← forward net alloc prefetching true shape ples host
      serve events host (graphs ++ [captured])
  | .replay graph :: events,host,graphs => do
      let commands ← serve events host graphs
      return (graphs[graph]?.getD []) ++ commands

def meant : List (Event B H I E) → List Shape → H → H
  | [],_,hidden => hidden
  | .other _ _ f :: events,shapes,hidden => meant events shapes (f hidden)
  | .eager shape _ :: events,shapes,hidden => meant events shapes (net.forward shape ples hidden)
  | .capture shape _ :: events,shapes,hidden => meant events (shapes ++ [shape]) hidden
  | .replay graph :: events,shapes,hidden =>
      meant events shapes (shapes[graph]?.elim hidden fun shape => net.forward shape ples hidden)

theorem serve_keeps (events : List (Event B H I E)) {host : Host} (sound : Sound host)
    (settled : ∀ layer, (host.layers layer).prefetchState = none) (graphs : List (Commands B H I E)) (shapes : List Shape)
    (captured : List.Forall₂ (fun shape commands => Plain net shape ples commands) shapes graphs) :
    ∃ commands, serve net prefetching ples events host graphs = .ok commands ∧ Fits none [] commands ∧
      ∀ memory : Memory B H I E, performAll commands memory .hidden = meant net ples events shapes (memory .hidden) := by
  induction events generalizing host graphs shapes with
  | nil => exact ⟨[],rfl,.done,fun _ => rfl⟩
  | cons event events ih =>
      cases event with
      | other scratch contents f =>
          obtain ⟨commands,ran,fits,hidden⟩ := ih sound settled graphs shapes captured
          refine ⟨_,by rw [serve,ran]; rfl,.work _ (fun side member => absurd member List.not_mem_nil) fits,?_⟩
          exact fun memory => hidden _
      | eager shape alloc =>
          obtain ⟨after,own,went,sound,settled,plain⟩ := forward_plain net shape alloc prefetching false ples sound settled
          obtain ⟨commands,ran,fits,hidden⟩ := ih sound settled graphs shapes captured
          refine ⟨own ++ commands,by simp only [serve,went,ran,bind,Except.bind]; rfl,fits_append _ _ _ _ plain.fits fits,?_⟩
          intro memory
          rw [perform_append,hidden,plain.hidden]
          rfl
      | capture shape alloc =>
          obtain ⟨after,own,went,sound,settled,plain⟩ := forward_plain net shape alloc prefetching true ples sound settled
          obtain ⟨commands,ran,fits,hidden⟩ := ih sound settled (graphs ++ [own]) (shapes ++ [shape])
            (List.rel_append captured (.cons plain .nil))
          exact ⟨commands,by simp only [serve,went,ran,bind,Except.bind],fits,hidden⟩
      | replay graph =>
          obtain ⟨commands,ran,fits,hidden⟩ := ih sound settled graphs shapes captured
          have one : ∃ own, graphs[graph]?.getD [] = own ∧ Fits none [] own ∧ ∀ memory : Memory B H I E,
              performAll own memory .hidden =
                shapes[graph]?.elim (memory .hidden) fun shape => net.forward shape ples (memory .hidden) := by
            cases found : graphs[graph]? with
            | none =>
                have missing : shapes[graph]? = none := by
                  rw [List.getElem?_eq_none_iff,captured.length_eq,← List.getElem?_eq_none_iff]
                  exact found
                refine ⟨[],rfl,.done,?_⟩
                intro memory
                rw [missing]
                rfl
            | some own =>
                obtain ⟨inside,same⟩ := List.getElem?_eq_some_iff.mp found
                have place : graph < shapes.length := captured.length_eq ▸ inside
                have plain : Plain net (shapes.get ⟨graph,place⟩) ples (graphs.get ⟨graph,inside⟩) := captured.get place inside
                rw [show graphs.get ⟨graph,inside⟩ = own from same] at plain
                refine ⟨own,rfl,plain.fits,?_⟩
                intro memory
                rw [List.getElem?_eq_getElem place]
                exact plain.hidden memory
          obtain ⟨own,same,ownFits,ownHidden⟩ := one
          refine ⟨own ++ commands,by rw [serve,ran,same]; rfl,fits_append _ _ _ _ ownFits fits,?_⟩
          intro memory
          rw [perform_append,hidden,ownHidden]
          rfl

-- Whatever the server runs, whatever blocks the allocator gives out and in whatever order the device takes the work of the
-- streams, the model computes what it computes with every lookup on the current stream, and no call raises.
theorem prefetch_exact (events : List (Event B H I E)) :
    ∃ commands, serve net prefetching ples events Host.fresh [] = .ok commands ∧
      ∀ order, Schedule (Timeline.empty.issueAll commands) order → ∀ memory : Memory B H I E,
        (Timeline.empty.issueAll commands).execute order memory .hidden = meant net ples events [] (memory .hidden) := by
  have sound : Sound Host.fresh := by
    refine ⟨?_,?_,?_⟩
    · intro owner a holds
      cases owner with
      | eager layer => cases holds.choose_spec
      | graph layer n => cases holds
      | ids layer => cases holds
    · intro owner other a holds
      cases owner with
      | eager layer => cases holds.choose_spec
      | graph layer n => cases holds
      | ids layer => cases holds
    · intro layer p state
      cases state
  obtain ⟨commands,ran,fits,hidden⟩ := serve_keeps net prefetching ples events sound (fun _ => rfl) [] [] .nil
  refine ⟨commands,ran,?_⟩
  intro order schedule memory
  rw [fits_schedules none commands fits order schedule,hidden]

end

section
variable {B H I E : Type} [Inhabited I] [Inhabited E] (net : Network B H I E) (alloc : Allocator B I E)
  (capture : Bool) (shape : Shape)

theorem buffer_other (host : Host) (layer n allocated other : Nat) (apart : other ≠ layer) :
    (getPrefetchBuffer capture layer host n allocated).2.layers other = host.layers other :=
  withLayer_other host layer _ _ other apart

theorem start_parts (layer : Nat) (host : Host) :
    (host.layers layer).prefetchState ≠ none ∧ startPrefetch net alloc true capture shape layer host = .error notConsumed ∨
      ∃ after commands, startPrefetch net alloc true capture shape layer host = .ok (after,commands) ∧
        (host.layers layer).prefetchState = none ∧ ∀ other, other ≠ layer → after.layers other = host.layers other := by
  unfold startPrefetch
  rw [if_neg (Bool.true_eq_false.mp)]
  by_cases idle : (host.layers layer).prefetchState = none
  · rw [if_neg (not_not_intro idle)]
    refine .inr ?_
    cases shape.lookupTokens with
    | none => exact ⟨host,[],rfl,idle,fun _ _ => rfl⟩
    | some n =>
        by_cases empty : n = 0
        · simp only [if_pos empty]
          refine ⟨_,_,rfl,idle,?_⟩
          intro other _
          rw [observe_layers]
        · simp only [if_neg empty]
          refine ⟨_,_,rfl,idle,?_⟩
          intro other apart
          rw [withState_other _ layer _ other apart]
          exact (buffer_other capture _ layer n _ other apart).trans (congrFun (observe_layers ..) other)
  · rw [if_pos idle]
    exact .inl ⟨idle,rfl⟩

omit [Inhabited I] in
theorem own_parts (ple : Bool) (layer : Nat) (host : Host) :
    ∃ after commands, runOwn net alloc capture shape ple layer host = .ok (after,commands) ∧
      ∀ other, other ≠ layer → after.layers other = host.layers other := by
  cases ple with
  | false => exact ⟨host,[],rfl,fun _ _ => rfl⟩
  | true =>
      show ∃ after commands, runPle net alloc capture shape layer host = .ok (after,commands) ∧ _
      have layers := observe_layers host capture (alloc.choose .ple layer capture host).seen
      unfold runPle
      cases state : ((host.observe capture (alloc.choose .ple layer capture host).seen).layers layer).prefetchState with
      | none =>
          rw [if_neg (not_not_intro state)]
          exact ⟨_,_,rfl,fun other _ => congrFun layers other⟩
      | some p =>
          rw [if_pos (by rw [state]; exact Option.some_ne_none p)]
          unfold consumePrefetchedEmbeddings
          rw [state]
          refine ⟨_,_,rfl,?_⟩
          intro other apart
          rw [withState_other _ layer _ other apart,release_layers,layers]

-- A lookup that an abandoned forward left behind is not used by any later one: each raises before the layer runs.
theorem leftover_raises (ples : List Bool) (i layer : Nat) (host : Host) (behind : i < layer)
    (own : ples[layer - i]? = some true) (left : (host.layers layer).prefetchState ≠ none) :
    runLayers net alloc true capture shape i ples host = .error notConsumed := by
  induction ples generalizing i host with
  | nil => cases own
  | cons ple rest ih =>
      have inside : rest[layer - (i + 1)]? = some true := by
        rw [show layer - i = layer - (i + 1) + 1 by omega,List.getElem?_cons_succ] at own
        exact own
      obtain refused | ⟨after,one,started,kept⟩ : startNext net alloc true capture shape (rest.head? == some true) (i + 1) host =
          .error notConsumed ∨ ∃ after one, startNext net alloc true capture shape (rest.head? == some true) (i + 1) host =
            .ok (after,one) ∧ i + 1 ≠ layer ∧ (after.layers layer).prefetchState ≠ none := by
        by_cases next : rest.head? = some true
        · rw [next]
          show startPrefetch net alloc true capture shape (i + 1) host = _ ∨ ∃ after one,
            startPrefetch net alloc true capture shape (i + 1) host = _ ∧ _
          rcases start_parts net alloc capture shape (i + 1) host with ⟨_,refused⟩ | ⟨after,one,started,idle,kept⟩
          · exact .inl refused
          · have away : i + 1 ≠ layer := by
              rintro rfl
              exact left idle
            exact .inr ⟨after,one,started,away,by rwa [kept layer away.symm]⟩
        · refine .inr ⟨host,[],?_,?_,left⟩
          · rw [startNext,if_neg]
            rwa [beq_iff_eq]
          · rintro rfl
            rw [Nat.sub_self,← List.head?_eq_getElem?] at inside
            exact next inside
      · unfold runLayers
        rw [refused]
        rfl
      · obtain ⟨second,two,looked,same⟩ := own_parts net alloc capture shape ple i after
        obtain ⟨away,pending⟩ := kept
        have later := ih (i + 1) (runBody net alloc capture i second).1 (by omega) inside (by
          rw [runBody,observe_layers,same layer (by omega)]
          exact pending)
        unfold runLayers
        simp only [started,looked,later,bind,Except.bind]

theorem forward_refused (ples : List Bool) (layer : Nat) (host : Host) (behind : 0 < layer) (own : ples[layer]? = some true)
    (left : (host.layers layer).prefetchState ≠ none) :
    forward net alloc true capture shape ples host = .error notConsumed := by
  unfold forward
  rw [leftover_raises net alloc capture shape ples 0 layer host behind own left]
  rfl

end

-- Two decoder layers, the second with a PLE layer; every block is given out at the first address above all others.
def sampleNet : Network Nat Nat Nat Nat where
  prepare := fun hidden => (hidden,hidden + 1)
  ids := fun layer batch t => batch + layer + t
  row := fun _ id => 10 * id
  ple := fun _ rows _ hidden => hidden + rows.sum
  body := fun _ _ hidden => 2 * hidden
  commit := fun _ hidden => hidden

def sampleChoice (live : List Nat) : Choice Nat Nat Nat := ⟨[],live.sum + 1,live.sum + 2,[],fun _ _ => .rows fun _ => 0⟩

theorem sample_fresh (host : Host) (capture : Bool) : (sampleChoice host.live).Fresh host capture := by
  have same : host.observe capture (sampleChoice host.live).seen = host := by cases capture <;> rfl
  have above : ∀ k, host.live.sum + (k + 1) ∉ host.live := by
    intro k member
    have bound := List.le_sum_of_mem member
    omega
  refine ⟨?_,?_,?_,fun a member => absurd member List.not_mem_nil⟩
  · rw [same]
    exact above 0
  · rw [same]
    exact above 1
  · exact (Nat.lt_succ_self _).ne'

def sampleAllocator : Allocator Nat Nat Nat := ⟨fun _ _ _ host => sampleChoice host.live,
    fun _ _ capture host => sample_fresh host capture⟩

def sampleShape : Shape := ⟨false,some 2,fun _ => rfl⟩

def sampleEvents : List (Event Nat Nat Nat Nat) :=
  [.capture sampleShape sampleAllocator,.other [] (fun _ _ => .rows fun _ => 0) (· + 3),.replay 0,
    .eager sampleShape sampleAllocator]

def sampleCommands : Commands Nat Nat Nat Nat :=
  match serve sampleNet true [false,true] sampleEvents Host.fresh [] with
  | .ok commands => commands
  | .error _ => []

def sampleMemory : Memory Nat Nat Nat Nat
  | .batch => (0 : Nat)
  | .hidden => (0 : Nat)
  | .block _ => .rows fun _ => 0

theorem sample_runs : (Timeline.empty.issueAll sampleCommands).execute
    (List.range (Timeline.empty.issueAll sampleCommands).works.length) sampleMemory .hidden = (8688 : Nat) := by
  obtain ⟨commands,ran,each⟩ := prefetch_exact sampleNet true [false,true] sampleEvents
  have same : sampleCommands = commands := by
    unfold sampleCommands
    rw [ran]
  rw [same]
  exact (each _ (issue_schedule commands) sampleMemory).trans rfl

theorem sample_refused : ∃ host commands,
    startPrefetch sampleNet sampleAllocator true false sampleShape 1 Host.fresh = .ok (host,commands) ∧
    forward sampleNet sampleAllocator true false sampleShape [false,true] host = .error notConsumed := by
  refine ⟨_,_,rfl,forward_refused sampleNet sampleAllocator false sampleShape [false,true] 1 _ Nat.one_pos rfl ?_⟩
  rw [withState_own]
  exact Option.some_ne_none _

end OneSpark.PrefetchRuns
