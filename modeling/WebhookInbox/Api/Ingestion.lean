import WebhookInbox.Api.Verified
import WebhookInbox.Library.Table
import WebhookInbox.Library.Transition

/-!
# Runs of the inbox

Requests are interleaved between the reservation of their keys and the commit of their rows.
A request that has reserved its key and not yet saved its row is in flight. A duplicate is
answered with the id of the reservation, whatever became of the request that made it.

An answered id stays committed or in flight as long as no duplicate meets the reservation of a
request whose save failed, and no save fails after a duplicate of its request was answered
(`inv_step`). Any other step loses an event (`lost_of_not_keeps`).
-/

namespace WebhookInbox.Api.Ingestion

open NetString

structure State where
  store : ReservationStore := fun _ => none
  events : Table Event Guid Event.id := ∅
  /-- The rows whose `SaveChangesAsync` has not ended. -/
  inFlight : List Event := []
  /-- The ids of the 2xx answers. -/
  acknowledged : List Guid := []
  /-- The results of `Guid.NewGuid`. -/
  drawn : List Guid := []

/-- How a `SaveChangesAsync` ends. After a commit the answer can still be cancelled. -/
inductive SaveResult where
  | failed
  | committed (answered : Bool)

inductive Action where
  | post (times : Clocks) (tentativeId : Guid) (req : InboxRequest)
  | save (id : Guid) (result : SaveResult)

/-- The id in a 2xx answer. -/
def acknowledgedId : Reply → Option Guid
  | .badRequest => none
  | .unauthorized => none
  | .duplicate id => some id
  | .accepted id => some id

def State.answer (s : State) (reply : Reply) : State :=
  { s with acknowledged := (acknowledgedId reply).toList ++ s.acknowledged }

/-- What the handler does before it saves. -/
def State.receive (s : State) (tentativeId : Guid) (result : Outcome × ReservationStore) : State :=
  let s := { s with store := result.2, drawn := tentativeId :: s.drawn }
  match result.1 with
  | .raised _ => s
  | .replied reply => s.answer reply
  | .saving entity => { s with inFlight := entity :: s.inFlight }

def State.finish (s : State) (entity : Event) : SaveResult → Option State
  | .failed => some { s with inFlight := s.inFlight.filter fun e => e.id ≠ entity.id }
  | .committed answered =>
    (s.events.insertAll? [entity]).map fun events =>
      let s := { s with events := events, inFlight := s.inFlight.filter fun e => e.id ≠ entity.id }
      if answered then s.answer (.accepted entity.id) else s

/-- A Guid is never drawn twice. -/
def step (srv : Server) (s : State) : Action → Option State
  | .post times tentativeId req =>
    if tentativeId ∈ s.drawn then none
    else some (s.receive tentativeId (postInbox srv times tentativeId s.store req))
  | .save id result => (s.inFlight.find? fun e => e.id = id).bind fun entity => s.finish entity result

variable {srv : Server}

/-! ## What one step can do -/

inductive Stepped (srv : Server) (s : State) : Action → State → Prop
  | unanswered {times tentativeId req} (hnew : tentativeId ∉ s.drawn)
      (h : ¬ (isNullOrWhiteSpace (some req.source) = false ∧
        Accepts srv.platform srv.signatures times.validatedAt req.source req.http req.http.body)) :
      Stepped srv s (.post times tentativeId req) { s with drawn := tentativeId :: s.drawn }
  | duplicate {times tentativeId req} (id : Guid) (hnew : tentativeId ∉ s.drawn)
      (hsource : isNullOrWhiteSpace (some req.source) = false)
      (haccept : Accepts srv.platform srv.signatures times.validatedAt req.source req.http req.http.body)
      (hlive : liveReservation s.store times.reservedAt (inboxKey srv req) = some id) :
      Stepped srv s (.post times tentativeId req)
        { s with drawn := tentativeId :: s.drawn, acknowledged := id :: s.acknowledged }
  | saving {times tentativeId req} (hnew : tentativeId ∉ s.drawn)
      (hnone : liveReservation s.store times.reservedAt (inboxKey srv req) = none) :
      Stepped srv s (.post times tentativeId req)
        { s with
          store := Function.update s.store (inboxKey srv req)
            (some ⟨tentativeId, addSeconds times.reservedAt srv.idempotency.keyTtlSeconds⟩)
          drawn := tentativeId :: s.drawn
          inFlight := buildEvent srv times.receivedAt tentativeId req :: s.inFlight }
  | failed (entity : Event) (hmem : entity ∈ s.inFlight) :
      Stepped srv s (.save entity.id .failed)
        { s with inFlight := s.inFlight.filter fun e => e.id ≠ entity.id }
  | committed (entity : Event) (answered : Bool) (hmem : entity ∈ s.inFlight)
      (events : Table Event Guid Event.id) (hrows : events.rows = s.events.rows ++ [entity]) :
      Stepped srv s (.save entity.id (.committed answered))
        { s with
          events := events
          inFlight := s.inFlight.filter fun e => e.id ≠ entity.id
          acknowledged := if answered then entity.id :: s.acknowledged else s.acknowledged }

theorem step_post_cases {s s' : State} {times : Clocks} {tentativeId : Guid} {req : InboxRequest}
    (h : step srv s (.post times tentativeId req) = some s') :
    Stepped srv s (.post times tentativeId req) s' := by
  simp only [step] at h
  split at h
  · cases h
  · rename_i hnew
    cases h
    have hpost := postInbox_spec srv times tentativeId s.store req
    generalize postInbox srv times tentativeId s.store req = result at hpost
    cases hpost with
    | blank hblank =>
      refine .unanswered hnew ?_
      rintro ⟨hsource, -⟩
      rw [hsource] at hblank
      cases hblank
    | raised e _ hraise =>
      refine .unanswered hnew ?_
      rintro ⟨-, reason, hok⟩
      rw [hraise] at hok
      cases hok
    | refused _ hrefuse =>
      refine .unanswered hnew ?_
      rintro ⟨-, reason, hok⟩
      obtain ⟨reason', hrefuse⟩ := hrefuse
      rw [hrefuse] at hok
      cases hok
    | duplicate id hsource haccept hlive => exact .duplicate id hnew hsource haccept hlive
    | saving _ _ hnone => exact .saving hnew hnone

theorem step_save_cases {s s' : State} {id : Guid} {result : SaveResult}
    (h : step srv s (.save id result) = some s') : Stepped srv s (.save id result) s' := by
  simp only [step] at h
  obtain ⟨entity, hfind, hfinish⟩ := Option.bind_eq_some_iff.mp h
  have hmem := List.mem_of_find?_eq_some hfind
  obtain rfl : entity.id = id := by simpa using List.find?_some hfind
  cases result with
  | failed =>
    cases hfinish
    exact .failed entity hmem
  | committed answered =>
    obtain ⟨events, hevents, rfl⟩ := Option.map_eq_some_iff.mp hfinish
    have hrows := Table.insertAll?_eq_some_iff.mp hevents
    cases answered with
    | false => exact .committed entity false hmem events hrows
    | true => exact .committed entity true hmem events hrows

theorem step_cases {s s' : State} {a : Action} (h : step srv s a = some s') : Stepped srv s a s' := by
  cases a with
  | post times tentativeId req => exact step_post_cases h
  | save id result => exact step_save_cases h

/-! ## Where an id can be -/

def IsCommitted (s : State) (id : Guid) : Prop := ∃ e ∈ s.events.rows, e.id = id

def IsInFlight (s : State) (id : Guid) : Prop := ∃ e ∈ s.inFlight, e.id = id

/-- Every id that is somewhere was drawn, and no committed id is in flight. -/
structure Drawn (s : State) : Prop where
  reserved : ∀ key r, s.store key = some r → r.id ∈ s.drawn
  committed : ∀ id, IsCommitted s id → id ∈ s.drawn
  inFlight : ∀ id, IsInFlight s id → id ∈ s.drawn
  acknowledged : ∀ id ∈ s.acknowledged, id ∈ s.drawn
  exclusive : ∀ id, IsInFlight s id → ¬ IsCommitted s id

theorem mem_of_liveReservation {store : ReservationStore} {now : Time} {key : Text} {id : Guid}
    (h : liveReservation store now key = some id) : ∃ r, store key = some r ∧ r.id = id := by
  obtain ⟨r, hr, hid⟩ := Option.bind_eq_some_iff.mp h
  refine ⟨r, hr, ?_⟩
  split at hid
  · exact Option.some.inj hid
  · cases hid

theorem isInFlight_filter {s : State} {entity : Event} {id : Guid} :
    (∃ e ∈ s.inFlight.filter fun e => e.id ≠ entity.id, e.id = id) ↔
      IsInFlight s id ∧ id ≠ entity.id := by
  constructor
  · rintro ⟨e, he, rfl⟩
    have hmem := List.mem_filter.mp he
    exact ⟨⟨e, hmem.1, rfl⟩, by simpa using hmem.2⟩
  · rintro ⟨⟨e, he, rfl⟩, hne⟩
    exact ⟨e, List.mem_filter.mpr ⟨he, by simpa using hne⟩, rfl⟩

theorem isCommitted_append {s : State} {entity : Event} {events : Table Event Guid Event.id} {id : Guid}
    (hrows : events.rows = s.events.rows ++ [entity]) :
    (∃ e ∈ events.rows, e.id = id) ↔ IsCommitted s id ∨ entity.id = id := by
  rw [hrows]
  simp only [List.mem_append, List.mem_singleton, or_and_right, exists_or, exists_eq_left]
  exact Iff.rfl

theorem drawn_start : Drawn {} where
  reserved _ _ h := by cases h
  committed _ h := by
    obtain ⟨e, he, -⟩ := h
    cases he
  inFlight _ h := by
    obtain ⟨e, he, -⟩ := h
    cases he
  acknowledged _ h := by cases h
  exclusive _ h := by
    obtain ⟨e, he, -⟩ := h
    cases he

theorem Drawn.draw {s : State} (hs : Drawn s) (id : Guid) : Drawn { s with drawn := id :: s.drawn } where
  reserved key r hr := List.mem_cons_of_mem _ (hs.reserved key r hr)
  committed id' hid := List.mem_cons_of_mem _ (hs.committed id' hid)
  inFlight id' hid := List.mem_cons_of_mem _ (hs.inFlight id' hid)
  acknowledged id' hid := List.mem_cons_of_mem _ (hs.acknowledged id' hid)
  exclusive := hs.exclusive

theorem Drawn.answer {s : State} (hs : Drawn s) {id : Guid} (hid : id ∈ s.drawn) :
    Drawn { s with acknowledged := id :: s.acknowledged } where
  reserved := hs.reserved
  committed := hs.committed
  inFlight := hs.inFlight
  acknowledged id' hid' := by
    rcases List.mem_cons.mp hid' with rfl | hid'
    · exact hid
    · exact hs.acknowledged id' hid'
  exclusive := hs.exclusive

theorem Drawn.reserve {s : State} (hs : Drawn s) (key : Text) {r : Reservation} (hr : r.id ∈ s.drawn) :
    Drawn { s with store := Function.update s.store key (some r) } where
  reserved key' r' hr' := by
    dsimp only at hr'
    by_cases hkey : key' = key
    · rw [hkey, Function.update_self] at hr'
      cases hr'
      exact hr
    · rw [Function.update_of_ne hkey] at hr'
      exact hs.reserved key' r' hr'
  committed := hs.committed
  inFlight := hs.inFlight
  acknowledged := hs.acknowledged
  exclusive := hs.exclusive

theorem Drawn.begin {s : State} (hs : Drawn s) (entity : Event) (hentity : entity.id ∈ s.drawn)
    (hnew : ¬ IsCommitted s entity.id) : Drawn { s with inFlight := entity :: s.inFlight } where
  reserved := hs.reserved
  committed := hs.committed
  inFlight id hid := by
    obtain ⟨e, he, rfl⟩ := hid
    rcases List.mem_cons.mp he with rfl | he
    · exact hentity
    · exact hs.inFlight _ ⟨e, he, rfl⟩
  acknowledged := hs.acknowledged
  exclusive id hid := by
    obtain ⟨e, he, rfl⟩ := hid
    rcases List.mem_cons.mp he with rfl | he
    · exact hnew
    · exact hs.exclusive _ ⟨e, he, rfl⟩

theorem Drawn.finish {s : State} (hs : Drawn s) (entity : Event) :
    Drawn { s with inFlight := s.inFlight.filter fun e => e.id ≠ entity.id } where
  reserved := hs.reserved
  committed := hs.committed
  inFlight id hid := hs.inFlight id (isInFlight_filter.mp hid).1
  acknowledged := hs.acknowledged
  exclusive id hid := hs.exclusive id (isInFlight_filter.mp hid).1

theorem Drawn.commit {s : State} (hs : Drawn s) {entity : Event} (hentity : entity.id ∈ s.drawn)
    (hended : ¬ IsInFlight s entity.id) {events : Table Event Guid Event.id}
    (hrows : events.rows = s.events.rows ++ [entity]) : Drawn { s with events := events } where
  reserved := hs.reserved
  committed id hid := by
    rcases (isCommitted_append hrows).mp hid with hid | rfl
    · exact hs.committed id hid
    · exact hentity
  inFlight := hs.inFlight
  acknowledged := hs.acknowledged
  exclusive id hid hcommitted := by
    rcases (isCommitted_append hrows).mp hcommitted with hcommitted | rfl
    · exact hs.exclusive id hid hcommitted
    · exact hended hid

theorem drawn_step {s s' : State} {a : Action} (hs : Drawn s) (h : step srv s a = some s') :
    Drawn s' := by
  cases step_cases h with
  | unanswered => exact hs.draw _
  | duplicate id hnew hsource haccept hlive =>
    obtain ⟨r, hr, rfl⟩ := mem_of_liveReservation hlive
    exact (hs.draw _).answer (List.mem_cons_of_mem _ (hs.reserved _ r hr))
  | @saving times tentativeId req hnew hnone =>
    have hdrawn := (hs.draw tentativeId).begin (buildEvent srv times.receivedAt tentativeId req)
      List.mem_cons_self fun hcommitted => hnew (hs.committed _ hcommitted)
    exact hdrawn.reserve (inboxKey srv req) List.mem_cons_self
  | failed entity hmem => exact hs.finish entity
  | committed entity answered hmem events hrows =>
    have hentity := hs.inFlight entity.id ⟨entity, hmem, rfl⟩
    have hdrawn := (hs.finish entity).commit hentity (fun h => (isInFlight_filter.mp h).2 rfl) hrows
    cases answered with
    | false => exact hdrawn
    | true => exact hdrawn.answer hentity

/-! ## What is answered and what is kept -/

/-- The row of the id is committed, or its save has not ended. -/
def Accounted (s : State) (id : Guid) : Prop := IsCommitted s id ∨ IsInFlight s id

/-- When no request is in flight, every answered id is the id of a committed row. -/
def NothingLost (s : State) : Prop :=
  s.inFlight = [] → ∀ id ∈ s.acknowledged, IsCommitted s id

/-- A duplicate meets a reservation whose row is accounted for, and no save fails whose id was
answered. -/
def Keeps (srv : Server) (s : State) : Action → Prop
  | .post times _ req =>
    isNullOrWhiteSpace (some req.source) = false →
      Accepts srv.platform srv.signatures times.validatedAt req.source req.http req.http.body →
      ∀ id, liveReservation s.store times.reservedAt (inboxKey srv req) = some id → Accounted s id
  | .save id .failed => id ∉ s.acknowledged
  | .save _ (.committed _) => True

/-- What the steps of `Keeps` preserve. -/
structure Inv (s : State) : Prop where
  drawn : Drawn s
  accounted : ∀ id ∈ s.acknowledged, Accounted s id

/-- An id was answered and its row can no longer be committed. -/
def Lost (s : State) : Prop := ∃ id ∈ s.acknowledged, id ∈ s.drawn ∧ ¬ Accounted s id

theorem accounted_append {s : State} {entity : Event} {events : Table Event Guid Event.id} {id : Guid}
    (hrows : events.rows = s.events.rows ++ [entity]) (hmem : entity ∈ s.inFlight) :
    ((∃ e ∈ events.rows, e.id = id) ∨ ∃ e ∈ s.inFlight.filter fun e => e.id ≠ entity.id, e.id = id) ↔
      Accounted s id := by
  rw [isCommitted_append hrows, isInFlight_filter]
  constructor
  · rintro ((hid | rfl) | ⟨hid, -⟩)
    · exact Or.inl hid
    · exact Or.inr ⟨entity, hmem, rfl⟩
    · exact Or.inr hid
  · rintro (hid | hid)
    · exact Or.inl (Or.inl hid)
    · by_cases he : entity.id = id
      · exact Or.inl (Or.inr he)
      · exact Or.inr ⟨hid, fun h => he h.symm⟩

theorem accounted_cons {s : State} {entity : Event} {id : Guid} :
    (IsCommitted s id ∨ ∃ e ∈ entity :: s.inFlight, e.id = id) ↔ Accounted s id ∨ entity.id = id := by
  constructor
  · rintro (hid | ⟨e, he, rfl⟩)
    · exact Or.inl (Or.inl hid)
    · rcases List.mem_cons.mp he with rfl | he
      · exact Or.inr rfl
      · exact Or.inl (Or.inr ⟨e, he, rfl⟩)
  · rintro ((hid | ⟨e, he, rfl⟩) | rfl)
    · exact Or.inl hid
    · exact Or.inr ⟨e, List.mem_cons_of_mem _ he, rfl⟩
    · exact Or.inr ⟨entity, List.mem_cons_self, rfl⟩

/-- The ids that are answered after a commit. -/
theorem mem_acknowledged_of_committed {answered : Bool} {entity : Event} {id : Guid} {ids : List Guid}
    (h : id ∈ if answered then entity.id :: ids else ids) : id = entity.id ∨ id ∈ ids := by
  split at h
  · exact List.mem_cons.mp h
  · exact Or.inr h

theorem inv_step {s s' : State} {a : Action} (hs : Inv s) (hkeeps : Keeps srv s a)
    (h : step srv s a = some s') : Inv s' := by
  refine ⟨drawn_step hs.drawn h, ?_⟩
  intro id hid
  cases step_cases h with
  | unanswered => exact hs.accounted id hid
  | duplicate id' _ hsource haccept hlive =>
    rcases List.mem_cons.mp hid with rfl | hid
    · exact hkeeps hsource haccept id hlive
    · exact hs.accounted id hid
  | saving => exact accounted_cons.mpr (Or.inl (hs.accounted id hid))
  | failed entity hmem =>
    have hne : id ≠ entity.id := by
      rintro rfl
      exact hkeeps hid
    rcases hs.accounted id hid with hcommitted | hflight
    · exact Or.inl hcommitted
    · exact Or.inr (isInFlight_filter.mpr ⟨hflight, hne⟩)
  | committed entity answered hmem events hrows =>
    apply (accounted_append hrows hmem).mpr
    rcases mem_acknowledged_of_committed hid with rfl | hid
    · exact Or.inr ⟨entity, hmem, rfl⟩
    · exact hs.accounted id hid

theorem lost_of_not_keeps {s s' : State} {a : Action} (hs : Inv s) (hkeeps : ¬ Keeps srv s a)
    (h : step srv s a = some s') : Lost s' := by
  cases step_cases h with
  | unanswered _ hrefused =>
    exact absurd (fun hsource haccept => absurd ⟨hsource, haccept⟩ hrefused) hkeeps
  | duplicate id hnew hsource haccept hlive =>
    refine ⟨id, List.mem_cons_self, ?_, ?_⟩
    · obtain ⟨r, hr, rfl⟩ := mem_of_liveReservation hlive
      exact List.mem_cons_of_mem _ (hs.drawn.reserved _ r hr)
    · intro haccounted
      apply hkeeps
      intro _ _ id' hlive'
      rw [hlive] at hlive'
      cases hlive'
      exact haccounted
  | saving _ hnone =>
    refine absurd ?_ hkeeps
    intro _ _ id hlive
    rw [hnone] at hlive
    cases hlive
  | failed entity hmem =>
    have hanswered : entity.id ∈ s.acknowledged := not_not.mp hkeeps
    refine ⟨entity.id, hanswered, hs.drawn.acknowledged _ hanswered, ?_⟩
    rintro (hcommitted | hflight)
    · exact hs.drawn.exclusive _ ⟨entity, hmem, rfl⟩ hcommitted
    · exact (isInFlight_filter.mp hflight).2 rfl
  | committed => exact absurd trivial hkeeps

theorem lost_step {s s' : State} {a : Action} (hs : Lost s) (h : step srv s a = some s') :
    Lost s' := by
  obtain ⟨id, hanswered, hdrawn, hlost⟩ := hs
  refine ⟨id, ?_⟩
  cases step_cases h with
  | unanswered => exact ⟨hanswered, List.mem_cons_of_mem _ hdrawn, hlost⟩
  | duplicate => exact ⟨List.mem_cons_of_mem _ hanswered, List.mem_cons_of_mem _ hdrawn, hlost⟩
  | saving hnew =>
    refine ⟨hanswered, List.mem_cons_of_mem _ hdrawn, fun haccounted => ?_⟩
    rcases (accounted_cons (s := s)).mp haccounted with hacc | rfl
    · exact hlost hacc
    · exact hnew hdrawn
  | failed entity =>
    refine ⟨hanswered, hdrawn, ?_⟩
    rintro (hcommitted | hflight)
    · exact hlost (Or.inl hcommitted)
    · exact hlost (Or.inr (isInFlight_filter.mp hflight).1)
  | committed entity answered hmem events hrows =>
    refine ⟨?_, hdrawn, fun haccounted => hlost ((accounted_append hrows hmem).mp haccounted)⟩
    dsimp only
    split
    · exact List.mem_cons_of_mem _ hanswered
    · exact hanswered

theorem inv_start : Inv {} where
  drawn := drawn_start
  accounted _ h := by cases h

theorem nothingLost_of_inv {s : State} (hs : Inv s) : NothingLost s := by
  intro hquiet id hid
  rcases hs.accounted id hid with hcommitted | ⟨e, he, -⟩
  · exact hcommitted
  · rw [hquiet] at he
    cases he

theorem not_lost_of_nothingLost {s : State} (hquiet : s.inFlight = []) (hs : NothingLost s) :
    ¬ Lost s := by
  rintro ⟨id, hanswered, -, hlost⟩
  exact hlost (Or.inl (hs hquiet id hanswered))

/-- **Acknowledged webhooks.** In a run whose steps meet the condition no answered event is
lost, and in a run that ends with no request in flight the condition is exact. -/
theorem nothingLost_run (srv : Server) (actions : List Action) {s' : State}
    (hrun : Transition.run (step srv) {} actions = some s') :
    (Transition.Along (step srv) (Keeps srv) {} actions →
        Transition.Always (step srv) NothingLost {} actions) ∧
      (s'.inFlight = [] → Transition.Always (step srv) NothingLost {} actions →
        Transition.Along (step srv) (Keeps srv) {} actions) := by
  constructor
  · intro hkeeps
    exact hkeeps.always (fun s a s₁ hs hgood h => inv_step hs hgood h)
      (fun s hs => nothingLost_of_inv hs) inv_start
  · intro hquiet halways
    have hexact := Transition.along_iff_not_bad
      (fun s a s₁ hs hgood h => inv_step hs hgood h)
      (fun s a s₁ hs hgood h => lost_of_not_keeps hs hgood h)
      (fun s a s₁ hs h => lost_step hs h)
      (fun s hs => by
        rintro ⟨id, hanswered, -, hlost⟩
        exact hlost (hs.accounted id hanswered))
      inv_start hrun
    exact hexact.mpr (not_lost_of_nothingLost hquiet (halways.last hrun))

/-- A request is answered, and its retry is answered as a duplicate. -/
def retriedActions : List Action :=
  [.post ⟨0, 0, 0⟩ 1 unsignedRequest, .save 1 (.committed true), .post ⟨1, 1, 1⟩ 2 unsignedRequest]

theorem retriedRun_isSome : (Transition.run (step openServer) {} retriedActions).isSome := by
  decide

theorem nothingLost_run_retried :
    Transition.Always (step openServer) NothingLost {} retriedActions ↔
      Transition.Along (step openServer) (Keeps openServer) {} retriedActions := by
  have hrun := nothingLost_run openServer retriedActions (Option.some_get retriedRun_isSome).symm
  exact ⟨hrun.2 rfl, hrun.1⟩

/-- The save of a request fails, and its retry is answered as a duplicate. -/
def lostActions : List Action :=
  [.post ⟨0, 0, 0⟩ 1 unsignedRequest, .save 1 .failed, .post ⟨1, 1, 1⟩ 2 unsignedRequest]

theorem lostRun_isSome : (Transition.run (step openServer) {} lostActions).isSome := by
  decide

/-- The retry is told the id of an event that is nowhere. -/
theorem acknowledged_lost :
    ∃ s', Transition.run (step openServer) {} lostActions = some s' ∧ s'.inFlight = [] ∧
      1 ∈ s'.acknowledged ∧ ¬ IsCommitted s' 1 := by
  have hrun := (Option.some_get lostRun_isSome).symm
  generalize hs : (Transition.run (step openServer) {} lostActions).get lostRun_isSome = s' at hrun
  have hquiet : s'.inFlight = [] := by
    rw [← hs]
    rfl
  have hanswered : s'.acknowledged = [1] := by
    rw [← hs]
    rfl
  have hrows : s'.events.rows = [] := by
    rw [← hs]
    rfl
  refine ⟨s', hrun, hquiet, ?_, ?_⟩
  · rw [hanswered]
    exact List.mem_cons_self
  · rintro ⟨e, he, -⟩
    rw [hrows] at he
    cases he

end WebhookInbox.Api.Ingestion
