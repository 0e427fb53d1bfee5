import WebhookInbox.Api.Received
import WebhookInbox.Library.Simulation
import WebhookInbox.Worker.Origin

/-!
# The deployed service

The API and any number of worker processes run on one database: the events table of the inbox
is the one the workers query and update. A `System` carries the proof that it is. Its steps are
the steps of the inbox, the steps of the workers and the writes of someone else to the endpoints;
only the inbox inserts events.

`workers_run` says that the workers of a deployed service take the steps of a cluster, so what
holds of every run of a cluster holds in the service.
-/

namespace WebhookInbox.Deployment

open Api Worker

structure System (ι : Type) where
  inbox : Ingestion.State
  workers : Workers ι
  /-- One events table. -/
  shared : inbox.events = workers.shared.db.events

inductive SystemAction (ι : Type) where
  | inbox (a : Ingestion.Action)
  | move (i : ι) (m : Move)
  | restart (i : ι)
  | saveEndpoint (ep : Endpoint)
  | writeStatus (eventId : Guid) (status : EventStatus)

/-- The step the workers take for an action of the service that is theirs. -/
def SystemAction.cluster? {ι : Type} : SystemAction ι → Option (ClusterAction ι)
  | .inbox _ => none
  | .move i m => some (.move i m)
  | .restart i => some (.restart i)
  | .saveEndpoint ep => some (.saveEndpoint ep)
  | .writeStatus eventId status => some (.writeStatus eventId status)

variable {ι : Type} [DecidableEq ι]

namespace System

/-- The service before its first request. -/
def start (ι : Type) (endpoints : Table Endpoint Guid Endpoint.id) : System ι where
  inbox := {}
  workers := Workers.start ι { events := ∅, endpoints, attempts := ∅ }
  shared := rfl

/-- The workers with other events in the database. -/
def withEvents (c : Workers ι) (events : Table Event Guid Event.id) : Workers ι :=
  { c with shared := { c.shared with db := { c.shared.db with events } } }

/-- The inbox has taken a step. -/
def withInbox (s : System ι) (inbox : Ingestion.State) : System ι where
  inbox := inbox
  workers := withEvents s.workers inbox.events
  shared := rfl

/-- The workers have taken a step. -/
def withWorkers (s : System ι) (workers : Workers ι) : System ι where
  inbox := { s.inbox with events := workers.shared.db.events }
  workers := workers
  shared := rfl

def step (srv : Server) (w : World) (opts : DeliveryOptions) (s : System ι) (a : SystemAction ι) :
    Option (System ι) :=
  match a with
  | .inbox b => (Ingestion.step srv s.inbox b).map s.withInbox
  | a => a.cluster?.bind fun b => (clusterStep w opts s.workers b).map s.withWorkers

end System

section Step

variable {srv : Server} {w : World} {opts : DeliveryOptions} {s s' : System ι}

/-- **The two kinds of steps.** -/
theorem step_cases {a : SystemAction ι} (h : s.step srv w opts a = some s') :
    (∃ b inbox, a = .inbox b ∧ Ingestion.step srv s.inbox b = some inbox ∧ s' = s.withInbox inbox) ∨
      ∃ b workers, a.cluster? = some b ∧ clusterStep w opts s.workers b = some workers ∧
        s' = s.withWorkers workers := by
  have hworkers : ∀ b, a.cluster? = some b →
      (clusterStep w opts s.workers b).map s.withWorkers = some s' →
      ∃ b workers, a.cluster? = some b ∧ clusterStep w opts s.workers b = some workers ∧
        s' = s.withWorkers workers := by
    intro b hb hmap
    obtain ⟨workers, hstep, rfl⟩ := Option.map_eq_some_iff.mp hmap
    exact ⟨b, workers, hb, hstep, rfl⟩
  cases a with
  | inbox b =>
    obtain ⟨inbox, hinbox, rfl⟩ := Option.map_eq_some_iff.mp h
    exact Or.inl ⟨b, inbox, rfl, hinbox, rfl⟩
  | _ => exact Or.inr (hworkers _ rfl h)

omit [DecidableEq ι] in
/-- A worker's action inserts no event. -/
theorem cluster?_ne_insertEvent (a : SystemAction ι) (ev : Event) :
    a.cluster? ≠ some (.insertEvent ev) := by
  cases a <;> exact fun h => by cases h

omit [DecidableEq ι] in
/-- A step of the inbox leaves the workers as they are, or inserts one event for them. -/
theorem workers_withInbox {b : Ingestion.Action} {inbox : Ingestion.State}
    (h : Ingestion.step srv s.inbox b = some inbox) :
    (s.withInbox inbox).workers = s.workers ∨
      ∃ entity ∈ s.inbox.inFlight, ∃ answered, b = .save entity.id (.committed answered) ∧
        (s.withInbox inbox).workers.shared.db.events.rows = s.workers.shared.db.events.rows ++ [entity] := by
  have hsame : ∀ inbox' : Ingestion.State, inbox'.events = s.inbox.events →
      (s.withInbox inbox').workers = s.workers := by
    intro inbox' hevents
    show System.withEvents s.workers inbox'.events = s.workers
    rw [hevents, s.shared]
    rfl
  cases Ingestion.step_cases h with
  | unanswered => exact Or.inl (hsame _ rfl)
  | duplicate => exact Or.inl (hsame _ rfl)
  | saving => exact Or.inl (hsame _ rfl)
  | failed => exact Or.inl (hsame _ rfl)
  | committed entity answered hmem events hrows =>
    refine Or.inr ⟨entity, hmem, answered, rfl, ?_⟩
    rw [← s.shared]
    exact hrows

/-- **Refinement.** A step of the service is at most one step of its workers. -/
theorem workers_step {a : SystemAction ι} (h : s.step srv w opts a = some s') :
    ∃ bs, Transition.run (clusterStep w opts) s.workers bs = some s'.workers := by
  rcases step_cases h with ⟨b, inbox, rfl, hinbox, rfl⟩ | ⟨b, workers, -, hworkers, rfl⟩
  · rcases workers_withInbox hinbox with hsame | ⟨entity, -, -, -, hrows⟩
    · exact ⟨[], by rw [hsame]; rfl⟩
    · refine ⟨[.insertEvent entity], Transition.run_cons.mpr ⟨_, ?_, rfl⟩⟩
      have hinsert := Table.insertAll?_eq_some_iff.mpr hrows
      rw [clusterStep, hinsert]
      rfl
  · exact ⟨[b], Transition.run_cons.mpr ⟨workers, hworkers, rfl⟩⟩

end Step

/-- The workers of a deployed service run as a cluster. -/
theorem workers_run {srv : Server} {w : World} {opts : DeliveryOptions} {s s' : System ι}
    {actions : List (SystemAction ι)}
    (hrun : Transition.run (System.step srv w opts) s actions = some s') :
    ∃ bs, Transition.run (clusterStep w opts) s.workers bs = some s'.workers :=
  Transition.exists_run System.workers (fun _ _ _ h => workers_step h) hrun

/-! ## The requests of a run -/

/-- The Guid that is drawn for a request. -/
def SystemAction.tentativeId? {ι : Type} : SystemAction ι → Option Guid
  | .inbox (.post _ tentativeId _) => some tentativeId
  | _ => none

section Drawn

variable {srv : Server} {w : World} {opts : DeliveryOptions} {s s' : System ι}

theorem drawn_step {a : SystemAction ι} (h : s.step srv w opts a = some s') :
    s'.inbox.drawn = a.tentativeId?.toList ++ s.inbox.drawn ∧
      ∀ id ∈ a.tentativeId?, id ∉ s.inbox.drawn := by
  rcases step_cases h with ⟨b, inbox, rfl, hinbox, rfl⟩ | ⟨b, workers, hb, -, rfl⟩
  · cases b with
    | post times tentativeId req =>
      obtain ⟨hnew, hdrawn, -⟩ := Ingestion.posted_of_step hinbox
      refine ⟨hdrawn, fun id hid => ?_⟩
      cases hid
      exact hnew
    | save id result =>
      obtain ⟨hdrawn, -⟩ := Ingestion.saved_of_step hinbox
      exact ⟨hdrawn, fun _ hid => by cases hid⟩
  · have hnone : a.tentativeId? = none := by
      cases a with
      | inbox => cases hb
      | _ => rfl
    rw [hnone]
    exact ⟨rfl, fun _ hid => by cases hid⟩

/-- No two requests of a run draw the same Guid. -/
theorem tentativeIds_nodup {actions : List (SystemAction ι)}
    (hrun : Transition.run (System.step srv w opts) s actions = some s') :
    (actions.filterMap SystemAction.tentativeId?).Nodup ∧
      ∀ id ∈ actions.filterMap SystemAction.tentativeId?, id ∉ s.inbox.drawn := by
  induction actions generalizing s with
  | nil => exact ⟨List.nodup_nil, fun _ hid => by cases hid⟩
  | cons a actions ih =>
    obtain ⟨s₁, hstep, hrest⟩ := Transition.run_cons.mp hrun
    obtain ⟨hdrawn, hnew⟩ := drawn_step hstep
    obtain ⟨hnodup, hlater⟩ := ih hrest
    rw [List.filterMap_cons]
    cases hid : a.tentativeId? with
    | none =>
      rw [hid] at hdrawn
      refine ⟨hnodup, fun id hmem => ?_⟩
      have hnot := hlater id hmem
      rw [hdrawn] at hnot
      exact hnot
    | some id =>
      rw [hid] at hdrawn hnew
      refine ⟨List.nodup_cons.mpr ⟨fun hmem => ?_, hnodup⟩, fun id' hmem => ?_⟩
      · apply hlater id hmem
        rw [hdrawn]
        exact List.mem_cons_self
      · rcases List.mem_cons.mp hmem with rfl | hmem
        · exact hnew id' rfl
        · have hnot := hlater id' hmem
          rw [hdrawn] at hnot
          exact fun hmem' => hnot (List.mem_cons_of_mem id hmem')

end Drawn

end WebhookInbox.Deployment
