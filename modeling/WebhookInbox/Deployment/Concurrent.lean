import WebhookInbox.Api.Linearization
import WebhookInbox.Deployment.Provenance

/-!
# The service over Redis

The handlers give their Redis commands one by one, while the workers deliver what is stored. Both run
on one database. Such a service is followed by `System`, whose inbox reserves a key in one step: it
serves the same requests in the same order, at the same times of the server and with the same answers,
and its workers are in the same state (`concurrent_refines`). So what holds of every run of a `System`
holds of this service, as long as every plain `SET` finds its key free.
-/

namespace WebhookInbox.Deployment

open Api Worker

/-- Handlers that give Redis commands, and workers. -/
structure Concurrent (κ ι : Type) where
  handlers : Handlers κ
  workers : Workers ι
  /-- One events table. -/
  shared : handlers.shared.events = workers.shared.db.events

inductive ConcurrentAction (κ ι : Type) where
  | handlers (a : Handlers.Action κ)
  /-- An action of the service that is not one of its inbox. -/
  | workers (a : SystemAction ι)

variable {κ ι : Type}

/-- The handlers with other events in the database. -/
def handlersWith (c : Handlers κ) (events : Table Event Guid Event.id) : Handlers κ :=
  { c with shared := { c.shared with events } }

theorem events_handlersWith (c : Handlers κ) (events : Table Event Guid Event.id) :
    (handlersWith c events).shared.events = events := rfl

theorem events_withEvents (c : Workers ι) (events : Table Event Guid Event.id) :
    (System.withEvents c events).shared.db.events = events := rfl

theorem withEvents_self (c : Workers ι) : System.withEvents c c.shared.db.events = c := rfl

theorem events_workersStart (endpoints : Table Endpoint Guid Endpoint.id) (now : Time) :
    (Handlers.start κ now).shared.events = (System.start ι endpoints).workers.shared.db.events := rfl

namespace Concurrent

def start (κ ι : Type) (endpoints : Table Endpoint Guid Endpoint.id) (now : Time) : Concurrent κ ι where
  handlers := .start κ now
  workers := (System.start ι endpoints).workers
  shared := events_workersStart endpoints now

def withHandlers (s : Concurrent κ ι) (handlers : Handlers κ) : Concurrent κ ι where
  handlers := handlers
  workers := System.withEvents s.workers handlers.shared.events
  shared := (events_withEvents s.workers handlers.shared.events).symm

def withWorkers (s : Concurrent κ ι) (workers : Workers ι) : Concurrent κ ι where
  handlers := handlersWith s.handlers workers.shared.db.events
  workers := workers
  shared := events_handlersWith s.handlers workers.shared.db.events

variable [DecidableEq κ] [DecidableEq ι]

def step (srv : Server) (w : World) (opts : DeliveryOptions) (s : Concurrent κ ι) :
    ConcurrentAction κ ι → Option (Concurrent κ ι)
  | .handlers a => (Handlers.step srv s.handlers a).map s.withHandlers
  | .workers a => a.cluster?.bind fun b => (clusterStep w opts s.workers b).map s.withWorkers

/-- A plain `SET` finds its key free, and a Guid that is drawn can be read back from its text. -/
def Resolves (srv : Server) (s : Concurrent κ ι) : ConcurrentAction κ ι → Prop
  | .handlers a => Handlers.FindsKeyFree srv s.handlers a ∧ Handlers.ReadsBack srv a
  | .workers _ => True

end Concurrent

/-- The requests that an action of the service serves. -/
def systemServed (srv : Server) (s : System ι) : SystemAction ι → List Served
  | .inbox a => Ingestion.served srv s.inbox a
  | _ => []

/-- A step of the service, with its record. -/
abbrev servedStep [DecidableEq ι] (srv : Server) (w : World) (opts : DeliveryOptions) :=
  Transition.recording (System.step (ι := ι) srv w opts) (systemServed srv)

section Steps

variable [DecidableEq ι] {srv : Server} {w : World} {opts : DeliveryOptions} {t : System ι}

omit [DecidableEq ι] in
theorem withInbox_self (t : System ι) : t.withInbox t.inbox = t := by
  obtain ⟨inbox, workers, hshared⟩ := t
  simp only [System.withInbox, hshared, withEvents_self]

/-- The steps of the inbox are steps of the service. -/
theorem run_of_inbox {served : List Served} {actions : List Ingestion.Action}
    {x : Ingestion.State × List Served}
    (hrun : Transition.run (Handlers.inboxStep srv) (t.inbox, served) actions = some x) :
    Transition.run (servedStep srv w opts) (t, served) (actions.map .inbox) =
      some (t.withInbox x.1, x.2) := by
  induction actions generalizing t served with
  | nil =>
    cases hrun
    rw [withInbox_self]
    rfl
  | cons a actions ih =>
    obtain ⟨y, hy, hrest⟩ := Transition.run_cons.mp hrun
    obtain ⟨hstep, hserved⟩ := Transition.recording_eq_some_iff.mp hy
    refine Transition.run_cons.mpr ⟨(t.withInbox y.1, y.2), ?_, ih (t := t.withInbox y.1) hrest⟩
    rw [Transition.recording_eq_some_iff]
    refine ⟨?_, hserved⟩
    rw [System.step, hstep]
    rfl

theorem step_of_cluster {a : SystemAction ι} {b : ClusterAction ι} (hb : a.cluster? = some b)
    {workers : Workers ι} (hstep : clusterStep w opts t.workers b = some workers) (served : List Served) :
    servedStep srv w opts (t, served) a = some (t.withWorkers workers, served) := by
  rw [Transition.recording_eq_some_iff]
  cases a with
  | inbox => cases hb
  | _ =>
    cases hb
    refine ⟨?_, (List.append_nil _).symm⟩
    simp only [System.step, SystemAction.cluster?, Option.bind_some, hstep, Option.map_some]

end Steps

/-! ## The service that follows -/

/-- The service in which every request reserves its key in one step has come as far. -/
structure Matches (srv : Server) (s : Concurrent κ ι) (t : System ι × List Served) : Prop where
  represents : Handlers.Represents srv s.handlers (t.1.inbox, t.2)
  workers : t.1.workers = s.workers

section Follow

variable [DecidableEq κ] [DecidableEq ι] {srv : Server} {w : World} {opts : DeliveryOptions}
variable {s s' : Concurrent κ ι} {t : System ι × List Served}

omit [DecidableEq κ] [DecidableEq ι] in
theorem matches_start (srv : Server) (endpoints : Table Endpoint Guid Endpoint.id) (now : Time) :
    Matches srv (Concurrent.start κ ι endpoints now) (System.start ι endpoints, []) :=
  ⟨Handlers.represents_start srv now, rfl⟩

/-- **A step of the handlers** is some steps of the inbox. -/
theorem Matches.handlers (h : Matches srv s t) {a : Handlers.Action κ} {handlers : Handlers κ}
    (hgood : Handlers.FindsKeyFree srv s.handlers a) (hreads : Handlers.ReadsBack srv a)
    (hstep : Handlers.step srv s.handlers a = some handlers) :
    ∃ actions t', Transition.run (servedStep srv w opts) t actions = some t' ∧
      Matches srv (s.withHandlers handlers) t' := by
  obtain ⟨actions, x, hrun, hx⟩ := Handlers.represents_step h.represents hgood hreads hstep
  refine ⟨actions.map .inbox, (t.1.withInbox x.1, x.2), run_of_inbox hrun, hx, ?_⟩
  show System.withEvents t.1.workers x.1.events = System.withEvents s.workers handlers.shared.events
  rw [h.workers, hx.events]

omit [DecidableEq κ] in
/-- **A step of the workers** is the same step. -/
theorem Matches.withWorkers (h : Matches srv s t) {a : SystemAction ι} {b : ClusterAction ι}
    (hb : a.cluster? = some b) {workers : Workers ι} (hstep : clusterStep w opts s.workers b = some workers) :
    ∃ actions t', Transition.run (servedStep srv w opts) t actions = some t' ∧
      Matches srv (s.withWorkers workers) t' := by
  rw [← h.workers] at hstep
  refine ⟨[a], (t.1.withWorkers workers, t.2),
    Transition.run_cons.mpr ⟨_, step_of_cluster hb hstep t.2, rfl⟩, ?_, rfl⟩
  exact { h.represents with events := rfl }

theorem matches_step {a : ConcurrentAction κ ι} (h : Matches srv s t) (hgood : s.Resolves srv a)
    (hstep : s.step srv w opts a = some s') :
    ∃ actions t', Transition.run (servedStep srv w opts) t actions = some t' ∧ Matches srv s' t' := by
  cases a with
  | handlers a =>
    obtain ⟨handlers, hhandlers, rfl⟩ := Option.map_eq_some_iff.mp hstep
    exact h.handlers hgood.1 hgood.2 hhandlers
  | workers a =>
    obtain ⟨b, hb, hmap⟩ := Option.bind_eq_some_iff.mp hstep
    obtain ⟨workers, hworkers, rfl⟩ := Option.map_eq_some_iff.mp hmap
    exact h.withWorkers hb hworkers

end Follow

/-- A request that the handlers have served, and that the API lets through, has the Guid of the event
and its payload. -/
def DeliversServed (srv : Server) (served : List Served) (p : Post) : Prop :=
  ∃ y ∈ served, y.tentativeId = p.eventId ∧ y.req.http.body = p.payload ∧
    ∃ times, Ingestion.AcceptsPost srv times y.req

/-- What a worker has tried to deliver was accepted and served. -/
theorem deliversServed_of_run [DecidableEq ι] {srv : Server} {w : World} {opts : DeliveryOptions}
    {endpoints : Table Endpoint Guid Endpoint.id} {actions : List (SystemAction ι)}
    {t : System ι × List Served}
    (hrun : Transition.run (servedStep srv w opts) (System.start ι endpoints, []) actions = some t) :
    ∀ p ∈ t.1.workers.shared.tries, DeliversServed srv t.2 p := by
  intro p hp
  obtain ⟨times, req, hmem, haccept, hpayload⟩ :=
    ((traced_run (Transition.run_of_recording hrun)).sentFor p hp).request
  obtain ⟨s, hsub⟩ := Transition.exists_out_subset hrun hmem
  exact ⟨_, hsub (List.mem_singleton_self _), rfl, hpayload.symm, times, haccept⟩

/-- **Refinement.** A service whose handlers give Redis commands at once, in any interleaving with its
workers, does what a service does in which every request reserves its key in one step: the same requests
at the same times with the same answers, the same rows, the same deliveries. -/
theorem concurrent_refines [DecidableEq κ] [DecidableEq ι] (srv : Server) (w : World)
    (opts : DeliveryOptions) (endpoints : Table Endpoint Guid Endpoint.id) (now : Time)
    (actions : List (ConcurrentAction κ ι)) {s' : Concurrent κ ι}
    (hrun : Transition.run (Concurrent.step srv w opts) (Concurrent.start κ ι endpoints now) actions =
      some s')
    (hgood : Transition.Along (Concurrent.step srv w opts) (Concurrent.Resolves srv)
      (Concurrent.start κ ι endpoints now) actions) :
    (∃ systemActions t, Transition.run (servedStep srv w opts) (System.start ι endpoints, [])
        systemActions = some (t, s'.handlers.shared.served) ∧ t.workers = s'.workers ∧
          t.inbox.inFlight = s'.handlers.shared.inFlight ∧
          t.inbox.acknowledged = s'.handlers.shared.acknowledged) ∧
      ∀ p ∈ s'.workers.shared.tries, DeliversServed srv s'.handlers.shared.served p := by
  obtain ⟨systemActions, t, ht, hmatches⟩ := hgood.invariant
    (I := fun s : Concurrent κ ι => ∃ systemActions t,
      Transition.run (servedStep srv w opts) (System.start ι endpoints, []) systemActions = some t ∧
        Matches srv s t)
    (fun _ _ _ h hgood hstep => by
      obtain ⟨before, t, ht, hmatches⟩ := h
      obtain ⟨more, t', ht', hmatches'⟩ := matches_step hmatches hgood hstep
      exact ⟨before ++ more, t', Transition.run_append.mpr ⟨t, ht, ht'⟩, hmatches'⟩)
    ⟨[], _, rfl, matches_start srv endpoints now⟩ hrun
  have hserved : t.2 = s'.handlers.shared.served := hmatches.represents.served
  have hdelivers := deliversServed_of_run ht
  rw [hmatches.workers, hserved] at hdelivers
  refine ⟨⟨systemActions, t.1, ?_, hmatches.workers, hmatches.represents.inFlight,
    hmatches.represents.acknowledged⟩, hdelivers⟩
  rw [← hserved]
  exact ht

/-! ## A repeated request -/

instance decidableReadsBack (srv : Server) : (a : Handlers.Action κ) → Decidable (Handlers.ReadsBack srv a)
  | .receive _ _ tentativeId _ =>
    inferInstanceAs (Decidable (srv.platform.tryParseGuid (srv.platform.formatGuid tentativeId) =
      some tentativeId))
  | .tick _ | .command _ _ | .giveUp _ | .save _ _ => isTrue trivial

instance decidableResolves [DecidableEq κ] (srv : Server) (s : Concurrent κ ι) :
    (a : ConcurrentAction κ ι) → Decidable (s.Resolves srv a)
  | .handlers a =>
    inferInstanceAs (Decidable (Handlers.FindsKeyFree srv s.handlers a ∧ Handlers.ReadsBack srv a))
  | .workers _ => isTrue trivial

/-- A request is handled twice at once, and a worker delivers its event. -/
def concurrentActions : List (ConcurrentAction Bool Bool) :=
  Handlers.repeatedActions.map .handlers ++ (deliveredActions.drop 2).map .workers

theorem concurrentRun_isSome : (Transition.run (Concurrent.step openServer splitWorld {})
    (Concurrent.start Bool Bool (.single workingEndpoint) 0) concurrentActions).isSome := by
  decide

/-- The service after these actions. -/
def concurrent : Concurrent Bool Bool :=
  (Transition.run (Concurrent.step openServer splitWorld {})
    (Concurrent.start Bool Bool (.single workingEndpoint) 0) concurrentActions).get concurrentRun_isSome

theorem concurrent_refines_repeated :
    concurrent.handlers.shared.served.length = 2 ∧ concurrent.workers.shared.tries.length = 1 ∧
      ∀ p ∈ concurrent.workers.shared.tries, DeliversServed openServer concurrent.handlers.shared.served p :=
  ⟨by decide, by decide, (concurrent_refines openServer splitWorld {} (.single workingEndpoint) 0
    concurrentActions (Option.some_get concurrentRun_isSome).symm (by decide)).2⟩

end WebhookInbox.Deployment
