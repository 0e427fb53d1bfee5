import WebhookInbox.Deployment.System

/-!
# Where a delivery comes from

Between the request of a sender and the request of a worker lie the row in flight, the stored
event, the batch a worker has queried and the instances of its change tracker. Nothing on this way
is made up: the request of every try has the payload of one accepted request of the run,
the one for which the Guid of its event was drawn, and goes to the `Url` of an endpoint that was
saved under its id (`provenance_run`).
-/

namespace WebhookInbox.Deployment

open Api Worker

variable {ι : Type} [DecidableEq ι]

/-- The event was made of an accepted request of the run. -/
def CameFrom (srv : Server) (actions : List (SystemAction ι)) (ev : Event) : Prop :=
  ∃ times req, SystemAction.inbox (.post times ev.id req) ∈ actions ∧
    Ingestion.AcceptsPost srv times req ∧ bare ev = buildEvent srv times.receivedAt ev.id req

/-- The endpoint was there before the run, or the run saves it. -/
def Saved (endpoints : Table Endpoint Guid Endpoint.id) (actions : List (SystemAction ι))
    (ep : Endpoint) : Prop :=
  ep ∈ endpoints.rows ∨ SystemAction.saveEndpoint ep ∈ actions

omit [DecidableEq ι] in
theorem statusBlind_cameFrom (srv : Server) (actions : List (SystemAction ι)) :
    StatusBlind (CameFrom srv actions) := fun _ => Iff.rfl

/-- The request of a worker carries an accepted request to a saved endpoint. -/
structure SentFor (srv : Server) (endpoints : Table Endpoint Guid Endpoint.id)
    (actions : List (SystemAction ι)) (p : Post) : Prop where
  request : ∃ times req, SystemAction.inbox (.post times p.eventId req) ∈ actions ∧
    Ingestion.AcceptsPost srv times req ∧ p.payload = req.http.body
  endpoint : ∃ ep, Saved endpoints actions ep ∧ ep.id = p.endpointId ∧ ep.url = p.url

/-- Everything the inbox has in flight, the database holds and the workers work on. -/
structure Traced (srv : Server) (endpoints : Table Endpoint Guid Endpoint.id)
    (actions : List (SystemAction ι)) (s : System ι) : Prop where
  supplied : Supplied (CameFrom srv actions) (Saved endpoints actions) s.workers
  inFlight : ∀ ev ∈ s.inbox.inFlight, CameFrom srv actions ev

section Step

variable {srv : Server} {w : World} {opts : DeliveryOptions} {endpoints : Table Endpoint Guid Endpoint.id}
variable {actions : List (SystemAction ι)} {s s' : System ι}

omit [DecidableEq ι] in
/-- A request puts at most the event in flight that is made of it. -/
theorem inFlight_of_inbox {b : Ingestion.Action} {inbox : Ingestion.State}
    (ha : SystemAction.inbox b ∈ actions) (h : ∀ ev ∈ s.inbox.inFlight, CameFrom srv actions ev)
    (hstep : Ingestion.step srv s.inbox b = some inbox) :
    (∀ ev ∈ inbox.inFlight, CameFrom srv actions ev) ∧
      ∀ ev ∈ inbox.events.rows, ev ∈ s.inbox.events.rows ∨ CameFrom srv actions ev := by
  cases b with
  | post times tentativeId req =>
    obtain ⟨-, -, hevents, hposted⟩ := Ingestion.posted_of_step hstep
    refine ⟨fun ev hev => ?_, fun ev hev => Or.inl (hevents ▸ hev)⟩
    cases hposted with
    | unchanged _ hinFlight => exact h ev (hinFlight ▸ hev)
    | reserved haccept _ _ _ hinFlight =>
      rw [hinFlight] at hev
      rcases List.mem_cons.mp hev with rfl | hev
      · exact ⟨times, req, ha, haccept, rfl⟩
      · exact h ev hev
  | save id result =>
    obtain ⟨-, -, hinFlight, hevents⟩ := Ingestion.saved_of_step hstep
    refine ⟨fun ev hev => h ev (hinFlight hev), fun ev hev => ?_⟩
    exact (hevents ev hev).imp_right (h ev)

theorem traced_step {a : SystemAction ι} (h : Traced srv endpoints actions s) (ha : a ∈ actions)
    (hstep : s.step srv w opts a = some s') : Traced srv endpoints actions s' := by
  rcases step_cases hstep with ⟨b, inbox, rfl, hinbox, rfl⟩ | ⟨b, workers, hb, hworkers, rfl⟩
  · obtain ⟨hinFlight, hevents⟩ := inFlight_of_inbox ha h.inFlight hinbox
    refine ⟨⟨⟨fun ev hev => ?_, h.supplied.fed.endpoints, h.supplied.fed.tries⟩, h.supplied.holds⟩,
      hinFlight⟩
    rcases hevents ev hev with hold | hnew
    · rw [s.shared] at hold
      exact h.supplied.fed.events ev hold
    · exact hnew
  · refine ⟨supplied_step (statusBlind_cameFrom srv actions) h.supplied ?_ hworkers, h.inFlight⟩
    cases a with
    | inbox => cases hb
    | saveEndpoint ep =>
      cases hb
      exact Or.inr ha
    | _ =>
      cases hb
      trivial

omit [DecidableEq ι] in
theorem traced_start (srv : Server) (endpoints : Table Endpoint Guid Endpoint.id)
    (actions : List (SystemAction ι)) : Traced srv endpoints actions (System.start ι endpoints) :=
  ⟨supplied_start (fun _ hev => by cases hev) fun _ hep => Or.inl hep, fun _ hev => by cases hev⟩

theorem traced_run
    (hrun : Transition.run (System.step srv w opts) (System.start ι endpoints) actions = some s') :
    Traced srv endpoints actions s' := by
  have hmem : Transition.Along (System.step srv w opts) (fun _ a => a ∈ actions)
      (System.start ι endpoints) actions := Transition.along_of_forall (fun _ ha _ => ha) _
  exact hmem.invariant (fun _ _ _ h ha hstep => traced_step h ha hstep)
    (traced_start srv endpoints actions) hrun

omit [DecidableEq ι] in
theorem Traced.sentFor (h : Traced srv endpoints actions s) :
    ∀ p ∈ s.workers.shared.tries, SentFor srv endpoints actions p := by
  intro p hp
  obtain ⟨v, n, hev, hep, rfl⟩ := h.supplied.fed.tries p hp
  obtain ⟨times, req, hmem, haccept, hbare⟩ := hev
  refine ⟨⟨times, req, hmem, haccept, ?_⟩, v.2, hep, rfl, rfl⟩
  exact congrArg Event.payload hbare

end Step

/-- **Every delivery comes from an accepted request.** In every run of the service, with any
number of workers, in any interleaving, with processes that end and saves that fail. The request
it comes from is the only one of the run for which the Guid of its event was drawn. -/
theorem provenance_run (srv : Server) (w : World) (opts : DeliveryOptions)
    (endpoints : Table Endpoint Guid Endpoint.id) (actions : List (SystemAction ι)) {s' : System ι}
    (hrun : Transition.run (System.step srv w opts) (System.start ι endpoints) actions = some s') :
    (∀ p ∈ s'.workers.shared.tries, SentFor srv endpoints actions p) ∧
      (actions.filterMap SystemAction.tentativeId?).Nodup :=
  ⟨(traced_run hrun).sentFor, (tentativeIds_nodup hrun).1⟩

/-- A request is accepted and stored, and a worker delivers its event. -/
def deliveredActions : List (SystemAction Bool) :=
  [.inbox (.post ⟨0, 0, 0⟩ 7 unsignedRequest), .inbox (.save 7 (.committed true)),
    .move true .queryCandidates, .move true (.queryEndpoints [workingEndpoint]), .move true .next,
    .move true .next, .move true .next]

theorem deliveredRun_isSome : (Transition.run (System.step openServer splitWorld {})
    (System.start Bool (.single workingEndpoint)) deliveredActions).isSome := by
  decide

theorem provenance_run_delivered :
    ∃ s', Transition.run (System.step openServer splitWorld {})
        (System.start Bool (.single workingEndpoint)) deliveredActions = some s' ∧
      s'.workers.shared.tries.length = 1 ∧
      (∀ p ∈ s'.workers.shared.tries,
        SentFor openServer (.single workingEndpoint) deliveredActions p) ∧
      (deliveredActions.filterMap SystemAction.tentativeId?).Nodup :=
  ⟨_, (Option.some_get deliveredRun_isSome).symm, rfl,
    provenance_run openServer splitWorld {} (.single workingEndpoint) deliveredActions
      (Option.some_get deliveredRun_isSome).symm⟩

end WebhookInbox.Deployment
