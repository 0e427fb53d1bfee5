import WebhookInbox.Deployment.Provenance

/-!
# What becomes of an answered request

The workers write nothing to an event but its status, so what the inbox promises of a stored event
stays true while they work. In a run of the service whose requests meet the condition of the inbox
(`Ingestion.Keeps`), every answered id is in flight or stored at the end, with the source, the
headers, the payload and the time of the one accepted request that drew it (`custody_run`).
-/

namespace WebhookInbox.Deployment

open Api Worker

variable {ι : Type} [DecidableEq ι]

/-- The inbox keeps what it answers; the workers are free. -/
def Keeps (srv : Server) (s : System ι) : SystemAction ι → Prop
  | .inbox b => Ingestion.Keeps srv s.inbox b
  | _ => True

/-- The event of the id is stored or in flight, as it was made of its request. -/
def Kept (srv : Server) (actions : List (SystemAction ι)) (inbox : Ingestion.State) (id : Guid) : Prop :=
  ∃ times req, SystemAction.inbox (.post times id req) ∈ actions ∧ Ingestion.AcceptsPost srv times req ∧
    ∃ ev ∈ inbox.events.rows ++ inbox.inFlight, bare ev = buildEvent srv times.receivedAt id req

section Step

variable {srv : Server} {w : World} {opts : DeliveryOptions} {s s' : System ι}

theorem isCommitted_iff {inbox : Ingestion.State} {id : Guid} :
    Ingestion.IsCommitted inbox id ↔ id ∈ inbox.events.rows.map Event.id := by
  simp [Ingestion.IsCommitted]

/-- The invariant of the inbox reads only the ids of the events. -/
theorem inv_withEvents {inbox : Ingestion.State} (h : Ingestion.Inv inbox)
    {events : Table Event Guid Event.id}
    (hids : events.rows.map Event.id = inbox.events.rows.map Event.id) :
    Ingestion.Inv { inbox with events } := by
  have hiff : ∀ id, Ingestion.IsCommitted { inbox with events } id ↔ Ingestion.IsCommitted inbox id := by
    intro id
    rw [isCommitted_iff, isCommitted_iff, hids]
  refine ⟨⟨h.drawn.reserved, ?_, h.drawn.inFlight, h.drawn.acknowledged, ?_⟩, ?_⟩
  · exact fun id hid => h.drawn.committed id ((hiff id).mp hid)
  · exact fun id hflight hid => h.drawn.exclusive id hflight ((hiff id).mp hid)
  · exact fun id hid => (h.accounted id hid).imp_left (hiff id).mpr

/-- No step of the workers changes more of an event than its status. -/
theorem bare_cluster {c c' : Workers ι} {b : ClusterAction ι} (hb : ∀ ev, b ≠ .insertEvent ev)
    (hstep : clusterStep w opts c b = some c') :
    c'.shared.db.events.rows.map bare = c.shared.db.events.rows.map bare := by
  cases b with
  | move i m =>
    obtain ⟨p', hmove, rfl⟩ := Option.map_eq_some_iff.mp hstep
    exact (moved_of_move hmove).bare.1
  | restart i =>
    cases hstep
    rfl
  | insertEvent ev => exact absurd rfl (hb ev)
  | saveEndpoint ep =>
    cases hstep
    rfl
  | writeStatus eventId status =>
    cases hstep
    exact bare_writeStatus _ _

theorem inv_step {a : SystemAction ι} (h : Ingestion.Inv s.inbox) (hkeeps : Keeps srv s a)
    (hstep : s.step srv w opts a = some s') : Ingestion.Inv s'.inbox := by
  rcases step_cases hstep with ⟨b, inbox, rfl, hinbox, rfl⟩ | ⟨b, workers, hb, hworkers, rfl⟩
  · exact Ingestion.inv_step h hkeeps hinbox
  · apply inv_withEvents h
    have hbare := bare_cluster (fun ev heq => cluster?_ne_insertEvent a ev (heq ▸ hb)) hworkers
    have hids := congrArg (List.map Event.id) hbare
    rw [List.map_map, List.map_map] at hids
    rw [s.shared]
    exact hids

end Step

/-- **Nothing that is answered is lost or altered**, whatever the workers do with it. -/
theorem custody_run (srv : Server) (w : World) (opts : DeliveryOptions)
    (endpoints : Table Endpoint Guid Endpoint.id) (actions : List (SystemAction ι)) {s' : System ι}
    (hrun : Transition.run (System.step srv w opts) (System.start ι endpoints) actions = some s')
    (hkeeps : Transition.Along (System.step srv w opts) (Keeps srv) (System.start ι endpoints) actions) :
    ∀ id ∈ s'.inbox.acknowledged, Kept srv actions s'.inbox id := by
  intro id hid
  have hinv := hkeeps.invariant (I := fun s => Ingestion.Inv s.inbox)
    (fun _ _ _ h hgood hstep => inv_step h hgood hstep) Ingestion.inv_start hrun
  have htraced := traced_run hrun
  have hkept : ∀ ev ∈ s'.inbox.events.rows ++ s'.inbox.inFlight, CameFrom srv actions ev := by
    intro ev hev
    rcases List.mem_append.mp hev with hev | hev
    · rw [s'.shared] at hev
      exact htraced.supplied.fed.events ev hev
    · exact htraced.inFlight ev hev
  obtain ⟨ev, hev, rfl⟩ : ∃ ev ∈ s'.inbox.events.rows ++ s'.inbox.inFlight, ev.id = id := by
    rcases hinv.accounted id hid with ⟨ev, hev, heq⟩ | ⟨ev, hev, heq⟩
    · exact ⟨ev, List.mem_append_left _ hev, heq⟩
    · exact ⟨ev, List.mem_append_right _ hev, heq⟩
  obtain ⟨times, req, hmem, haccept, hbare⟩ := hkept ev hev
  exact ⟨times, req, hmem, haccept, ev, hev, hbare⟩

theorem deliveredActions_keeps : Transition.Along (System.step openServer splitWorld {}) (Keeps openServer)
    (System.start Bool (.single workingEndpoint)) deliveredActions := by
  refine ⟨fun _ _ id hlive => (by cases hlive), fun s _ => Transition.along_of_forall (fun a ha s => ?_) s⟩
  simp only [List.mem_cons, List.not_mem_nil, or_false] at ha
  rcases ha with rfl | rfl | rfl | rfl | rfl | rfl
  all_goals trivial

theorem custody_run_delivered :
    ∃ s', Transition.run (System.step openServer splitWorld {})
        (System.start Bool (.single workingEndpoint)) deliveredActions = some s' ∧
      s'.inbox.acknowledged = [7] ∧
      ∀ id ∈ s'.inbox.acknowledged, Kept openServer deliveredActions s'.inbox id :=
  ⟨_, (Option.some_get deliveredRun_isSome).symm, rfl,
    custody_run openServer splitWorld {} (.single workingEndpoint) deliveredActions
      (Option.some_get deliveredRun_isSome).symm deliveredActions_keeps⟩

end WebhookInbox.Deployment
