import WebhookInbox.Api.Ingestion

/-!
# What the inbox keeps of a request

A request that is accepted and whose key is free is put in flight as the row that `buildEvent`
makes of it, and its key is reserved (`Posted`). Every row in flight or committed was made so, and
every reservation, for a request of the run.
-/

namespace WebhookInbox.Api.Ingestion

open NetString

variable {srv : Server}

section Outcome

variable {times : Clocks} {tentativeId : Guid} {store : ReservationStore} {req : InboxRequest}

theorem eq_buildEvent_of_saving {entity : Event}
    (h : (postInbox srv times tentativeId store req).1 = .saving entity) :
    entity = buildEvent srv times.receivedAt tentativeId req := by
  have hpost := postInbox_spec srv times tentativeId store req
  generalize postInbox srv times tentativeId store req = result at hpost h
  cases hpost with
  | saving =>
    cases h
    rfl
  | _ => cases h

theorem live_of_duplicate {id : Guid}
    (h : (postInbox srv times tentativeId store req).1 = .replied (.duplicate id)) :
    liveReservation store times.reservedAt (inboxKey srv req) = some id := by
  have hpost := postInbox_spec srv times tentativeId store req
  generalize postInbox srv times tentativeId store req = result at hpost h
  cases hpost with
  | duplicate id' _ _ hlive =>
    cases h
    exact hlive
  | _ => cases h

end Outcome

/-- The source is given and the signature check lets the request through. -/
def AcceptsPost (srv : Server) (times : Clocks) (req : InboxRequest) : Prop :=
  isNullOrWhiteSpace (some req.source) = false ∧
    Accepts srv.platform srv.signatures times.validatedAt req.source req.http req.http.body

/-- What a request does to the reservations and to the rows in flight. -/
inductive Posted (srv : Server) (times : Clocks) (tentativeId : Guid) (req : InboxRequest) (s s' : State) :
    Prop
  | unchanged (hstore : s'.store = s.store) (hinFlight : s'.inFlight = s.inFlight)
      (hnotSaving : ∀ entity, (postInbox srv times tentativeId s.store req).1 ≠ .saving entity)
  | reserved (haccept : AcceptsPost srv times req)
      (hnone : liveReservation s.store times.reservedAt (inboxKey srv req) = none)
      (hsaving : (postInbox srv times tentativeId s.store req).1 =
        .saving (buildEvent srv times.receivedAt tentativeId req))
      (hstore : s'.store = Function.update s.store (inboxKey srv req)
        (some ⟨tentativeId, addSeconds times.reservedAt srv.idempotency.keyTtlSeconds⟩))
      (hinFlight : s'.inFlight = buildEvent srv times.receivedAt tentativeId req :: s.inFlight)

theorem posted_of_step {s s' : State} {times : Clocks} {tentativeId : Guid} {req : InboxRequest}
    (h : step srv s (.post times tentativeId req) = some s') :
    tentativeId ∉ s.drawn ∧ s'.drawn = tentativeId :: s.drawn ∧ s'.events = s.events ∧
      Posted srv times tentativeId req s s' := by
  simp only [step] at h
  split at h
  · cases h
  · rename_i hnew
    cases h
    have hpost := postInbox_spec srv times tentativeId s.store req
    generalize hresult : postInbox srv times tentativeId s.store req = result at hpost
    cases hpost with
    | blank => exact ⟨hnew, rfl, rfl, .unchanged rfl rfl fun _ => by rw [hresult]; exact Outcome.noConfusion⟩
    | raised =>
      exact ⟨hnew, rfl, rfl, .unchanged rfl rfl fun _ => by rw [hresult]; exact Outcome.noConfusion⟩
    | refused =>
      exact ⟨hnew, rfl, rfl, .unchanged rfl rfl fun _ => by rw [hresult]; exact Outcome.noConfusion⟩
    | duplicate =>
      exact ⟨hnew, rfl, rfl, .unchanged rfl rfl fun _ => by rw [hresult]; exact Outcome.noConfusion⟩
    | saving hsource haccept hnone =>
      exact ⟨hnew, rfl, rfl, .reserved ⟨hsource, haccept⟩ hnone (by rw [hresult]) rfl rfl⟩

/-- A save ends the flight of its row, which is committed or lost. -/
theorem saved_of_step {s s' : State} {id : Guid} {result : SaveResult}
    (h : step srv s (.save id result) = some s') :
    s'.drawn = s.drawn ∧ s'.store = s.store ∧ s'.inFlight ⊆ s.inFlight ∧
      ∀ e ∈ s'.events.rows, e ∈ s.events.rows ∨ e ∈ s.inFlight := by
  have hfilter : ∀ entity : Event, (s.inFlight.filter fun e => e.id ≠ entity.id) ⊆ s.inFlight :=
    fun _ => List.filter_subset_self _
  cases step_save_cases h with
  | failed entity => exact ⟨rfl, rfl, hfilter entity, fun e he => Or.inl he⟩
  | committed entity answered hmem events hrows =>
    refine ⟨rfl, rfl, hfilter entity, fun e he => ?_⟩
    dsimp only at he
    rw [hrows, List.mem_append, List.mem_singleton] at he
    rcases he with he | rfl
    · exact Or.inl he
    · exact Or.inr hmem

end WebhookInbox.Api.Ingestion
