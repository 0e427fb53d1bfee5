import WebhookInbox.Api.Received

/-!
# One event a key and window

A run of the inbox is recorded with the reservations it makes. The store keeps for every key the
last of them, and a reservation is not replaced before it has expired. So two events that are
reserved under one key are a whole TTL apart, every event is stored under a reservation of its
own, and a duplicate is answered with the id of a reservation of its key that has not expired
(`reservationWindows_run`).
-/

namespace WebhookInbox.Api.Ingestion

/-- A reservation that was made: the key, the id, and when the clock was read for it. -/
structure Reserved where
  key : Text
  id : Guid
  reservedAt : Time

/-- The reservation a step makes, if it makes one. -/
def reservations (srv : Server) (s : State) : Action → List Reserved
  | .post times tentativeId req =>
    match (postInbox srv times tentativeId s.store req).1 with
    | .saving entity => [⟨inboxKey srv req, entity.id, times.reservedAt⟩]
    | _ => []
  | .save _ _ => []

/-- The clock has not gone back behind a reservation. -/
def ReadsLater (s : State × List Reserved) : Action → Prop
  | .post times _ _ => ∀ x ∈ s.2, x.reservedAt ≤ times.reservedAt
  | .save _ _ => True

/-- When the reservation expires. -/
def Reserved.expires (srv : Server) (x : Reserved) : Time :=
  addSeconds x.reservedAt srv.idempotency.keyTtlSeconds

/-- The store holds for every key the last reservation of it. -/
structure Windowed (srv : Server) (s : State) (made : List Reserved) : Prop where
  /-- A reservation is there, or a later one is. -/
  kept : ∀ x ∈ made, ∃ r, s.store x.key = some r ∧ x.expires srv ≤ r.expireAt
  source : ∀ key r, s.store key = some r →
    ∃ x ∈ made, x.key = key ∧ x.id = r.id ∧ r.expireAt = x.expires srv
  apart : made.Pairwise fun x y => x.key = y.key → x.expires srv ≤ y.reservedAt
  stored : ∀ e ∈ s.events.rows ++ s.inFlight, ∃ x ∈ made, x.id = e.id

/-- The reservations of one key are at least the TTL apart, every event that is committed or in
flight has one, and a duplicate is answered with the id of one of its key that has not expired. -/
structure OneEachWindow (srv : Server) (s : State) (made : List Reserved) : Prop where
  apart : made.Pairwise fun x y => x.key = y.key →
    addSeconds x.reservedAt srv.idempotency.keyTtlSeconds ≤ y.reservedAt
  stored : ∀ e ∈ s.events.rows ++ s.inFlight, ∃ x ∈ made, x.id = e.id
  duplicates : ∀ (times : Clocks) (tentativeId : Guid) (req : InboxRequest) (id : Guid),
    (postInbox srv times tentativeId s.store req).1 = .replied (.duplicate id) →
      ∃ x ∈ made, x.key = inboxKey srv req ∧ x.id = id ∧
        times.reservedAt < addSeconds x.reservedAt srv.idempotency.keyTtlSeconds

section Step

variable {srv : Server} {s s' : State} {made : List Reserved}

theorem not_lt_of_liveReservation_eq_none {store : ReservationStore} {now : Time} {key : Text}
    {r : Reservation} (h : liveReservation store now key = none) (hr : store key = some r) :
    r.expireAt ≤ now := by
  rw [liveReservation, hr, Option.bind_some] at h
  split at h
  · cases h
  · rename_i hle
    exact Int.not_lt.mp hle

theorem lt_of_liveReservation {store : ReservationStore} {now : Time} {key : Text} {id : Guid}
    (h : liveReservation store now key = some id) :
    ∃ r, store key = some r ∧ r.id = id ∧ now < r.expireAt := by
  obtain ⟨r, hr, hid⟩ := Option.bind_eq_some_iff.mp h
  split at hid
  · rename_i hlt
    exact ⟨r, hr, Option.some.inj hid, hlt⟩
  · cases hid

/-- A step that makes no reservation. -/
theorem Windowed.congr (h : Windowed srv s made) (hstore : s'.store = s.store)
    (hrows : ∀ e ∈ s'.events.rows ++ s'.inFlight, e ∈ s.events.rows ++ s.inFlight) :
    Windowed srv s' made := by
  refine ⟨?_, ?_, h.apart, fun e he => h.stored e (hrows e he)⟩
  · rw [hstore]
    exact h.kept
  · rw [hstore]
    exact h.source

/-- **A reservation** is made when the one before it has expired. -/
theorem Windowed.reserve (h : Windowed srv s made) {times : Clocks} {tentativeId : Guid}
    {req : InboxRequest} (hlater : ∀ x ∈ made, x.reservedAt ≤ times.reservedAt)
    (hnone : liveReservation s.store times.reservedAt (inboxKey srv req) = none)
    (hstore : s'.store = Function.update s.store (inboxKey srv req)
      (some ⟨tentativeId, addSeconds times.reservedAt srv.idempotency.keyTtlSeconds⟩))
    (hrows : ∀ e ∈ s'.events.rows ++ s'.inFlight,
      e ∈ s.events.rows ++ s.inFlight ∨ e.id = tentativeId) :
    Windowed srv s' (made ++ [⟨inboxKey srv req, tentativeId, times.reservedAt⟩]) := by
  refine ⟨fun x hx => ?_, fun key r hr => ?_, ?_, fun e he => ?_⟩
  · rw [hstore]
    by_cases hkey : x.key = inboxKey srv req
    · rw [hkey, Function.update_self]
      refine ⟨_, rfl, ?_⟩
      rcases List.mem_append.mp hx with hx | hx
      · exact Int.add_le_add_right (hlater x hx) _
      · rw [List.mem_singleton.mp hx]
        exact le_rfl
    · rw [Function.update_of_ne hkey]
      rcases List.mem_append.mp hx with hx | hx
      · exact h.kept x hx
      · rw [List.mem_singleton.mp hx] at hkey
        exact absurd rfl hkey
  · rw [hstore] at hr
    by_cases hkey : key = inboxKey srv req
    · rw [hkey, Function.update_self] at hr
      cases hr
      exact ⟨_, List.mem_append_right _ (List.mem_singleton_self _), hkey.symm, rfl, rfl⟩
    · rw [Function.update_of_ne hkey] at hr
      obtain ⟨x, hx, hrest⟩ := h.source key r hr
      exact ⟨x, List.mem_append_left _ hx, hrest⟩
  · rw [List.pairwise_append]
    refine ⟨h.apart, List.pairwise_singleton _ _, fun x hx y hy hkey => ?_⟩
    obtain rfl := List.mem_singleton.mp hy
    obtain ⟨r, hr, hexpires⟩ := h.kept x hx
    rw [hkey] at hr
    exact Int.le_trans hexpires (not_lt_of_liveReservation_eq_none hnone hr)
  · rcases hrows e he with hold | hnew
    · obtain ⟨x, hx, hid⟩ := h.stored e hold
      exact ⟨x, List.mem_append_left _ hx, hid⟩
    · exact ⟨_, List.mem_append_right _ (List.mem_singleton_self _), hnew.symm⟩

theorem windowed_step {a : Action} {x x' : State × List Reserved} (h : Windowed srv x.1 x.2)
    (hlater : ReadsLater x a)
    (hstep : Transition.recording (step srv) (reservations srv) x a = some x') :
    Windowed srv x'.1 x'.2 := by
  obtain ⟨hstep, hmade⟩ := Transition.recording_eq_some_iff.mp hstep
  rw [hmade]
  cases a with
  | post times tentativeId req =>
    obtain ⟨-, -, hevents, hposted⟩ := posted_of_step hstep
    cases hposted with
    | unchanged hstore hinFlight hnotSaving =>
      have hnone : reservations srv x.1 (.post times tentativeId req) = [] := by
        cases hresult : (postInbox srv times tentativeId x.1.store req).1 with
        | saving entity => exact absurd hresult (hnotSaving entity)
        | _ => simp only [reservations, hresult]
      rw [hnone, List.append_nil]
      refine h.congr hstore fun e he => ?_
      rw [hevents, hinFlight] at he
      exact he
    | reserved _ hnone hsaving hstore hinFlight =>
      have hone : reservations srv x.1 (.post times tentativeId req) =
          [⟨inboxKey srv req, tentativeId, times.reservedAt⟩] := by
        simp only [reservations, hsaving]
        rfl
      rw [hone]
      refine h.reserve hlater hnone hstore fun e he => ?_
      rw [hevents, hinFlight, List.mem_append, List.mem_cons] at he
      rcases he with he | rfl | he
      · exact Or.inl (List.mem_append_left _ he)
      · exact Or.inr rfl
      · exact Or.inl (List.mem_append_right _ he)
  | save id result =>
    obtain ⟨-, hstore, hinFlight, hevents⟩ := saved_of_step hstep
    have hnone : reservations srv x.1 (.save id result) = [] := rfl
    rw [hnone, List.append_nil]
    refine h.congr hstore fun e he => ?_
    rcases List.mem_append.mp he with he | he
    · rcases hevents e he with he | he
      · exact List.mem_append_left _ he
      · exact List.mem_append_right _ he
    · exact List.mem_append_right _ (hinFlight he)

theorem windowed_start : Windowed srv {} [] :=
  ⟨fun _ hx => (by cases hx), fun _ _ hr => (by cases hr), List.Pairwise.nil, fun _ he => by cases he⟩

end Step

/-- **One event a key and window**, in every run whose clock does not go back. -/
theorem reservationWindows_run (srv : Server) (actions : List Action) {x' : State × List Reserved}
    (hrun : Transition.run (Transition.recording (step srv) (reservations srv)) ({}, []) actions = some x')
    (hlater : Transition.Along (Transition.recording (step srv) (reservations srv)) ReadsLater ({}, [])
      actions) : OneEachWindow srv x'.1 x'.2 := by
  have hend := hlater.invariant (I := fun x => Windowed srv x.1 x.2)
    (fun _ _ _ h hgood hstep => windowed_step h hgood hstep) windowed_start hrun
  refine ⟨hend.apart, hend.stored, fun times tentativeId req id hreply => ?_⟩
  obtain ⟨r, hr, rfl, hlt⟩ := lt_of_liveReservation (live_of_duplicate hreply)
  obtain ⟨x, hx, hkey, hid, hexpires⟩ := hend.source _ r hr
  refine ⟨x, hx, hkey, hid, ?_⟩
  rw [hexpires] at hlt
  exact hlt

/-- The retry of the first request comes a TTL later, and is a new event. -/
def expiredActions : List Action :=
  [.post ⟨0, 0, 0⟩ 1 unsignedRequest, .save 1 (.committed true),
    .post ⟨0, addSeconds 0 86400, 0⟩ 2 unsignedRequest]

theorem expiredRun_isSome : (Transition.run (Transition.recording (step openServer)
    (reservations openServer)) ({}, []) expiredActions).isSome := by
  decide

instance decidableReadsLater (s : State × List Reserved) (a : Action) : Decidable (ReadsLater s a) :=
  match a with
  | .post times _ _ => inferInstanceAs (Decidable (∀ x ∈ s.2, x.reservedAt ≤ times.reservedAt))
  | .save _ _ => isTrue trivial

theorem reservationWindows_run_expired :
    ∃ x', Transition.run (Transition.recording (step openServer) (reservations openServer)) ({}, [])
        expiredActions = some x' ∧ x'.2.length = 2 ∧ OneEachWindow openServer x'.1 x'.2 :=
  ⟨_, (Option.some_get expiredRun_isSome).symm, rfl,
    reservationWindows_run openServer expiredActions (Option.some_get expiredRun_isSome).symm (by decide)⟩

end WebhookInbox.Api.Ingestion
