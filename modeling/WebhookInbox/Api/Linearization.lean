import WebhookInbox.Api.Handlers

/-!
# Handled at once as one after the other

The handlers are followed by the inbox of `Ingestion`, in which a request reserves its key in one step.
A request that takes effect is a step of the inbox at the same time of the server, and every other step
is none (`represents_step`). A plain `SET` that finds its key taken is not followed: it makes two
reservations of a key overlap, and the inbox never does (`separated_of_linearized`). So the requests get
the answers of the inbox exactly when every plain `SET` finds its key free (`linearized_iff`).
-/

namespace WebhookInbox.Api

/-! ## The record of the inbox -/

/-- The reservation that was made for the request. -/
def Served.reserved? (srv : Server) (x : Served) : Option Ingestion.Reserved :=
  match x.outcome with
  | .saving entity => some ⟨inboxKey srv x.req, entity.id, x.servedAt⟩
  | _ => none

/-- No request took effect before one that comes earlier. -/
def InOrder (requests : List Served) : Prop := requests.Pairwise fun x y => x.servedAt ≤ y.servedAt

/-- Of two reservations of one key, the first had expired when the second was made. -/
def Separated (srv : Server) (requests : List Served) : Prop :=
  (requests.filterMap (Served.reserved? srv)).Pairwise fun x y =>
    x.key = y.key → x.expires srv ≤ y.reservedAt

namespace Ingestion

def served (srv : Server) (s : State) : Action → List Served
  | .post times tentativeId req =>
    [⟨tentativeId, req, times.reservedAt, (postInbox srv times tentativeId s.store req).1⟩]
  | .save _ _ => []

variable {srv : Server}

theorem reservations_eq (s : State) (a : Action) :
    reservations srv s a = (served srv s a).filterMap (Served.reserved? srv) := by
  cases a with
  | save id result => rfl
  | post times tentativeId req =>
    simp only [reservations, served, List.filterMap_cons, List.filterMap_nil, Served.reserved?]
    cases (postInbox srv times tentativeId s.store req).1 <;> rfl

/-- In a run that is recorded in the order of the clock, no reservation replaces one that has not
expired. -/
theorem windowed_of_inOrder {actions : List Action} {x : State × List Served}
    (hrun : Transition.run (Transition.recording (step srv) (served srv)) ({}, []) actions = some x)
    (horder : InOrder x.2) : Windowed srv x.1 (x.2.filterMap (Served.reserved? srv)) := by
  have halong := Transition.along_of_record
    (fun _ _ hprefix (h : InOrder _) => h.sublist hprefix.sublist) hrun horder
  refine halong.invariant (I := fun x => Windowed srv x.1 (x.2.filterMap (Served.reserved? srv)))
    (fun y a y' h hordered hstep => ?_) windowed_start hrun
  obtain ⟨hstep, hserved⟩ := Transition.recording_eq_some_iff.mp hstep
  have hstep' : Transition.recording (step srv) (reservations srv)
      (y.1, y.2.filterMap (Served.reserved? srv)) a =
        some (y'.1, y'.2.filterMap (Served.reserved? srv)) := by
    rw [Transition.recording_eq_some_iff, hserved, List.filterMap_append, reservations_eq]
    exact ⟨hstep, rfl⟩
  refine windowed_step h ?_ hstep'
  cases a with
  | save id result => trivial
  | post times tentativeId req =>
    intro r hr
    obtain ⟨z, hz, hreserved⟩ := List.mem_filterMap.mp hr
    have hle := (List.pairwise_append.mp hordered).2.2 z hz _ (List.mem_singleton_self _)
    unfold Served.reserved? at hreserved
    split at hreserved
    · cases hreserved
      exact hle
    · cases hreserved

end Ingestion

namespace Handlers

variable {ι : Type} [DecidableEq ι]

/-! ## The inbox in the order of the answers -/

/-- A run of the inbox has served the same requests at the same times with the same outcomes, and
keeps the same rows. -/
def Linearized (srv : Server) (s : Shared) : Prop :=
  ∃ actions x, Transition.run (Transition.recording (Ingestion.step srv) (Ingestion.served srv)) ({}, [])
      actions = some x ∧ x.2 = s.served ∧ x.1.events = s.events ∧ x.1.inFlight = s.inFlight ∧
        x.1.acknowledged = s.acknowledged

/-- The inbox as it is when the requests are taken in the order in which they took effect. -/
structure Represents (srv : Server) (c : Handlers ι) (x : Ingestion.State × List Served) : Prop where
  events : x.1.events = c.shared.events
  inFlight : x.1.inFlight = c.shared.inFlight
  acknowledged : x.1.acknowledged = c.shared.acknowledged
  served : x.2 = c.shared.served
  server : ∀ key, c.shared.server key =
    (x.1.store key).map fun r => (srv.platform.formatGuid r.id, r.expireAt)
  readsBack : ∀ id ∈ c.shared.drawn, srv.platform.tryParseGuid (srv.platform.formatGuid id) = some id
  drawn : x.1.drawn ⊆ c.shared.drawn
  reserved : ∀ key r, x.1.store key = some r → r.id ∈ x.1.drawn
  pending : Pending srv c.members c.shared.drawn x.1.drawn

/-- A step of the inbox, with its record. -/
abbrev inboxStep (srv : Server) :=
  Transition.recording (Ingestion.step srv) (Ingestion.served srv)

section Represents

variable {srv : Server} {c c' : Handlers ι} {x : Ingestion.State × List Served}

omit [DecidableEq ι] in
/-- What is read back from the server is the reservation of the inbox. -/
theorem Represents.parse_at (h : Represents srv c x) (key : Text) :
    ((c.shared.server.at c.shared.now key).bind fun v => srv.platform.tryParseGuid v.1) =
      liveReservation x.1.store c.shared.now key := by
  unfold Redis.Server.at liveReservation
  rw [h.server key]
  cases hr : x.1.store key with
  | none => rfl
  | some r =>
    have hparse := h.readsBack r.id (h.drawn (h.reserved key r hr))
    by_cases hlive : c.shared.now < r.expireAt
    · simp [Option.filter_some, hlive, hparse]
    · simp [Option.filter_some, hlive]

omit [DecidableEq ι] in
theorem Represents.at_eq_none_iff (h : Represents srv c x) (key : Text) :
    c.shared.server.at c.shared.now key = none ↔
      liveReservation x.1.store c.shared.now key = none := by
  unfold Redis.Server.at liveReservation
  rw [h.server key]
  cases x.1.store key with
  | none => simp
  | some r => simp [Option.filter_some]

/-- **The write** is a request of the inbox that finds its key free. -/
theorem Represents.create (h : Represents srv c x) {i : ι} {id : Guid} {req : InboxRequest}
    (hrequest : (c.members i).request? = some (id, req))
    (hfree : c.shared.server.at c.shared.now (inboxKey srv req) = none) (receivedAt : Time) :
    ∃ a x', inboxStep srv x a = some x' ∧
      Represents srv (c.put i (c.shared.create srv receivedAt id req) .idle) x' := by
  have hlive := (h.at_eq_none_iff _).mp hfree
  obtain ⟨validatedAt, hrefusal⟩ := h.pending.accepted i id req hrequest
  have hnew := h.pending.untaken i id req hrequest
  have hpost := postInbox_of_not_refused ⟨validatedAt, c.shared.now, receivedAt⟩ hrefusal id x.1.store
  simp only [hlive] at hpost
  refine ⟨.post ⟨validatedAt, c.shared.now, receivedAt⟩ id req,
    (x.1.receive id (.saving (buildEvent srv receivedAt id req), Function.update x.1.store (inboxKey srv req)
        (some ⟨id, addSeconds c.shared.now srv.idempotency.keyTtlSeconds⟩)),
      x.2 ++ [⟨id, req, c.shared.now, .saving (buildEvent srv receivedAt id req)⟩]), ?_, ?_⟩
  · rw [Transition.recording_eq_some_iff]
    simp only [Ingestion.step, Ingestion.served, if_neg hnew, hpost]
    exact ⟨trivial, trivial⟩
  · refine ⟨h.events, congrArg (_ :: ·) h.inFlight, h.acknowledged, congrArg (· ++ _) h.served, fun key => ?_,
      h.readsBack, List.cons_subset.mpr ⟨h.pending.drawn i id req hrequest, h.drawn⟩, fun key r hr => ?_,
      h.pending.answer hrequest⟩
    · show Function.update c.shared.server _ _ key = (Function.update x.1.store _ _ key).map _
      by_cases hkey : key = inboxKey srv req
      · rw [hkey, Function.update_self, Function.update_self]
        rfl
      · rw [Function.update_of_ne hkey, Function.update_of_ne hkey]
        exact h.server key
    · rcases Interleaving.update_cases hr with ⟨-, heq⟩ | ⟨-, hold⟩
      · cases heq
        exact List.mem_cons_self
      · exact List.mem_cons_of_mem _ (h.reserved key r hold)

/-- **The answer of a duplicate** is that of a request of the inbox that finds the reservation. -/
theorem Represents.duplicate (h : Represents srv c x) {i : ι} {id existingId : Guid} {req : InboxRequest}
    (hrequest : (c.members i).request? = some (id, req))
    (hlive : liveReservation x.1.store c.shared.now (inboxKey srv req) = some existingId) :
    ∃ a x', inboxStep srv x a = some x' ∧
      Represents srv (c.put i (c.shared.duplicate id existingId req) .idle) x' := by
  obtain ⟨validatedAt, hrefusal⟩ := h.pending.accepted i id req hrequest
  have hnew := h.pending.untaken i id req hrequest
  have hpost := postInbox_of_not_refused ⟨validatedAt, c.shared.now, 0⟩ hrefusal id x.1.store
  simp only [hlive] at hpost
  refine ⟨.post ⟨validatedAt, c.shared.now, 0⟩ id req,
    (x.1.receive id (.replied (.duplicate existingId), x.1.store),
      x.2 ++ [⟨id, req, c.shared.now, .replied (.duplicate existingId)⟩]), ?_, ?_⟩
  · rw [Transition.recording_eq_some_iff]
    simp only [Ingestion.step, Ingestion.served, if_neg hnew, hpost]
    exact ⟨trivial, trivial⟩
  · exact ⟨h.events, h.inFlight, congrArg (_ :: ·) h.acknowledged, congrArg (· ++ _) h.served, h.server,
      h.readsBack, List.cons_subset.mpr ⟨h.pending.drawn i id req hrequest, h.drawn⟩,
      fun key r hr => List.mem_cons_of_mem _ (h.reserved key r hr), h.pending.answer hrequest⟩

/-- **A request arrives**, and takes effect at once when it is refused. -/
theorem Represents.receive (h : Represents srv c x) {i : ι} {validatedAt : Time} {id : Guid}
    {req : InboxRequest} {s : Shared} {phase : Phase}
    (hreads : srv.platform.tryParseGuid (srv.platform.formatGuid id) = some id)
    (hreceive : Handlers.receive srv c.shared validatedAt id req (c.members i) = some (s, phase)) :
    ∃ actions x', Transition.run (inboxStep srv) x actions = some x' ∧
      Represents srv (c.put i s phase) x' := by
  cases hphase : c.members i with
  | idle =>
    rw [hphase] at hreceive
    simp only [Handlers.receive] at hreceive
    split at hreceive
    · cases hreceive
    · rename_i hfresh
      have hnew : id ∉ x.1.drawn := fun hid => hfresh (h.drawn hid)
      have hreadsBack : ∀ id' ∈ id :: c.shared.drawn,
          srv.platform.tryParseGuid (srv.platform.formatGuid id') = some id' :=
        List.forall_mem_cons.mpr ⟨hreads, h.readsBack⟩
      split at hreceive
      · rename_i outcome hrefusal
        cases hreceive
        have hpost := postInbox_of_refusal ⟨validatedAt, c.shared.now, 0⟩ hrefusal id x.1.store
        refine ⟨[.post ⟨validatedAt, c.shared.now, 0⟩ id req], ({ x.1 with drawn := id :: x.1.drawn },
          x.2 ++ [⟨id, req, c.shared.now, outcome⟩]), ?_, ?_⟩
        · refine Transition.run_cons.mpr ⟨_, Transition.recording_eq_some_iff.mpr ?_, rfl⟩
          simp only [Ingestion.step, Ingestion.served, if_neg hnew, hpost, receive_of_refusal hrefusal]
          exact ⟨trivial, trivial⟩
        · refine ⟨h.events, h.inFlight, h.acknowledged, congrArg (· ++ _) h.served, h.server, hreadsBack,
            List.cons_subset_cons _ h.drawn, fun key r hr => List.mem_cons_of_mem _ (h.reserved key r hr), ?_⟩
          have hother : ∀ j id' req', (c.members j).request? = some (id', req') → id' ≠ id := by
            rintro j id' req' hj rfl
            exact hfresh (h.pending.drawn j id' req' hj)
          exact ((h.pending.take hother).draw id).update fun _ hidle => by cases hidle
      · rename_i hrefusal
        cases hreceive
        refine ⟨[], x, rfl, h.events, h.inFlight, h.acknowledged, h.served, h.server, hreadsBack,
          fun id' hid' => List.mem_cons_of_mem _ (h.drawn hid'), h.reserved, ?_⟩
        exact h.pending.add i hfresh hnew hrefusal
  | _ =>
    rw [hphase] at hreceive
    cases hreceive

/-- **The next command**. -/
theorem Represents.command (h : Represents srv c x) {i : ι} {receivedAt : Time} {s : Shared} {phase : Phase}
    (hgood : FindsKeyFree srv c (.command i receivedAt))
    (hcommand : Handlers.command srv c.shared receivedAt (c.members i) = some (s, phase)) :
    ∃ actions x', Transition.run (inboxStep srv) x actions = some x' ∧
      Represents srv (c.put i s phase) x' := by
  have hstay : ∀ phase, (∀ request, phase.request? = some request → (c.members i).request? = some request) →
      ∃ actions x', Transition.run (inboxStep srv) x actions = some x' ∧
        Represents srv (c.put i c.shared phase) x' :=
    fun phase hrequest => ⟨[], x, rfl, { h with pending := h.pending.update hrequest }⟩
  have hdone : ∀ s, (∃ a x', inboxStep srv x a = some x' ∧ Represents srv (c.put i s .idle) x') →
      ∃ actions x', Transition.run (inboxStep srv) x actions = some x' ∧
        Represents srv (c.put i s .idle) x' := by
    rintro s ⟨a, x', ha, hx'⟩
    exact ⟨[a], x', Transition.run_cons.mpr ⟨x', ha, rfl⟩, hx'⟩
  cases hphase : c.members i with
  | idle =>
    rw [hphase] at hcommand
    cases hcommand
  | setNotExists id req =>
    rw [hphase] at hcommand hstay
    simp only [Handlers.command] at hcommand
    split at hcommand
    · cases hcommand
      exact hstay _ fun _ hidle => by cases hidle
    · split at hcommand
      · rename_i hfree
        cases hcommand
        exact hdone _ (h.create (by rw [hphase]; rfl) hfree receivedAt)
      · cases hcommand
        exact hstay _ fun _ hrequest => hrequest
  | get id req =>
    rw [hphase] at hcommand hstay
    simp only [Handlers.command, h.parse_at] at hcommand
    split at hcommand
    · rename_i existingId hlive
      cases hcommand
      exact hdone _ (h.duplicate (by rw [hphase]; rfl) hlive)
    · cases hcommand
      exact hstay _ fun _ hrequest => hrequest
  | overwrite id req =>
    rw [hphase] at hcommand
    simp only [FindsKeyFree, hphase] at hgood
    cases hcommand
    exact hdone _ (h.create (by rw [hphase]; rfl) hgood receivedAt)

omit [DecidableEq ι] in
/-- **The end of a save.** -/
theorem Represents.save (h : Represents srv c x) {id : Guid} {result : Ingestion.SaveResult} {s : Shared}
    (hsave : c.shared.save id result = some s) :
    ∃ x', inboxStep srv x (.save id result) = some x' ∧ Represents srv { c with shared := s } x' := by
  obtain ⟨entity, hfind, hresult⟩ := Option.bind_eq_some_iff.mp hsave
  have hfind' : x.1.inFlight.find? (fun e => e.id = id) = some entity := by rw [h.inFlight, hfind]
  have hinFlight := congrArg (List.filter fun e => e.id ≠ entity.id) h.inFlight
  cases result with
  | failed =>
    cases hresult
    refine ⟨({ x.1 with inFlight := x.1.inFlight.filter fun e => e.id ≠ entity.id }, x.2 ++ []), ?_, ?_⟩
    · rw [inboxStep, Transition.recording_eq_some_iff]
      simp only [Ingestion.step, Ingestion.served, hfind', Option.bind_some, Ingestion.State.finish]
      exact ⟨trivial, trivial⟩
    · exact { h with inFlight := hinFlight, served := (List.append_nil _).trans h.served }
  | committed answered =>
    obtain ⟨events, hevents, rfl⟩ := Option.map_eq_some_iff.mp hresult
    refine ⟨({ x.1 with
        events := events
        inFlight := x.1.inFlight.filter fun e => e.id ≠ entity.id
        acknowledged := if answered then entity.id :: x.1.acknowledged else x.1.acknowledged }, x.2 ++ []), ?_, ?_⟩
    · rw [inboxStep, Transition.recording_eq_some_iff]
      simp only [Ingestion.step, Ingestion.served, hfind', Option.bind_some, Ingestion.State.finish, h.events,
        hevents, Option.map_some]
      cases answered <;> exact ⟨rfl, trivial⟩
    · refine
        { h with
          events := rfl
          inFlight := hinFlight
          acknowledged := ?_
          served := (List.append_nil _).trans h.served }
      rw [← h.acknowledged]

/-- **A step of the handlers** is some steps of the inbox. -/
theorem represents_step {a : Action ι} (h : Represents srv c x) (hgood : FindsKeyFree srv c a)
    (hreads : ReadsBack srv a) (hstep : step srv c a = some c') :
    ∃ actions x', Transition.run (inboxStep srv) x actions = some x' ∧ Represents srv c' x' := by
  cases a with
  | tick ticks =>
    cases hstep
    exact ⟨[], x, rfl, { h with }⟩
  | receive i validatedAt id req =>
    obtain ⟨⟨s, phase⟩, hreceive, rfl⟩ := Option.map_eq_some_iff.mp hstep
    exact h.receive hreads hreceive
  | command i receivedAt =>
    obtain ⟨⟨s, phase⟩, hcommand, rfl⟩ := Option.map_eq_some_iff.mp hstep
    exact h.command hgood hcommand
  | giveUp i =>
    cases hstep
    exact ⟨[], x, rfl, { h with pending := h.pending.update fun _ hidle => by cases hidle }⟩
  | save id result =>
    obtain ⟨s, hsave, rfl⟩ := Option.map_eq_some_iff.mp hstep
    obtain ⟨x', hx', h'⟩ := h.save hsave
    exact ⟨[.save id result], x', Transition.run_cons.mpr ⟨x', hx', rfl⟩, h'⟩

end Represents

/-! ## Runs -/

/-- The requests took effect in the order of the clock. -/
structure Timely (s : Shared) : Prop where
  order : InOrder s.served
  served : ∀ y ∈ s.served, y.servedAt ≤ s.now

section Run

variable {srv : Server} {c c' : Handlers ι} {a : Action ι}

/-- At most one request takes effect, at the time before the step. -/
def ServesOne (s s' : Shared) : Prop :=
  s.now ≤ s'.now ∧
    ∃ more : Option Served, s'.served = s.served ++ more.toList ∧ ∀ z ∈ more, z.servedAt = s.now

theorem servesOne_of_none {s s' : Shared} (hnow : s.now ≤ s'.now) (hserved : s'.served = s.served) :
    ServesOne s s' :=
  ⟨hnow, none, hserved.trans (List.append_nil _).symm, fun _ hz => by cases hz⟩

theorem servesOne_of_some {s s' : Shared} (hnow : s'.now = s.now) {z : Served} (hz : z.servedAt = s.now)
    (hserved : s'.served = s.served ++ [z]) : ServesOne s s' := by
  refine ⟨hnow.ge, some z, hserved, fun y hy => ?_⟩
  cases hy
  exact hz

theorem servesOne_receive {s s' : Shared} {phase phase' : Phase} {validatedAt : Time} {id : Guid}
    {req : InboxRequest} (h : receive srv s validatedAt id req phase = some (s', phase')) :
    ServesOne s s' := by
  unfold receive at h
  split at h
  · split at h
    · cases h
    · dsimp only at h
      split at h
      · cases h
        exact servesOne_of_some rfl rfl rfl
      · cases h
        exact servesOne_of_none (Int.le_refl _) rfl
  · cases h

theorem servesOne_command {s s' : Shared} {phase phase' : Phase} {receivedAt : Time}
    (h : command srv s receivedAt phase = some (s', phase')) : ServesOne s s' := by
  cases phase with
  | idle => cases h
  | setNotExists id req =>
    simp only [command] at h
    split at h
    · cases h
      exact servesOne_of_none (Int.le_refl _) rfl
    · split at h
      · cases h
        exact servesOne_of_some rfl rfl rfl
      · cases h
        exact servesOne_of_none (Int.le_refl _) rfl
  | get id req =>
    simp only [command] at h
    split at h
    · cases h
      exact servesOne_of_some rfl rfl rfl
    · cases h
      exact servesOne_of_none (Int.le_refl _) rfl
  | overwrite id req =>
    cases h
    exact servesOne_of_some rfl rfl rfl

theorem servesOne_save {s s' : Shared} {id : Guid} {result : Ingestion.SaveResult}
    (h : s.save id result = some s') : ServesOne s s' := by
  obtain ⟨entity, -, hresult⟩ := Option.bind_eq_some_iff.mp h
  cases result with
  | failed =>
    cases hresult
    exact servesOne_of_none (Int.le_refl _) rfl
  | committed answered =>
    obtain ⟨events, -, rfl⟩ := Option.map_eq_some_iff.mp hresult
    exact servesOne_of_none (Int.le_refl _) rfl

theorem servesOne_step (hstep : step srv c a = some c') : ServesOne c.shared c'.shared := by
  cases a with
  | tick ticks =>
    cases hstep
    exact servesOne_of_none (Int.le_add_of_nonneg_right (Int.natCast_nonneg ticks)) rfl
  | receive i validatedAt id req =>
    obtain ⟨⟨s, phase⟩, hreceive, rfl⟩ := Option.map_eq_some_iff.mp hstep
    exact servesOne_receive hreceive
  | command i receivedAt =>
    obtain ⟨⟨s, phase⟩, hcommand, rfl⟩ := Option.map_eq_some_iff.mp hstep
    exact servesOne_command hcommand
  | giveUp i =>
    cases hstep
    exact servesOne_of_none (Int.le_refl _) rfl
  | save id result =>
    obtain ⟨s, hsave, rfl⟩ := Option.map_eq_some_iff.mp hstep
    exact servesOne_save hsave

theorem timely_step (h : Timely c.shared) (hstep : step srv c a = some c') : Timely c'.shared := by
  obtain ⟨hnow, more, hserved, hmore⟩ := servesOne_step hstep
  constructor
  · rw [InOrder, hserved, List.pairwise_append]
    refine ⟨h.order, ?_, fun y hy z hz => ?_⟩
    · cases more with
      | none => exact List.Pairwise.nil
      | some z => exact List.pairwise_singleton _ _
    · rw [hmore z (Option.mem_toList.mp hz)]
      exact h.served y hy
  · intro y hy
    rw [hserved, List.mem_append] at hy
    rcases hy with hy | hy
    · exact Int.le_trans (h.served y hy) hnow
    · rw [hmore y (Option.mem_toList.mp hy)]
      exact hnow

/-- Reservations that overlap go on overlapping. -/
theorem separated_of_step (hstep : step srv c a = some c') (h : Separated srv c'.shared.served) :
    Separated srv c.shared.served := by
  obtain ⟨-, more, hserved, -⟩ := servesOne_step hstep
  rw [Separated, hserved, List.filterMap_append] at h
  exact (List.pairwise_append.mp h).1

omit [DecidableEq ι] in
/-- **The inbox separates** the reservations of a key. -/
theorem separated_of_linearized {s : Shared} (hlinearized : Linearized srv s) (htimely : Timely s) :
    Separated srv s.served := by
  obtain ⟨actions, x, hrun, hserved, -⟩ := hlinearized
  rw [← hserved]
  exact (Ingestion.windowed_of_inOrder hrun (by rw [hserved]; exact htimely.order)).apart

/-- The handlers have come to a state of the inbox. -/
def Follows (srv : Server) (c : Handlers ι) : Prop :=
  Timely c.shared ∧ ∃ actions x, Transition.run (inboxStep srv) ({}, []) actions = some x ∧ Represents srv c x

omit [DecidableEq ι] in
theorem Follows.linearized (h : Follows srv c) : Linearized srv c.shared := by
  obtain ⟨-, actions, x, hrun, hx⟩ := h
  exact ⟨actions, x, hrun, hx.served, hx.events, hx.inFlight, hx.acknowledged⟩

omit [DecidableEq ι] in
theorem represents_start (srv : Server) (now : Time) : Represents srv (start ι now) ({}, []) := by
  refine ⟨rfl, rfl, rfl, rfl, fun _ => rfl, fun _ hid => (by cases hid), fun _ hid => (by cases hid),
    fun _ _ hr => (by cases hr), ?_⟩
  exact ⟨fun _ _ _ hi => (by cases hi), fun _ _ _ hi => (by cases hi), fun _ _ _ hi => (by cases hi),
    fun _ _ _ _ _ hi => (by cases hi)⟩

omit [DecidableEq ι] in
theorem follows_start (srv : Server) (now : Time) : Follows srv (start ι now) :=
  ⟨⟨List.Pairwise.nil, fun _ hy => by cases hy⟩, [], ({}, []), rfl, represents_start srv now⟩

theorem follows_step (h : Follows srv c) (hgood : FindsKeyFree srv c a) (hreads : ReadsBack srv a)
    (hstep : step srv c a = some c') : Follows srv c' := by
  obtain ⟨htimely, actions, x, hrun, hx⟩ := h
  obtain ⟨more, x', hmore, hx'⟩ := represents_step hx hgood hreads hstep
  exact ⟨timely_step htimely hstep, actions ++ more, x', Transition.run_append.mpr ⟨x, hrun, hmore⟩, hx'⟩

/-- **A plain `SET` over a reservation** that has not expired makes two reservations overlap. -/
theorem not_separated_of_overwrite (h : Follows srv c) (hbad : ¬ FindsKeyFree srv c a)
    (hstep : step srv c a = some c') : ¬ Separated srv c'.shared.served := by
  obtain ⟨htimely, actions, x, hrun, hx⟩ := h
  cases a with
  | command i receivedAt =>
    cases hphase : c.members i with
    | overwrite id req =>
      simp only [FindsKeyFree, hphase, hx.at_eq_none_iff] at hbad
      obtain ⟨id', hlive⟩ := Option.ne_none_iff_exists'.mp hbad
      obtain ⟨r, hr, -, hlt⟩ := Ingestion.lt_of_liveReservation hlive
      have hwindowed := Ingestion.windowed_of_inOrder hrun (by rw [hx.served]; exact htimely.order)
      obtain ⟨y, hy, hkey, -, hexpires⟩ := hwindowed.source _ r hr
      rw [hx.served] at hy
      obtain ⟨⟨s, phase⟩, hcommand, rfl⟩ := Option.map_eq_some_iff.mp hstep
      rw [hphase] at hcommand
      cases hcommand
      intro hseparated
      have hserved : (c.shared.create srv receivedAt id req).served.filterMap (Served.reserved? srv) =
          c.shared.served.filterMap (Served.reserved? srv) ++ [⟨inboxKey srv req, id, c.shared.now⟩] := by
        rw [Shared.create, List.filterMap_append]
        rfl
      rw [Separated, Cluster.shared_put, hserved] at hseparated
      have hle := (List.pairwise_append.mp hseparated).2.2 y hy _ (List.mem_singleton_self _) hkey
      rw [← hexpires] at hle
      exact absurd hlt (Int.not_lt.mpr hle)
    | _ => exact absurd (by simp [FindsKeyFree, hphase]) hbad
  | _ => exact absurd trivial hbad

end Run

/-- **Handled at once, and one after the other.** Whatever the interleaving of the handlers, the
requests get the answers of the inbox, and at the times at which they took effect, exactly when every
plain `SET` finds its key free. -/
theorem linearized_iff (srv : Server) (now : Time) (actions : List (Action ι)) {c' : Handlers ι}
    (hrun : Transition.run (step srv) (start ι now) actions = some c')
    (hreads : ∀ a ∈ actions, ReadsBack srv a) :
    Linearized srv c'.shared ↔ Transition.Along (step srv) (FindsKeyFree srv) (start ι now) actions := by
  have hok : Transition.Along (step srv) (fun _ => ReadsBack srv) (start ι now) actions :=
    Transition.along_of_forall (fun a ha _ => hreads a ha) _
  constructor
  · intro hlinearized
    have htimely := Transition.invariant (I := fun c : Handlers ι => Timely c.shared)
      (fun _ _ _ h hstep => timely_step h hstep) (follows_start srv now).1 hrun
    have hexact : Transition.Along (step srv) (fun c a => FindsKeyFree srv c a ∧ ReadsBack srv a)
        (start ι now) actions ↔ ¬ ¬ Separated srv c'.shared.served :=
      Transition.along_iff_not_bad_of_along hok
        (fun _ _ _ h hgood hstep => follows_step h hgood.1 hgood.2 hstep)
        (fun _ _ _ h hreads hbad hstep =>
          not_separated_of_overwrite h (fun hgood => hbad ⟨hgood, hreads⟩) hstep)
        (fun _ _ _ hbad hstep hseparated => hbad (separated_of_step hstep hseparated))
        (fun _ h hbad => hbad (separated_of_linearized h.linearized h.1)) (follows_start srv now) hrun
    have hboth := hexact.mpr fun hbad => hbad (separated_of_linearized hlinearized htimely)
    exact (Transition.along_and.mp hboth).1
  · intro hgood
    exact ((Transition.along_and.mpr ⟨hgood, hok⟩).invariant
      (fun _ _ _ h hgood hstep => follows_step h hgood.1 hgood.2 hstep) (follows_start srv now) hrun).linearized

/-! ## Two requests at once -/

instance decidableFindsKeyFree (srv : Server) (c : Handlers ι) : (a : Action ι) →
    Decidable (FindsKeyFree srv c a)
  | .command i receivedAt =>
    match h : c.members i with
    | .overwrite _ req =>
      decidable_of_iff (c.shared.server.at c.shared.now (inboxKey srv req) = none) (by simp [FindsKeyFree, h])
    | .idle | .setNotExists _ _ | .get _ _ => isTrue (by simp [FindsKeyFree, h])
  | .tick _ | .receive _ _ _ _ | .giveUp _ | .save _ _ => isTrue trivial

/-- A request is repeated before the first one has reserved its key. -/
def repeatedActions : List (Action Bool) :=
  [.receive false 0 1 unsignedRequest, .receive true 0 2 unsignedRequest, .command false 0, .command true 0,
    .tick 5, .command true 0, .save 1 (.committed true)]

theorem repeatedRun_isSome : (Transition.run (step openServer) (start Bool 0) repeatedActions).isSome := by
  decide

theorem linearized_iff_repeated : Linearized openServer
    ((Transition.run (step openServer) (start Bool 0) repeatedActions).get repeatedRun_isSome).shared :=
  (linearized_iff openServer 0 repeatedActions (Option.some_get repeatedRun_isSome).symm
    (by simp [repeatedActions, ReadsBack]; decide)).mpr (by decide)

end Handlers

end WebhookInbox.Api
