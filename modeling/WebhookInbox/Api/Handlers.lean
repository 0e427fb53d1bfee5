import WebhookInbox.Api.Stores
import WebhookInbox.Api.Window

/-!
# Requests that are handled at once

`Ingestion` reserves a key in one step. With `RedisIdempotencyStore` a reservation is up to three
commands, and any number of handlers give them at once while the clock of the server moves. A request
takes effect when it is refused, or at the command that decides its answer: there it is recorded as
`Served`, with the time of the server and what it came to. Until then it is pending, with a Guid of its
own (`Pending`).
-/

namespace WebhookInbox.Api

open NetString

/-! ## The handler up to the key -/

/-- What the handler comes to before it resolves the key, when it ends there. -/
def refusal (srv : Server) (validatedAt : Time) (req : InboxRequest) : Option Outcome :=
  if isNullOrWhiteSpace (some req.source) then some (.replied .badRequest)
  else
    match validateAsync srv.platform srv.signatures validatedAt req.source req.http req.http.body with
    | .error e => some (.raised e)
    | .ok (ok, _) => if !ok then some (.replied .unauthorized) else none

section Refusal

variable {srv : Server} {req : InboxRequest}

theorem postInbox_of_refusal (times : Clocks) {outcome : Outcome}
    (h : refusal srv times.validatedAt req = some outcome) (tentativeId : Guid)
    (store : ReservationStore) :
    postInbox srv times tentativeId store req = (outcome, store) := by
  have hspec := postInbox_spec srv times tentativeId store req
  unfold refusal at h
  generalize postInbox srv times tentativeId store req = result at hspec
  cases hspec with
  | blank hblank =>
    rw [if_pos hblank] at h
    cases h
    rfl
  | raised e hblank hraise =>
    simp only [hblank, hraise, Bool.false_eq_true, if_false] at h
    cases h
    rfl
  | refused hblank hrefuse =>
    obtain ⟨reason, hrefuse⟩ := hrefuse
    simp only [hblank, hrefuse, Bool.false_eq_true, if_false] at h
    cases h
    rfl
  | duplicate id hblank haccept hlive =>
    obtain ⟨reason, haccept⟩ := haccept
    simp only [hblank, haccept, Bool.false_eq_true, if_false] at h
    cases h
  | saving hblank haccept hnone =>
    obtain ⟨reason, haccept⟩ := haccept
    simp only [hblank, haccept, Bool.false_eq_true, if_false] at h
    cases h

theorem postInbox_of_not_refused (times : Clocks) (h : refusal srv times.validatedAt req = none)
    (tentativeId : Guid) (store : ReservationStore) :
    postInbox srv times tentativeId store req =
      match liveReservation store times.reservedAt (inboxKey srv req) with
      | some id => (.replied (.duplicate id), store)
      | none => (.saving (buildEvent srv times.receivedAt tentativeId req),
          Function.update store (inboxKey srv req)
            (some ⟨tentativeId, addSeconds times.reservedAt srv.idempotency.keyTtlSeconds⟩)) := by
  have hspec := postInbox_spec srv times tentativeId store req
  unfold refusal at h
  generalize postInbox srv times tentativeId store req = result at hspec
  cases hspec with
  | blank hblank =>
    rw [if_pos hblank] at h
    cases h
  | raised e hblank hraise =>
    simp only [hblank, hraise, Bool.false_eq_true, if_false] at h
    cases h
  | refused hblank hrefuse =>
    obtain ⟨reason, hrefuse⟩ := hrefuse
    simp only [hblank, hrefuse, Bool.false_eq_true, if_false] at h
    cases h
  | duplicate id _ _ hlive => rw [hlive]
  | saving _ _ hnone => rw [hnone]

/-- A refused request has no id. -/
theorem receive_of_refusal {outcome : Outcome} {validatedAt : Time}
    (h : refusal srv validatedAt req = some outcome) (s : Ingestion.State) (tentativeId : Guid) :
    s.receive tentativeId (outcome, s.store) = { s with drawn := tentativeId :: s.drawn } := by
  unfold refusal at h
  split at h
  · cases h
    rfl
  · split at h
    · cases h
      rfl
    · split at h
      · cases h
        rfl
      · cases h

end Refusal

/-! ## The handlers -/

/-- A request, when it took effect and what it came to. -/
structure Served where
  tentativeId : Guid
  req : InboxRequest
  servedAt : Time
  outcome : Outcome

namespace Handlers

/-- Where a handler is. The command that is next names the phase. -/
inductive Phase where
  | idle
  | setNotExists (tentativeId : Guid) (req : InboxRequest)
  | get (tentativeId : Guid) (req : InboxRequest)
  | overwrite (tentativeId : Guid) (req : InboxRequest)

/-- The request whose key is being resolved. -/
def Phase.request? : Phase → Option (Guid × InboxRequest)
  | .idle => none
  | .setNotExists tentativeId req | .get tentativeId req | .overwrite tentativeId req =>
    some (tentativeId, req)

/-- What the handlers share. -/
structure Shared where
  /-- The clock of the Redis server. -/
  now : Time
  server : Redis.Server := fun _ => none
  events : Table Event Guid Event.id := ∅
  /-- The rows whose `SaveChangesAsync` has not ended. -/
  inFlight : List Event := []
  /-- The ids of the 2xx answers. -/
  acknowledged : List Guid := []
  /-- The results of `Guid.NewGuid`. -/
  drawn : List Guid := []
  /-- The requests in the order in which they took effect. -/
  served : List Served := []

inductive Action (ι : Type) where
  | tick (ticks : Nat)
  | receive (i : ι) (validatedAt : Time) (tentativeId : Guid) (req : InboxRequest)
  | command (i : ι) (receivedAt : Time)
  /-- The request is given up: its client has gone, or a command has raised. -/
  | giveUp (i : ι)
  | save (id : Guid) (result : Ingestion.SaveResult)

variable (srv : Server)

def receive (s : Shared) (validatedAt : Time) (tentativeId : Guid) (req : InboxRequest) :
    Phase → Option (Shared × Phase)
  | .idle =>
    if tentativeId ∈ s.drawn then none
    else
      let s := { s with drawn := tentativeId :: s.drawn }
      match refusal srv validatedAt req with
      | some outcome => some ({ s with served := s.served ++ [⟨tentativeId, req, s.now, outcome⟩] }, .idle)
      | none => some (s, .setNotExists tentativeId req)
  | _ => none

/-- `SET` of the key, and the row that is to be saved. -/
def Shared.create (s : Shared) (receivedAt : Time) (tentativeId : Guid) (req : InboxRequest) : Shared :=
  let entity := buildEvent srv receivedAt tentativeId req
  { s with
    server := Function.update s.server (inboxKey srv req)
      (some (srv.platform.formatGuid tentativeId, addSeconds s.now srv.idempotency.keyTtlSeconds))
    inFlight := entity :: s.inFlight
    served := s.served ++ [⟨tentativeId, req, s.now, .saving entity⟩] }

def Shared.duplicate (s : Shared) (tentativeId existingId : Guid) (req : InboxRequest) : Shared :=
  { s with
    acknowledged := existingId :: s.acknowledged
    served := s.served ++ [⟨tentativeId, req, s.now, .replied (.duplicate existingId)⟩] }

/-- The next command of `TryReserveAsync`, with what the handler does after the last of them. -/
def command (s : Shared) (receivedAt : Time) : Phase → Option (Shared × Phase)
  | .idle => none
  | .setNotExists tentativeId req =>
    -- the server refuses a TTL that is not positive
    if srv.idempotency.keyTtlSeconds ≤ 0 then some (s, .idle)
    else
      match s.server.at s.now (inboxKey srv req) with
      | none => some (s.create srv receivedAt tentativeId req, .idle)
      | some _ => some (s, .get tentativeId req)
  | .get tentativeId req =>
    match (s.server.at s.now (inboxKey srv req)).bind fun v => srv.platform.tryParseGuid v.1 with
    | some existingId => some (s.duplicate tentativeId existingId req, .idle)
    | none => some (s, .overwrite tentativeId req)
  | .overwrite tentativeId req => some (s.create srv receivedAt tentativeId req, .idle)

def Shared.save (s : Shared) (id : Guid) (result : Ingestion.SaveResult) : Option Shared :=
  (s.inFlight.find? fun e => e.id = id).bind fun entity =>
    let inFlight := s.inFlight.filter fun e => e.id ≠ entity.id
    match result with
    | .failed => some { s with inFlight }
    | .committed answered =>
      (s.events.insertAll? [entity]).map fun events =>
        let acknowledged := if answered then entity.id :: s.acknowledged else s.acknowledged
        { s with events, inFlight, acknowledged }

end Handlers

/-- The requests that are handled at once. -/
abbrev Handlers (ι : Type) := Cluster ι Handlers.Shared Handlers.Phase

namespace Handlers

variable {ι : Type} [DecidableEq ι]

def start (ι : Type) (now : Time) : Handlers ι where
  shared := { now }
  members _ := .idle

def step (srv : Server) (c : Handlers ι) : Action ι → Option (Handlers ι)
  | .tick ticks => some { c with shared := { c.shared with now := c.shared.now + ticks } }
  | .receive i validatedAt tentativeId req =>
    (receive srv c.shared validatedAt tentativeId req (c.members i)).map fun x => c.put i x.1 x.2
  | .command i receivedAt =>
    (command srv c.shared receivedAt (c.members i)).map fun x => c.put i x.1 x.2
  | .giveUp i => some (c.put i c.shared .idle)
  | .save id result => (c.shared.save id result).map fun s => { c with shared := s }

/-- A plain `SET` finds its key free. -/
def FindsKeyFree (srv : Server) (c : Handlers ι) : Action ι → Prop
  | .command i _ =>
    match c.members i with
    | .overwrite _ req => c.shared.server.at c.shared.now (inboxKey srv req) = none
    | _ => True
  | _ => True

/-- The Guid that is drawn can be read back from its text. -/
def ReadsBack (srv : Server) : Action ι → Prop
  | .receive _ _ tentativeId _ =>
    srv.platform.tryParseGuid (srv.platform.formatGuid tentativeId) = some tentativeId
  | _ => True

/-! ## The requests whose keys are being resolved -/

/-- Every one of them has drawn a Guid of its own that is not yet `taken`, and was not refused. -/
structure Pending (srv : Server) (members : ι → Phase) (drawn taken : List Guid) : Prop where
  drawn : ∀ i id req, (members i).request? = some (id, req) → id ∈ drawn
  untaken : ∀ i id req, (members i).request? = some (id, req) → id ∉ taken
  accepted : ∀ i id req, (members i).request? = some (id, req) →
    ∃ validatedAt, refusal srv validatedAt req = none
  apart : ∀ i j id req req', (members i).request? = some (id, req) →
    (members j).request? = some (id, req') → i = j

section Pending

variable {srv : Server} {members members' : ι → Phase} {drawn taken : List Guid}

omit [DecidableEq ι] in
/-- Some of the requests. -/
theorem Pending.mono (h : Pending srv members drawn taken)
    (hsub : ∀ i request, (members' i).request? = some request → (members i).request? = some request) :
    Pending srv members' drawn taken :=
  ⟨fun i id req hi => h.drawn i id req (hsub i _ hi), fun i id req hi => h.untaken i id req (hsub i _ hi),
    fun i id req hi => h.accepted i id req (hsub i _ hi),
    fun i j id req req' hi hj => h.apart i j id req req' (hsub i _ hi) (hsub j _ hj)⟩

/-- A handler goes on with its request, or has ended. -/
theorem Pending.update (h : Pending srv members drawn taken) {i : ι} {phase : Phase}
    (hrequest : ∀ request, phase.request? = some request → (members i).request? = some request) :
    Pending srv (Function.update members i phase) drawn taken := by
  apply h.mono
  intro j request hj
  by_cases hij : j = i
  · subst hij
    rw [Function.update_self] at hj
    exact hrequest request hj
  · rwa [Function.update_of_ne hij] at hj

omit [DecidableEq ι] in
theorem Pending.draw (h : Pending srv members drawn taken) (id : Guid) :
    Pending srv members (id :: drawn) taken :=
  { h with drawn := fun i id' req hi => List.mem_cons_of_mem _ (h.drawn i id' req hi) }

omit [DecidableEq ι] in
/-- A Guid that none of the requests has drawn. -/
theorem Pending.take (h : Pending srv members drawn taken) {id : Guid}
    (hother : ∀ i id' req, (members i).request? = some (id', req) → id' ≠ id) :
    Pending srv members drawn (id :: taken) :=
  { h with
    untaken := fun i id' req hi =>
      List.not_mem_cons_of_ne_of_not_mem (hother i id' req hi) (h.untaken i id' req hi) }

/-- The Guid of a request that is answered. -/
theorem Pending.answer (h : Pending srv members drawn taken) {i : ι} {id : Guid} {req : InboxRequest}
    (hrequest : (members i).request? = some (id, req)) :
    Pending srv (Function.update members i .idle) drawn (id :: taken) := by
  apply (h.update fun _ hidle => by cases hidle).take
  rintro j id' req' hj rfl
  by_cases hij : j = i
  · subst hij
    rw [Function.update_self] at hj
    cases hj
  · rw [Function.update_of_ne hij] at hj
    exact hij (h.apart j i id' req' req hj hrequest)

/-- A request that begins with a new Guid. -/
theorem Pending.add (h : Pending srv members drawn taken) (i : ι) {id : Guid} {req : InboxRequest}
    {validatedAt : Time} (hdrawn : id ∉ drawn) (htaken : id ∉ taken)
    (hrefusal : refusal srv validatedAt req = none) :
    Pending srv (Function.update members i (.setNotExists id req)) (id :: drawn) taken := by
  have hcases : ∀ j id' req', (Function.update members i (.setNotExists id req) j).request? =
      some (id', req') → (j = i ∧ id' = id ∧ req' = req) ∨
        (j ≠ i ∧ id' ≠ id ∧ (members j).request? = some (id', req')) := by
    intro j id' req' hj
    by_cases hij : j = i
    · subst hij
      rw [Function.update_self] at hj
      cases hj
      exact Or.inl ⟨rfl, rfl, rfl⟩
    · rw [Function.update_of_ne hij] at hj
      refine Or.inr ⟨hij, ?_, hj⟩
      rintro rfl
      exact hdrawn (h.drawn j id' req' hj)
  refine ⟨fun j id' req' hj => ?_, fun j id' req' hj => ?_, fun j id' req' hj => ?_,
    fun j k id' req' req'' hj hk => ?_⟩
  · rcases hcases j id' req' hj with ⟨-, rfl, -⟩ | ⟨-, -, hold⟩
    · exact List.mem_cons_self
    · exact List.mem_cons_of_mem _ (h.drawn j id' req' hold)
  · rcases hcases j id' req' hj with ⟨-, rfl, -⟩ | ⟨-, -, hold⟩
    · exact htaken
    · exact h.untaken j id' req' hold
  · rcases hcases j id' req' hj with ⟨-, -, rfl⟩ | ⟨-, -, hold⟩
    · exact ⟨validatedAt, hrefusal⟩
    · exact h.accepted j id' req' hold
  · rcases hcases j id' req' hj with ⟨rfl, rfl, -⟩ | ⟨-, hne, hold⟩
    · rcases hcases k id' req'' hk with ⟨rfl, -, -⟩ | ⟨-, hne, -⟩
      · rfl
      · exact absurd rfl hne
    · rcases hcases k id' req'' hk with ⟨-, heq, -⟩ | ⟨-, -, hold'⟩
      · exact absurd heq hne
      · exact h.apart j k id' req' req'' hold hold'

end Pending

end Handlers

end WebhookInbox.Api
