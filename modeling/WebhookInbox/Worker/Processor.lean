import WebhookInbox.Library.Linq
import WebhookInbox.Library.Transition
import WebhookInbox.Worker.Context

/-!
# `DeliveryProcessor`

One pass of the worker, statement by statement. `processPair` is the body of the two
nested loops, with its response path and its exception path; `processOnceAsync` queries
the candidates and the endpoints and visits the pairs in the order of the loops. The
endpoints query has no `OrderBy`, so the order in which it answers is an argument.

`step` is one action of a run: a pass of the worker, or a write of someone else between
two passes.
-/

namespace WebhookInbox.Worker

/-- The newest attempt of a pair, as the query of `GetAttemptStateAsync` finds it. -/
def lastAttempt (db : Database) (eventId endpointId : Guid) : Option DeliveryAttempt :=
  (Linq.orderByDescending DeliveryAttempt.tryNumber
    (db.attempts.rows.filter fun a => a.eventId = eventId ∧ a.endpointId = endpointId)).head?

/-- Whether the pair is due, and the number of its next try. -/
def getAttemptStateAsync (w : World) (s : State) (eventId endpointId : Guid) :
    (Bool × Int) × State :=
  match lastAttempt s.db eventId endpointId with
  | none => ((true, 1), s)
  | some last =>
    if last.success then ((false, last.tryNumber + 1), s)
    else
      match last.nextAttemptAt with
      | some nextAttemptAt =>
        let (now, s) := s.utcNow w
        ((decide (nextAttemptAt ≤ now), last.tryNumber + 1), s)
      | none => ((true, last.tryNumber + 1), s)

/-- `none` when the backoff list has no delay for the try. -/
def computeNextAttemptAt (w : World) (opts : DeliveryOptions) (tryNumber : Int) (s : State) :
    Option Time × State :=
  let index := tryNumber - 1
  if index < 0 ∨ opts.backoffSeconds.length ≤ index then (none, s)
  else
    let (now, s) := s.utcNow w
    (some (addSeconds now (opts.backoffSeconds.getD index.toNat 0)), s)

/-- The status a failed attempt gives the event. -/
def failureStatus (opts : DeliveryOptions) (tryNumber : Int) : EventStatus :=
  if isExhausted opts tryNumber then .deadLetter else .failed

/-- Lines 70 to 91, after the response was read. The first component is `false` when the
save throws. -/
def recordResponse (w : World) (opts : DeliveryOptions) (eventId endpointId : Guid)
    (tryNumber : Int) (statusCode : Nat) (body : Utf16) (s : State) : Bool × State :=
  let success := isSuccessStatusCode statusCode
  let (id, s) := s.newGuid w
  let (sentAt, s) := s.utcNow w
  let (nextAttemptAt, s) := if success then (none, s) else computeNextAttemptAt w opts tryNumber s
  let s := s.add
    { id, eventId, endpointId, tryNumber, sentAt
      responseCode := some statusCode
      responseBody := some (truncate body 10000)
      success, nextAttemptAt }
  let s := s.setStatus eventId (if success then .dispatched else failureStatus opts tryNumber)
  let (saved, s) := saveChangesAsync w s
  if saved then
    (true, s.emit (.deliveriesTotal
      (if success then .success else if isExhausted opts tryNumber then .deadletter else .failed)))
  else (false, s)

/-- Lines 99 to 115, the catch block. -/
def recordException (w : World) (opts : DeliveryOptions) (eventId endpointId : Guid)
    (tryNumber : Int) (typeName : Text) (s : State) : Bool × State :=
  let (id, s) := s.newGuid w
  let (sentAt, s) := s.utcNow w
  let (nextAttemptAt, s) := computeNextAttemptAt w opts tryNumber s
  let s := s.add
    { id, eventId, endpointId, tryNumber, sentAt
      responseCode := none
      responseBody := some (toUtf16 ("exception:".toList ++ typeName))
      success := false
      nextAttemptAt }
  let s := s.setStatus eventId (failureStatus opts tryNumber)
  let (saved, s) := saveChangesAsync w s
  if saved then (true, s.emit (.deliveriesTotal .failed)) else (false, s)

/-- How the visit of one pair ends: not due, counted as processed, recorded by the catch
block, or left with the exception of the catch block's own save. -/
inductive PairEnd where
  | skipped
  | processed
  | caught
  | threw
  deriving DecidableEq, Repr

/-- What comes of the request, when the pair is tried next. -/
def nextOutcome (w : World) (s : State) (eventId endpointId : Guid) (tryNumber : Int) : HttpOutcome :=
  w.http eventId endpointId tryNumber s.tries.length

/-- How often the request is sent, when the pair is tried next. -/
def nextSends (w : World) (s : State) (eventId endpointId : Guid) (tryNumber : Int) : Nat :=
  w.sends eventId endpointId tryNumber s.tries.length

/-- The body of the loops for one pair. A request that cannot be built or sent, a body that
cannot be read and a save that fails all end in the one catch block. -/
def processPair (w : World) (opts : DeliveryOptions) (ev : Event) (ep : Endpoint) (s : State) :
    PairEnd × State :=
  let ((due, nextTryNumber), s) := getAttemptStateAsync w s ev.id ep.id
  if due then
    let outcome := nextOutcome w s ev.id ep.id nextTryNumber
    let s := s.emit (.post
      { eventId := ev.id, endpointId := ep.id, tryNumber := nextTryNumber
        url := ep.url, payload := ev.payload }
      (nextSends w s ev.id ep.id nextTryNumber))
    match outcome with
    | .response statusCode body =>
      let s := s.emit .deliveryDuration
      let (saved, s) := recordResponse w opts ev.id ep.id nextTryNumber statusCode body s
      if saved then (.processed, s)
      else
        let (saved, s) :=
          recordException w opts ev.id ep.id nextTryNumber "DbUpdateException".toList s
        (if saved then .caught else .threw, s)
    | .exception typeName =>
      let (saved, s) := recordException w opts ev.id ep.id nextTryNumber typeName s
      (if saved then .caught else .threw, s)
  else (.skipped, s)

/-- How a pass ends: with the number of processed pairs, or with an exception. -/
inductive PassEnd where
  | returned (processed : Nat)
  | threw
  deriving DecidableEq, Repr

/-- The two nested loops, over the pairs in the order the loops visit them. -/
def processPairs (w : World) (opts : DeliveryOptions) :
    List (Event × Endpoint) → Nat → State → PassEnd × State
  | [], processed, s => (.returned processed, s)
  | (ev, ep) :: pairs, processed, s =>
    match processPair w opts ev ep s with
    | (.processed, s) => processPairs w opts pairs (processed + 1) s
    | (.threw, s) => (.threw, s)
    | (_, s) => processPairs w opts pairs processed s

def isCandidate (e : Event) : Bool := e.status = .new ∨ e.status = .failed

/-- The candidates query; `none` when the database refuses a negative `Take`. -/
def candidates? (opts : DeliveryOptions) (db : Database) : Option (List Event) :=
  if opts.batchSize < 0 then none
  else some (Linq.take opts.batchSize (Linq.orderBy Event.id (db.events.rows.filter isCandidate)))

/-- The rows the endpoints query may return, in some order. -/
def activeEndpoints (db : Database) : List Endpoint := db.endpoints.rows.filter (·.isActive)

/-- A tracking query returns the instance it has already materialised for a row. -/
def materialise (ctx : DbContext) (row : Endpoint) : Endpoint :=
  (ctx.endpoints.find? fun e => e.id = row.id).getD row

/-- The change tracker after a query that returned these rows. -/
def track (ctx : DbContext) (rows : List Endpoint) : DbContext :=
  { ctx with endpoints := ctx.endpoints ++
      rows.filter fun row => (ctx.endpoints.find? fun e => e.id = row.id).isNone }

def processOnceAsync (w : World) (opts : DeliveryOptions) (endpoints : List Endpoint) (s : State) :
    PassEnd × State :=
  match candidates? opts s.db with
  | none => (.threw, s)
  | some [] => (.returned 0, s)
  | some candidates =>
    let tracked := endpoints.map (materialise s.ctx)
    let s := { s with ctx := track s.ctx endpoints }
    if endpoints.isEmpty then (.returned 0, s)
    else processPairs w opts (candidates.product tracked) 0 s

/-- One action of a run. `pass endpoints` is a pass in which the endpoints query answers
with these rows in this order; the others are writes between passes. -/
inductive Action where
  | pass (endpoints : List Endpoint)
  | insertEvent (e : Event)
  | saveEndpoint (ep : Endpoint)

def step (w : World) (opts : DeliveryOptions) (s : State) : Action → Option State
  | .pass endpoints =>
    if endpoints.Perm (activeEndpoints s.db) then some (processOnceAsync w opts endpoints s).2
    else none
  | .insertEvent e => (s.db.events.insertAll? [e]).map fun events => { s with db := { s.db with events } }
  | .saveEndpoint ep => some { s with db := { s.db with endpoints := s.db.endpoints.upsert ep } }

end WebhookInbox.Worker
