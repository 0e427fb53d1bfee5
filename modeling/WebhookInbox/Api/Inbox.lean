import WebhookInbox.Api.Idempotency
import WebhookInbox.Api.Signatures

/-!
# `POST /api/inbox/{source}`

The handler up to its `SaveChangesAsync`, in the order of the source: the source check, the
signature, the idempotency key, the reservation and the event row. The clock is read three
times, so the times are three arguments.
-/

namespace WebhookInbox.Api

open NetString

structure Server where
  platform : Platform
  signatures : SignatureOptions := {}
  idempotency : IdempotencyOptions := {}

structure InboxRequest where
  source : Text
  http : HttpRequest

inductive Reply where
  | badRequest
  | unauthorized
  /-- 200 with `duplicate = true`. -/
  | duplicate (eventId : Guid)
  /-- 202. -/
  | accepted (eventId : Guid)
  deriving DecidableEq, Repr

/-- What the handler does before it saves. -/
inductive Outcome where
  | raised (e : Raise)
  | replied (r : Reply)
  | saving (entity : Event)

/-- The times at which one request reads the clock. -/
structure Clocks where
  validatedAt : Time
  reservedAt : Time
  receivedAt : Time

def inboxKey (srv : Server) (req : InboxRequest) : Text :=
  namespaced req.source (resolve srv.platform req.http req.http.body)

def buildEvent (srv : Server) (receivedAt : Time) (eventId : Guid) (req : InboxRequest) : Event where
  id := eventId
  source := req.source
  receivedAt := receivedAt
  headers := headersJson srv.platform req.http
  payload := req.http.body
  signatureStatus := .verified
  status := .new

def postInbox (srv : Server) (times : Clocks) (tentativeId : Guid) (store : ReservationStore)
    (req : InboxRequest) : Outcome × ReservationStore :=
  if isNullOrWhiteSpace (some req.source) then (.replied .badRequest, store)
  else
    match validateAsync srv.platform srv.signatures times.validatedAt req.source req.http req.http.body with
    | .error e => (.raised e, store)
    | .ok (ok, _) =>
      if !ok then (.replied .unauthorized, store)
      else
        let ((created, eventId), store) := tryReserve store times.reservedAt (inboxKey srv req)
          tentativeId srv.idempotency.keyTtlSeconds
        if !created then (.replied (.duplicate eventId), store)
        else (.saving (buildEvent srv times.receivedAt eventId req), store)

/-- The row that is stored, when the save commits. -/
def storedEvent (outcome : Outcome) (saved : Bool) : Option Event :=
  match outcome with
  | .saving entity => if saved then some entity else none
  | _ => none

/-- The four ways the handler goes, with what each leaves in the store. -/
inductive PostInbox (srv : Server) (times : Clocks) (tentativeId : Guid) (store : ReservationStore)
    (req : InboxRequest) : Outcome × ReservationStore → Prop
  | blank (h : isNullOrWhiteSpace (some req.source) = true) :
      PostInbox srv times tentativeId store req (.replied .badRequest, store)
  | raised (e : Raise) (h : isNullOrWhiteSpace (some req.source) = false)
      (hraise : validateAsync srv.platform srv.signatures times.validatedAt req.source req.http
        req.http.body = .error e) :
      PostInbox srv times tentativeId store req (.raised e, store)
  | refused (h : isNullOrWhiteSpace (some req.source) = false)
      (hrefuse : ∃ reason, validateAsync srv.platform srv.signatures times.validatedAt req.source
        req.http req.http.body = .ok (false, reason)) :
      PostInbox srv times tentativeId store req (.replied .unauthorized, store)
  | duplicate (id : Guid) (h : isNullOrWhiteSpace (some req.source) = false)
      (haccept : Accepts srv.platform srv.signatures times.validatedAt req.source req.http req.http.body)
      (hlive : liveReservation store times.reservedAt (inboxKey srv req) = some id) :
      PostInbox srv times tentativeId store req (.replied (.duplicate id), store)
  | saving (h : isNullOrWhiteSpace (some req.source) = false)
      (haccept : Accepts srv.platform srv.signatures times.validatedAt req.source req.http req.http.body)
      (hnone : liveReservation store times.reservedAt (inboxKey srv req) = none) :
      PostInbox srv times tentativeId store req
        (.saving (buildEvent srv times.receivedAt tentativeId req),
          Function.update store (inboxKey srv req)
            (some ⟨tentativeId, addSeconds times.reservedAt srv.idempotency.keyTtlSeconds⟩))

theorem postInbox_spec (srv : Server) (times : Clocks) (tentativeId : Guid) (store : ReservationStore)
    (req : InboxRequest) :
    PostInbox srv times tentativeId store req (postInbox srv times tentativeId store req) := by
  unfold postInbox
  split
  · rename_i h
    exact .blank h
  · rename_i h
    rw [Bool.not_eq_true] at h
    split
    · rename_i e hraise
      exact .raised e h hraise
    · rename_i ok reason hok
      cases ok with
      | false => exact .refused h ⟨reason, hok⟩
      | true =>
        unfold tryReserve
        cases hlive : liveReservation store times.reservedAt (inboxKey srv req) with
        | some id => exact .duplicate id h ⟨reason, hok⟩ hlive
        | none => exact .saving h ⟨reason, hok⟩ hlive

end WebhookInbox.Api
