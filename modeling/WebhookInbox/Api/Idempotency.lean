import Mathlib.Logic.Function.Basic
import WebhookInbox.Api.Http
import WebhookInbox.Library.Hex

/-!
# Idempotency keys and reservations

`resolve` picks the text that identifies a request: one of three headers, or the digest of
the payload. `ReservationStore` is the store as the interface describes it: a reservation
is one atomic step and is kept for its whole TTL. The stores of the source are compared
with it elsewhere.
-/

namespace WebhookInbox.Api

open NetString

structure IdempotencyOptions where
  keyTtlSeconds : Int := 86400

variable (p : Platform)

/-- The value of a header that is there and not blank. -/
def nonBlankHeader (req : HttpRequest) (name : Text) : Option Text :=
  (tryGetHeader p req name).filter fun value => !isNullOrWhiteSpace (some value)

def resolve (req : HttpRequest) (payload : Bytes) : Text :=
  match nonBlankHeader p req "Idempotency-Key".toList with
  | some idk => idk
  | none =>
    match nonBlankHeader p req "X-Idempotency-Key".toList with
    | some xidk => xidk
    | none =>
      match nonBlankHeader p req "X-Hub-Signature-256".toList with
      | some ghSig => ghSig
      | none => Hex.encode (p.sha256 payload)

def namespaced (source key : Text) : Text := "idem:".toList ++ source ++ ':' :: key

theorem nonBlankHeader_eq_some_iff {p : Platform} {req : HttpRequest} {name value : Text} :
    nonBlankHeader p req name = some value ↔
      tryGetHeader p req name = some value ∧ isNullOrWhiteSpace (some value) = false := by
  simp [nonBlankHeader, Option.filter_eq_some_iff]

/-! ## The store as its interface describes it -/

structure Reservation where
  id : Guid
  expireAt : Time
  deriving DecidableEq, Repr

abbrev ReservationStore := Text → Option Reservation

/-- The id under a key whose reservation has not reached its TTL. -/
def liveReservation (store : ReservationStore) (now : Time) (key : Text) : Option Guid :=
  (store key).bind fun r => if now < r.expireAt then some r.id else none

/-- `TryReserveAsync`: `Created`, the id and the store after it. -/
def tryReserve (store : ReservationStore) (now : Time) (key : Text) (newEventId : Guid) (ttl : Int) :
    (Bool × Guid) × ReservationStore :=
  match liveReservation store now key with
  | some id => ((false, id), store)
  | none => ((true, newEventId), Function.update store key (some ⟨newEventId, addSeconds now ttl⟩))

end WebhookInbox.Api
