import WebhookInbox.Library.Table

/-!
# Entities

The rows the service stores, with the defaults of the entity classes. A `Guid` is only
compared and ordered, so it is a number here. Times are counted in ticks, ten million to
the second. A `Text` is a string as a list of characters; response bodies, which the
worker cuts at a code-unit index, are lists of UTF-16 code units.

The columns `Secret`, `RateLimitPerMinute` and `PolicyJson` of an endpoint are read by no
code and are left out, as are the navigation properties.
-/

namespace WebhookInbox

abbrev Guid := Nat
abbrev Time := Int
abbrev Bytes := List UInt8
abbrev Text := List Char
abbrev Utf16 := List UInt16

/-- `DateTimeOffset.AddSeconds` on ticks. -/
def addSeconds (t : Time) (seconds : Int) : Time := t + seconds * 10000000

inductive SignatureStatus where
  | none
  | verified
  | failed
  deriving DecidableEq, Repr

inductive EventStatus where
  | new
  | dispatched
  | failed
  | deadLetter
  deriving DecidableEq, Repr

/-- A parsed JSON text. A number keeps its raw text, an object its members in order. -/
inductive JsonElement where
  | null
  | boolean (value : Bool)
  | number (raw : Text)
  | string (value : Text)
  | array (items : List JsonElement)
  | object (members : List (Text × JsonElement))

structure Event where
  id : Guid
  source : Text
  receivedAt : Time
  headers : JsonElement := .object []
  payload : Bytes := []
  signatureStatus : SignatureStatus := .none
  status : EventStatus := .new

structure Endpoint where
  id : Guid
  url : Text
  isActive : Bool := true
  deriving DecidableEq, Repr

/-- An attempt. Its number is the 32-bit `Try`, an integer here: the source's `last.Try + 1` wraps
around once a pair has 2147483647 attempts. -/
structure DeliveryAttempt where
  id : Guid
  eventId : Guid
  endpointId : Guid
  tryNumber : Int
  sentAt : Time
  responseCode : Option Nat
  responseBody : Option Utf16
  success : Bool
  nextAttemptAt : Option Time
  deriving DecidableEq, Repr

/-- The columns of the unique index on attempts. -/
def DeliveryAttempt.key (a : DeliveryAttempt) : Guid × Guid × Int :=
  (a.eventId, a.endpointId, a.tryNumber)

/-- The committed rows. -/
structure Database where
  events : Table Event Guid Event.id
  endpoints : Table Endpoint Guid Endpoint.id
  attempts : Table DeliveryAttempt (Guid × Guid × Int) DeliveryAttempt.key

end WebhookInbox
