import WebhookInbox.Api.Timestamps

/-!
# The requests of the load generator

`LoadTestWorker` builds webhook requests of six kinds for a source and signs them with a copy of
each provider's scheme. A random draw, a new Guid and each clock value is an argument, and
the cache of replayed payloads is a state that is passed on.
-/

namespace WebhookInbox.LoadTest

open Api NetString

inductive LoadTestScenarioKind where
  | valid
  | invalidSignature
  | missingSignature
  | replay
  | expiredSignature
  | invalidPayload
  deriving DecidableEq, Repr

/-- What the load generator takes from .NET besides the platform of the API. -/
structure Formats where
  /-- `JsonSerializer.Serialize`. -/
  serialize : JsonElement → Text
  /-- `ToString("N")` of a Guid. -/
  formatGuidN : Guid → Text
  /-- `ToString("O")` of a time. -/
  formatRoundTrip : Time → Text

/-! ## Sources -/

/-- A source, with `CanSign` as `BuildSource` sets it. The weights, from which the scenarios are drawn,
are left out. -/
structure RuntimeSource where
  source : Text
  provider : Text
  secret : Option Text
  canSign : Bool
  toleranceSeconds : Int32
  canSign_eq : canSign = !isNullOrWhiteSpace secret

def normalizeScenario (p : Platform) (source : RuntimeSource) (scenario : LoadTestScenarioKind) :
    LoadTestScenarioKind :=
  if !source.canSign ∧
      (scenario = .valid ∨ scenario = .invalidSignature ∨ scenario = .expiredSignature) then
    .missingSignature
  else if !equalsIgnoreCase p source.provider "stripe".toList ∧ scenario = .expiredSignature then
    .invalidSignature
  else scenario

/-! ## Payloads -/

/-- What one request draws: the Guids, in the order in which they are made, the other random numbers
and the two times at which the clock is read. -/
structure Draws where
  replayKey : Fin 5
  correlationGuid : Guid
  firstGuid : Guid
  secondGuid : Guid
  thirdGuid : Guid
  repositoryId : Int
  deliveryGuid : Guid
  payloadAt : Time
  builtAt : Time

/-- The payloads that were built for the replay keys. -/
abbrev ReplayPayloadCache := Text → Option Text

def replayKeys (i : Fin 5) : Text :=
  match i with
  | 0 => "demo-alpha".toList
  | 1 => "demo-beta".toList
  | 2 => "demo-gamma".toList
  | 3 => "demo-delta".toList
  | 4 => "demo-epsilon".toList

def field (name : String) (value : JsonElement) : Text × JsonElement := (name.toList, value)

def literal (value : String) : JsonElement := .string value.toList

section Build

variable (p : Platform) (f : Formats)

def stripePayload (source : RuntimeSource) (draws : Draws) (correlationId : Text) : JsonElement :=
  .object
    [field "id" (.string ("evt_".toList ++ f.formatGuidN draws.firstGuid)),
      field "api_version" (literal "2022-11-15"),
      field "created" (.number (formatInt64 (toUnixTimeSeconds draws.payloadAt))),
      field "type" (literal "invoice.payment_succeeded"),
      field "livemode" (.boolean false),
      field "data" (.object
        [field "object" (.object
          [field "id" (.string ("in_".toList ++ f.formatGuidN draws.secondGuid)),
            field "object" (literal "invoice"),
            field "currency" (literal "usd"),
            field "amount_due" (.number "4200".toList),
            field "status" (literal "paid"),
            field "metadata" (.object
              [field "correlation" (.string correlationId), field "source" (.string source.source)])])])]

def gitHubPayload (draws : Draws) (correlationId : Text) : JsonElement :=
  .object
    [field "_ref" (literal "refs/heads/main"),
      field "before" (.string (f.formatGuidN draws.firstGuid)),
      field "after" (.string (f.formatGuidN draws.secondGuid)),
      field "repository" (.object
        [field "id" (.number (formatInt64 draws.repositoryId)),
          field "name" (literal "webhook-inbox-demo"),
          field "full_name" (literal "demo/webhook-inbox-demo")]),
      field "head_commit" (.object
        [field "id" (.string (f.formatGuidN draws.thirdGuid)),
          field "message" (literal "Load test commit"),
          field "timestamp" (.string (f.formatRoundTrip draws.payloadAt)),
          field "author" (.object
            [field "name" (literal "Webhook Load Tester"),
              field "email" (literal "loadtest@example.com")])]),
      field "delivery" (.string correlationId)]

def buildValidPayload (source : RuntimeSource) (draws : Draws) (correlationId : Text) : Text :=
  if source.provider.map p.toLowerInvariant = "stripe".toList then
    f.serialize (stripePayload f source draws correlationId)
  else f.serialize (gitHubPayload f draws correlationId)

structure BuiltPayload where
  text : Text
  contentType : Text := "application/json".toList
  idempotencyKey : Option Text := none

/-- A replayed payload is the one that was built first for its key. -/
def buildPayload (cache : ReplayPayloadCache) (source : RuntimeSource) (scenario : LoadTestScenarioKind)
    (draws : Draws) : BuiltPayload × ReplayPayloadCache :=
  match scenario with
  | .invalidPayload => ({ text := "\x7b\"invalid\":true".toList }, cache)
  | .replay =>
    let key := source.source ++ ':' :: replayKeys draws.replayKey
    match cache key with
    | some text => ({ text := text, idempotencyKey := some key }, cache)
    | none =>
      let text := buildValidPayload p f source draws key
      ({ text := text, idempotencyKey := some key }, Function.update cache key (some text))
  | .valid =>
    let key := source.source ++ ':' :: f.formatGuidN draws.correlationGuid
    ({ text := buildValidPayload p f source draws key, idempotencyKey := some key }, cache)
  | .invalidSignature | .missingSignature | .expiredSignature =>
    ({ text := buildValidPayload p f source draws (p.formatGuid draws.correlationGuid) }, cache)

/-! ## Requests -/

structure RequestData where
  payloadText : Text
  payloadBytes : Bytes
  contentType : Text
  idempotencyKey : Option Text
  headers : List (Text × Text)

def computeGitHubSignature (secret : Text) (payload : Bytes) : Text :=
  "sha256=".toList ++ (Hex.encode (p.hmacSha256 (Utf8.encode secret) payload)).map p.toLowerInvariant

def computeStripeSignature (secret : Text) (timestamp : Int) (payload : Text) : Text :=
  (Hex.encode (p.hmacSha256 (Utf8.encode secret)
    (Utf8.encode (formatInt64 timestamp ++ '.' :: payload)))).map p.toLowerInvariant

/-- The timestamp that is signed; `none` when `AddSeconds` leaves the range of a `DateTimeOffset`. The
sum and its negation are 32-bit. -/
def stripeTimestamp (source : RuntimeSource) (scenario : LoadTestScenarioKind) (builtAt : Time) :
    Option Int :=
  if scenario = .expiredSignature then
    let expired := addSeconds builtAt (-(source.toleranceSeconds + 120)).toInt
    if IsDateTimeOffset expired then some (toUnixTimeSeconds expired) else none
  else some (toUnixTimeSeconds builtAt)

def signatureSecret (source : RuntimeSource) (scenario : LoadTestScenarioKind) : Text :=
  if scenario = .invalidSignature then source.secret.getD [] ++ "-invalid".toList
  else source.secret.getD []

/-- The header with a signature, unless the scenario leaves it out or there is no secret. -/
def signatureHeader (source : RuntimeSource) (scenario : LoadTestScenarioKind) (name value : Text) :
    List (Text × Text) :=
  if scenario ≠ .missingSignature ∧ source.canSign then [(name, value)] else []

def deliveryId (scenario : LoadTestScenarioKind) (idempotencyKey : Option Text) (draws : Draws) : Text :=
  match idempotencyKey with
  | some key => if scenario = .replay then key else p.formatGuid draws.deliveryGuid
  | none => p.formatGuid draws.deliveryGuid

/-- The headers of the `switch` over the provider. -/
def providerHeaders (source : RuntimeSource) (scenario : LoadTestScenarioKind) (draws : Draws)
    (payload : BuiltPayload) : Option (List (Text × Text)) :=
  let provider := source.provider.map p.toLowerInvariant
  if provider = "github".toList then
    some ([("X-GitHub-Event".toList, "push".toList),
        ("X-GitHub-Delivery".toList, deliveryId p scenario payload.idempotencyKey draws)] ++
      signatureHeader source scenario "X-Hub-Signature-256".toList
        (computeGitHubSignature p (signatureSecret source scenario) (Utf8.encode payload.text)))
  else if provider = "stripe".toList then
    (stripeTimestamp source scenario draws.builtAt).map fun timestamp =>
      signatureHeader source scenario "Stripe-Signature".toList
        ("t=".toList ++ formatInt64 timestamp ++ ",v1=".toList ++
          computeStripeSignature p (signatureSecret source scenario) timestamp payload.text) ++
      [("Stripe-Webhook-Id".toList,
        payload.idempotencyKey.getD ("evt_".toList ++ f.formatGuidN draws.deliveryGuid))]
  else
    some (signatureHeader source scenario "X-Hub-Signature-256".toList
      (computeGitHubSignature p (source.secret.getD []) (Utf8.encode payload.text)))

def buildRequest (cache : ReplayPayloadCache) (source : RuntimeSource) (scenario : LoadTestScenarioKind)
    (draws : Draws) : Option (RequestData × ReplayPayloadCache) :=
  let (payload, cache) := buildPayload p f cache source scenario draws
  (providerHeaders p f source scenario draws payload).map fun headers =>
    ({ payloadText := payload.text
       payloadBytes := Utf8.encode payload.text
       contentType := payload.contentType
       idempotencyKey := payload.idempotencyKey
       headers := ("Accept".toList, "application/json".toList) :: headers }, cache)

end Build

/-- The request that `ExecuteScenarioAsync` sends. -/
def RequestData.toHttpRequest (r : RequestData) : HttpRequest where
  headers := ("Content-Type".toList, [r.contentType]) ::
    ((if isNullOrWhiteSpace r.idempotencyKey then []
        else [("Idempotency-Key".toList, [r.idempotencyKey.getD []])]) ++
      r.headers.map fun h => (h.1, [h.2]))
  body := r.payloadBytes

end WebhookInbox.LoadTest
