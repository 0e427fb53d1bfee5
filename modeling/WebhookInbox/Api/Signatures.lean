import Mathlib.Algebra.Group.Nat.Defs
import Mathlib.Algebra.Order.Group.Unbundled.Int
import WebhookInbox.Api.Http
import WebhookInbox.Library.Hex

/-!
# `SignatureValidator`

The validator and its two providers. A verdict is whether the request is accepted, and the
reason. `Raise` is an exception that leaves the method: a configuration without a provider
is dereferenced, and `Math.Abs` refuses the smallest 64-bit integer.
-/

namespace WebhookInbox.Api

open NetString

structure SourceSignatureConfig where
  source : Option Text := none
  provider : Option Text := none
  secret : Option Text := none
  require : Bool := true
  toleranceSeconds : Int32 := 300
  deriving DecidableEq

structure SignatureOptions where
  sources : List SourceSignatureConfig := []

inductive Raise where
  | nullReference
  | overflow
  deriving DecidableEq, Repr

abbrev Verdict := Bool × Option Text

/-- `ToUnixTimeSeconds`. -/
def toUnixTimeSeconds (now : Time) : Int := now / 10000000

/-- 64-bit arithmetic that wraps around. -/
def wrapInt64 (n : Int) : Int := n.bmod (2 ^ 64)

theorem wrapInt64_of_fits {n : Int} (h : -2 ^ 63 ≤ n) (h' : n < 2 ^ 63) : wrapInt64 n = n := by
  unfold wrapInt64
  apply Int.bmod_eq_of_le <;> omega

def tryParseHex (hex : Text) : Option Bytes :=
  if hex.length % 2 ≠ 0 then none else Hex.decode? hex

def fixedTimeEquals (a b : Bytes) : Bool :=
  if a.length ≠ b.length then false
  else (a.zip b).foldl (fun diff x => diff ||| (x.1 ^^^ x.2)) 0 == 0

variable (p : Platform)

def validateGitHub (secret : Text) (req : HttpRequest) (payload : Bytes) : Verdict :=
  match tryGetHeader p req "X-Hub-Signature-256".toList with
  | none => (false, some "missing:X-Hub-Signature-256".toList)
  | some provided =>
    let beginning := "sha256=".toList
    if !startsWithIgnoreCase p provided beginning then (false, some "bad-format".toList)
    else
      match tryParseHex (provided.drop beginning.length) with
      | none => (false, some "bad-hex".toList)
      | some providedBytes =>
        let computed := p.hmacSha256 (Utf8.encode secret) payload
        if fixedTimeEquals computed providedBytes then (true, none)
        else (false, some "mismatch".toList)

/-- The body of the loop over the elements of the header. -/
def readElement (found : Option Text × List Text) (part : Text) : Option Text × List Text :=
  match splitPair '=' part with
  | none => found
  | some (name, value) =>
    (if name = "t".toList then some value else found.1,
      if name = "v1".toList then found.2 ++ [value] else found.2)

/-- The last `t` and every `v1`. -/
def readElements (parts : List Text) : Option Text × List Text := parts.foldl readElement (none, [])

/-- The bytes whose digest the source signs, as the validator rebuilds them. -/
def signedPayload (t : Text) (payload : Bytes) : Bytes :=
  Utf8.encode (t ++ '.' :: Utf8.decode payload)

def validateStripe (now : Time) (secret : Text) (toleranceSeconds : Int32) (req : HttpRequest)
    (payload : Bytes) : Except Raise Verdict :=
  match tryGetHeader p req "Stripe-Signature".toList with
  | none => .ok (false, some "missing:Stripe-Signature".toList)
  | some sigHeader =>
    let (t, v1) := readElements (splitEntries ',' sigHeader)
    match t with
    | none => .ok (false, some "bad-format".toList)
    | some t =>
      if isNullOrWhiteSpace (some t) || v1.isEmpty then .ok (false, some "bad-format".toList)
      else
        match tryParseInt64 t with
        | none => .ok (false, some "bad-timestamp".toList)
        | some ts =>
          let difference := wrapInt64 (toUnixTimeSeconds now - ts)
          if difference = -2 ^ 63 then .error .overflow
          else if |difference| > toleranceSeconds.toInt then
            .ok (false, some "timestamp-out-of-tolerance".toList)
          else
            let computed := p.hmacSha256 (Utf8.encode secret) (signedPayload t payload)
            if v1.any fun candidate => (tryParseHex candidate).any (fixedTimeEquals computed) then
              .ok (true, none)
            else .ok (false, some "mismatch".toList)

/-- The first configuration of the source. -/
def selectConfig (opts : SignatureOptions) (source : Text) : Option SourceSignatureConfig :=
  opts.sources.find? fun s => s.source.any fun name => equalsIgnoreCase p name source

def validateAsync (opts : SignatureOptions) (now : Time) (source : Text) (req : HttpRequest)
    (payload : Bytes) : Except Raise Verdict :=
  match selectConfig p opts source with
  | none => .ok (true, some "no-config".toList)
  | some cfg =>
    if !cfg.require then .ok (true, some "skipped".toList)
    else
      match cfg.secret with
      | none => .ok (false, some "secret-missing".toList)
      | some secret =>
        if isNullOrWhiteSpace (some secret) then .ok (false, some "secret-missing".toList)
        else
          match cfg.provider with
          | none => .error .nullReference
          | some provider =>
            if provider.map p.toLowerInvariant = "github".toList then
              .ok (validateGitHub p secret req payload)
            else if provider.map p.toLowerInvariant = "stripe".toList then
              validateStripe p now secret cfg.toleranceSeconds req payload
            else .ok (false, some ("unknown-provider:".toList ++ provider))

/-- The request is accepted. -/
def Accepts (opts : SignatureOptions) (now : Time) (source : Text) (req : HttpRequest)
    (payload : Bytes) : Prop :=
  ∃ reason, validateAsync p opts now source req payload = .ok (true, reason)

end WebhookInbox.Api
