import WebhookInbox.Api.Inbox
import WebhookInbox.Api.Verdicts

/-!
# What a key says about its request

The key of a request joins its source and the text of its identifier. Three kinds of
identifier share one key space, so equal keys say that the texts are equal, and within a
kind that the identifiers are. The text of a signature header is the identifier as it was
sent: an accepted signature can be spelled in several ways, and so can the source.
-/

namespace WebhookInbox.Api

open NetString

/-- What identifies a request. -/
inductive Identifier where
  | explicit (value : Text)
  | hubSignature (value : Text)
  | payloadHash (payload : Bytes)
  deriving DecidableEq

inductive IdentifierKind where
  | explicit
  | hubSignature
  | payloadHash
  deriving DecidableEq

def Identifier.kind : Identifier → IdentifierKind
  | .explicit _ => .explicit
  | .hubSignature _ => .hubSignature
  | .payloadHash _ => .payloadHash

def Identifier.text (p : Platform) : Identifier → Text
  | .explicit value => value
  | .hubSignature value => value
  | .payloadHash payload => Hex.encode (p.sha256 payload)

def identifier (p : Platform) (req : HttpRequest) : Identifier :=
  match (nonBlankHeader p req "Idempotency-Key".toList).or
      (nonBlankHeader p req "X-Idempotency-Key".toList) with
  | some value => .explicit value
  | none =>
    match nonBlankHeader p req "X-Hub-Signature-256".toList with
    | some value => .hubSignature value
    | none => .payloadHash req.body

variable {p : Platform}

/-- The resolver returns the text of the identifier. -/
theorem resolve_eq_text (p : Platform) (req : HttpRequest) :
    resolve p req req.body = (identifier p req).text p := by
  unfold resolve identifier
  cases nonBlankHeader p req "Idempotency-Key".toList with
  | some value => rfl
  | none =>
    cases nonBlankHeader p req "X-Idempotency-Key".toList with
    | some value => rfl
    | none =>
      cases nonBlankHeader p req "X-Hub-Signature-256".toList with
      | some value => rfl
      | none => rfl

theorem Identifier.eq_of_text_eq (hsha : Function.Injective p.sha256) {a b : Identifier}
    (hkind : a.kind = b.kind) (htext : a.text p = b.text p) : a = b := by
  cases a with
  | explicit value =>
    cases b with
    | explicit => exact congrArg Identifier.explicit htext
    | hubSignature => cases hkind
    | payloadHash => cases hkind
  | hubSignature value =>
    cases b with
    | explicit => cases hkind
    | hubSignature => exact congrArg Identifier.hubSignature htext
    | payloadHash => cases hkind
  | payloadHash payload =>
    cases b with
    | explicit => cases hkind
    | hubSignature => cases hkind
    | payloadHash => exact congrArg Identifier.payloadHash (hsha (Hex.encode_injective htext))

/-! ## The separator -/

/-- One source is the other, a colon and more text. -/
def Overlap (source source' : Text) : Prop :=
  ∃ rest, source' = source ++ ':' :: rest ∨ source = source' ++ ':' :: rest

theorem namespaced_inj {source source' key key' : Text} (hseparate : ¬ Overlap source source')
    (h : namespaced source key = namespaced source' key') : source = source' ∧ key = key' := by
  unfold namespaced at h
  rw [List.append_assoc, List.append_assoc] at h
  -- the longer of the two sources ends inside the other's key
  rcases List.append_eq_append_iff.mp (List.append_cancel_left h) with ⟨rest, hs, hk⟩ | ⟨rest, hs, hk⟩
  · cases rest with
    | nil =>
      rw [List.append_nil] at hs
      exact ⟨hs.symm, (List.cons.inj hk).2⟩
    | cons c rest =>
      have hc := (List.cons.inj hk).1
      exact absurd ⟨rest, Or.inl (by rw [hs, hc])⟩ hseparate
  · cases rest with
    | nil =>
      rw [List.append_nil] at hs
      exact ⟨hs, (List.cons.inj hk).2.symm⟩
    | cons c rest =>
      have hc := (List.cons.inj hk).1
      exact absurd ⟨rest, Or.inr (by rw [hs, hc])⟩ hseparate

theorem not_overlap_of_length_eq {source source' : Text} (h : source.length = source'.length) :
    ¬ Overlap source source' := by
  rintro ⟨rest, hs | hs⟩
  · have hlen := congrArg List.length hs
    rw [List.length_append, List.length_cons] at hlen
    omega
  · have hlen := congrArg List.length hs
    rw [List.length_append, List.length_cons] at hlen
    omega

/-- **Shared keys.** Requests with one key have one source, when neither source continues the
other after a colon, and identifiers with one text. Within a kind the identifiers are equal. -/
theorem identifier_eq_of_inboxKey_eq (srv : Server) (hsha : Function.Injective srv.platform.sha256)
    (req req' : InboxRequest) (hseparate : ¬ Overlap req.source req'.source)
    (hkey : inboxKey srv req = inboxKey srv req') :
    req.source = req'.source ∧
      (identifier srv.platform req.http).text srv.platform =
        (identifier srv.platform req'.http).text srv.platform ∧
      ((identifier srv.platform req.http).kind = (identifier srv.platform req'.http).kind →
        identifier srv.platform req.http = identifier srv.platform req'.http) := by
  obtain ⟨hsource, htext⟩ := namespaced_inj hseparate hkey
  rw [resolve_eq_text, resolve_eq_text] at htext
  exact ⟨hsource, htext, fun hkind => Identifier.eq_of_text_eq hsha hkind htext⟩

/-- A server whose table has the SHA-256 of `{}`. -/
def hashServer : Server where
  platform := Platform.ascii
    (tableDigest [([0x7B, 0x7D], "44136fa355b3678a1146ad16f7e8649e94fb4fc21fe77e8310c060f61caaff8a")])
    fun _ => tableDigest []

theorem hashServer_injective : Function.Injective hashServer.platform.sha256 :=
  tableDigest_injective (by decide) (by decide)

def keyedRequest (source header value body : String) : InboxRequest where
  source := source.toList
  http := { headers := [(header.toList, [value.toList])], body := Utf8.encode body.toList }

theorem identifier_eq_of_retried :
    identifier hashServer.platform (keyedRequest "shop" "Idempotency-Key" "order-7" "{}").http =
      identifier hashServer.platform (keyedRequest "shop" "x-idempotency-key" "order-7" "[]").http :=
  (identifier_eq_of_inboxKey_eq hashServer hashServer_injective
    (keyedRequest "shop" "Idempotency-Key" "order-7" "{}")
    (keyedRequest "shop" "x-idempotency-key" "order-7" "[]")
    (not_overlap_of_length_eq rfl) (by decide)).2.2 (by decide)

/-- An explicit key can spell the digest of another request's payload, and a source can take
a part of another request's key. -/
theorem keys_shared :
    Function.Injective hashServer.platform.sha256 ∧
    (inboxKey hashServer (keyedRequest "shop" "Idempotency-Key"
          "44136FA355B3678A1146AD16F7E8649E94FB4FC21FE77E8310C060F61CAAFF8A" "[]") =
        inboxKey hashServer (keyedRequest "shop" "Accept" "*/*" "{}") ∧
      (identifier hashServer.platform (keyedRequest "shop" "Idempotency-Key"
          "44136FA355B3678A1146AD16F7E8649E94FB4FC21FE77E8310C060F61CAAFF8A" "[]").http).kind ≠
        (identifier hashServer.platform (keyedRequest "shop" "Accept" "*/*" "{}").http).kind) ∧
    (inboxKey hashServer (keyedRequest "a" "Idempotency-Key" "b:c" "{}") =
        inboxKey hashServer (keyedRequest "a:b" "Idempotency-Key" "c" "[]") ∧
      (keyedRequest "a" "Idempotency-Key" "b:c" "{}").source ≠
        (keyedRequest "a:b" "Idempotency-Key" "c" "[]").source) :=
  ⟨hashServer_injective, by decide, by decide⟩

end WebhookInbox.Api
