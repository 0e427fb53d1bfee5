import Mathlib.Algebra.Order.Group.Abs
import Mathlib.Algebra.Order.Group.Int
import WebhookInbox.Api.Verdicts

/-!
# What a Stripe signature binds

The validator takes the digest of a text that it decodes from the payload, so what a
signature binds is that text. For the UTF-8 bytes of a text these are the bytes themselves:
a header with one digest is accepted with one payload only, and a sender who takes the digest
of `t`, a dot and the bytes is accepted. A header may have digests for several payloads.
-/

namespace WebhookInbox.Api

open NetString

def StripeAccepts (p : Platform) (now : Time) (secret : Text) (toleranceSeconds : Int32)
    (req : HttpRequest) (payload : Bytes) : Prop :=
  ∃ reason, validateStripe p now secret toleranceSeconds req payload = .ok (true, reason)

/-- The value of the last `t` of the header. -/
def signedAt (sigHeader : Text) : Option Text :=
  ((splitEntries ',' sigHeader).filterMap (elementValue "t".toList)).getLast?

/-- All `v1` of the header that spell a digest spell the same one. -/
def OneDigest (sigHeader : Text) : Prop :=
  ∀ v v' digest digest', HasElement sigHeader "v1".toList v → HasElement sigHeader "v1".toList v' →
    Spells v digest → Spells v' digest' → digest = digest'

variable {p : Platform}

theorem stripeAccepts_iff {now : Time} {secret : Text} {toleranceSeconds : Int32}
    {req : HttpRequest} {payload : Bytes} {sigHeader : Text}
    (hheader : tryGetHeader p req "Stripe-Signature".toList = some sigHeader) :
    StripeAccepts p now secret toleranceSeconds req payload ↔
      ∃ t ts, signedAt sigHeader = some t ∧ tryParseInt64 t = some ts ∧
        WithinTolerance now ts toleranceSeconds ∧
        ∃ v, HasElement sigHeader "v1".toList v ∧
          Spells v (p.hmacSha256 (Utf8.encode secret) (signedPayload t payload)) := by
  rw [StripeAccepts, validateStripe_accepts_iff, hheader]
  simp only [Option.some.injEq, exists_eq_left', hasElement_iff_v1]
  rw [readElements_eq]
  exact Iff.rfl

/-- A difference that fits into the tolerance does not wrap. -/
theorem withinTolerance_of_abs_le {now : Time} {ts : Int} {toleranceSeconds : Int32}
    (h : |toUnixTimeSeconds now - ts| ≤ toleranceSeconds.toInt) :
    WithinTolerance now ts toleranceSeconds := by
  have htol := toleranceSeconds.toInt_lt
  have habs := abs_le.mp h
  have hwrap := wrapInt64_of_fits (n := toUnixTimeSeconds now - ts) (by omega) (by omega)
  unfold WithinTolerance
  rw [hwrap]
  refine ⟨?_, h⟩
  omega

/-- A digest belongs to one payload. -/
theorem payload_eq_of_hmac_eq {key t payload payload' : Bytes}
    (hhmac : Function.Injective (p.hmacSha256 key))
    (h : p.hmacSha256 key (t ++ 0x2E :: payload) = p.hmacSha256 key (t ++ 0x2E :: payload')) :
    payload = payload' :=
  (List.cons.inj (List.append_cancel_left (hhmac h))).2

/-- **What a header binds.** With payloads that are the UTF-8 bytes of texts, a header with one
digest is accepted with one payload, and the digest of the raw bytes is accepted. -/
theorem stripe_binds_payload (p : Platform) (hhmac : ∀ key, Function.Injective (p.hmacSha256 key))
    (secret : Text) (toleranceSeconds : Int32) (req : HttpRequest) (sigHeader : Text)
    (hheader : tryGetHeader p req "Stripe-Signature".toList = some sigHeader) :
    (∀ now now' payload payload', Utf8.WellFormed payload → Utf8.WellFormed payload' →
        OneDigest sigHeader → StripeAccepts p now secret toleranceSeconds req payload →
        StripeAccepts p now' secret toleranceSeconds req payload' → payload = payload') ∧
      ∀ now payload t ts v, Utf8.WellFormed payload → signedAt sigHeader = some t →
        tryParseInt64 t = some ts → |toUnixTimeSeconds now - ts| ≤ toleranceSeconds.toInt →
        HasElement sigHeader "v1".toList v →
        Spells v (p.hmacSha256 (Utf8.encode secret) (Utf8.encode t ++ 0x2E :: payload)) →
        StripeAccepts p now secret toleranceSeconds req payload := by
  constructor
  · intro now now' payload payload' hwell hwell' hone haccept haccept'
    obtain ⟨t, -, ht, -, -, v, hv, hspells⟩ := (stripeAccepts_iff hheader).mp haccept
    obtain ⟨t', -, ht', -, -, v', hv', hspells'⟩ := (stripeAccepts_iff hheader).mp haccept'
    rw [ht] at ht'
    cases ht'
    have hdigest := hone v v' _ _ hv hv' hspells hspells'
    rw [signedPayload_of_wellFormed hwell, signedPayload_of_wellFormed hwell'] at hdigest
    exact payload_eq_of_hmac_eq (hhmac _) hdigest
  · intro now payload t ts v hwell ht hts htol hv hspells
    rw [← signedPayload_of_wellFormed hwell] at hspells
    exact (stripeAccepts_iff hheader).mpr
      ⟨t, ts, ht, hts, withinTolerance_of_abs_le htol, v, hv, hspells⟩

theorem oneDigest_of_readElements {sigHeader v : Text}
    (h : (readElements (splitEntries ',' sigHeader)).2 = [v]) : OneDigest sigHeader := by
  intro v₁ v₂ digest digest' hv₁ hv₂ hspells hspells'
  rw [← hasElement_iff_v1, h, List.mem_singleton] at hv₁ hv₂
  rw [hv₁] at hspells
  rw [hv₂] at hspells'
  exact Hex.encode_injective (hspells.symm.trans hspells')

/-! ## Headers that bind less -/

/-- The platform with the digests, under the secret `whsec`, of `1700000000.` followed by
`a`, by `b`, by the bytes of U+FFFD and by the byte `FF`. -/
def stripePlatform : Platform :=
  Platform.ascii (tableDigest []) fun _ => tableDigest
    [(Utf8.encode "1700000000.a".toList,
        "d8cdb672c348ab5392e5e390c3cba5fb7d3559e4f9352a87078cc56a318678e7"),
      (Utf8.encode "1700000000.b".toList,
        "f1d97bd4f9bf80d18ec40c3ccf99feffda6b4c1f9a45743d708d9f3b1f3c02e1"),
      (Utf8.encode "1700000000.".toList ++ [0xEF, 0xBF, 0xBD],
        "b8f770c9b83454955c4816eca1ace745754f08ddfc951bde3b7e05eacd15ef51"),
      (Utf8.encode "1700000000.".toList ++ [0xFF],
        "8191bf7a7d46b7875dc48fb2e157bec9c9587a076903a27e6edefd280e8362ad")]

theorem stripePlatform_injective (key : Bytes) : Function.Injective (stripePlatform.hmacSha256 key) :=
  tableDigest_injective (by decide) (by decide)

def stripeRequest (sigHeader : String) : HttpRequest where
  headers := [("Stripe-Signature".toList, [sigHeader.toList])]
  body := []

/-- The request is accepted with the payload, at the time of its timestamp. -/
def AcceptsAtOnce (sigHeader : String) (payload : Bytes) : Prop :=
  StripeAccepts stripePlatform 17000000000000000 "whsec".toList 300 (stripeRequest sigHeader) payload

def headerForA : String :=
  "t=1700000000,v1=d8cdb672c348ab5392e5e390c3cba5fb7d3559e4f9352a87078cc56a318678e7"

def headerForAAndB : String := headerForA ++
  ",v1=f1d97bd4f9bf80d18ec40c3ccf99feffda6b4c1f9a45743d708d9f3b1f3c02e1"

def headerForReplacement : String :=
  "t=1700000000,v1=b8f770c9b83454955c4816eca1ace745754f08ddfc951bde3b7e05eacd15ef51"

def headerForFF : String :=
  "t=1700000000,v1=8191bf7a7d46b7875dc48fb2e157bec9c9587a076903a27e6edefd280e8362ad"

theorem stripe_binds_a :
    AcceptsAtOnce headerForA (Utf8.encode "a".toList) ∧
      ¬ AcceptsAtOnce headerForA (Utf8.encode "b".toList) := by
  have hbinds := stripe_binds_payload stripePlatform stripePlatform_injective "whsec".toList 300
    (stripeRequest headerForA) headerForA.toList (by decide)
  have haccept : AcceptsAtOnce headerForA (Utf8.encode "a".toList) :=
    hbinds.2 17000000000000000 _ "1700000000".toList 1700000000
      "d8cdb672c348ab5392e5e390c3cba5fb7d3559e4f9352a87078cc56a318678e7".toList ⟨_, rfl⟩ (by decide)
      (by decide) (by decide) (by unfold HasElement; decide) (by unfold Spells; decide)
  refine ⟨haccept, fun hb => ?_⟩
  have heq := hbinds.1 _ _ _ _ ⟨_, rfl⟩ ⟨_, rfl⟩ (oneDigest_of_readElements rfl) haccept hb
  exact absurd heq (by decide)

set_option maxRecDepth 2000 in
/-- A header with two digests is accepted with two payloads. A header with the digest for
U+FFFD is accepted with any byte that is no UTF-8, and the digest of the raw bytes is not. -/
theorem stripe_binds_less :
    (∀ key, Function.Injective (stripePlatform.hmacSha256 key)) ∧
    (AcceptsAtOnce headerForAAndB (Utf8.encode "a".toList) ∧
      AcceptsAtOnce headerForAAndB (Utf8.encode "b".toList)) ∧
    (AcceptsAtOnce headerForReplacement [0xFF] ∧ AcceptsAtOnce headerForReplacement [0xFE]) ∧
    (signedAt headerForFF.toList = some "1700000000".toList ∧
      HasElement headerForFF.toList "v1".toList
        "8191bf7a7d46b7875dc48fb2e157bec9c9587a076903a27e6edefd280e8362ad".toList ∧
      Spells "8191bf7a7d46b7875dc48fb2e157bec9c9587a076903a27e6edefd280e8362ad".toList
        (stripePlatform.hmacSha256 (Utf8.encode "whsec".toList)
          (Utf8.encode "1700000000".toList ++ [0x2E, 0xFF])) ∧
      ¬ AcceptsAtOnce headerForFF [0xFF]) := by
  refine ⟨stripePlatform_injective, ⟨⟨none, rfl⟩, ⟨none, rfl⟩⟩, ⟨⟨none, rfl⟩, ⟨none, rfl⟩⟩,
    by decide, by unfold HasElement; decide, by unfold Spells; decide, ?_⟩
  rintro ⟨reason, h⟩
  cases h

end WebhookInbox.Api
