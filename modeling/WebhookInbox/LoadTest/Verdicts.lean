import WebhookInbox.LoadTest.Requests

/-!
# The verdicts of the API on the requests of the load generator

Two implementations of each scheme: the load generator writes a header from a digest, the API
reads the digest back. The verdicts on written headers (`validateGitHub_written`,
`validateStripe_written`) compare the digests and, for Stripe, the time. With digests that tell
secrets apart, the verdict on a built request depends on the scenario and the time only
(`verdict_gitHub`, `verdict_stripe`).
-/

namespace WebhookInbox.LoadTest

open Api NetString

variable {p : Platform}

/-! ## Lower-case digits -/

/-- The digits of a digest as the load generator writes them. -/
def lowerHex (p : Platform) (digest : Bytes) : Text := (Hex.encode digest).map p.toLowerInvariant

section Lower

variable (hlower : ∀ c, c.toNat < 128 → p.toLowerInvariant c = c.toLower)

include hlower in
theorem lowerHex_eq (digest : Bytes) : lowerHex p digest = (Hex.encode digest).map Char.toLower := by
  apply List.map_congr_left
  intro c hc
  have := Hex.toNat_lt_of_mem_encode hc
  exact hlower c (by omega)

include hlower in
theorem spells_lowerHex {digest bytes : Bytes} : Spells (lowerHex p digest) bytes ↔ bytes = digest := by
  have hupper : (lowerHex p digest).map Char.toUpper = Hex.encode digest := by
    rw [lowerHex_eq hlower, Hex.map_toUpper_map_toLower, Hex.map_toUpper_encode]
  rw [Spells, hupper]
  exact ⟨fun h => (Hex.encode_injective h).symm, fun h => by rw [h]⟩

theorem lower_digit_visible :
    ∀ n < 16, (Hex.digit n).toLower ≠ ',' ∧ isWhiteSpace (Hex.digit n).toLower = false := by
  decide

include hlower in
theorem lowerHex_visible {digest : Bytes} {c : Char} (h : c ∈ lowerHex p digest) :
    c ≠ ',' ∧ isWhiteSpace c = false := by
  rw [lowerHex_eq hlower] at h
  obtain ⟨d, hd, rfl⟩ := List.mem_map.mp h
  obtain ⟨n, hn, rfl⟩ := Hex.exists_digit_of_mem_encode hd
  exact lower_digit_visible n hn

end Lower

/-! ## The verdicts on written headers -/

/-- The header that `ComputeStripeSignature` is written into. -/
def stripeHeader (ts : Int) (signature : Text) : Text :=
  "t=".toList ++ formatInt64 ts ++ ",v1=".toList ++ signature

/-- No comma and no white space. -/
def Plain (text : Text) : Prop := ∀ c ∈ text, c ≠ ',' ∧ isWhiteSpace c = false

-- Stated for lists: as a statement about all characters it would be decided by trying them.
instance decidablePlain (text : Text) : Decidable (Plain text) :=
  List.decidableBAll (fun c : Char => c ≠ ',' ∧ isWhiteSpace c = false) text

theorem Plain.append {a b : Text} (ha : Plain a) (hb : Plain b) : Plain (a ++ b) := by
  intro c hc
  rcases List.mem_append.mp hc with hc | hc
  · exact ha c hc
  · exact hb c hc

theorem splitEntries_stripeHeader (ts : Int) {signature : Text} (hplain : Plain signature) :
    splitEntries ',' (stripeHeader ts signature) =
      ["t=".toList ++ formatInt64 ts, "v1=".toList ++ signature] := by
  have happend : stripeHeader ts signature =
      ("t=".toList ++ formatInt64 ts) ++ ',' :: ("v1=".toList ++ signature) := by
    simp [stripeHeader]
  have ht : Plain "t=".toList := by decide
  have hv1 : Plain "v1=".toList := by decide
  have hfirst := ht.append fun c hc => formatInt64_visible (n := ts) hc
  have hsecond := hv1.append hplain
  rw [happend, splitEntries_cons (by simp) (fun h => (hfirst _ h).1 rfl) fun c hc => (hfirst c hc).2,
    splitEntries_single (by simp) (fun h => (hsecond _ h).1 rfl) fun c hc => (hsecond c hc).2]

theorem readElements_stripeHeader (ts : Int) {signature : Text} (hplain : Plain signature) :
    readElements (splitEntries ',' (stripeHeader ts signature)) = (some (formatInt64 ts), [signature]) := by
  have ht : splitPair '=' ("t=".toList ++ formatInt64 ts) = some ("t".toList, formatInt64 ts) :=
    splitPair_eq_some_iff.mpr ⟨rfl, by decide⟩
  have hv1 : splitPair '=' ("v1=".toList ++ signature) = some ("v1".toList, signature) :=
    splitPair_eq_some_iff.mpr ⟨rfl, by decide⟩
  rw [splitEntries_stripeHeader ts hplain, readElements, List.foldl_cons, List.foldl_cons,
    List.foldl_nil]
  simp only [readElement, ht, hv1]
  rfl

section Verdicts

variable (hlower : ∀ c, c.toNat < 128 → p.toLowerInvariant c = c.toLower)

include hlower in
/-- **GitHub**: the verdict compares the digests. -/
theorem validateGitHub_written {secret : Text} {req : HttpRequest} {payload digest : Bytes}
    (hheader : tryGetHeader p req "X-Hub-Signature-256".toList =
      some ("sha256=".toList ++ lowerHex p digest)) :
    validateGitHub p secret req payload =
      if p.hmacSha256 (Utf8.encode secret) payload = digest then (true, none)
      else (false, some "mismatch".toList) := by
  have hstart : startsWithIgnoreCase p ("sha256=".toList ++ lowerHex p digest) "sha256=".toList = true :=
    (equalsIgnoreCase_iff p).mpr rfl
  have hhex : tryParseHex (lowerHex p digest) = some digest :=
    tryParseHex_eq_some_iff.mpr ((spells_lowerHex hlower).mpr rfl)
  unfold validateGitHub
  rw [hheader]
  dsimp only
  rw [hstart, List.drop_left, hhex]
  simp only [Bool.not_true, Bool.false_eq_true, if_false, fixedTimeEquals_iff]

include hlower in
/-- **Stripe**: the verdict compares the time, then the digests. -/
theorem validateStripe_written {now : Time} {secret : Text} {toleranceSeconds : Int32}
    {req : HttpRequest} {payload : Text} {digest : Bytes} {ts : Int}
    (hts : -2 ^ 63 ≤ ts ∧ ts < 2 ^ 63) (hdifference : |toUnixTimeSeconds now - ts| < 2 ^ 63)
    (hheader : tryGetHeader p req "Stripe-Signature".toList = some (stripeHeader ts (lowerHex p digest))) :
    validateStripe p now secret toleranceSeconds req (Utf8.encode payload) =
      if |toUnixTimeSeconds now - ts| > toleranceSeconds.toInt then
        .ok (false, some "timestamp-out-of-tolerance".toList)
      else if p.hmacSha256 (Utf8.encode secret) (Utf8.encode (formatInt64 ts ++ '.' :: payload)) = digest then
        .ok (true, none)
      else .ok (false, some "mismatch".toList) := by
  have hparse := tryParseInt64_formatInt64 hts.1 hts.2
  have hplain : Plain (lowerHex p digest) := fun c hc => lowerHex_visible hlower hc
  obtain ⟨hlow, hhigh⟩ := abs_lt.mp hdifference
  have hwrap := wrapInt64_of_fits (n := toUnixTimeSeconds now - ts) (by omega) (by omega)
  unfold validateStripe
  rw [hheader]
  dsimp only
  rw [readElements_stripeHeader ts hplain]
  dsimp only
  rw [isNullOrWhiteSpace_of_tryParseInt64 hparse, hparse]
  dsimp only
  rw [hwrap, signedPayload, Utf8.decode_encode]
  have hmin : ¬ toUnixTimeSeconds now - ts = -2 ^ 63 := by omega
  simp only [List.isEmpty_cons, Bool.or_self, Bool.false_eq_true, if_false, any_candidate_iff,
    List.mem_singleton, exists_eq_left, spells_lowerHex hlower]
  rw [if_neg hmin]

end Verdicts

/-! ## The headers of a built request -/

def IsAscii (text : Text) : Prop := ∀ c ∈ text, c.toNat < 128

instance decidableIsAscii (text : Text) : Decidable (IsAscii text) :=
  List.decidableBAll (fun c : Char => c.toNat < 128) text

/-- Two headers are added before those of `RequestData`. -/
theorem tryGetHeader_toHttpRequest {r : RequestData} {name : Text}
    (hcontent : equalsIgnoreCase p "Content-Type".toList name = false)
    (hkey : equalsIgnoreCase p "Idempotency-Key".toList name = false) :
    tryGetHeader p r.toHttpRequest name =
      (r.headers.find? fun h => equalsIgnoreCase p h.1 name).map Prod.snd := by
  unfold tryGetHeader RequestData.toHttpRequest
  dsimp only
  rw [List.find?_cons_of_neg (by rw [hcontent]; exact Bool.false_ne_true), List.find?_append,
    List.find?_map]
  have hnone : (if isNullOrWhiteSpace r.idempotencyKey then []
      else [("Idempotency-Key".toList, [r.idempotencyKey.getD []])]).find?
        (fun h => equalsIgnoreCase p h.1 name) = none := by
    split
    · rfl
    · rw [List.find?_cons_of_neg (by rw [hkey]; exact Bool.false_ne_true), List.find?_nil]
  rw [hnone, Option.none_or, Option.map_map]
  congr 1
  funext h
  exact join_singleton h.2

section Build

variable {f : Formats} {cache : ReplayPayloadCache} {source : RuntimeSource}
  {scenario : LoadTestScenarioKind} {draws : Draws}

/-- The text of the payload of a request. -/
def payloadText (p : Platform) (f : Formats) (cache : ReplayPayloadCache) (source : RuntimeSource)
    (scenario : LoadTestScenarioKind) (draws : Draws) : Text :=
  (buildPayload p f cache source scenario draws).1.text

/-- A request is built from the headers of its provider. -/
theorem buildRequest_of_providerHeaders {headers : List (Text × Text)}
    (h : providerHeaders p f source scenario draws (buildPayload p f cache source scenario draws).1 =
      some headers) :
    ∃ r cache', buildRequest p f cache source scenario draws = some (r, cache') ∧
      r.payloadBytes = Utf8.encode (payloadText p f cache source scenario draws) ∧
      r.headers = ("Accept".toList, "application/json".toList) :: headers := by
  unfold buildRequest
  dsimp only
  rw [h]
  exact ⟨_, _, rfl, rfl, rfl⟩

/-- The headers that stand before and behind the signature have other names. -/
theorem tryGetHeader_signature (hsign : source.canSign = true) {r : RequestData} {name value : Text}
    {before after : List (Text × Text)}
    (hheaders : r.headers = before ++ (signatureHeader source scenario name value ++ after))
    (hdiffers : ∀ other ∈ ["Content-Type".toList, "Idempotency-Key".toList] ++
      before.map Prod.fst ++ after.map Prod.fst, equalsIgnoreCase p other name = false) :
    tryGetHeader p r.toHttpRequest name = if scenario = .missingSignature then none else some value := by
  have hbefore : before.find? (fun h => equalsIgnoreCase p h.1 name) = none := by
    rw [List.find?_eq_none]
    intro h hmem
    rw [hdiffers h.1 (by simp [List.mem_map_of_mem hmem])]
    exact Bool.false_ne_true
  have hafter : after.find? (fun h => equalsIgnoreCase p h.1 name) = none := by
    rw [List.find?_eq_none]
    intro h hmem
    rw [hdiffers h.1 (by simp [List.mem_map_of_mem hmem])]
    exact Bool.false_ne_true
  have hself : equalsIgnoreCase p name name = true := equalsIgnoreCase_refl name
  rw [tryGetHeader_toHttpRequest (hdiffers _ (by simp)) (hdiffers _ (by simp)), hheaders,
    List.find?_append, List.find?_append, hbefore, hafter, Option.none_or, Option.or_none]
  unfold signatureHeader
  by_cases hmissing : scenario = .missingSignature
  · rw [if_neg fun h => h.1 hmissing, if_pos hmissing]
    rfl
  · rw [if_pos ⟨hmissing, hsign⟩, if_neg hmissing]
    simp only [List.find?_cons, hself, Option.map_some]

theorem differs_of_ascii {name : Text} {others : List Text} (hname : IsAscii name)
    (h : ∀ other ∈ others, IsAscii other ∧
      (other.map Char.toUpper == name.map Char.toUpper) = false) :
    ∀ other ∈ others, equalsIgnoreCase p other name = false := by
  intro other hother
  rw [equalsIgnoreCase_of_ascii (h other hother).1 hname]
  exact (h other hother).2

theorem buildRequest_gitHub (hprovider : source.provider.map p.toLowerInvariant = "github".toList)
    (hsign : source.canSign = true) :
    ∃ r cache', buildRequest p f cache source scenario draws = some (r, cache') ∧
      r.payloadBytes = Utf8.encode (payloadText p f cache source scenario draws) ∧
      tryGetHeader p r.toHttpRequest "X-Hub-Signature-256".toList =
        if scenario = .missingSignature then none
        else some ("sha256=".toList ++ lowerHex p (p.hmacSha256
          (Utf8.encode (signatureSecret source scenario)) r.payloadBytes)) := by
  have hswitch : providerHeaders p f source scenario draws
      (buildPayload p f cache source scenario draws).1 = some _ := if_pos hprovider
  obtain ⟨r, cache', hbuilt, hpayload, hheaders⟩ := buildRequest_of_providerHeaders hswitch
  have hsplit : r.headers = [("Accept".toList, "application/json".toList),
      ("X-GitHub-Event".toList, "push".toList), ("X-GitHub-Delivery".toList,
        deliveryId p scenario (buildPayload p f cache source scenario draws).1.idempotencyKey draws)] ++
      (signatureHeader source scenario "X-Hub-Signature-256".toList
        (computeGitHubSignature p (signatureSecret source scenario) r.payloadBytes) ++ []) := by
    rw [hheaders, hpayload, List.append_nil]
    rfl
  refine ⟨r, cache', hbuilt, hpayload, tryGetHeader_signature hsign hsplit ?_⟩
  have hnames : ∀ other ∈ ["Content-Type".toList, "Idempotency-Key".toList, "Accept".toList,
      "X-GitHub-Event".toList, "X-GitHub-Delivery".toList], IsAscii other ∧
      (other.map Char.toUpper == "X-Hub-Signature-256".toList.map Char.toUpper) = false := by decide
  exact differs_of_ascii (by decide) hnames

theorem buildRequest_stripe (hprovider : source.provider.map p.toLowerInvariant = "stripe".toList)
    (hsign : source.canSign = true) {ts : Int}
    (hts : stripeTimestamp source scenario draws.builtAt = some ts) :
    ∃ r cache', buildRequest p f cache source scenario draws = some (r, cache') ∧
      r.payloadBytes = Utf8.encode (payloadText p f cache source scenario draws) ∧
      tryGetHeader p r.toHttpRequest "Stripe-Signature".toList =
        if scenario = .missingSignature then none
        else some (stripeHeader ts (lowerHex p (p.hmacSha256
          (Utf8.encode (signatureSecret source scenario)) (Utf8.encode
            (formatInt64 ts ++ '.' :: payloadText p f cache source scenario draws))))) := by
  have hgitHub : ¬ source.provider.map p.toLowerInvariant = "github".toList := by
    rw [hprovider]
    decide
  have hswitch : providerHeaders p f source scenario draws
      (buildPayload p f cache source scenario draws).1 = some _ :=
    (if_neg hgitHub).trans ((if_pos hprovider).trans (by rw [hts]; rfl))
  obtain ⟨r, cache', hbuilt, hpayload, hheaders⟩ := buildRequest_of_providerHeaders hswitch
  have hsplit : r.headers = [("Accept".toList, "application/json".toList)] ++
      (signatureHeader source scenario "Stripe-Signature".toList
        (stripeHeader ts (lowerHex p (p.hmacSha256 (Utf8.encode (signatureSecret source scenario))
          (Utf8.encode (formatInt64 ts ++ '.' :: payloadText p f cache source scenario draws))))) ++
        [("Stripe-Webhook-Id".toList,
          (buildPayload p f cache source scenario draws).1.idempotencyKey.getD
            ("evt_".toList ++ f.formatGuidN draws.deliveryGuid))]) := by
    rw [hheaders]
    rfl
  refine ⟨r, cache', hbuilt, hpayload, tryGetHeader_signature hsign hsplit ?_⟩
  have hnames : ∀ other ∈ ["Content-Type".toList, "Idempotency-Key".toList, "Accept".toList,
      "Stripe-Webhook-Id".toList], IsAscii other ∧
      (other.map Char.toUpper == "Stripe-Signature".toList.map Char.toUpper) = false := by decide
  exact differs_of_ascii (by decide) hnames

/-- No request is built when `AddSeconds` raises. -/
theorem buildRequest_eq_none (hprovider : source.provider.map p.toLowerInvariant = "stripe".toList)
    (hts : stripeTimestamp source scenario draws.builtAt = none) :
    buildRequest p f cache source scenario draws = none := by
  have hgitHub : ¬ source.provider.map p.toLowerInvariant = "github".toList := by
    rw [hprovider]
    decide
  have hswitch : providerHeaders p f source scenario draws
      (buildPayload p f cache source scenario draws).1 = none :=
    (if_neg hgitHub).trans ((if_pos hprovider).trans (by rw [hts]; rfl))
  unfold buildRequest
  dsimp only
  rw [hswitch]
  rfl

end Build

/-! ## Providers -/

/-- The name of a provider in any case. -/
def AnyCase (name : String) (provider : Text) : Prop := provider.map Char.toLower = name.toList

instance decidableAnyCase (name : String) (provider : Text) : Decidable (AnyCase name provider) :=
  inferInstanceAs (Decidable (_ = _))

theorem ascii_of_anyCase {name : String} {provider : Text} (hname : IsAscii name.toList)
    (h : AnyCase name provider) : IsAscii provider := by
  intro c hc
  have hmem : c.toLower ∈ name.toList := by
    rw [← h]
    exact List.mem_map_of_mem hc
  have hlow := hname _ hmem
  rw [Hex.toNat_toLower] at hlow
  split at hlow <;> omega

theorem toLowerInvariant_of_anyCase (hlower : ∀ c, c.toNat < 128 → p.toLowerInvariant c = c.toLower)
    {name : String} {provider : Text} (hname : IsAscii name.toList)
    (h : AnyCase name provider) : provider.map p.toLowerInvariant = name.toList := by
  rw [← h]
  exact List.map_congr_left fun c hc => hlower c (ascii_of_anyCase hname h c hc)

theorem equalsIgnoreCase_of_anyCase {name : String} {provider other : Text}
    (hname : IsAscii name.toList) (hother : IsAscii other)
    (h : AnyCase name provider) : equalsIgnoreCase p provider other =
      (name.toList.map Char.toUpper == other.map Char.toUpper) := by
  rw [equalsIgnoreCase_of_ascii (ascii_of_anyCase hname h) hother, ← h, Hex.map_toUpper_map_toLower]

theorem normalizeScenario_stripe {source : RuntimeSource} (hsign : source.canSign = true)
    (h : AnyCase "stripe" source.provider) (scenario : LoadTestScenarioKind) :
    normalizeScenario p source scenario = scenario := by
  have hequal : equalsIgnoreCase p source.provider "stripe".toList = true := by
    rw [equalsIgnoreCase_of_anyCase (by decide) (by decide) h]
    decide
  rw [normalizeScenario, hsign, hequal]
  rfl

theorem normalizeScenario_gitHub {source : RuntimeSource} (hsign : source.canSign = true)
    (h : AnyCase "github" source.provider) (scenario : LoadTestScenarioKind) :
    normalizeScenario p source scenario =
      if scenario = .expiredSignature then .invalidSignature else scenario := by
  have hequal : equalsIgnoreCase p source.provider "stripe".toList = false := by
    rw [equalsIgnoreCase_of_anyCase (by decide) (by decide) h]
    decide
  rw [normalizeScenario, hsign, hequal]
  simp

/-! ## The verdicts on built requests -/

/-- The configuration of the API for the source. -/
def RuntimeSource.config (source : RuntimeSource) : SourceSignatureConfig where
  source := some source.source
  provider := some source.provider
  secret := source.secret
  require := true
  toleranceSeconds := source.toleranceSeconds

/-- HMAC-SHA256 as an ideal function: a digest belongs to one key and one message. -/
def DigestsDiffer (p : Platform) : Prop :=
  ∀ key key' message message', p.hmacSha256 key message = p.hmacSha256 key' message' →
    key = key' ∧ message = message'

section Verdicts

variable {source : RuntimeSource} {scenario : LoadTestScenarioKind} {secret : Text}

theorem signatureSecret_eq_iff (hsecret : source.secret = some secret) :
    signatureSecret source scenario = secret ↔ scenario ≠ .invalidSignature := by
  unfold signatureSecret
  rw [hsecret, Option.getD_some]
  by_cases hinvalid : scenario = .invalidSignature
  · rw [if_pos hinvalid]
    simp [hinvalid]
  · rw [if_neg hinvalid]
    simp [hinvalid]

theorem digest_eq_iff (hdigest : DigestsDiffer p) (hsecret : source.secret = some secret)
    (message : Bytes) : p.hmacSha256 (Utf8.encode secret) message =
      p.hmacSha256 (Utf8.encode (signatureSecret source scenario)) message ↔
        scenario ≠ .invalidSignature := by
  rw [← signatureSecret_eq_iff hsecret]
  constructor
  · intro h
    exact (Utf8.encode_injective (hdigest _ _ _ _ h).1).symm
  · intro h
    rw [h]

theorem canSign_of_secret (hsecret : source.secret = some secret)
    (hblank : isNullOrWhiteSpace (some secret) = false) : source.canSign = true := by
  rw [source.canSign_eq, hsecret, hblank]
  rfl

theorem validateAsync_config {opts : SignatureOptions}
    (hcfg : selectConfig p opts source.source = some source.config) (hsecret : source.secret = some secret)
    (hblank : isNullOrWhiteSpace (some secret) = false) (now : Time) (req : HttpRequest) (payload : Bytes) :
    validateAsync p opts now source.source req payload =
      if source.provider.map p.toLowerInvariant = "github".toList then
        .ok (validateGitHub p secret req payload)
      else if source.provider.map p.toLowerInvariant = "stripe".toList then
        validateStripe p now secret source.toleranceSeconds req payload
      else .ok (false, some ("unknown-provider:".toList ++ source.provider)) := by
  unfold validateAsync
  rw [hcfg]
  dsimp only [RuntimeSource.config]
  rw [hsecret]
  simp only [Bool.not_true, Bool.false_eq_true, if_false, hblank]

variable (f : Formats) (cache : ReplayPayloadCache) (scenario) {draws : Draws}

theorem verdict_gitHub (draws : Draws) (hlower : ∀ c, c.toNat < 128 → p.toLowerInvariant c = c.toLower)
    (hdigest : DigestsDiffer p) (hprovider : AnyCase "github" source.provider)
    (hsecret : source.secret = some secret) (hblank : isNullOrWhiteSpace (some secret) = false) :
    ∃ r cache', buildRequest p f cache source scenario draws = some (r, cache') ∧
      ∀ opts now, selectConfig p opts source.source = some source.config →
        validateAsync p opts now source.source r.toHttpRequest r.payloadBytes =
          if scenario = .missingSignature then .ok (false, some "missing:X-Hub-Signature-256".toList)
          else if scenario = .invalidSignature then .ok (false, some "mismatch".toList)
          else .ok (true, none) := by
  have hname := toLowerInvariant_of_anyCase hlower (by decide) hprovider
  obtain ⟨r, cache', hbuilt, -, hheader⟩ := buildRequest_gitHub hname
    (canSign_of_secret hsecret hblank)
  refine ⟨r, cache', hbuilt, fun opts now hcfg => ?_⟩
  rw [validateAsync_config hcfg hsecret hblank, if_pos hname]
  by_cases hmissing : scenario = .missingSignature
  · rw [if_pos hmissing] at hheader ⊢
    rw [validateGitHub, hheader]
  · rw [if_neg hmissing] at hheader ⊢
    rw [validateGitHub_written hlower hheader]
    by_cases hinvalid : scenario = .invalidSignature
    · rw [if_pos hinvalid, if_neg fun h => (digest_eq_iff hdigest hsecret _).mp h hinvalid]
    · rw [if_neg hinvalid, if_pos ((digest_eq_iff hdigest hsecret _).mpr hinvalid)]

theorem verdict_stripe (hlower : ∀ c, c.toNat < 128 → p.toLowerInvariant c = c.toLower)
    (hdigest : DigestsDiffer p) (hprovider : AnyCase "stripe" source.provider)
    (hsecret : source.secret = some secret) (hblank : isNullOrWhiteSpace (some secret) = false) {ts : Int}
    (hts : stripeTimestamp source scenario draws.builtAt = some ts) (hrange : -2 ^ 63 ≤ ts ∧ ts < 2 ^ 63) :
    ∃ r cache', buildRequest p f cache source scenario draws = some (r, cache') ∧
      ∀ opts now, selectConfig p opts source.source = some source.config →
        |toUnixTimeSeconds now - ts| < 2 ^ 63 →
        validateAsync p opts now source.source r.toHttpRequest r.payloadBytes =
          if scenario = .missingSignature then .ok (false, some "missing:Stripe-Signature".toList)
          else if |toUnixTimeSeconds now - ts| > source.toleranceSeconds.toInt then
            .ok (false, some "timestamp-out-of-tolerance".toList)
          else if scenario = .invalidSignature then .ok (false, some "mismatch".toList)
          else .ok (true, none) := by
  have hname := toLowerInvariant_of_anyCase hlower (by decide) hprovider
  have hgitHub : ¬ source.provider.map p.toLowerInvariant = "github".toList := by
    rw [hname]
    decide
  obtain ⟨r, cache', hbuilt, hpayload, hheader⟩ := buildRequest_stripe hname
    (canSign_of_secret hsecret hblank) hts
  refine ⟨r, cache', hbuilt, fun opts now hcfg hdifference => ?_⟩
  rw [validateAsync_config hcfg hsecret hblank, if_neg hgitHub, if_pos hname]
  by_cases hmissing : scenario = .missingSignature
  · rw [if_pos hmissing] at hheader ⊢
    rw [validateStripe, hheader]
  · rw [if_neg hmissing] at hheader ⊢
    rw [hpayload, validateStripe_written hlower hrange hdifference hheader]
    congr 1
    by_cases hinvalid : scenario = .invalidSignature
    · rw [if_pos hinvalid, if_neg fun h => (digest_eq_iff hdigest hsecret _).mp h hinvalid]
    · rw [if_neg hinvalid, if_pos ((digest_eq_iff hdigest hsecret _).mpr hinvalid)]

end Verdicts

end WebhookInbox.LoadTest
