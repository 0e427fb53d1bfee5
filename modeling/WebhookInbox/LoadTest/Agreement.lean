import WebhookInbox.LoadTest.Verdicts

/-!
# The load generator and the API agree

Every request of a GitHub source gets the verdict its scenario is for, and so does every
request of a Stripe source, unless the tolerance is so large that the 120 seconds added to it
wrap around: the timestamp that should be expired then lies in the future (`agrees_iff`).
-/

namespace WebhookInbox.LoadTest

open Api NetString

/-- The scenarios whose requests the API is to accept. -/
def LoadTestScenarioKind.accepted : LoadTestScenarioKind → Bool
  | .valid | .replay | .invalidPayload => true
  | .invalidSignature | .missingSignature | .expiredSignature => false

/-- The time that is signed as expired. -/
def expiredAt (source : RuntimeSource) (builtAt : Time) : Time :=
  addSeconds builtAt (-(source.toleranceSeconds + 120)).toInt

/-- Every request gets the verdict of its scenario, when it is validated no later than the tolerance
after it was built. No request is built when the expired time is before the first year. -/
def Agrees (p : Platform) (f : Formats) (source : RuntimeSource) : Prop :=
  ∀ (opts : SignatureOptions) (scenario : LoadTestScenarioKind) (draws : Draws)
    (cache : ReplayPayloadCache) (validatedAt : Time),
    selectConfig p opts source.source = some source.config →
    IsDateTimeOffset draws.builtAt → IsDateTimeOffset validatedAt → draws.builtAt ≤ validatedAt →
    validatedAt ≤ addSeconds draws.builtAt source.toleranceSeconds.toInt →
    match buildRequest p f cache source (normalizeScenario p source scenario) draws with
    | some (r, _) => ∃ reason, validateAsync p opts validatedAt source.source r.toHttpRequest
        r.payloadBytes = .ok (scenario.accepted, reason)
    | none => scenario = .expiredSignature ∧ ¬ IsDateTimeOffset (expiredAt source draws.builtAt)

/-! ## Times -/

theorem toUnixTimeSeconds_addSeconds (t : Time) (seconds : Int) :
    toUnixTimeSeconds (addSeconds t seconds) = toUnixTimeSeconds t + seconds :=
  Int.add_mul_ediv_right _ _ (by decide)

theorem elapsed_bounds {builtAt validatedAt : Time} {seconds : Int} (h : builtAt ≤ validatedAt)
    (h' : validatedAt ≤ addSeconds builtAt seconds) :
    toUnixTimeSeconds builtAt ≤ toUnixTimeSeconds validatedAt ∧
      toUnixTimeSeconds validatedAt ≤ toUnixTimeSeconds builtAt + seconds := by
  constructor
  · exact Int.ediv_le_ediv (by decide) h
  · rw [← toUnixTimeSeconds_addSeconds]
    exact Int.ediv_le_ediv (by decide) h'

/-- The offset of the expired time, with the sum and its negation wrapped around. -/
theorem expiredOffset_eq {toleranceSeconds : Int32} (h : 0 ≤ toleranceSeconds.toInt) :
    (-(toleranceSeconds + 120)).toInt =
      if toleranceSeconds.toInt ≤ 2147483528 then -(toleranceSeconds.toInt + 120)
      else 4294967296 - (toleranceSeconds.toInt + 120) := by
  have hlt := toleranceSeconds.toInt_lt
  have hliteral : (120 : Int32).toInt = 120 := rfl
  rw [Int32.toInt_neg, Int32.toInt_add, hliteral, Int.bmod_def, Int.bmod_def]
  split <;> split <;> split <;> omega

theorem expiredAt_seconds (source : RuntimeSource) (builtAt : Time) :
    toUnixTimeSeconds (expiredAt source builtAt) =
      toUnixTimeSeconds builtAt + (-(source.toleranceSeconds + 120)).toInt :=
  toUnixTimeSeconds_addSeconds _ _

section Agree

variable {p : Platform} (f : Formats)
  (hlower : ∀ c, c.toNat < 128 → p.toLowerInvariant c = c.toLower) (hdigest : DigestsDiffer p)
  {source : RuntimeSource} {secret : Text} (hsecret : source.secret = some secret)
  (hblank : isNullOrWhiteSpace (some secret) = false) (htol : 0 ≤ source.toleranceSeconds.toInt)

include hlower hdigest hsecret hblank in
theorem agrees_gitHub (hprovider : AnyCase "github" source.provider) : Agrees p f source := by
  intro opts scenario draws cache validatedAt hcfg _ _ _ _
  obtain ⟨r, cache', hbuilt, hverdict⟩ := verdict_gitHub
    (normalizeScenario p source scenario) f cache draws hlower hdigest hprovider hsecret hblank
  rw [hbuilt]
  dsimp only
  rw [hverdict opts validatedAt hcfg,
    normalizeScenario_gitHub (canSign_of_secret hsecret hblank) hprovider]
  cases scenario <;> exact ⟨_, rfl⟩

include hlower hdigest hsecret hblank htol in
/-- The timestamp of an expired signature lies more than the tolerance before the request is
validated, any other one lies within it. -/
theorem agrees_stripe (hprovider : AnyCase "stripe" source.provider)
    (hroom : source.toleranceSeconds.toInt ≤ 2147483528) : Agrees p f source := by
  intro opts scenario draws cache validatedAt hcfg hbuiltAt hvalidatedAt hle hle'
  have helapsed := elapsed_bounds hle hle'
  have hseconds := seconds_of_isDateTimeOffset hbuiltAt
  have hname := toLowerInvariant_of_anyCase hlower (by decide) hprovider
  rw [normalizeScenario_stripe (canSign_of_secret hsecret hblank) hprovider]
  by_cases hexpired : scenario = .expiredSignature
  · subst hexpired
    by_cases hdate : IsDateTimeOffset (expiredAt source draws.builtAt)
    · have hts : stripeTimestamp source .expiredSignature draws.builtAt =
          some (toUnixTimeSeconds (expiredAt source draws.builtAt)) := if_pos hdate
      have hexpiredSeconds := expiredAt_seconds source draws.builtAt
      rw [expiredOffset_eq htol, if_pos hroom] at hexpiredSeconds
      have hfar : |toUnixTimeSeconds validatedAt - toUnixTimeSeconds (expiredAt source draws.builtAt)| =
          toUnixTimeSeconds validatedAt - toUnixTimeSeconds (expiredAt source draws.builtAt) :=
        abs_of_nonneg (by omega)
      obtain ⟨r, cache', hbuilt, hverdict⟩ := verdict_stripe _ f cache hlower hdigest
        hprovider hsecret hblank hts (by omega)
      rw [hbuilt]
      dsimp only
      rw [hverdict opts validatedAt hcfg (by omega), if_neg (by decide), if_pos (by omega)]
      exact ⟨_, rfl⟩
    · have hts : stripeTimestamp source .expiredSignature draws.builtAt = none := if_neg hdate
      rw [buildRequest_eq_none hname hts]
      exact ⟨rfl, hdate⟩
  · have hts : stripeTimestamp source scenario draws.builtAt = some (toUnixTimeSeconds draws.builtAt) :=
      if_neg hexpired
    have hnear : |toUnixTimeSeconds validatedAt - toUnixTimeSeconds draws.builtAt| =
        toUnixTimeSeconds validatedAt - toUnixTimeSeconds draws.builtAt := abs_of_nonneg (by omega)
    obtain ⟨r, cache', hbuilt, hverdict⟩ := verdict_stripe _ f cache hlower hdigest
      hprovider hsecret hblank hts (by omega)
    rw [hbuilt]
    dsimp only
    rw [hverdict opts validatedAt hcfg (by omega)]
    cases scenario
    case expiredSignature => exact absurd rfl hexpired
    case missingSignature => exact ⟨_, rfl⟩
    all_goals
      rw [if_neg (by decide), if_neg (by omega)]
      exact ⟨_, rfl⟩

include hlower hdigest hsecret hblank htol in
/-- With a larger tolerance the timestamp lies in the future, and the request is accepted at the end
of the tolerance. -/
theorem expired_accepted (hprovider : AnyCase "stripe" source.provider)
    (hwraps : 2147483528 < source.toleranceSeconds.toInt) (cache : ReplayPayloadCache) {draws : Draws}
    (hdate : IsDateTimeOffset (expiredAt source draws.builtAt)) {opts : SignatureOptions}
    (hcfg : selectConfig p opts source.source = some source.config) :
    ∃ r cache', buildRequest p f cache source .expiredSignature draws = some (r, cache') ∧
      validateAsync p opts (addSeconds draws.builtAt source.toleranceSeconds.toInt) source.source
        r.toHttpRequest r.payloadBytes = .ok (true, none) := by
  have hlt := source.toleranceSeconds.toInt_lt
  have hts : stripeTimestamp source .expiredSignature draws.builtAt =
      some (toUnixTimeSeconds (expiredAt source draws.builtAt)) := if_pos hdate
  have hrange := seconds_of_isDateTimeOffset hdate
  have hseconds := expiredAt_seconds source draws.builtAt
  rw [expiredOffset_eq htol, if_neg (by omega)] at hseconds
  have hnear : |toUnixTimeSeconds (addSeconds draws.builtAt source.toleranceSeconds.toInt) -
      toUnixTimeSeconds (expiredAt source draws.builtAt)| ≤ source.toleranceSeconds.toInt := by
    rw [toUnixTimeSeconds_addSeconds, hseconds]
    apply abs_le.mpr
    omega
  obtain ⟨r, cache', hbuilt, hverdict⟩ := verdict_stripe _ f cache hlower hdigest
    hprovider hsecret hblank hts (by omega)
  refine ⟨r, cache', hbuilt, ?_⟩
  rw [hverdict opts _ hcfg (by omega), if_neg (by decide), if_neg (by omega), if_neg (by decide)]

/-- A request of which everything is drawn as 0, at the Unix epoch. -/
def epochDraws : Draws := ⟨0, 0, 0, 0, 0, 0, 0, 0, 0⟩

theorem selectConfig_singleton (p : Platform) (source : RuntimeSource) :
    selectConfig p { sources := [source.config] } source.source = some source.config := by
  apply List.find?_cons_of_pos
  exact equalsIgnoreCase_refl source.source

include hlower hdigest hsecret hblank htol in
theorem not_agrees_stripe (hprovider : AnyCase "stripe" source.provider)
    (hwraps : 2147483528 < source.toleranceSeconds.toInt) : ¬ Agrees p f source := by
  intro h
  have hlt := source.toleranceSeconds.toInt_lt
  have hoffset := expiredOffset_eq htol
  rw [if_neg (by omega)] at hoffset
  have hdate : IsDateTimeOffset (expiredAt source epochDraws.builtAt) := by
    unfold IsDateTimeOffset expiredAt addSeconds
    rw [hoffset]
    show (-621355968000000000 : Int) ≤ 0 + _ ∧ (0 + _ : Int) ≤ _
    omega
  have hlate : IsDateTimeOffset (addSeconds epochDraws.builtAt source.toleranceSeconds.toInt) := by
    unfold IsDateTimeOffset addSeconds
    show (-621355968000000000 : Int) ≤ 0 + _ ∧ (0 + _ : Int) ≤ _
    omega
  have hle : epochDraws.builtAt ≤ addSeconds epochDraws.builtAt source.toleranceSeconds.toInt := by
    unfold addSeconds
    show (0 : Int) ≤ 0 + _
    omega
  have hagrees := h { sources := [source.config] } .expiredSignature epochDraws (fun _ => none) _
    (selectConfig_singleton p source) (by decide) hlate hle le_rfl
  obtain ⟨r, cache', hbuilt, haccepted⟩ := expired_accepted f hlower hdigest hsecret hblank htol
    hprovider hwraps (fun _ => none) hdate (selectConfig_singleton p source)
  rw [normalizeScenario_stripe (canSign_of_secret hsecret hblank) hprovider, hbuilt] at hagrees
  obtain ⟨reason, hreason⟩ := hagrees
  rw [haccepted] at hreason
  cases hreason

end Agree

/-- **The load generator and the API agree** on a source exactly when its provider is GitHub or its
tolerance leaves room for the 120 seconds. -/
theorem agrees_iff (p : Platform) (f : Formats)
    (hlower : ∀ c, c.toNat < 128 → p.toLowerInvariant c = c.toLower) (hdigest : DigestsDiffer p)
    (source : RuntimeSource) (secret : Text) (hsecret : source.secret = some secret)
    (hblank : isNullOrWhiteSpace (some secret) = false) (htol : 0 ≤ source.toleranceSeconds)
    (hprovider : AnyCase "github" source.provider ∨ AnyCase "stripe" source.provider) :
    Agrees p f source ↔
      AnyCase "github" source.provider ∨ source.toleranceSeconds.toInt ≤ 2147483528 := by
  have htolInt : 0 ≤ source.toleranceSeconds.toInt := by
    rwa [Int32.le_iff_toInt_le, Int32.toInt_zero] at htol
  constructor
  · intro h
    rcases hprovider with hgitHub | hstripe
    · exact Or.inl hgitHub
    · right
      by_contra hwraps
      exact not_agrees_stripe f hlower hdigest hsecret hblank htolInt hstripe (by omega) h
  · rintro (hgitHub | hroom)
    · exact agrees_gitHub f hlower hdigest hsecret hblank hgitHub
    · rcases hprovider with hgitHub | hstripe
      · exact agrees_gitHub f hlower hdigest hsecret hblank hgitHub
      · exact agrees_stripe f hlower hdigest hsecret hblank htolInt hstripe hroom

/-! ## Two Stripe sources -/

/-- A key and a message in one text, with a mark before each byte of the key and another behind
the key. -/
def frame (key message : Bytes) : Bytes := key.flatMap (fun b => [1, b]) ++ 0 :: message

theorem frame_injective {key key' message message' : Bytes} (h : frame key message = frame key' message') :
    key = key' ∧ message = message' := by
  induction key generalizing key' with
  | nil =>
    cases key' with
    | nil => exact ⟨rfl, (List.cons.inj h).2⟩
    | cons b key' => exact absurd (List.cons.inj h).1 (by decide)
  | cons b key ih =>
    cases key' with
    | nil => exact absurd (List.cons.inj h).1 (by decide)
    | cons b' key' =>
      obtain ⟨-, hrest⟩ := List.cons.inj h
      obtain ⟨hb, hrest⟩ := List.cons.inj hrest
      obtain ⟨hkey, hmessage⟩ := ih hrest
      exact ⟨by rw [hb, hkey], hmessage⟩

/-- The payload of an expired request of which everything is drawn as 0. -/
def epochPayload : String :=
  "\x7b\"id\":\"evt_00000000000000000000000000000000\",\"api_version\":\"2022-11-15\",\"created\":0," ++
    "\"type\":\"invoice.payment_succeeded\",\"livemode\":false," ++
    "\"data\":\x7b\"object\":\x7b\"id\":\"in_00000000000000000000000000000000\",\"object\":\"invoice\"," ++
    "\"currency\":\"usd\",\"amount_due\":4200,\"status\":\"paid\"," ++
    "\"metadata\":\x7b\"correlation\":\"00000000-0000-0000-0000-000000000000\",\"source\":\"shop\"\x7d\x7d\x7d\x7d"

/-- The formats on a Guid below 16, on the Unix epoch and on that payload. -/
def epochFormats : Formats where
  serialize _ := epochPayload.toList
  formatGuidN id := List.replicate 31 '0' ++ [(Hex.digit id).toLower]
  formatRoundTrip _ := "1970-01-01T00:00:00.0000000+00:00".toList

/-- The digests, under the secret `whsec`, of two payloads behind their timestamps. -/
def epochDigests : List (Bytes × String) :=
  [(frame (Utf8.encode "whsec".toList) (Utf8.encode "0.\x7b\"invalid\":true".toList),
      "451fd080a4770fbd08848b40f0f0e3eee80b1452b0ea8581c6471dc318e6235b"),
    (frame (Utf8.encode "whsec".toList) (Utf8.encode ("2147483529." ++ epochPayload).toList),
      "62b7f11620948b1aff6ce946215e2c65c6f8774684df52327234ccba745d4550")]

def epochPlatform : Platform :=
  .ascii (fun _ => []) fun key message => tableDigest epochDigests (frame key message)

theorem epochPlatform_digestsDiffer : DigestsDiffer epochPlatform := by
  intro key key' message message' h
  apply frame_injective
  exact tableDigest_injective (by decide) (by decide) h

def stripeSource (toleranceSeconds : Int32) : RuntimeSource where
  source := "shop".toList
  provider := "Stripe".toList
  secret := some "whsec".toList
  canSign := true
  toleranceSeconds := toleranceSeconds
  canSign_eq := rfl

theorem agrees_stripeSource : Agrees epochPlatform epochFormats (stripeSource 300) :=
  (agrees_iff epochPlatform epochFormats (fun _ _ => rfl) epochPlatform_digestsDiffer (stripeSource 300)
    "whsec".toList rfl (by decide) (by decide) (Or.inr (by decide))).mpr (Or.inr (by decide))

/-- With the largest tolerance the timestamp that should be expired lies in the future. -/
theorem not_always_agrees : ¬ ∀ (p : Platform) (f : Formats) (source : RuntimeSource) (secret : Text),
    (∀ c, c.toNat < 128 → p.toLowerInvariant c = c.toLower) → DigestsDiffer p →
    source.secret = some secret → isNullOrWhiteSpace (some secret) = false →
    0 ≤ source.toleranceSeconds →
    AnyCase "github" source.provider ∨ AnyCase "stripe" source.provider → Agrees p f source := by
  intro h
  have hagrees := h epochPlatform epochFormats (stripeSource 2147483647) "whsec".toList (fun _ _ => rfl)
    epochPlatform_digestsDiffer rfl (by decide) (by decide) (Or.inr (by decide))
  exact not_agrees_stripe epochFormats (fun _ _ => rfl) epochPlatform_digestsDiffer rfl (by decide)
    (by decide) (by decide) (by decide) hagrees

end WebhookInbox.LoadTest
