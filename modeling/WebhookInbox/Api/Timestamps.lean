import Mathlib.Algebra.Order.Group.Abs
import Mathlib.Algebra.Order.Group.Int
import WebhookInbox.Api.Binding

/-!
# The time check of a Stripe signature

The difference of the clock and the timestamp is taken in 64-bit arithmetic and its absolute
value by `Math.Abs`, which has none for the smallest integer. For every other difference the
check is the one on integers: a difference that wraps around is far above any tolerance.
-/

namespace WebhookInbox.Api

open NetString

/-- The ticks of a `DateTimeOffset`, counted from the Unix epoch. -/
def IsDateTimeOffset (t : Time) : Prop := -621355968000000000 ≤ t ∧ t ≤ 2534023007999999999

instance decidableIsDateTimeOffset (t : Time) : Decidable (IsDateTimeOffset t) :=
  inferInstanceAs (Decidable (_ ∧ _))

/-- The header of the request takes the validator to its time check, with this timestamp. -/
def CarriesTimestamp (p : Platform) (req : HttpRequest) (ts : Int) : Prop :=
  ∃ sigHeader t, tryGetHeader p req "Stripe-Signature".toList = some sigHeader ∧
    signedAt sigHeader = some t ∧ tryParseInt64 t = some ts ∧
    ∃ v, HasElement sigHeader "v1".toList v

/-- The validator has gone on to compare digests: these are the verdicts behind the check. -/
def PassesTimeCheck (p : Platform) (now : Time) (secret : Text) (toleranceSeconds : Int32)
    (req : HttpRequest) (payload : Bytes) : Prop :=
  validateStripe p now secret toleranceSeconds req payload = .ok (true, none) ∨
    validateStripe p now secret toleranceSeconds req payload = .ok (false, some "mismatch".toList)

/-! ## 64-bit differences -/

theorem seconds_of_isDateTimeOffset {now : Time} (h : IsDateTimeOffset now) :
    -62135596800 ≤ toUnixTimeSeconds now ∧ toUnixTimeSeconds now ≤ 253402300799 := by
  obtain ⟨hmin, hmax⟩ := h
  constructor
  · exact Int.le_ediv_of_mul_le (by omega) hmin
  · exact Int.lt_add_one_iff.mp (Int.ediv_lt_of_lt_mul (by omega) (Int.lt_of_le_of_lt hmax (by omega)))

theorem wrapInt64_of_ge {n : Int} (h : 2 ^ 63 ≤ n) (h' : n < 2 ^ 64) :
    wrapInt64 n = n - 2 ^ 64 := by
  rw [wrapInt64, Int.bmod_eq_iff (by omega)]
  refine ⟨by omega, by omega, -1, ?_⟩
  show n - 2 ^ 64 - n = 2 ^ 64 * -1
  omega

theorem wrapInt64_of_lt {n : Int} (h : n < -2 ^ 63) (h' : -2 ^ 64 ≤ n) :
    wrapInt64 n = n + 2 ^ 64 := by
  rw [wrapInt64, Int.bmod_eq_iff (by omega)]
  refine ⟨by omega, by omega, 1, ?_⟩
  show n + 2 ^ 64 - n = 2 ^ 64 * 1
  omega

/-- The difference of the clock and a timestamp, before it is wrapped. -/
theorem difference_bounds {now : Time} {t : Text} {ts : Int} (hnow : IsDateTimeOffset now)
    (hts : tryParseInt64 t = some ts) :
    -2 ^ 63 - 62135596800 < toUnixTimeSeconds now - ts ∧
      toUnixTimeSeconds now - ts ≤ 2 ^ 63 + 253402300799 := by
  have hseconds := seconds_of_isDateTimeOffset hnow
  have hrange := range_of_tryParseInt64 hts
  omega

theorem wrapInt64_eq_min_iff {n : Int} (h : -2 ^ 64 < n) (h' : n < 2 ^ 64) :
    wrapInt64 n = -2 ^ 63 ↔ |n| = 2 ^ 63 := by
  rw [abs_eq (by omega)]
  rcases Int.lt_or_le n (-2 ^ 63) with hlow | hlow
  · rw [wrapInt64_of_lt hlow (by omega)]
    omega
  · rcases Int.lt_or_le n (2 ^ 63) with hhigh | hhigh
    · rw [wrapInt64_of_fits hlow hhigh]
      omega
    · rw [wrapInt64_of_ge hhigh h']
      omega

/-- Wrapping around takes no difference into the tolerance. -/
theorem abs_wrapInt64_le_iff {n : Int} (h : -2 ^ 64 + 2 ^ 62 < n) (h' : n < 2 ^ 64 - 2 ^ 62)
    (toleranceSeconds : Int32) :
    |wrapInt64 n| ≤ toleranceSeconds.toInt ↔ |n| ≤ toleranceSeconds.toInt := by
  have htol := toleranceSeconds.toInt_lt
  rw [abs_le, abs_le]
  rcases Int.lt_or_le n (-2 ^ 63) with hlow | hlow
  · rw [wrapInt64_of_lt hlow (by omega)]
    omega
  · rcases Int.lt_or_le n (2 ^ 63) with hhigh | hhigh
    · rw [wrapInt64_of_fits hlow hhigh]
    · rw [wrapInt64_of_ge hhigh (by omega)]
      omega

/-! ## The check -/

variable {p : Platform}

/-- A request without a timestamp gets its verdict before the time check. -/
theorem verdict_of_not_carries {now : Time} {secret : Text} {toleranceSeconds : Int32}
    {req : HttpRequest} {payload : Bytes} (h : ∀ ts, ¬ CarriesTimestamp p req ts) :
    ∃ verdict, validateStripe p now secret toleranceSeconds req payload = .ok verdict := by
  unfold validateStripe
  cases hheader : tryGetHeader p req "Stripe-Signature".toList with
  | none => exact ⟨_, rfl⟩
  | some sigHeader =>
    dsimp only
    generalize hfound : readElements (splitEntries ',' sigHeader) = found
    obtain ⟨t, v1⟩ := found
    cases t with
    | none => exact ⟨_, rfl⟩
    | some t =>
      dsimp only
      split
      · exact ⟨_, rfl⟩
      · rename_i hpresent
        cases hts : tryParseInt64 t with
        | none => exact ⟨_, rfl⟩
        | some ts =>
          refine absurd ⟨sigHeader, t, hheader, ?_, hts, ?_⟩ (h ts)
          · rw [readElements_eq] at hfound
            exact congrArg Prod.fst hfound
          · cases v1 with
            | nil => simp at hpresent
            | cons v v1 =>
              refine ⟨v, hasElement_iff_v1.mp ?_⟩
              rw [hfound]
              exact List.mem_cons_self

/-- What the validator does from the time check on. -/
theorem validateStripe_of_carries (now : Time) (secret : Text) (toleranceSeconds : Int32)
    {req : HttpRequest} (payload : Bytes) {ts : Int} (h : CarriesTimestamp p req ts) :
    ∃ matched : Bool, validateStripe p now secret toleranceSeconds req payload =
      if wrapInt64 (toUnixTimeSeconds now - ts) = -2 ^ 63 then .error .overflow
      else if |wrapInt64 (toUnixTimeSeconds now - ts)| > toleranceSeconds.toInt then
        .ok (false, some "timestamp-out-of-tolerance".toList)
      else if matched then .ok (true, none) else .ok (false, some "mismatch".toList) := by
  obtain ⟨sigHeader, t, hheader, ht, hts, v, hv⟩ := h
  rw [← hasElement_iff_v1] at hv
  have hfound : (readElements (splitEntries ',' sigHeader)).1 = some t := by
    rw [readElements_eq]
    exact ht
  generalize hv1 : (readElements (splitEntries ',' sigHeader)).2 = v1 at hv
  have hne : v1.isEmpty = false := by
    cases v1 with
    | nil => cases hv
    | cons => rfl
  refine ⟨v1.any fun candidate => (tryParseHex candidate).any
    (fixedTimeEquals (p.hmacSha256 (Utf8.encode secret) (signedPayload t payload))), ?_⟩
  unfold validateStripe
  rw [hheader]
  dsimp only
  rw [hfound, hv1]
  dsimp only
  rw [isNullOrWhiteSpace_of_tryParseInt64 hts, hne, hts]
  rfl

/-- A request carries one timestamp. -/
theorem carriesTimestamp_unique {req : HttpRequest} {ts ts' : Int} (h : CarriesTimestamp p req ts)
    (h' : CarriesTimestamp p req ts') : ts = ts' := by
  obtain ⟨sigHeader, t, hheader, ht, hts, -⟩ := h
  obtain ⟨sigHeader', t', hheader', ht', hts', -⟩ := h'
  rw [hheader, Option.some.injEq] at hheader'
  subst hheader'
  rw [ht, Option.some.injEq] at ht'
  subst ht'
  rw [hts, Option.some.injEq] at hts'
  exact hts'

/-- The validator raises on one difference only. -/
theorem error_iff_of_carries {now : Time} {secret : Text} {toleranceSeconds : Int32}
    {req : HttpRequest} {payload : Bytes} {ts : Int} (hnow : IsDateTimeOffset now)
    (h : CarriesTimestamp p req ts) :
    (∃ verdict, validateStripe p now secret toleranceSeconds req payload = .ok verdict) ↔
      |toUnixTimeSeconds now - ts| ≠ 2 ^ 63 := by
  obtain ⟨sigHeader, t, hheader, ht, hts, hv⟩ := id h
  have hbounds := difference_bounds hnow hts
  rw [ne_eq, ← wrapInt64_eq_min_iff (by omega) (by omega)]
  obtain ⟨matched, hresult⟩ := validateStripe_of_carries now secret toleranceSeconds payload h
  rw [hresult]
  constructor
  · rintro ⟨verdict, hok⟩ hmin
    rw [if_pos hmin] at hok
    cases hok
  · intro hmin
    rw [if_neg hmin]
    split
    · exact ⟨_, rfl⟩
    · cases matched <;> exact ⟨_, rfl⟩

theorem passes_iff_of_carries {now : Time} {secret : Text} {toleranceSeconds : Int32}
    {req : HttpRequest} {payload : Bytes} {ts : Int} (hnow : IsDateTimeOffset now)
    (h : CarriesTimestamp p req ts) (hdifference : |toUnixTimeSeconds now - ts| ≠ 2 ^ 63) :
    PassesTimeCheck p now secret toleranceSeconds req payload ↔
      |toUnixTimeSeconds now - ts| ≤ toleranceSeconds.toInt := by
  obtain ⟨sigHeader, t, hheader, ht, hts, hv⟩ := id h
  have hbounds := difference_bounds hnow hts
  rw [ne_eq, ← wrapInt64_eq_min_iff (by omega) (by omega)] at hdifference
  rw [← abs_wrapInt64_le_iff (by omega) (by omega)]
  obtain ⟨matched, hresult⟩ := validateStripe_of_carries now secret toleranceSeconds payload h
  rw [PassesTimeCheck, hresult, if_neg hdifference]
  constructor
  · intro hpasses
    by_contra hfar
    rw [if_pos (not_le.mp hfar)] at hpasses
    rcases hpasses with hpasses | hpasses
    · cases hpasses
    · exact absurd hpasses (by decide)
  · intro hnear
    rw [if_neg (not_lt.mpr hnear)]
    cases matched
    · exact Or.inr rfl
    · exact Or.inl rfl

/-- **The time check.** The validator returns a verdict, and checks the distance of the
timestamp exactly, unless the distance is `2 ^ 63`. -/
theorem stripe_time_check (p : Platform) (now : Time) (hnow : IsDateTimeOffset now) (secret : Text)
    (toleranceSeconds : Int32) (req : HttpRequest) (payload : Bytes) :
    ((∃ verdict, validateStripe p now secret toleranceSeconds req payload = .ok verdict) ∧
        ∀ ts, CarriesTimestamp p req ts →
          (PassesTimeCheck p now secret toleranceSeconds req payload ↔
            |toUnixTimeSeconds now - ts| ≤ toleranceSeconds.toInt)) ↔
      ∀ ts, CarriesTimestamp p req ts → |toUnixTimeSeconds now - ts| ≠ 2 ^ 63 := by
  constructor
  · rintro ⟨hverdict, -⟩ ts hts
    exact (error_iff_of_carries hnow hts).mp hverdict
  · intro hdifference
    constructor
    · by_cases hcarries : ∃ ts, CarriesTimestamp p req ts
      · obtain ⟨ts, hts⟩ := hcarries
        exact (error_iff_of_carries hnow hts).mpr (hdifference ts hts)
      · exact verdict_of_not_carries (not_exists.mp hcarries)
    · intro ts hts
      exact passes_iff_of_carries hnow hts (hdifference ts hts)

theorem headerForA_carries : CarriesTimestamp stripePlatform (stripeRequest headerForA) 1700000000 :=
  ⟨headerForA.toList, "1700000000".toList, by decide, by decide, by decide,
    "d8cdb672c348ab5392e5e390c3cba5fb7d3559e4f9352a87078cc56a318678e7".toList,
    by unfold HasElement; decide⟩

theorem stripe_time_check_at_once :
    (∃ verdict, validateStripe stripePlatform 17000000000000000 "whsec".toList 300
        (stripeRequest headerForA) (Utf8.encode "a".toList) = .ok verdict) ∧
      PassesTimeCheck stripePlatform 17000000000000000 "whsec".toList 300
        (stripeRequest headerForA) (Utf8.encode "a".toList) := by
  have hcheck := stripe_time_check stripePlatform 17000000000000000 (by decide) "whsec".toList 300
    (stripeRequest headerForA) (Utf8.encode "a".toList)
  have hdifference : ∀ ts, CarriesTimestamp stripePlatform (stripeRequest headerForA) ts →
      |toUnixTimeSeconds 17000000000000000 - ts| ≠ 2 ^ 63 := by
    intro ts hts
    rw [carriesTimestamp_unique hts headerForA_carries]
    decide
  obtain ⟨hverdict, hpasses⟩ := hcheck.mpr hdifference
  exact ⟨hverdict, (hpasses 1700000000 headerForA_carries).mpr (by decide)⟩

/-- At 1700000000 seconds, the timestamp `2 ^ 63` seconds before makes the validator raise. -/
theorem stripe_time_check_raises :
    IsDateTimeOffset 17000000000000000 ∧ isNullOrWhiteSpace (some "whsec".toList) = false ∧
      CarriesTimestamp stripePlatform (stripeRequest "t=-9223372035154775808,v1=aa")
        (-9223372035154775808) ∧
      ¬ ∃ verdict, validateStripe stripePlatform 17000000000000000 "whsec".toList 300
        (stripeRequest "t=-9223372035154775808,v1=aa") (Utf8.encode "a".toList) = .ok verdict := by
  refine ⟨by decide, rfl, ⟨"t=-9223372035154775808,v1=aa".toList, "-9223372035154775808".toList,
    by decide, by decide, by decide, "aa".toList, by unfold HasElement; decide⟩, ?_⟩
  rintro ⟨verdict, h⟩
  cases h

end WebhookInbox.Api
