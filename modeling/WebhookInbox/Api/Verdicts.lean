import WebhookInbox.Api.Signatures

/-!
# Which signatures are accepted

`validateGitHub_accepts_iff` and `validateStripe_accepts_iff` say which requests the two
providers accept. `SignatureChecked` is the purpose of the validator: a signature header
carries a digest of the payload under the configured secret. An accepted request of a
source that requires signatures meets it (`signatureChecked_of_accepts`).
-/

namespace WebhookInbox.Api

open NetString

/-! ## Comparing digests -/

theorem foldl_or_eq_zero_iff (l : List (UInt8 × UInt8)) (diff : UInt8) :
    l.foldl (fun diff x => diff ||| (x.1 ^^^ x.2)) diff = 0 ↔ diff = 0 ∧ ∀ x ∈ l, x.1 = x.2 := by
  induction l generalizing diff with
  | nil => simp
  | cons x l ih =>
    rw [List.foldl_cons, ih, UInt8.or_eq_zero_iff, UInt8.xor_eq_zero_iff, List.forall_mem_cons, and_assoc]

theorem fixedTimeEquals_iff {a b : Bytes} : fixedTimeEquals a b = true ↔ a = b := by
  unfold fixedTimeEquals
  by_cases hlen : a.length = b.length
  · rw [if_neg (not_not.mpr hlen), beq_iff_eq, foldl_or_eq_zero_iff]
    constructor
    · rintro ⟨-, h⟩
      apply List.ext_getElem hlen
      intro i hi hi'
      exact h (a[i], b[i]) (List.mem_iff_getElem.mpr ⟨i, by simp; omega, by simp⟩)
    · rintro rfl
      refine ⟨rfl, fun x hx => ?_⟩
      obtain ⟨i, hi, rfl⟩ := List.mem_iff_getElem.mp hx
      simp
  · rw [if_pos hlen]
    simp only [Bool.false_eq_true, false_iff]
    rintro rfl
    exact hlen rfl

/-- Hexadecimal digits, of either case, of the bytes. -/
def Spells (digits : Text) (bytes : Bytes) : Prop := digits.map Char.toUpper = Hex.encode bytes

theorem length_of_spells {digits : Text} {bytes : Bytes} (h : Spells digits bytes) :
    digits.length = 2 * bytes.length := by
  have hlen := congrArg List.length h
  have hencode : ∀ bs : Bytes, (Hex.encode bs).length = 2 * bs.length := by
    intro bs
    induction bs with
    | nil => rfl
    | cons b bs ih =>
      rw [Hex.encode_cons, List.length_cons, List.length_cons, ih, List.length_cons]
      omega
  rwa [List.length_map, hencode] at hlen

theorem tryParseHex_eq_some_iff {hex : Text} {bytes : Bytes} :
    tryParseHex hex = some bytes ↔ Spells hex bytes := by
  unfold tryParseHex
  constructor
  · intro h
    split at h
    · cases h
    · exact Hex.decode?_eq_some_iff.mp h
  · intro h
    have hlen := length_of_spells h
    rw [if_neg (by omega)]
    exact Hex.decode?_eq_some_iff.mpr h

/-! ## The elements of the Stripe header -/

/-- The value of an element with the given name. -/
def elementValue (name part : Text) : Option Text :=
  (splitPair '=' part).bind fun x => if x.1 = name then some x.2 else none

theorem elementValue_eq_some_iff {name part value : Text} (hname : '=' ∉ name) :
    elementValue name part = some value ↔ part = name ++ '=' :: value := by
  unfold elementValue
  rw [Option.bind_eq_some_iff]
  constructor
  · rintro ⟨⟨n, v⟩, hsplit, h⟩
    split at h
    · rename_i hn
      cases h
      rw [← hn]
      exact (splitPair_eq_some_iff.mp hsplit).1
    · cases h
  · intro h
    exact ⟨(name, value), splitPair_eq_some_iff.mpr ⟨h, hname⟩, by simp⟩

theorem readElement_eq (found : Option Text × List Text) (part : Text) :
    readElement found part = ((elementValue "t".toList part).or found.1,
      found.2 ++ (elementValue "v1".toList part).toList) := by
  unfold readElement elementValue
  cases splitPair '=' part with
  | none => simp
  | some x =>
    obtain ⟨name, value⟩ := x
    simp only [Option.bind_some]
    split <;> split <;> simp

theorem foldl_readElement (parts : List Text) (found : Option Text × List Text) :
    parts.foldl readElement found = ((parts.filterMap (elementValue "t".toList)).getLast?.or found.1,
      found.2 ++ parts.filterMap (elementValue "v1".toList)) := by
  induction parts generalizing found with
  | nil => simp
  | cons part parts ih =>
    rw [List.foldl_cons, ih, readElement_eq, List.filterMap_cons, List.filterMap_cons]
    generalize parts.filterMap (elementValue "t".toList) = ts
    cases elementValue "t".toList part with
    | none => cases elementValue "v1".toList part <;> simp
    | some t =>
      cases hlast : ts.getLast? with
      | none => cases elementValue "v1".toList part <;> simp [List.getLast?_cons, hlast]
      | some t' => cases elementValue "v1".toList part <;> simp [List.getLast?_cons, hlast]

/-- The loop keeps the last `t` and all `v1`, in order. -/
theorem readElements_eq (parts : List Text) :
    readElements parts = ((parts.filterMap (elementValue "t".toList)).getLast?,
      parts.filterMap (elementValue "v1".toList)) := by
  rw [readElements, foldl_readElement]
  simp

theorem mem_of_elementValue {name part value : Text} {parts : List Text} (hname : '=' ∉ name)
    (hmem : part ∈ parts) (h : elementValue name part = some value) : name ++ '=' :: value ∈ parts := by
  rw [← (elementValue_eq_some_iff hname).mp h]
  exact hmem

/-- The element `name=value` stands in the list of the header. -/
def HasElement (text name value : Text) : Prop := name ++ '=' :: value ∈ splitEntries ',' text

theorem hasElement_of_t {text t : Text} (h : (readElements (splitEntries ',' text)).1 = some t) :
    HasElement text "t".toList t := by
  rw [readElements_eq] at h
  obtain ⟨part, hpart, hvalue⟩ := List.mem_filterMap.mp (List.mem_of_getLast? h)
  exact mem_of_elementValue (by decide) hpart hvalue

theorem hasElement_iff_v1 {text v : Text} :
    v ∈ (readElements (splitEntries ',' text)).2 ↔ HasElement text "v1".toList v := by
  rw [readElements_eq]
  constructor
  · intro h
    obtain ⟨part, hpart, hvalue⟩ := List.mem_filterMap.mp h
    exact mem_of_elementValue (by decide) hpart hvalue
  · intro h
    exact List.mem_filterMap.mpr ⟨_, h, (elementValue_eq_some_iff (by decide)).mpr rfl⟩

/-! ## The providers -/

variable {p : Platform}

/-- **GitHub.** -/
theorem validateGitHub_accepts_iff {secret : Text} {req : HttpRequest} {payload : Bytes} :
    (∃ reason, validateGitHub p secret req payload = (true, reason)) ↔
      ∃ provided, tryGetHeader p req "X-Hub-Signature-256".toList = some provided ∧
        startsWithIgnoreCase p provided "sha256=".toList = true ∧
        Spells (provided.drop 7) (p.hmacSha256 (Utf8.encode secret) payload) := by
  unfold validateGitHub
  cases tryGetHeader p req "X-Hub-Signature-256".toList with
  | none => simp
  | some provided =>
    have hlen : "sha256=".toList.length = 7 := rfl
    simp only [hlen, Option.some.injEq, exists_eq_left']
    cases startsWithIgnoreCase p provided "sha256=".toList with
    | false => simp
    | true =>
      simp only [Bool.not_true, Bool.false_eq_true, if_false, true_and]
      rw [← tryParseHex_eq_some_iff]
      cases tryParseHex (provided.drop 7) with
      | none => simp
      | some providedBytes =>
        dsimp only
        rw [Option.some.injEq]
        constructor
        · intro h
          split at h
          · rename_i hequal
            exact (fixedTimeEquals_iff.mp hequal).symm
          · obtain ⟨reason, hreason⟩ := h
            cases hreason
        · intro h
          rw [if_pos (fixedTimeEquals_iff.mpr h.symm)]
          exact ⟨none, rfl⟩

/-- The timestamp check lets the difference pass. -/
def WithinTolerance (now : Time) (ts : Int) (toleranceSeconds : Int32) : Prop :=
  wrapInt64 (toUnixTimeSeconds now - ts) ≠ -2 ^ 63 ∧
    |wrapInt64 (toUnixTimeSeconds now - ts)| ≤ toleranceSeconds.toInt

theorem any_candidate_iff {v1 : List Text} {computed : Bytes} :
    (v1.any fun candidate => (tryParseHex candidate).any (fixedTimeEquals computed)) = true ↔
      ∃ v ∈ v1, Spells v computed := by
  rw [List.any_eq_true]
  refine exists_congr fun v => and_congr_right fun _ => ?_
  rw [← tryParseHex_eq_some_iff]
  cases tryParseHex v with
  | none => simp
  | some bytes =>
    rw [Option.any_some, fixedTimeEquals_iff, Option.some.injEq]
    exact eq_comm

/-- **Stripe.** -/
theorem validateStripe_accepts_iff {now : Time} {secret : Text} {toleranceSeconds : Int32}
    {req : HttpRequest} {payload : Bytes} :
    (∃ reason, validateStripe p now secret toleranceSeconds req payload = .ok (true, reason)) ↔
      ∃ sigHeader, tryGetHeader p req "Stripe-Signature".toList = some sigHeader ∧
        ∃ t ts, (readElements (splitEntries ',' sigHeader)).1 = some t ∧ tryParseInt64 t = some ts ∧
          WithinTolerance now ts toleranceSeconds ∧
          ∃ v ∈ (readElements (splitEntries ',' sigHeader)).2,
            Spells v (p.hmacSha256 (Utf8.encode secret) (signedPayload t payload)) := by
  unfold validateStripe
  cases tryGetHeader p req "Stripe-Signature".toList with
  | none => simp
  | some sigHeader =>
    simp only [Option.some.injEq, exists_eq_left']
    generalize readElements (splitEntries ',' sigHeader) = found
    obtain ⟨t, v1⟩ := found
    constructor
    · rintro ⟨reason, h⟩
      cases t with
      | none => cases h
      | some t =>
        dsimp only at h
        split at h
        · cases h
        · cases hts : tryParseInt64 t with
          | none =>
            rw [hts] at h
            cases h
          | some ts =>
            rw [hts] at h
            dsimp only at h
            split at h
            · cases h
            · rename_i hmin
              split at h
              · cases h
              · rename_i htol
                split at h
                · rename_i hany
                  exact ⟨t, ts, rfl, hts, ⟨hmin, not_lt.mp htol⟩, any_candidate_iff.mp hany⟩
                · cases h
    · rintro ⟨t, ts, rfl, hts, ⟨hmin, htol⟩, hv⟩
      have hblank := isNullOrWhiteSpace_of_tryParseInt64 hts
      have hne : v1.isEmpty = false := by
        obtain ⟨v, hv, -⟩ := hv
        cases v1 with
        | nil => cases hv
        | cons => rfl
      refine ⟨none, ?_⟩
      simp only [hblank, hne, Bool.or_self, Bool.false_eq_true, if_false, hts]
      rw [if_neg hmin, if_neg (not_lt.mpr htol), if_pos (any_candidate_iff.mpr hv)]

/-! ## What a signature is for -/

/-- The header text is `sha256=` and the digits of the digest. -/
def IsGitHubSignature (p : Platform) (text : Text) (digest : Bytes) : Prop :=
  ∃ beginning digits, text = beginning ++ digits ∧
    equalsIgnoreCase p beginning "sha256=".toList = true ∧ Spells digits digest

/-- Some signature header of the request carries the digest of the payload, or of the
timestamped payload, under the secret of the configuration. -/
def SignatureChecked (p : Platform) (cfg : SourceSignatureConfig) (req : HttpRequest)
    (payload : Bytes) : Prop :=
  ∃ secret provider, cfg.secret = some secret ∧ isNullOrWhiteSpace (some secret) = false ∧
    cfg.provider = some provider ∧
    ((provider.map p.toLowerInvariant = "github".toList ∧
        ∃ text, tryGetHeader p req "X-Hub-Signature-256".toList = some text ∧
          IsGitHubSignature p text (p.hmacSha256 (Utf8.encode secret) payload)) ∨
      (provider.map p.toLowerInvariant = "stripe".toList ∧
        ∃ text t v, tryGetHeader p req "Stripe-Signature".toList = some text ∧
          HasElement text "t".toList t ∧ HasElement text "v1".toList v ∧
          Spells v (p.hmacSha256 (Utf8.encode secret) (signedPayload t payload))))

/-- For the UTF-8 bytes of a text, the timestamped payload is `t`, a dot and the payload. -/
theorem signedPayload_of_wellFormed {t : Text} {payload : Bytes} (h : Utf8.WellFormed payload) :
    signedPayload t payload = Utf8.encode t ++ 0x2E :: payload := by
  have hdot : Utf8.encode ('.' :: Utf8.decode payload) = 0x2E :: Utf8.encode (Utf8.decode payload) := rfl
  rw [signedPayload, Utf8.encode_append, hdot, Utf8.encode_decode h]

theorem isGitHubSignature_of_startsWith {text : Text} {digest : Bytes}
    (hstart : startsWithIgnoreCase p text "sha256=".toList = true)
    (hspells : Spells (text.drop 7) digest) : IsGitHubSignature p text digest :=
  ⟨text.take 7, text.drop 7, (List.take_append_drop 7 text).symm, hstart, hspells⟩

/-- An accepted request of a source that requires signatures carries one. -/
theorem signatureChecked_of_accepts {opts : SignatureOptions} {now : Time} {source : Text}
    {req : HttpRequest} {payload : Bytes} {cfg : SourceSignatureConfig}
    (hcfg : selectConfig p opts source = some cfg) (hrequire : cfg.require = true)
    (h : Accepts p opts now source req payload) : SignatureChecked p cfg req payload := by
  obtain ⟨reason, h⟩ := h
  unfold validateAsync at h
  simp only [hcfg, hrequire, Bool.not_true, Bool.false_eq_true, if_false] at h
  cases hsecret : cfg.secret with
  | none =>
    rw [hsecret] at h
    cases h
  | some secret =>
    rw [hsecret] at h
    dsimp only at h
    split at h
    · cases h
    · rename_i hblank
      cases hprovider : cfg.provider with
      | none =>
        rw [hprovider] at h
        cases h
      | some provider =>
        rw [hprovider] at h
        dsimp only at h
        refine ⟨secret, provider, hsecret, by simpa using hblank, hprovider, ?_⟩
        split at h
        · rename_i hgithub
          obtain ⟨text, htext, hstart, hspells⟩ :=
            validateGitHub_accepts_iff.mp ⟨reason, Except.ok.inj h⟩
          exact Or.inl ⟨hgithub, text, htext, isGitHubSignature_of_startsWith hstart hspells⟩
        · split at h
          · rename_i hstripe
            obtain ⟨text, htext, t, ts, ht, -, -, v, hv, hspells⟩ :=
              validateStripe_accepts_iff.mp ⟨reason, h⟩
            exact Or.inr ⟨hstripe, text, t, v, htext, hasElement_of_t ht, hasElement_iff_v1.mp hv, hspells⟩
          · cases h

end WebhookInbox.Api
