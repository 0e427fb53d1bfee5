import WebhookInbox.Api.Verdicts

/-!
# The GitHub validator by its operations

`ValidateGitHub` once more, with the operations of .NET that may raise: a range of a text,
the conversion of hexadecimal digits and an index into an array. Nothing leaves the method
(`validateGitHub_eq`), and on ASCII headers it accepts one text up to case (`gitHub_exact`).
-/

namespace WebhookInbox.Api

open NetString

namespace Operations

/-- What the operations raise. -/
inductive Raised where
  | argumentOutOfRange
  | indexOutOfRange
  | format
  deriving DecidableEq, Repr

/-- The range `text[start..]`. -/
def rangeFrom (text : Text) (start : Nat) : Except Raised Text :=
  if start ≤ text.length then .ok (text.drop start) else .error .argumentOutOfRange

/-- `Convert.FromHexString`. -/
def fromHexString (hex : Text) : Except Raised Bytes :=
  match Hex.decode? hex with
  | some bytes => .ok bytes
  | none => .error .format

/-- The `catch` takes whatever the conversion raises. -/
def tryParseHex (hex : Text) : Bool × Bytes :=
  if hex.length % 2 ≠ 0 then (false, [])
  else
    match fromHexString hex with
    | .ok bytes => (true, bytes)
    | .error _ => (false, [])

def byteAt (a : Bytes) (i : Nat) : Except Raised UInt8 :=
  match a[i]? with
  | some b => .ok b
  | none => .error .indexOutOfRange

/-- The body of the loop over the two arrays. -/
def addDifference (a b : Bytes) (diff : UInt8) (i : Nat) : Except Raised UInt8 := do
  let x ← byteAt a i
  let y ← byteAt b i
  return diff ||| (x ^^^ y)

def fixedTimeEquals (a b : Bytes) : Except Raised Bool :=
  if a.length ≠ b.length then .ok false
  else do
    let diff ← (List.range a.length).foldlM (addDifference a b) 0
    return diff == 0

def validateGitHub (p : Platform) (secret : Text) (req : HttpRequest) (payload : Bytes) :
    Except Raised Verdict :=
  match tryGetHeader p req "X-Hub-Signature-256".toList with
  | none => .ok (false, some "missing:X-Hub-Signature-256".toList)
  | some provided =>
    let beginning := "sha256=".toList
    if !startsWithIgnoreCase p provided beginning then .ok (false, some "bad-format".toList)
    else do
      let sigHex ← rangeFrom provided beginning.length
      match tryParseHex sigHex with
      | (false, _) => return (false, some "bad-hex".toList)
      | (true, providedBytes) =>
        let computed := p.hmacSha256 (Utf8.encode secret) payload
        let matched ← fixedTimeEquals computed providedBytes
        return (matched, if matched then none else some "mismatch".toList)

/-! ## Nothing is raised -/

theorem rangeFrom_eq {text : Text} {start : Nat} (h : start ≤ text.length) :
    rangeFrom text start = .ok (text.drop start) :=
  if_pos h

theorem tryParseHex_eq (hex : Text) : tryParseHex hex =
    match Api.tryParseHex hex with
    | some bytes => (true, bytes)
    | none => (false, []) := by
  unfold tryParseHex Api.tryParseHex fromHexString
  split
  · rfl
  · cases Hex.decode? hex <;> rfl

theorem addDifference_eq {a b : Bytes} {i : Nat} (ha : i < a.length) (hb : i < b.length) (diff : UInt8) :
    addDifference a b diff i = .ok (diff ||| (a[i] ^^^ b[i])) := by
  unfold addDifference byteAt
  rw [List.getElem?_eq_getElem ha, List.getElem?_eq_getElem hb]
  rfl

/-- **The loop** over the indices from `n` on reads the pairs from `n` on. -/
theorem foldlM_addDifference {a b : Bytes} (h : a.length = b.length) (count : Nat) :
    ∀ n diff, n + count = a.length → (List.range' n count).foldlM (addDifference a b) diff =
      .ok (((a.zip b).drop n).foldl (fun diff x => diff ||| (x.1 ^^^ x.2)) diff) := by
  induction count with
  | zero =>
    intro n diff hn
    have hdrop : (a.zip b).drop n = [] := List.drop_eq_nil_of_le (by rw [List.length_zip]; omega)
    rw [hdrop]
    rfl
  | succ count ih =>
    intro n diff hn
    have hzip : n < (a.zip b).length := by
      rw [List.length_zip]
      omega
    rw [List.range'_succ, List.foldlM_cons, addDifference_eq (by omega) (by omega),
      List.drop_eq_getElem_cons hzip, List.getElem_zip, List.foldl_cons]
    exact ih (n + 1) _ (by omega)

theorem fixedTimeEquals_eq (a b : Bytes) : fixedTimeEquals a b = .ok (Api.fixedTimeEquals a b) := by
  unfold fixedTimeEquals Api.fixedTimeEquals
  split
  · rfl
  · rename_i hlength
    rw [List.range_eq_range', foldlM_addDifference (not_not.mp hlength) a.length 0 0 (by omega)]
    rfl

/-- A text with the beginning is as long as it. -/
theorem length_le_of_startsWith {p : Platform} {s beginning : Text}
    (h : startsWithIgnoreCase p s beginning = true) : beginning.length ≤ s.length := by
  have hlength := length_eq_of_equalsIgnoreCase h
  rw [List.length_take] at hlength
  omega

/-- The operations return what the validator returns. -/
theorem validateGitHub_eq (p : Platform) (secret : Text) (req : HttpRequest) (payload : Bytes) :
    validateGitHub p secret req payload = .ok (Api.validateGitHub p secret req payload) := by
  unfold validateGitHub Api.validateGitHub
  cases tryGetHeader p req "X-Hub-Signature-256".toList with
  | none => rfl
  | some provided =>
    dsimp only
    split
    · rfl
    · rename_i hstart
      rw [Bool.not_eq_true, Bool.not_eq_false'] at hstart
      rw [rangeFrom_eq (length_le_of_startsWith hstart)]
      show (match tryParseHex (provided.drop "sha256=".toList.length) with
        | (false, _) => _
        | (true, providedBytes) => _) = _
      rw [tryParseHex_eq]
      cases Api.tryParseHex (provided.drop "sha256=".toList.length) with
      | none => rfl
      | some providedBytes =>
        dsimp only
        rw [fixedTimeEquals_eq]
        cases Api.fixedTimeEquals (p.hmacSha256 (Utf8.encode secret) payload) providedBytes <;> rfl

end Operations

/-! ## The one signature -/

/-- ASCII texts agree ignoring case when they agree in lower case. -/
theorem equalsIgnoreCase_lower_iff {p : Platform} {a b : Text} (ha : ∀ c ∈ a, c.toNat < 128)
    (hb : ∀ c ∈ b, c.toNat < 128) :
    equalsIgnoreCase p a b = true ↔ a.map Char.toLower = b.map Char.toLower := by
  rw [equalsIgnoreCase_of_ascii ha hb, beq_iff_eq]
  exact Hex.map_toUpper_eq_iff

theorem spells_iff_lower {digits : Text} {bytes : Bytes} :
    Spells digits bytes ↔ digits.map Char.toLower = (Hex.encode bytes).map Char.toLower := by
  rw [Spells, ← Hex.map_toUpper_eq_iff, Hex.map_toUpper_encode]

/-- The header of the digest, in lower case. -/
def gitHubSignature (digest : Bytes) : Text :=
  "sha256=".toList ++ (Hex.encode digest).map Char.toLower

theorem startsWith_and_spells_iff {p : Platform} {provided : Text} {digest : Bytes}
    (hascii : ∀ c ∈ provided, c.toNat < 128) :
    startsWithIgnoreCase p provided "sha256=".toList = true ∧ Spells (provided.drop 7) digest ↔
      provided.map Char.toLower = gitHubSignature digest := by
  have htake : ∀ c ∈ provided.take 7, c.toNat < 128 := fun c hc => hascii c (List.mem_of_mem_take hc)
  have hbeginning : "sha256=".toList.all fun c => c.toNat < 128 := by decide
  have hlower : "sha256=".toList.map Char.toLower = "sha256=".toList := by decide
  have hstart : startsWithIgnoreCase p provided "sha256=".toList = true ↔
      (provided.take 7).map Char.toLower = "sha256=".toList := by
    rw [← hlower]
    exact equalsIgnoreCase_lower_iff htake fun c hc => of_decide_eq_true (List.all_eq_true.mp hbeginning c hc)
  rw [hstart, spells_iff_lower]
  show _ ↔ provided.map Char.toLower = "sha256=".toList ++ (Hex.encode digest).map Char.toLower
  constructor
  · rintro ⟨hstart, hdigits⟩
    rw [← List.take_append_drop 7 provided, List.map_append, hstart, hdigits]
  · intro h
    have hseven : "sha256=".toList.length = 7 := rfl
    have hlength : 7 ≤ provided.length := by
      rw [← List.length_map Char.toLower, h, List.length_append, hseven]
      exact Nat.le_add_right _ _
    rw [← List.take_append_drop 7 provided, List.map_append] at h
    apply List.append_inj h
    rw [List.length_map, List.length_take, min_eq_left hlength, hseven]

/-- **One signature.** The operations always return a verdict. A header, whose values are joined, is
accepted exactly when it is there and is, in lower case, the signature of the payload. -/
theorem gitHub_exact (p : Platform) (secret : Text) (req : HttpRequest) (payload : Bytes)
    (hascii : ∀ provided, tryGetHeader p req "X-Hub-Signature-256".toList = some provided →
      ∀ c ∈ provided, c.toNat < 128) :
    ∃ verdict, Operations.validateGitHub p secret req payload = .ok verdict ∧
      (verdict.1 = true ↔
        ∃ provided, tryGetHeader p req "X-Hub-Signature-256".toList = some provided ∧
          provided.map Char.toLower = gitHubSignature (p.hmacSha256 (Utf8.encode secret) payload)) := by
  refine ⟨_, Operations.validateGitHub_eq p secret req payload, ?_⟩
  have haccepts : (validateGitHub p secret req payload).1 = true ↔
      ∃ reason, validateGitHub p secret req payload = (true, reason) := by
    constructor
    · intro h
      exact ⟨_, Prod.ext h rfl⟩
    · rintro ⟨reason, h⟩
      rw [h]
  rw [haccepts, validateGitHub_accepts_iff]
  exact exists_congr fun provided =>
    and_congr_right fun hheader => startsWith_and_spells_iff (hascii provided hheader)

/-- The platform with the digest of `{}`. -/
def gitHubPlatform : Platform :=
  Platform.ascii (tableDigest []) fun _ => tableDigest
    [([0x7B, 0x7D], "ae6341ea7f40a435db57d903d02cba19085efb8a913f8cfbd8cff3d7df0c7a2d")]

/-- Digits and the name of the algorithm in mixed case. -/
def mixedCaseRequest : HttpRequest where
  headers := [("x-hub-signature-256".toList,
    ["SHA256=AE6341EA7F40A435DB57D903D02CBA19085EFB8A913f8cfbd8cff3d7df0c7a2d".toList])]
  body := []

theorem gitHub_exact_mixedCase :
    ∃ verdict, Operations.validateGitHub gitHubPlatform "whsec".toList mixedCaseRequest [0x7B, 0x7D] =
        .ok verdict ∧ verdict.1 = true := by
  have hheader : tryGetHeader gitHubPlatform mixedCaseRequest "X-Hub-Signature-256".toList =
      some "SHA256=AE6341EA7F40A435DB57D903D02CBA19085EFB8A913f8cfbd8cff3d7df0c7a2d".toList := by decide
  have hascii : "SHA256=AE6341EA7F40A435DB57D903D02CBA19085EFB8A913f8cfbd8cff3d7df0c7a2d".toList.all
      fun c => c.toNat < 128 := by decide
  obtain ⟨verdict, hverdict, haccepts⟩ := gitHub_exact gitHubPlatform "whsec".toList mixedCaseRequest
    [0x7B, 0x7D] (by
      intro provided hprovided c hc
      rw [hheader] at hprovided
      cases hprovided
      exact of_decide_eq_true (List.all_eq_true.mp hascii c hc))
  exact ⟨verdict, hverdict, haccepts.mpr ⟨_, hheader, by decide⟩⟩

end WebhookInbox.Api
