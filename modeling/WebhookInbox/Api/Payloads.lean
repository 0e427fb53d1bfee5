import WebhookInbox.Api.Details
import WebhookInbox.Library.Json

/-!
# How a payload is displayed

`DecodePayload` falls back from JSON to text, and from text to base64 where the decoder throws.
`Encoding.UTF8` replaces what it cannot decode, so the last branch is never taken: a payload that is
no JSON is displayed in full exactly when it is well-formed UTF-8 (`showsInFull_iff`). With a
decoder that throws, all of them would be (`showsInFull_of_throwing`).
-/

namespace WebhookInbox.Api

/-- The payload is a JSON text. -/
def IsJson (payload : Bytes) : Prop :=
  Utf8.WellFormed payload ∧ ∃ v : Json.Value Text, Json.IsText some (Utf8.decode payload) v

/-- The text of well-formed UTF-8, and base64 otherwise. -/
def IsDisplayOf (payload : Bytes) (text : Text) : Prop :=
  (Utf8.WellFormed payload → Utf8.encode text = payload) ∧
    (¬ Utf8.WellFormed payload → text = base64Text payload)

/-- The display loses nothing: no other payload of the same kind has it. -/
def ShowsInFull (display : Bytes → Text) (payload : Bytes) : Prop :=
  IsDisplayOf payload (display payload) ∧
    ∀ payload', payload' ≠ [] → ¬ IsJson payload' → (Utf8.WellFormed payload' ↔ Utf8.WellFormed payload) →
      display payload' = display payload → payload' = payload

/-! ## The branch that is not taken -/

theorem replacement_not_mem_base64Text (payload : Bytes) : Utf8.replacement ∉ base64Text payload := by
  have hreplacement : Utf8.replacement.toNat = 0xFFFD := rfl
  have hlabel : Utf8.replacement ∉ "[base64] ".toList := by decide
  intro h
  rcases List.mem_append.mp h with h | h
  · exact hlabel h
  · have hascii := Base64.toNat_lt_of_mem_encode h
    omega

/-- Bytes of no text are displayed with replacements. -/
theorem decode_ne_base64Text {payload : Bytes} (h : ¬ Utf8.WellFormed payload) :
    Utf8.decode payload ≠ base64Text payload := by
  intro heq
  apply h
  apply Utf8.wellFormed_of_not_mem
  rw [heq]
  exact replacement_not_mem_base64Text payload

theorem not_isText_base64Text {ν : Type} {number : Text → Option ν} {v : Json.Value ν} (payload : Bytes) :
    ¬ Json.IsText number (base64Text payload) v :=
  Json.not_isText (by decide) (by decide) (by decide)

section Shown

variable {formatJson : Bytes → Option Text}
  (haccepts : ∀ payload text, formatJson payload = some text → Utf8.WellFormed payload → IsJson payload)
  (hwrites : ∀ payload text, formatJson payload = some text →
    ∃ v : Json.Value Text, Json.IsText some text v)

include haccepts in
theorem decodePayload_of_wellFormed {payload : Bytes} (hne : payload ≠ []) (hjson : ¬ IsJson payload)
    (hwell : Utf8.WellFormed payload) :
    (decodePayload formatJson payload).1 = Utf8.decode payload := by
  cases hformat : formatJson payload with
  | none => rw [decodePayload_of_none hne hformat]
  | some text => exact absurd (haccepts payload text hformat hwell) hjson

include hwrites in
theorem decodePayload_ne_base64Text {payload : Bytes} (hne : payload ≠ [])
    (hill : ¬ Utf8.WellFormed payload) : (decodePayload formatJson payload).1 ≠ base64Text payload := by
  cases hformat : formatJson payload with
  | none =>
    rw [decodePayload_of_none hne hformat]
    exact decode_ne_base64Text hill
  | some text =>
    obtain ⟨v, hv⟩ := hwrites payload text hformat
    rw [decodePayload_of_some hne hformat]
    rintro rfl
    exact not_isText_base64Text payload hv

end Shown

/-- **Displays in full.** The parser takes no other well-formed UTF-8 than JSON, and the serializer
writes JSON. -/
theorem showsInFull_iff (formatJson : Bytes → Option Text)
    (haccepts : ∀ payload text, formatJson payload = some text → Utf8.WellFormed payload → IsJson payload)
    (hwrites : ∀ payload text, formatJson payload = some text →
      ∃ v : Json.Value Text, Json.IsText some text v)
    (payload : Bytes) (hne : payload ≠ []) (hjson : ¬ IsJson payload) :
    ShowsInFull (fun payload => (decodePayload formatJson payload).1) payload ↔ Utf8.WellFormed payload := by
  constructor
  · rintro ⟨⟨-, hbase64⟩, -⟩
    by_contra hill
    exact decodePayload_ne_base64Text hwrites hne hill (hbase64 hill)
  · intro hwell
    have hdisplay := decodePayload_of_wellFormed haccepts hne hjson hwell
    refine ⟨⟨fun _ => ?_, fun hill => absurd hwell hill⟩, ?_⟩
    · dsimp only
      rw [hdisplay, Utf8.encode_decode hwell]
    · intro payload' hne' hjson' hkind heq
      have hwell' := hkind.mpr hwell
      dsimp only at heq
      rw [hdisplay, decodePayload_of_wellFormed haccepts hne' hjson' hwell'] at heq
      rw [← Utf8.encode_decode hwell', heq, Utf8.encode_decode hwell]

/-! ## Two payloads -/

theorem not_isJson_of_head {c : Char} {text : Text} (hspace : Json.isSpace c = false)
    (hvalue : Json.beginsValue c = false) : ¬ IsJson (Utf8.encode (c :: text)) := by
  rintro ⟨-, v, hv⟩
  rw [Utf8.decode_encode] at hv
  obtain ⟨d, rest, heq, hd⟩ := Json.head_of_item hv
  obtain ⟨rfl, -⟩ := List.cons.inj heq
  rw [hspace, hvalue] at hd
  rcases hd with hd | hd <;> cases hd

theorem showsInFull_hello :
    ShowsInFull (fun payload => (decodePayload (fun _ => none) payload).1) (Utf8.encode "hello".toList) :=
  (showsInFull_iff (fun _ => none) (fun _ _ h => nomatch h) (fun _ _ h => nomatch h) _ (by decide)
    (not_isJson_of_head (by decide) (by decide))).mpr ⟨_, rfl⟩

/-- Bytes that are not written back the same are no text. -/
theorem not_wellFormed_of_decode {payload : Bytes} (h : Utf8.encode (Utf8.decode payload) ≠ payload) :
    ¬ Utf8.WellFormed payload :=
  fun hwell => h (Utf8.encode_decode hwell)

/-- Two payloads of one byte are displayed as the same replacement character. -/
theorem not_showsInFull_FF :
    (¬ IsJson [0xFF] ∧ ¬ Utf8.WellFormed [0xFF]) ∧ (¬ IsJson [0xFE] ∧ ¬ Utf8.WellFormed [0xFE]) ∧
      decodePayload (fun _ => none) [0xFF] = ([Utf8.replacement], false) ∧
      decodePayload (fun _ => none) [0xFE] = ([Utf8.replacement], false) ∧
      ¬ ShowsInFull (fun payload => (decodePayload (fun _ => none) payload).1) [0xFF] := by
  have hFF : ¬ Utf8.WellFormed [0xFF] := not_wellFormed_of_decode (by decide)
  have hFE : ¬ Utf8.WellFormed [0xFE] := not_wellFormed_of_decode (by decide)
  refine ⟨⟨fun h => hFF h.1, hFF⟩, ⟨fun h => hFE h.1, hFE⟩, by decide, by decide, ?_⟩
  rintro ⟨⟨-, hbase64⟩, -⟩
  exact decode_ne_base64Text hFF (hbase64 hFF)

/-! ## A decoder that throws -/

section Throwing

variable {getString formatJson : Bytes → Option Text}
  (hgetString : ∀ payload text, getString payload = some text ↔ Utf8.encode text = payload)
  (hrejects : ∀ payload, ¬ IsJson payload → formatJson payload = none)

include hgetString hrejects in
theorem isDisplayOf_decodePayloadBy {payload : Bytes} (hne : payload ≠ []) (hjson : ¬ IsJson payload) :
    IsDisplayOf payload (decodePayloadBy getString formatJson payload).1 := by
  unfold decodePayloadBy
  rw [List.isEmpty_eq_false_iff.mpr hne, hrejects payload hjson]
  cases hget : getString payload with
  | some text =>
    have htext := (hgetString payload text).mp hget
    exact ⟨fun _ => htext, fun hill => absurd ⟨text, htext⟩ hill⟩
  | none =>
    refine ⟨fun hwell => ?_, fun _ => rfl⟩
    obtain ⟨text, htext⟩ := hwell
    rw [(hgetString payload text).mpr htext] at hget
    cases hget

include hgetString hrejects in
/-- All payloads that are no JSON are displayed in full when the decoder throws. -/
theorem showsInFull_of_throwing {payload : Bytes} (hne : payload ≠ []) (hjson : ¬ IsJson payload) :
    ShowsInFull (fun payload => (decodePayloadBy getString formatJson payload).1) payload := by
  have hdisplay := isDisplayOf_decodePayloadBy hgetString hrejects hne hjson
  refine ⟨hdisplay, ?_⟩
  intro payload' hne' hjson' hkind heq
  have hdisplay' := isDisplayOf_decodePayloadBy hgetString hrejects hne' hjson'
  dsimp only at heq
  rw [heq] at hdisplay'
  by_cases hwell : Utf8.WellFormed payload
  · rw [← hdisplay'.1 (hkind.mpr hwell), hdisplay.1 hwell]
  · have hbase64 := (hdisplay'.2 fun hwell' => hwell (hkind.mp hwell')).symm.trans (hdisplay.2 hwell)
    exact Base64.encode_injective (List.append_cancel_left hbase64)

end Throwing

end WebhookInbox.Api
