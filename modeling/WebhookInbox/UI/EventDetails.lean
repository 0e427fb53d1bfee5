import WebhookInbox.Api.Details
import WebhookInbox.UI.LineEnds

/-!
# The details page

The component behind `/events/{id}` loads one event and shows the payload as the API has decoded
it, after a replacement in JSON texts. What is shown for a JSON payload denotes its value exactly when
the parser has refused it, so that it is shown as it is, or no string in it has a line end
(`shown_denotes_iff`).
-/

namespace WebhookInbox.UI

open Api NetString Json

/-- The client's record has the fields of the API's. -/
abbrev EventDetail := EventDetailDto

/-- The fields of the component. -/
structure EventDetails where
  event : Option EventDetail := none
  isLoading : Bool := true
  error : Option Text := none

/-- `ApiClient.GetEventAsync`, which turns the answer 404 into no event. -/
def getEventAsync (p : Platform) (getRawText : JsonElement → Text) (formatJson : Bytes → Option Text)
    (db : Database) (id : Guid) : Except Text (Option EventDetail) :=
  .ok (getEvent p getRawText formatJson db id)

namespace EventDetails

/-- `OnParametersSetAsync`, with what the request for the event returns or throws. -/
def onParametersSetAsync (fetched : Except Text (Option EventDetail)) : EventDetails :=
  match fetched with
  | .ok (some event) =>
    if event.payloadIsJson && !event.payload.isEmpty then
      { event := some { event with payload := replaceLineEnds event.payload }, isLoading := false }
    else { event := some event, isLoading := false }
  | .ok none => { isLoading := false }
  | .error message => { error := some message, isLoading := false }

/-- The text in the block of the payload; `none` where another message stands for it. -/
def shownPayload (c : EventDetails) : Option Text :=
  match c.error, c.isLoading, c.event with
  | none, false, some event =>
    if isNullOrWhiteSpace (some event.payload) then none else some event.payload
  | _, _, _ => none

end EventDetails

/-- The page of an event. -/
def detailsPage (p : Platform) (getRawText : JsonElement → Text) (formatJson : Bytes → Option Text)
    (db : Database) (id : Guid) : EventDetails :=
  .onParametersSetAsync (getEventAsync p getRawText formatJson db id)

/-- The page shows a JSON text of the value. -/
def ShowsValue {ν : Type} (number : Text → Option ν) (page : EventDetails) (v : Value ν) : Prop :=
  ∃ text, page.shownPayload = some text ∧ IsText number text v

/-! ## What is shown -/

theorem isWhiteSpace_of_beginsValue {c : Char} (h : beginsValue c = true) : isWhiteSpace c = false := by
  simp only [beginsValue, Bool.or_eq_true, beq_iff_eq] at h
  rcases h with ((((((rfl | rfl) | rfl) | rfl) | rfl) | rfl) | rfl) | hdigit
  iterate 7 rfl
  have hrange : 48 ≤ c.toNat ∧ c.toNat ≤ 57 := by
    simp only [Char.isDigit, Bool.and_eq_true, decide_eq_true_eq, ge_iff_le, UInt32.le_iff_toNat_le] at hdigit
    exact hdigit
  simp only [isWhiteSpace, Bool.or_eq_false_iff, Bool.and_eq_false_iff, decide_eq_false_iff_not,
    beq_eq_false_iff_ne]
  omega

/-- A JSON text is not blank. -/
theorem not_blank_of_isText {ν : Type} {number : Text → Option ν} {text : Text} {v : Value ν}
    (h : IsText number text v) : isNullOrWhiteSpace (some text) = false := by
  cases h with
  | @item _ before text after _ h _ =>
    obtain ⟨c, rest, rfl, hc⟩ := head_of_value h
    have hall : ¬ (before ++ (c :: rest ++ after)).all isWhiteSpace = true := by
      rw [List.all_append, List.cons_append, List.all_cons, isWhiteSpace_of_beginsValue hc]
      simp
    simpa [isNullOrWhiteSpace] using hall

theorem ne_nil_of_not_blank {text : Text} (h : isNullOrWhiteSpace (some text) = false) : text ≠ [] := by
  rintro rfl
  cases h

/-- A blank text is not shown. -/
theorem shownPayload_eq_some_iff (event : EventDetail) (text : Text) :
    EventDetails.shownPayload { event := some event, isLoading := false } = some text ↔
      event.payload = text ∧ isNullOrWhiteSpace (some text) = false := by
  unfold EventDetails.shownPayload
  dsimp only
  cases hblank : isNullOrWhiteSpace (some event.payload) with
  | true =>
    simp only [if_true, reduceCtorEq, false_iff, not_and]
    rintro rfl
    rw [hblank]
    exact Bool.noConfusion
  | false =>
    simp only [Bool.false_eq_true, if_false, Option.some.injEq]
    constructor
    · rintro rfl
      exact ⟨rfl, hblank⟩
    · exact And.left

/-- A JSON payload is shown with its replacements. -/
theorem shownPayload_json {event : EventDetail} (hjson : event.payloadIsJson = true) (hne : event.payload ≠ [])
    (text : Text) : (EventDetails.onParametersSetAsync (.ok (some event))).shownPayload = some text ↔
      replaceLineEnds event.payload = text ∧ isNullOrWhiteSpace (some text) = false := by
  have hload : EventDetails.onParametersSetAsync (.ok (some event)) =
      { event := some { event with payload := replaceLineEnds event.payload }, isLoading := false } := by
    unfold EventDetails.onParametersSetAsync
    dsimp only
    rw [hjson, List.isEmpty_eq_false_iff.mpr hne]
    rfl
  rw [hload, shownPayload_eq_some_iff]

/-- Another payload is shown as it is. -/
theorem shownPayload_text {event : EventDetail} (hjson : event.payloadIsJson = false) (text : Text) :
    (EventDetails.onParametersSetAsync (.ok (some event))).shownPayload = some text ↔
      event.payload = text ∧ isNullOrWhiteSpace (some text) = false := by
  have hload : EventDetails.onParametersSetAsync (.ok (some event)) =
      { event := some event, isLoading := false } := by
    unfold EventDetails.onParametersSetAsync
    dsimp only
    rw [hjson]
    rfl
  rw [hload, shownPayload_eq_some_iff]

/-- The page loads what the API answers for the row. -/
theorem detailsPage_eq (p : Platform) (getRawText : JsonElement → Text) (formatJson : Bytes → Option Text)
    {db : Database} {id : Guid} {entity : Event} (hentity : db.events.find? id = some entity) :
    ∃ event, detailsPage p getRawText formatJson db id = .onParametersSetAsync (.ok (some event)) ∧
      (event.payload, event.payloadIsJson) = decodePayload formatJson entity.payload := by
  cases hget : getEvent p getRawText formatJson db id with
  | none =>
    rw [getEvent, hentity] at hget
    cases hget
  | some event =>
    have hpage : detailsPage p getRawText formatJson db id = .onParametersSetAsync (.ok (some event)) := by
      rw [detailsPage, getEventAsync, hget]
    rw [getEvent, hentity, Option.map_some, Option.some.injEq] at hget
    exact ⟨event, hpage, by rw [← hget]⟩

section Shows

variable {ν : Type} {number : Text → Option ν} {p : Platform} {getRawText : JsonElement → Text}
  {formatJson : Bytes → Option Text} {db : Database} {id : Guid} {entity : Event}
  (hentity : db.events.find? id = some entity) {v : Value ν}

include hentity in
theorem showsValue_of_none (hne : entity.payload ≠ []) (hformat : formatJson entity.payload = none)
    (hv : IsText number (Utf8.decode entity.payload) v) :
    ShowsValue number (detailsPage p getRawText formatJson db id) v := by
  obtain ⟨event, hpage, hevent⟩ := detailsPage_eq p getRawText formatJson hentity
  rw [decodePayload_of_none hne hformat, Prod.mk.injEq] at hevent
  rw [ShowsValue, hpage]
  exact ⟨_, (shownPayload_text hevent.2 _).mpr ⟨hevent.1, not_blank_of_isText hv⟩, hv⟩

include hentity in
theorem showsValue_of_some {formatted : Text} (hne : entity.payload ≠ [])
    (hformat : formatJson entity.payload = some formatted) (hformatted : IsText number formatted v) :
    ShowsValue number (detailsPage p getRawText formatJson db id) v ↔
      IsText number (replaceLineEnds formatted) v := by
  obtain ⟨event, hpage, hevent⟩ := detailsPage_eq p getRawText formatJson hentity
  rw [decodePayload_of_some hne hformat, Prod.mk.injEq] at hevent
  have hnonempty : event.payload ≠ [] := by
    rw [hevent.1]
    exact ne_nil_of_not_blank (not_blank_of_isText hformatted)
  rw [ShowsValue, hpage]
  constructor
  · rintro ⟨text, hshown, htext⟩
    rw [shownPayload_json hevent.2 hnonempty, hevent.1] at hshown
    rw [hshown.1]
    exact htext
  · intro htext
    have hreplaced : replaceLineEnds event.payload = replaceLineEnds formatted := by rw [hevent.1]
    exact ⟨_, (shownPayload_json hevent.2 hnonempty _).mpr ⟨hreplaced, not_blank_of_isText htext⟩, htext⟩

end Shows

/-- **The value shown.** The serializer writes JSON of the payload's value, with short escapes for carriage
returns, line feeds and backslashes. -/
theorem shown_denotes_iff {ν : Type} (number : Text → Option ν) (p : Platform)
    (getRawText : JsonElement → Text) (formatJson : Bytes → Option Text) (db : Database) (id : Guid)
    (entity : Event) (hentity : db.events.find? id = some entity) (v : Value ν)
    (hv : IsText number (Utf8.decode entity.payload) v)
    (hwritten : ∀ formatted, formatJson entity.payload = some formatted → Written number formatted v) :
    ShowsValue number (detailsPage p getRawText formatJson db id) v ↔
      formatJson entity.payload = none ∨ ∀ units ∈ v.strings, ¬ HasLineEnd units := by
  have hne : entity.payload ≠ [] := by
    intro hempty
    rw [hempty] at hv
    cases not_blank_of_isText hv
  cases hformat : formatJson entity.payload with
  | none =>
    have hshows : ShowsValue number (detailsPage p getRawText formatJson db id) v :=
      showsValue_of_none hentity hne hformat hv
    exact iff_of_true hshows (Or.inl rfl)
  | some formatted =>
    have hformatted := hwritten formatted hformat
    rw [showsValue_of_some hentity hne hformat hformatted.isText, isText_replace_iff hformatted.isText,
      infix_written_iff hformatted]
    simp

/-! ## Two payloads -/

theorem written_string {ν : Type} {number : Text → Option ν} {units : List UInt16} {text : Text}
    (h : Pieces WrittenPiece units text) : Written number ('"' :: (text ++ ['"'])) (.string units) := by
  have hempty : ∀ c ∈ ([] : Text), isSpace c = true := fun _ hc => nomatch hc
  have hitem : Denotes number WrittenPiece (.item (.string units)) ([] ++ ('"' :: (text ++ ['"']) ++ [])) :=
    .item hempty (.string h) hempty
  rw [List.nil_append, List.append_nil] at hitem
  exact hitem

/-- The database with one event that has this text for its payload. -/
def databaseWith (text : Text) : Database where
  events := .single { id := 1, source := "shop".toList, receivedAt := 0, payload := Utf8.encode text }
  endpoints := ∅
  attempts := ∅

/-- The page of the event, when the text is its own indented form. -/
def pageOf (text : Text) : EventDetails :=
  detailsPage (.ascii (fun _ => []) fun _ _ => []) (fun _ => []) (fun _ => some text) (databaseWith text) 1

theorem writtenPiece_letter : WrittenPiece [0x61] ['a'] := by
  have hpiece : Piece (Utf16.encodeChar 'a') ['a'] := .plain (by decide) (by decide) (by decide)
  exact ⟨hpiece, by decide, by decide, by decide, by decide⟩

theorem writtenPiece_carriageReturn : WrittenPiece [0x0D] ['\\', 'r'] :=
  ⟨.short rfl, by decide, by decide, by decide, by decide⟩

theorem writtenPiece_lineFeed : WrittenPiece [0x0A] ['\\', 'n'] :=
  ⟨.short rfl, by decide, by decide, by decide, by decide⟩

/-- A string that ends with a carriage return. -/
def carriageReturnText : Text := ['"', 'a', '\\', 'r', '"']

theorem written_carriageReturnText : Written some carriageReturnText (.string [0x61, 0x0D]) := by
  have hpieces : Pieces WrittenPiece ([0x61] ++ ([0x0D] ++ [])) (['a'] ++ (['\\', 'r'] ++ [])) :=
    .cons writtenPiece_letter (.cons writtenPiece_carriageReturn .nil)
  exact written_string hpieces

theorem shows_carriageReturnText : ShowsValue some (pageOf carriageReturnText) (.string [0x61, 0x0D]) := by
  refine (shown_denotes_iff some _ _ (fun _ => some carriageReturnText) (databaseWith carriageReturnText) 1 _
    rfl (.string [0x61, 0x0D]) ?_ ?_).mpr (Or.inr (by decide))
  · rw [Utf8.decode_encode]
    exact written_carriageReturnText.isText
  · rintro formatted hformatted
    cases hformatted
    exact written_carriageReturnText

/-- A string that ends with a line end. -/
def lineEndText : Text := ['"', 'a', '\\', 'r', '\\', 'n', '"']

theorem written_lineEndText : Written some lineEndText (.string [0x61, 0x0D, 0x0A]) := by
  have hpieces : Pieces WrittenPiece ([0x61] ++ ([0x0D] ++ ([0x0A] ++ [])))
      (['a'] ++ (['\\', 'r'] ++ (['\\', 'n'] ++ []))) :=
    .cons writtenPiece_letter (.cons writtenPiece_carriageReturn (.cons writtenPiece_lineFeed .nil))
  exact written_string hpieces

/-- The page shows a line feed between the quotes. -/
theorem not_shows_lineEndText :
    IsText some (Utf8.decode (Utf8.encode lineEndText)) (.string [0x61, 0x0D, 0x0A]) ∧
      Written some lineEndText (.string [0x61, 0x0D, 0x0A]) ∧
      (pageOf lineEndText).shownPayload = some ['"', 'a', '\n', '"'] ∧
      ¬ ShowsValue some (pageOf lineEndText) (.string [0x61, 0x0D, 0x0A]) := by
  have htext := written_lineEndText.isText
  have hentity : (databaseWith lineEndText).events.find? 1 = some _ := rfl
  refine ⟨by rw [Utf8.decode_encode]; exact htext, written_lineEndText, by decide, ?_⟩
  intro hshows
  have hreplaced := (showsValue_of_some hentity (by decide) rfl htext).mp hshows
  exact (isText_replace_iff htext).mp hreplaced (by decide)

end WebhookInbox.UI
