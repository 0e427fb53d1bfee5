import Mathlib.Data.List.Find
import WebhookInbox.Api.Events
import WebhookInbox.Api.Inbox
import WebhookInbox.Library.Base64

/-!
# The details of one event

`GET /api/events/{id}` turns the stored headers back into a dictionary: `convertHeaders` reads
any JSON document, value by value. Whatever the column has done to the order of the members,
the headers returned are those of the request that was stored (`headers_of_getEvent`).
-/

namespace WebhookInbox.Api

/-- What a document can be read back as: the members of an object come in some order, and the text of
a number may have changed. -/
inductive StoredAs : JsonElement → JsonElement → Prop
  | null : StoredAs .null .null
  | boolean (value : Bool) : StoredAs (.boolean value) (.boolean value)
  | number (raw raw' : Text) : StoredAs (.number raw) (.number raw')
  | string (value : Text) : StoredAs (.string value) (.string value)
  | array {items items' : List JsonElement} (hlength : items.length = items'.length)
      (hitems : ∀ i (h : i < items.length) (h' : i < items'.length), StoredAs items[i] items'[i]) :
      StoredAs (.array items) (.array items')
  | object {members members' stored : List (Text × JsonElement)}
      (hnames : members.map Prod.fst = members'.map Prod.fst)
      (hvalues : ∀ i (h : i < members.length) (h' : i < members'.length),
        StoredAs members[i].2 members'[i].2)
      (hperm : members'.Perm stored) : StoredAs (.object members) (.object stored)

section ConvertHeaders

variable (p : Platform) (getRawText : JsonElement → Text)

def convertElementToString (element : JsonElement) : Text :=
  match element with
  | .string value => value
  | .number raw => raw
  | .boolean value => (if value then "true" else "false").toList
  | .null => []
  | .array _ | .object _ => getRawText element

/-- The `switch` of `ConvertHeaders`. -/
def headerValues (value : JsonElement) : List Text :=
  match value with
  | .array items => items.map (convertElementToString getRawText)
  | .null => []
  | _ => [convertElementToString getRawText value]

/-- `getRawText` gives the text of an array or an object as it is in the column. -/
def convertHeaders (doc : JsonElement) : List (Text × List Text) :=
  match doc with
  | .object members =>
    members.foldl (fun result prop => setItem p result prop.1 (headerValues getRawText prop.2)) []
  | _ => []

end ConvertHeaders

/-! ## The endpoint -/

structure DeliveryAttemptDto where
  id : Guid
  endpointId : Guid
  endpointUrl : Option Text
  tryNumber : Int
  sentAt : Time
  responseCode : Option Nat
  success : Bool
  responseBody : Option Utf16
  nextAttemptAt : Option Time
  deriving DecidableEq, Repr

structure EventDetailDto where
  id : Guid
  source : Text
  status : Text
  signatureStatus : Text
  receivedAt : Time
  headers : List (Text × List Text)
  payload : Text
  payloadIsJson : Bool
  attempts : List DeliveryAttemptDto
  deriving DecidableEq, Repr

def attemptItem (endpoints : Table Endpoint Guid Endpoint.id) (a : DeliveryAttempt) :
    DeliveryAttemptDto where
  id := a.id
  endpointId := a.endpointId
  endpointUrl := (endpoints.find? a.endpointId).map Endpoint.url
  tryNumber := a.tryNumber
  sentAt := a.sentAt
  responseCode := a.responseCode
  success := a.success
  responseBody := a.responseBody
  nextAttemptAt := a.nextAttemptAt

/-- The text in the last branch of `DecodePayload`. -/
def base64Text (payload : Bytes) : Text := "[base64] ".toList ++ Base64.encode payload

/-- `DecodePayload` with all of its branches. `formatJson` is the indented text of a document, `none`
when it does not parse, and `getString` is `none` where it throws. -/
def decodePayloadBy (getString formatJson : Bytes → Option Text) (payload : Bytes) : Text × Bool :=
  if payload.isEmpty then ([], false)
  else match formatJson payload with
    | some formatted => (formatted, true)
    | none =>
      match getString payload with
      | some text => (text, false)
      | none => (base64Text payload, false)

/-- `Encoding.UTF8.GetString` never throws. -/
def decodePayload (formatJson : Bytes → Option Text) (payload : Bytes) : Text × Bool :=
  decodePayloadBy (fun payload => some (Utf8.decode payload)) formatJson payload

theorem decodePayload_of_none {formatJson : Bytes → Option Text} {payload : Bytes} (hne : payload ≠ [])
    (h : formatJson payload = none) : decodePayload formatJson payload = (Utf8.decode payload, false) := by
  unfold decodePayload decodePayloadBy
  rw [List.isEmpty_eq_false_iff.mpr hne, h]
  rfl

theorem decodePayload_of_some {formatJson : Bytes → Option Text} {payload : Bytes} {formatted : Text}
    (hne : payload ≠ []) (h : formatJson payload = some formatted) :
    decodePayload formatJson payload = (formatted, true) := by
  unfold decodePayload decodePayloadBy
  rw [List.isEmpty_eq_false_iff.mpr hne, h]
  rfl

/-- `GET /api/events/{id}`; `none` is the answer 404. Attempts with one `Try` keep the order of the
rows. -/
def getEvent (p : Platform) (getRawText : JsonElement → Text) (formatJson : Bytes → Option Text)
    (db : Database) (id : Guid) : Option EventDetailDto :=
  (db.events.find? id).map fun entity =>
    { id := entity.id
      source := entity.source
      status := entity.status.toString
      signatureStatus := entity.signatureStatus.toString
      receivedAt := entity.receivedAt
      headers := convertHeaders p getRawText entity.headers
      payload := (decodePayload formatJson entity.payload).1
      payloadIsJson := (decodePayload formatJson entity.payload).2
      attempts := (Linq.orderByDescending DeliveryAttempt.tryNumber
        (db.attempts.rows.filter fun a => a.eventId = entity.id)).map (attemptItem db.endpoints) }

/-! ## Dictionaries with distinct names -/

section Dictionary

variable {p : Platform} {α β : Type}

/-- No two names are equal ignoring case. -/
def DistinctNames (p : Platform) (dict : List (Text × α)) : Prop :=
  (dict.map fun entry => entry.1.map p.toUpperInvariant).Nodup

/-- The value under a name, ignoring case. -/
def getValue (p : Platform) (dict : List (Text × α)) (name : Text) : Option α :=
  (dict.find? fun entry => equalsIgnoreCase p entry.1 name).map Prod.snd

theorem setItem_of_not_mem {dict : List (Text × α)} {key : Text} {value : α}
    (h : key.map p.toUpperInvariant ∉ dict.map fun entry => entry.1.map p.toUpperInvariant) :
    setItem p dict key value = dict ++ [(key, value)] := by
  have hany : (dict.any fun entry => equalsIgnoreCase p entry.1 key) = false := by
    rw [List.any_eq_false]
    intro entry hentry heq
    apply h
    rw [← (equalsIgnoreCase_iff p).mp heq]
    exact List.mem_map_of_mem hentry
  rw [setItem, hany]
  rfl

/-- Entries with distinct names are added one after the other. -/
theorem foldl_setItem (f : β → α) {entries : List (Text × β)} {dict : List (Text × α)}
    (h : DistinctNames p (dict ++ entries.map fun e => (e.1, f e.2))) :
    entries.foldl (fun result e => setItem p result e.1 (f e.2)) dict =
      dict ++ entries.map fun e => (e.1, f e.2) := by
  induction entries generalizing dict with
  | nil => exact (List.append_nil dict).symm
  | cons e entries ih =>
    have hsplit : dict ++ (e :: entries).map (fun e => (e.1, f e.2)) =
        (dict ++ [(e.1, f e.2)]) ++ entries.map fun e => (e.1, f e.2) := by
      rw [List.append_assoc]
      rfl
    have hnot : e.1.map p.toUpperInvariant ∉
        dict.map fun entry => entry.1.map p.toUpperInvariant := by
      unfold DistinctNames at h
      rw [List.map_append, List.nodup_append] at h
      intro hmem
      exact h.2.2 _ hmem _ List.mem_cons_self rfl
    rw [List.foldl_cons, setItem_of_not_mem hnot, hsplit]
    exact ih (hsplit ▸ h)

theorem distinctNames_map (f : β → α) {entries : List (Text × β)} :
    DistinctNames p (entries.map fun e => (e.1, f e.2)) ↔ DistinctNames p entries := by
  rw [DistinctNames, List.map_map]
  rfl

theorem DistinctNames.of_perm {dict dict' : List (Text × α)} (h : DistinctNames p dict)
    (hperm : dict.Perm dict') : DistinctNames p dict' :=
  (hperm.map _).nodup_iff.mp h

theorem getValue_of_perm {dict dict' : List (Text × α)} (h : DistinctNames p dict)
    (hperm : dict.Perm dict') (name : Text) : getValue p dict name = getValue p dict' name := by
  unfold getValue
  congr 1
  apply List.find?_eq_find?_of_perm hperm
  rintro a ⟨ha, hname⟩ b ⟨hb, hname'⟩
  apply List.inj_on_of_nodup_map h ha hb
  exact ((equalsIgnoreCase_iff p).mp hname).trans ((equalsIgnoreCase_iff p).mp hname').symm

end Dictionary

/-! ## The round trip -/

section RoundTrip

variable {p : Platform} {getRawText : JsonElement → Text}

theorem headersJson_eq {req : HttpRequest} (h : DistinctNames p req.headers) :
    headersJson p req = .object (req.headers.map fun e => (e.1, .array (e.2.map .string))) := by
  let f : List Text → JsonElement := fun values => .array (values.map .string)
  exact congrArg JsonElement.object (foldl_setItem f ((distinctNames_map f).mpr h))

theorem convertHeaders_eq {members : List (Text × JsonElement)} (h : DistinctNames p members) :
    convertHeaders p getRawText (.object members) =
      members.map fun e => (e.1, headerValues getRawText e.2) :=
  foldl_setItem _ ((distinctNames_map _).mpr h)

theorem eq_of_storedAs_string {value : Text} {stored : JsonElement}
    (h : StoredAs (.string value) stored) : stored = .string value := by
  cases h
  rfl

/-- An array of strings comes back as it was. -/
theorem eq_of_storedAs_strings {values : List Text} {stored : JsonElement}
    (h : StoredAs (.array (values.map .string)) stored) : stored = .array (values.map .string) := by
  cases h with
  | array hlength hitems =>
    congr 1
    apply List.ext_getElem hlength.symm
    intro i h' h
    have hitem := hitems i h h'
    rw [List.getElem_map] at hitem ⊢
    exact eq_of_storedAs_string hitem

/-- The members of an object of arrays of strings come back in some order. -/
theorem perm_of_storedAs {headers : List (Text × List Text)} {stored : JsonElement}
    (h : StoredAs (.object (headers.map fun e => (e.1, .array (e.2.map .string)))) stored) :
    ∃ members, stored = .object members ∧
      (headers.map fun e => (e.1, JsonElement.array (e.2.map .string))).Perm members := by
  cases h with
  | @object _ members' members hnames hvalues hperm =>
    have hlength := congrArg List.length hnames
    rw [List.length_map, List.length_map, List.length_map] at hlength
    have heq : members' = headers.map fun e => (e.1, JsonElement.array (e.2.map .string)) := by
      apply List.ext_getElem (by rw [List.length_map, hlength])
      intro i h' h
      have hname := List.getElem_of_eq hnames (i := i) (by rwa [List.length_map])
      have hvalue := hvalues i h h'
      rw [List.getElem_map, List.getElem_map, List.getElem_map] at hname
      rw [List.getElem_map] at hvalue ⊢
      exact Prod.ext hname.symm (eq_of_storedAs_strings hvalue)
    exact ⟨members, rfl, heq ▸ hperm⟩

theorem headerValues_strings (values : List Text) :
    headerValues getRawText (.array (values.map .string)) = values := by
  rw [headerValues, List.map_map]
  exact List.map_id values

/-- **The round trip** of the headers, through the column and back. -/
theorem convertHeaders_perm (getRawText : JsonElement → Text) {req : HttpRequest}
    (h : DistinctNames p req.headers) {stored : JsonElement} (hstored : StoredAs (headersJson p req) stored) :
    (convertHeaders p getRawText stored).Perm req.headers := by
  rw [headersJson_eq h] at hstored
  obtain ⟨members, rfl, hperm⟩ := perm_of_storedAs hstored
  let f : List Text → JsonElement := fun values => .array (values.map .string)
  have hdistinct : DistinctNames p members :=
    DistinctNames.of_perm ((distinctNames_map f).mpr h) hperm
  have hvalues : (req.headers.map fun e => (e.1, f e.2)).map
      (fun e => (e.1, headerValues getRawText e.2)) = req.headers := by
    rw [List.map_map]
    conv_rhs => rw [← List.map_id req.headers]
    apply List.map_congr_left
    intro e _
    exact Prod.ext rfl (headerValues_strings e.2)
  rw [convertHeaders_eq hdistinct]
  exact (hperm.symm.map _).trans (List.Perm.of_eq hvalues)

end RoundTrip

/-- **The headers of a stored event** are those of its request: the same names with the same
values, found under the same names ignoring case. -/
theorem headers_of_getEvent (srv : Server) (times : Clocks) (tentativeId : Guid)
    (store : ReservationStore) (req : InboxRequest) (getRawText : JsonElement → Text)
    (formatJson : Bytes → Option Text) (db : Database) (row entity : Event)
    (hdistinct : DistinctNames srv.platform req.http.headers)
    (hsave : (postInbox srv times tentativeId store req).1 = .saving entity)
    (hrow : row ∈ db.events.rows) (hid : row.id = entity.id)
    (hstored : StoredAs entity.headers row.headers) :
    ∃ dto, getEvent srv.platform getRawText formatJson db entity.id = some dto ∧
      dto.headers.Perm req.http.headers ∧
      ∀ name, getValue srv.platform dto.headers name = getValue srv.platform req.http.headers name := by
  have hheaders : entity.headers = headersJson srv.platform req.http := by
    have hpost := postInbox_spec srv times tentativeId store req
    generalize postInbox srv times tentativeId store req = result at hpost hsave
    cases hpost with
    | blank => cases hsave
    | raised => cases hsave
    | refused => cases hsave
    | duplicate => cases hsave
    | saving =>
      cases hsave
      rfl
  rw [hheaders] at hstored
  have hperm := convertHeaders_perm getRawText hdistinct hstored
  have hfind : db.events.find? entity.id = some row := db.events.find?_eq_some_iff.mpr ⟨hrow, hid⟩
  refine ⟨_, by rw [getEvent, hfind, Option.map_some], hperm, ?_⟩
  exact fun name => (getValue_of_perm hdistinct hperm.symm name).symm

theorem storedAs_of_perm {headers : List (Text × List Text)} {members : List (Text × JsonElement)}
    (h : (headers.map fun e => (e.1, JsonElement.array (e.2.map .string))).Perm members) :
    StoredAs (.object (headers.map fun e => (e.1, .array (e.2.map .string)))) (.object members) := by
  refine .object rfl (fun i _ h' => ?_) h
  rw [List.getElem_map]
  refine .array rfl fun j _ hj' => ?_
  rw [List.getElem_map]
  exact .string _

/-- One header with two values and one without values. -/
def requestWithHeaders : InboxRequest where
  source := "github".toList
  http :=
    { headers := [("X-Tags".toList, ["a".toList, "".toList]), ("X-Empty".toList, [])]
      body := [] }

/-- The column has put the members in the other order. -/
def storedMembers : List (Text × JsonElement) :=
  [("X-Empty".toList, .array []), ("X-Tags".toList, .array [.string "a".toList, .string "".toList])]

def headersServer : Server where
  platform := .ascii (fun _ => []) fun _ _ => []

def headersDatabase : Database where
  events := .single { buildEvent headersServer 0 1 requestWithHeaders with headers := .object storedMembers }
  endpoints := ∅
  attempts := ∅

theorem headers_of_requestWithHeaders :
    ∃ entity dto, (postInbox headersServer ⟨0, 0, 0⟩ 1 (fun _ => none) requestWithHeaders).1 = .saving entity ∧
      getEvent headersServer.platform (fun _ => []) (fun _ => none) headersDatabase entity.id = some dto ∧
      dto.headers.Perm requestWithHeaders.http.headers ∧
      getValue headersServer.platform dto.headers "x-tags".toList = some ["a".toList, "".toList] := by
  have hdistinct : DistinctNames headersServer.platform requestWithHeaders.http.headers := by
    unfold DistinctNames
    decide
  have hmembers : (requestWithHeaders.http.headers.map fun e =>
      (e.1, JsonElement.array (e.2.map .string))).Perm storedMembers := List.Perm.swap _ _ _
  obtain ⟨dto, hdto, hperm, hvalue⟩ := headers_of_getEvent headersServer ⟨0, 0, 0⟩ 1 (fun _ => none)
    requestWithHeaders (fun _ => []) (fun _ => none) headersDatabase _
    (buildEvent headersServer 0 1 requestWithHeaders) hdistinct rfl List.mem_cons_self rfl
    (storedAs_of_perm hmembers)
  refine ⟨_, dto, rfl, hdto, hperm, ?_⟩
  rw [hvalue]
  decide

end WebhookInbox.Api
