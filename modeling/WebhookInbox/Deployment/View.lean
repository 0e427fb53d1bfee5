import WebhookInbox.Api.Details
import WebhookInbox.Deployment.Provenance
import WebhookInbox.Worker.Contention
import WebhookInbox.Worker.Receipts

/-!
# What the details of an event show

`GET /api/events/{id}` reads the rows that the inbox and the workers have written. What it
returns is the accepted request of the event, and for every endpoint the tries from the last one
down to the first, each of which a worker made with the payload of that request. A try that shows
a response code was really sent, and at most the topmost try of an endpoint succeeded
(`details_run`).
-/

namespace WebhookInbox.Deployment

open Api Worker

variable {ι : Type} [DecidableEq ι]

/-- The fields that come from the request. -/
structure ShowsRequest (srv : Server) (formatJson : Bytes → Option Text) (times : Clocks)
    (req : InboxRequest) (dto : EventDetailDto) : Prop where
  source : dto.source = req.source
  receivedAt : dto.receivedAt = times.receivedAt
  signatureStatus : dto.signatureStatus = SignatureStatus.verified.toString
  headers : DistinctNames srv.platform req.http.headers → dto.headers.Perm req.http.headers
  payload : (dto.payload, dto.payloadIsJson) = decodePayload formatJson req.http.body

/-- The request of an attempt that is shown. -/
def IsRequestOf (dto : EventDetailDto) (payload : Bytes) (a : DeliveryAttemptDto) (p : Post) : Prop :=
  p.eventId = dto.id ∧ p.endpointId = a.endpointId ∧ p.tryNumber = a.tryNumber ∧ p.payload = payload

/-- The attempts are the tries of each endpoint, the last one first. Each was made, and each with
a response code was sent. -/
structure ShowsDeliveries (s : Worker.State) (payload : Bytes) (dto : EventDetailDto) : Prop where
  numbers : ∀ endpointId, ∃ k : Nat,
    (dto.attempts.filter fun a => a.endpointId = endpointId).map DeliveryAttemptDto.tryNumber =
      ((List.range k).map fun i : Nat => (i : Int) + 1).reverse
  made : ∀ a ∈ dto.attempts, ∃ p ∈ s.tries, IsRequestOf dto payload a p
  sent : ∀ a ∈ dto.attempts, a.responseCode ≠ none → ∃ p ∈ s.posts, IsRequestOf dto payload a p
  success : ∀ a ∈ dto.attempts, a.success = true → ∀ b ∈ dto.attempts, b.endpointId = a.endpointId →
    b.tryNumber ≤ a.tryNumber

/-! ## The attempts of one event -/

section Attempts

variable {db : Database} {id : Guid}

/-- The attempts in the order of the answer. -/
def listedAttempts (db : Database) (id : Guid) : List DeliveryAttempt :=
  Linq.orderByDescending DeliveryAttempt.tryNumber
    (db.attempts.rows.filter fun a => a.eventId = id)

theorem mem_listedAttempts {a : DeliveryAttempt} :
    a ∈ listedAttempts db id ↔ a ∈ db.attempts.rows ∧ a.eventId = id := by
  simp [listedAttempts]

theorem listedAttempts_perm (db : Database) (id endpointId : Guid) :
    ((listedAttempts db id).filter fun a => a.endpointId = endpointId).Perm
      (pairRows db id endpointId) := by
  have hpair : pairRows db id endpointId =
      (db.attempts.rows.filter fun a => a.eventId = id).filter fun a => a.endpointId = endpointId := by
    rw [pairRows, List.filter_filter]
    apply List.filter_congr
    intro a _
    rw [Bool.and_comm, Bool.decide_and]
  rw [hpair]
  exact (Linq.orderByDescending_perm _ _).filter _

/-- The tries of one endpoint, from the last one down. -/
theorem tries_listedAttempts {endpointId : Guid} (h : WellFormed (pairRows db id endpointId)) :
    ((listedAttempts db id).filter fun a => a.endpointId = endpointId).map DeliveryAttempt.tryNumber =
      ((List.range (pairRows db id endpointId).length).map fun i : Nat => (i : Int) + 1).reverse := by
  have hperm : (((listedAttempts db id).filter fun a => a.endpointId = endpointId).map
      DeliveryAttempt.tryNumber).Perm
        ((List.range (pairRows db id endpointId).length).map fun i : Nat => (i : Int) + 1).reverse := by
    have htries := (listedAttempts_perm db id endpointId).map DeliveryAttempt.tryNumber
    rw [h.tries] at htries
    exact htries.trans (List.reverse_perm _).symm
  apply hperm.eq_of_pairwise' (r := fun a b : Int => b ≤ a)
  · have hsorted := Linq.orderByDescending_pairwise DeliveryAttempt.tryNumber
      (db.attempts.rows.filter fun a => a.eventId = id)
    exact List.pairwise_map.mpr (hsorted.filter _)
  · rw [List.pairwise_reverse, List.pairwise_map]
    exact List.pairwise_lt_range.imp fun {i j} hlt => by omega

end Attempts

omit [DecidableEq ι] in
/-- Two requests of a run that draw the same Guid are the same one. -/
theorem request_unique {actions : List (SystemAction ι)}
    (h : (actions.filterMap SystemAction.tentativeId?).Nodup) {id : Guid} {a b : SystemAction ι}
    (ha : a ∈ actions) (hb : b ∈ actions) (hida : a.tentativeId? = some id)
    (hidb : b.tentativeId? = some id) : a = b := by
  have hdistinct := List.pairwise_filterMap.mp h
  by_contra hne
  have hsymm : Std.Symm fun a b : SystemAction ι => ∀ i, a.tentativeId? = some i →
      ∀ j, b.tentativeId? = some j → i ≠ j :=
    ⟨fun _ _ hab j hj i hi => (hab i hi j hj).symm⟩
  exact hdistinct.forall ha hb hne id hida id hidb rfl

/-! ## The answer -/

section Answer

variable {srv : Server} {getRawText : JsonElement → Text} {formatJson : Bytes → Option Text}
variable {db : Database} {id : Guid} {dto : EventDetailDto}

/-- The fields of the event, and its attempts in order. -/
theorem details_of_getEvent (h : getEvent srv.platform getRawText formatJson db id = some dto) :
    ∃ entity ∈ db.events.rows, entity.id = id ∧ dto.id = id ∧ dto.source = entity.source ∧
      dto.receivedAt = entity.receivedAt ∧
      dto.signatureStatus = entity.signatureStatus.toString ∧
      dto.headers = convertHeaders srv.platform getRawText entity.headers ∧
      (dto.payload, dto.payloadIsJson) = decodePayload formatJson entity.payload ∧
      dto.attempts = (listedAttempts db id).map (attemptItem db.endpoints) := by
  obtain ⟨entity, hfind, rfl⟩ := Option.map_eq_some_iff.mp h
  obtain ⟨hmem, rfl⟩ := db.events.find?_eq_some_iff.mp hfind
  exact ⟨entity, hmem, rfl, rfl, rfl, rfl, rfl, rfl, rfl, rfl⟩

theorem showsRequest_of_getEvent
    (h : getEvent srv.platform getRawText formatJson db id = some dto) {times : Clocks}
    {req : InboxRequest}
    (hmade : ∀ entity ∈ db.events.rows, entity.id = id →
      bare entity = buildEvent srv times.receivedAt id req) :
    ShowsRequest srv formatJson times req dto := by
  obtain ⟨entity, hmem, hid, -, hsource, hreceived, hsignature, hheaders, hpayload, -⟩ :=
    details_of_getEvent h
  have hbare := hmade entity hmem hid
  refine ⟨?_, ?_, ?_, fun hdistinct => ?_, ?_⟩
  · exact hsource.trans (congrArg Event.source hbare)
  · exact hreceived.trans (congrArg Event.receivedAt hbare)
  · exact hsignature.trans (congrArg (fun ev => ev.signatureStatus.toString) hbare)
  · have hstored : entity.headers = headersJson srv.platform req.http := congrArg Event.headers hbare
    rw [hheaders, hstored]
    apply convertHeaders_perm getRawText hdistinct
    rw [headersJson_eq hdistinct]
    exact storedAs_of_perm (List.Perm.refl _)
  · have hbody : entity.payload = req.http.body := congrArg Event.payload hbare
    rw [hpayload, hbody]

theorem showsDeliveries_of_getEvent
    (h : getEvent srv.platform getRawText formatJson db id = some dto) {s : Worker.State}
    {payload : Bytes} (hwell : ∀ endpointId, WellFormed (pairRows db id endpointId))
    (hmade : ∀ a ∈ db.attempts.rows, a.eventId = id → ∃ p ∈ s.tries, p.key = a.key ∧ p.payload = payload)
    (hsent : ∀ a ∈ db.attempts.rows, a.eventId = id → a.responseCode ≠ none →
      ∃ p ∈ s.posts, p.key = a.key ∧ p.payload = payload) :
    ShowsDeliveries s payload dto := by
  obtain ⟨-, -, -, hid, -, -, -, -, -, hattempts⟩ := details_of_getEvent h
  have hrequest : ∀ {row : DeliveryAttempt} {p : Post}, row.eventId = id → p.key = row.key →
      p.payload = payload → IsRequestOf dto payload (attemptItem db.endpoints row) p := by
    intro row p hevent hkey hbody
    rw [Post.key, DeliveryAttempt.key, Prod.mk.injEq, Prod.mk.injEq] at hkey
    exact ⟨by rw [hkey.1, hevent, hid], hkey.2.1, hkey.2.2, hbody⟩
  refine ⟨fun endpointId => ⟨(pairRows db id endpointId).length, ?_⟩, fun a ha => ?_,
    fun a ha hcode => ?_, ?_⟩
  · have htries := tries_listedAttempts (hwell endpointId)
    rw [hattempts, List.filter_map, List.map_map]
    exact htries
  · rw [hattempts] at ha
    obtain ⟨row, hrow, rfl⟩ := List.mem_map.mp ha
    obtain ⟨hmem, hevent⟩ := mem_listedAttempts.mp hrow
    obtain ⟨p, hp, hkey, hbody⟩ := hmade row hmem hevent
    exact ⟨p, hp, hrequest hevent hkey hbody⟩
  · rw [hattempts] at ha
    obtain ⟨row, hrow, rfl⟩ := List.mem_map.mp ha
    obtain ⟨hmem, hevent⟩ := mem_listedAttempts.mp hrow
    obtain ⟨p, hp, hkey, hbody⟩ := hsent row hmem hevent hcode
    exact ⟨p, hp, hrequest hevent hkey hbody⟩
  · intro a ha hs b hb hendpoint
    rw [hattempts] at ha hb
    obtain ⟨row, hrow, rfl⟩ := List.mem_map.mp ha
    obtain ⟨row', hrow', rfl⟩ := List.mem_map.mp hb
    obtain ⟨hmem, hevent⟩ := mem_listedAttempts.mp hrow
    obtain ⟨hmem', hevent'⟩ := mem_listedAttempts.mp hrow'
    have hpair := mem_pairRows.mpr ⟨hmem, hevent, rfl⟩
    have hpair' : row' ∈ pairRows db id row.endpointId := mem_pairRows.mpr ⟨hmem', hevent', hendpoint⟩
    by_cases heq : row' = row
    · rw [heq]
    · exact ((hwell row.endpointId).success row hpair hs row' hpair' heq).2.le

end Answer

/-- **What the details of an event show**, at any point of a run of the service, with any number
of workers, in any interleaving, with processes that end and saves that fail: the one accepted
request of the event, and for every endpoint its tries from the last one down, each made with the
payload of that request and each with a response code sent. -/
theorem details_run (srv : Server) {w : World} (hclock : w.ClockAdvances) (opts : DeliveryOptions)
    (endpoints : Table Endpoint Guid Endpoint.id) (actions : List (SystemAction ι)) {s' : System ι}
    (hrun : Transition.run (System.step srv w opts) (System.start ι endpoints) actions = some s')
    (getRawText : JsonElement → Text) (formatJson : Bytes → Option Text) (id : Guid) {dto : EventDetailDto}
    (h : getEvent srv.platform getRawText formatJson s'.workers.shared.db id = some dto) :
    ∃ times req, SystemAction.inbox (.post times id req) ∈ actions ∧ Ingestion.AcceptsPost srv times req ∧
      ShowsRequest srv formatJson times req dto ∧
      ShowsDeliveries s'.workers.shared req.http.body dto := by
  obtain ⟨bs, hbs⟩ := workers_run hrun
  have htraced := traced_run hrun
  have hunique := (tentativeIds_nodup hrun).1
  have hcontended := contended_run hclock rfl hbs
  have haccountable := accountable_run rfl hbs
  obtain ⟨entity, hmem, hid, -⟩ := details_of_getEvent h
  obtain ⟨times, req, hreq, haccept, -⟩ := htraced.supplied.fed.events entity hmem
  rw [hid] at hreq
  -- every request that drew this Guid is this one
  have hsame : ∀ times' req', SystemAction.inbox (.post times' id req') ∈ actions →
      times' = times ∧ req' = req := by
    intro times' req' hreq'
    have heq := request_unique hunique hreq' hreq rfl rfl
    cases heq
    exact ⟨rfl, rfl⟩
  -- the request of a try carries the body of this one
  have hpayload : ∀ p ∈ s'.workers.shared.tries, p.eventId = id → p.payload = req.http.body := by
    intro p hp hpevent
    obtain ⟨times', req', hreq', -, hpayload⟩ := (htraced.sentFor p hp).request
    rw [hpevent] at hreq'
    obtain ⟨rfl, rfl⟩ := hsame times' req' hreq'
    exact hpayload
  refine ⟨times, req, hreq, haccept, showsRequest_of_getEvent h fun entity' hmem' hid' => ?_,
    showsDeliveries_of_getEvent h (hcontended.wellFormed id) (fun a ha hevent => ?_)
      fun a ha hevent hcode => ?_⟩
  · obtain ⟨times', req', hreq', -, hbare⟩ := htraced.supplied.fed.events entity' hmem'
    rw [hid'] at hreq' hbare
    obtain ⟨rfl, rfl⟩ := hsame times' req' hreq'
    exact hbare
  · obtain ⟨p, hp, hkey⟩ := List.mem_map.mp (haccountable.rows a ha).key_mem
    exact ⟨p, hp, hkey, hpayload p hp ((congrArg Prod.fst hkey).trans hevent)⟩
  · obtain ⟨code, hcode⟩ := Option.ne_none_iff_exists'.mp hcode
    obtain ⟨i, p, body, -, hp, hkey, -⟩ := haccountable.gotResponse ha hcode
    exact ⟨p, hp, hkey, hpayload p (State.mem_tries_of_mem_posts hp) ((congrArg Prod.fst hkey).trans hevent)⟩

theorem details_run_delivered :
    ∃ s' dto, Transition.run (System.step openServer splitWorld {})
        (System.start Bool (.single workingEndpoint)) deliveredActions = some s' ∧
      getEvent openServer.platform (fun _ => []) (fun _ => none) s'.workers.shared.db 7 = some dto ∧
      dto.attempts.length = 1 ∧
      ∃ times req, SystemAction.inbox (.post times 7 req) ∈ deliveredActions ∧
        Ingestion.AcceptsPost openServer times req ∧
        ShowsRequest openServer (fun _ => none) times req dto ∧
        ShowsDeliveries s'.workers.shared req.http.body dto :=
  ⟨_, _, (Option.some_get deliveredRun_isSome).symm, rfl, rfl,
    details_run openServer (fun _ _ _ => Int.le_refl _) {} (.single workingEndpoint) deliveredActions
      (Option.some_get deliveredRun_isSome).symm (fun _ => []) (fun _ => none) 7 rfl⟩

end WebhookInbox.Deployment
