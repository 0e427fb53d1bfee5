import WebhookInbox.Worker.Processor

/-!
# What the visit of one pair does

The response path and the exception path of `processPair` build their rows separately.
Here both are brought to one form: `attemptRow` is the row of a delivery with a given
outcome, `resultStatus` the status it gives the event, and `persist` the common end (add
the row, set the status, save). `recordResponse_eq` and `recordException_eq` are the two
equations.

`processPair_skipped` and `processPair_delivered` then say all that a visit does when the
context has nothing pending and no save fails by itself: a pair that is not due changes
no row, and a due pair adds one row with the next try number and sets the status of its
event. In particular its save succeeds (`nextTry_fresh`).
-/

namespace WebhookInbox.Worker

/-! ## The state of a pair -/

/-- The rows of a pair. -/
def pairRows (db : Database) (eventId endpointId : Guid) : List DeliveryAttempt :=
  db.attempts.rows.filter fun a => a.eventId = eventId ∧ a.endpointId = endpointId

theorem mem_pairRows {db : Database} {eventId endpointId : Guid} {a : DeliveryAttempt} :
    a ∈ pairRows db eventId endpointId ↔
      a ∈ db.attempts.rows ∧ a.eventId = eventId ∧ a.endpointId = endpointId := by
  simp [pairRows]

theorem lastAttempt_eq_some_iff {db : Database} {eventId endpointId : Guid} {a : DeliveryAttempt} :
    lastAttempt db eventId endpointId = some a ↔
      a ∈ pairRows db eventId endpointId ∧
        ∀ b ∈ pairRows db eventId endpointId, b.tryNumber ≤ a.tryNumber := by
  apply Linq.head?_orderByDescending_eq_some_iff
  intro a ha b hb h
  obtain ⟨ha, hae, hap⟩ := mem_pairRows.mp ha
  obtain ⟨hb, hbe, hbp⟩ := mem_pairRows.mp hb
  apply db.attempts.eq_of_key_eq ha hb
  rw [DeliveryAttempt.key, DeliveryAttempt.key, hae, hap, h, hbe, hbp]

theorem lastAttempt_eq_none_iff {db : Database} {eventId endpointId : Guid} :
    lastAttempt db eventId endpointId = none ↔ pairRows db eventId endpointId = [] :=
  Linq.head?_orderByDescending_eq_none_iff

theorem lastAttempt_congr {db db' : Database} {eventId endpointId : Guid}
    (h : pairRows db eventId endpointId = pairRows db' eventId endpointId) :
    lastAttempt db eventId endpointId = lastAttempt db' eventId endpointId :=
  congrArg (fun l => (Linq.orderByDescending DeliveryAttempt.tryNumber l).head?) h

/-- The number of the pair's next try. -/
def nextTryNumber (db : Database) (eventId endpointId : Guid) : Int :=
  (lastAttempt db eventId endpointId).elim 1 fun last => last.tryNumber + 1

/-- The due check of the pair for a clock value. -/
def isDue (db : Database) (eventId endpointId : Guid) (now : Time) : Bool :=
  (lastAttempt db eventId endpointId).all fun last =>
    !last.success && last.nextAttemptAt.all fun nextAttemptAt => decide (nextAttemptAt ≤ now)

theorem nextTryNumber_congr {db db' : Database} {eventId endpointId : Guid}
    (h : lastAttempt db eventId endpointId = lastAttempt db' eventId endpointId) :
    nextTryNumber db eventId endpointId = nextTryNumber db' eventId endpointId := by
  rw [nextTryNumber, nextTryNumber, h]

theorem isDue_congr {db db' : Database} {eventId endpointId : Guid} {now : Time}
    (h : lastAttempt db eventId endpointId = lastAttempt db' eventId endpointId) :
    isDue db eventId endpointId now = isDue db' eventId endpointId now := by
  rw [isDue, isDue, h]

theorem success_eq_false_of_isDue {db : Database} {e ep : Guid} {now : Time}
    (h : isDue db e ep now = true) (last : DeliveryAttempt) (hlast : lastAttempt db e ep = some last) :
    last.success = false := by
  rw [isDue, hlast, Option.all_some, Bool.and_eq_true] at h
  simpa using h.1

theorem getAttemptStateAsync_spec (w : World) (s : State) (eventId endpointId : Guid) :
    ∃ r, s.reads ≤ r ∧ getAttemptStateAsync w s eventId endpointId =
      ((isDue s.db eventId endpointId (w.clock s.reads), nextTryNumber s.db eventId endpointId),
        { s with reads := r }) := by
  unfold getAttemptStateAsync isDue nextTryNumber
  cases lastAttempt s.db eventId endpointId with
  | none => exact ⟨s.reads, le_rfl, rfl⟩
  | some last =>
    cases hs : last.success with
    | true => exact ⟨s.reads, le_rfl, by simp [hs]⟩
    | false =>
      cases hn : last.nextAttemptAt with
      | none => exact ⟨s.reads, le_rfl, by simp [hs, hn]⟩
      | some nextAttemptAt =>
        refine ⟨s.reads + 1, by omega, ?_⟩
        simp only [hs, hn, State.utcNow, Option.elim_some, Option.all_some, Bool.not_false,
          Bool.true_and, Bool.false_eq_true, if_false]
        rfl

/-- No row of the pair has the next try number yet. -/
theorem nextTry_fresh {db : Database} {eventId endpointId : Guid} {a : DeliveryAttempt}
    (ha : a ∈ pairRows db eventId endpointId) : a.tryNumber < nextTryNumber db eventId endpointId := by
  unfold nextTryNumber
  cases h : lastAttempt db eventId endpointId with
  | none =>
    rw [lastAttempt_eq_none_iff.mp h] at ha
    cases ha
  | some last =>
    have := (lastAttempt_eq_some_iff.mp h).2 a ha
    simp only [Option.elim_some]
    omega

section Commit

variable {db db' : Database} {row : DeliveryAttempt}
variable (h : db'.attempts.rows = db.attempts.rows ++ [row])
include h

theorem pairRows_commit :
    pairRows db' row.eventId row.endpointId = pairRows db row.eventId row.endpointId ++ [row] := by
  simp [pairRows, h, List.filter_append]

theorem pairRows_commit_of_ne {e ep : Guid} (hne : ¬ (row.eventId = e ∧ row.endpointId = ep)) :
    pairRows db' e ep = pairRows db e ep := by
  simp [pairRows, h, List.filter_append, hne]

/-- A row with the next try number is the newest of its pair. -/
theorem lastAttempt_commit (htry : row.tryNumber = nextTryNumber db row.eventId row.endpointId) :
    lastAttempt db' row.eventId row.endpointId = some row := by
  apply lastAttempt_eq_some_iff.mpr
  rw [pairRows_commit h]
  refine ⟨List.mem_append_right _ (List.mem_singleton_self row), fun b hb => ?_⟩
  rw [List.mem_append, List.mem_singleton] at hb
  rcases hb with hb | rfl
  · rw [htry]
    exact (nextTry_fresh hb).le
  · exact le_rfl

end Commit

/-! ## One form for both paths -/

/-- What `ComputeNextAttemptAt` returns at a clock value. -/
def backoffDeadline (opts : DeliveryOptions) (tryNumber : Int) (now : Time) : Option Time :=
  let index := tryNumber - 1
  if index < 0 ∨ opts.backoffSeconds.length ≤ index then none
  else some (addSeconds now (opts.backoffSeconds.getD index.toNat 0))

theorem computeNextAttemptAt_spec (w : World) (opts : DeliveryOptions) (tryNumber : Int) (s : State) :
    ∃ r, s.reads ≤ r ∧ computeNextAttemptAt w opts tryNumber s =
      (backoffDeadline opts tryNumber (w.clock s.reads), { s with reads := r }) := by
  unfold computeNextAttemptAt backoffDeadline
  dsimp only
  split
  · exact ⟨s.reads, le_rfl, rfl⟩
  · exact ⟨s.reads + 1, by omega, rfl⟩

def HttpOutcome.succeeded : HttpOutcome → Bool
  | .response statusCode _ => isSuccessStatusCode statusCode
  | .exception _ => false

/-- The status a delivery gives its event. -/
def resultStatus (opts : DeliveryOptions) (outcome : HttpOutcome) (tryNumber : Int) : EventStatus :=
  if outcome.succeeded then .dispatched else failureStatus opts tryNumber

/-- The label a recorded delivery adds to the deliveries counter. -/
def deliveryResult (opts : DeliveryOptions) (outcome : HttpOutcome) (tryNumber : Int) : DeliveryResult :=
  match outcome with
  | .response statusCode _ =>
    if isSuccessStatusCode statusCode then .success
    else if isExhausted opts tryNumber then .deadletter else .failed
  | .exception _ => .failed

/-- The row of a delivery. The two times are the clock reads of its two fields. -/
def attemptRow (opts : DeliveryOptions) (eventId endpointId : Guid) (tryNumber : Int)
    (outcome : HttpOutcome) (id : Guid) (sentAt now : Time) : DeliveryAttempt where
  id := id
  eventId := eventId
  endpointId := endpointId
  tryNumber := tryNumber
  sentAt := sentAt
  responseCode := match outcome with
    | .response statusCode _ => some statusCode
    | .exception _ => none
  responseBody := match outcome with
    | .response _ body => some (truncate body 10000)
    | .exception typeName => some (toUtf16 ("exception:".toList ++ typeName))
  success := outcome.succeeded
  nextAttemptAt := if outcome.succeeded then none else backoffDeadline opts tryNumber now

/-- The common end of both paths. -/
def persist (w : World) (row : DeliveryAttempt) (status : EventStatus) (label : DeliveryResult)
    (s : State) : Bool × State :=
  let (saved, s) := saveChangesAsync w ((s.add row).setStatus row.eventId status)
  if saved then (true, s.emit (.deliveriesTotal label)) else (false, s)

/-- The save of `persist` commits what was pending together with the row. -/
structure Committed (row : DeliveryAttempt) (status : EventStatus) (label : DeliveryResult)
    (s s' : State) : Prop where
  rows : s'.db.attempts.rows = s.db.attempts.rows ++ (s.ctx.added ++ [row])
  events : s'.db.events = (s.ctx.statuses ++ [(row.eventId, status)]).foldl writeStatus s.db.events
  endpoints : s'.db.endpoints = s.db.endpoints
  added : s'.ctx.added = []
  statuses : s'.ctx.statuses = []
  log : s'.log = s.log ++ [.save true, .deliveriesTotal label]

/-- The save of `persist` fails, and the row stays pending. -/
structure Rejected (row : DeliveryAttempt) (s s' : State) : Prop where
  db : s'.db = s.db
  added : s'.ctx.added = s.ctx.added ++ [row]
  log : s'.log = s.log ++ [.save false]

section Persist

variable {w : World} {row : DeliveryAttempt} {status : EventStatus} {label : DeliveryResult} {s : State}

theorem saveChangesAsync_rejected (h : w.saveFails s.saves.length = true ∨
    s.db.attempts.insertAll? s.ctx.added = none) :
    saveChangesAsync w s = (false, s.emit (.save false)) := by
  unfold saveChangesAsync
  split
  · rfl
  · rename_i hsave
    rw [h.resolve_left hsave]

variable (row status label) in
theorem persist_committed (hsave : w.saveFails s.saves.length = false)
    (hins : (s.db.attempts.insertAll? (s.ctx.added ++ [row])).isSome) :
    (persist w row status label s).1 = true ∧
      Committed row status label s (persist w row status label s).2 := by
  obtain ⟨attempts, hins⟩ := Option.isSome_iff_exists.mp hins
  have hrows := Table.insertAll?_eq_some_iff.mp hins
  have hsaves : ((s.add row).setStatus row.eventId status).saves = s.saves := rfl
  have hadded : ((s.add row).setStatus row.eventId status).db.attempts.insertAll?
      ((s.add row).setStatus row.eventId status).ctx.added = some attempts := hins
  unfold persist saveChangesAsync
  rw [hsaves, if_neg (by simp [hsave]), hadded]
  exact ⟨rfl, hrows, rfl, rfl, rfl, rfl, by simp [State.emit, State.add, State.setStatus]⟩

variable (status label) in
theorem persist_rejected (h : w.saveFails s.saves.length = true ∨
    s.db.attempts.insertAll? (s.ctx.added ++ [row]) = none) :
    (persist w row status label s).1 = false ∧ Rejected row s (persist w row status label s).2 := by
  have hres := saveChangesAsync_rejected (w := w) (s := (s.add row).setStatus row.eventId status) h
  unfold persist
  rw [hres]
  exact ⟨rfl, rfl, rfl, rfl⟩

end Persist

theorem recordResponse_eq (w : World) (opts : DeliveryOptions) (eventId endpointId : Guid)
    (tryNumber : Int) (statusCode : Nat) (body : Utf16) (s : State) :
    ∃ r, s.reads < r ∧ recordResponse w opts eventId endpointId tryNumber statusCode body s =
      persist w
        (attemptRow opts eventId endpointId tryNumber (.response statusCode body)
          (w.newGuid s.guids) (w.clock s.reads) (w.clock (s.reads + 1)))
        (resultStatus opts (.response statusCode body) tryNumber)
        (deliveryResult opts (.response statusCode body) tryNumber)
        { s with reads := r, guids := s.guids + 1 } := by
  cases hs : isSuccessStatusCode statusCode with
  | true =>
    refine ⟨s.reads + 1, by omega, ?_⟩
    simp only [recordResponse, hs, persist, attemptRow, resultStatus, deliveryResult,
      HttpOutcome.succeeded, State.newGuid, State.utcNow, if_true]
  | false =>
    obtain ⟨r, hr, heq⟩ := computeNextAttemptAt_spec w opts tryNumber
      { s with guids := s.guids + 1, reads := s.reads + 1 }
    refine ⟨r, by dsimp at hr; omega, ?_⟩
    simp only [recordResponse, hs, persist, attemptRow, resultStatus, deliveryResult,
      HttpOutcome.succeeded, State.newGuid, State.utcNow, Bool.false_eq_true, if_false, heq]

theorem recordException_eq (w : World) (opts : DeliveryOptions) (eventId endpointId : Guid)
    (tryNumber : Int) (typeName : Text) (s : State) :
    ∃ r, s.reads < r ∧ recordException w opts eventId endpointId tryNumber typeName s =
      persist w
        (attemptRow opts eventId endpointId tryNumber (.exception typeName)
          (w.newGuid s.guids) (w.clock s.reads) (w.clock (s.reads + 1)))
        (resultStatus opts (.exception typeName) tryNumber)
        (deliveryResult opts (.exception typeName) tryNumber)
        { s with reads := r, guids := s.guids + 1 } := by
  obtain ⟨r, hr, heq⟩ := computeNextAttemptAt_spec w opts tryNumber
    { s with guids := s.guids + 1, reads := s.reads + 1 }
  refine ⟨r, by dsimp at hr; omega, ?_⟩
  simp only [recordException, persist, attemptRow, resultStatus, deliveryResult,
    HttpOutcome.succeeded, State.newGuid, State.utcNow, Bool.false_eq_true, if_false, heq]

/-! ## Visits without a fault -/

/-- No save fails for a reason outside the change set. -/
def World.Healthy (w : World) : Prop := ∀ n, w.saveFails n = false

/-- The clock never goes back. -/
def World.ClockAdvances (w : World) : Prop := ∀ m n, m ≤ n → w.clock m ≤ w.clock n

/-- Nothing waits for a save. -/
structure DbContext.Clean (ctx : DbContext) : Prop where
  added : ctx.added = []
  statuses : ctx.statuses = []

/-- Every field but those of the due pair's row and status is as before. -/
structure Delivered (w : World) (opts : DeliveryOptions) (eventId endpointId : Guid) (s s' : State) :
    Prop where
  row : ∃ r, s.reads ≤ r ∧ s'.db.attempts.rows = s.db.attempts.rows ++
    [attemptRow opts eventId endpointId (nextTryNumber s.db eventId endpointId)
      (nextOutcome w s eventId endpointId (nextTryNumber s.db eventId endpointId))
      (w.newGuid s.guids) (w.clock r) (w.clock (r + 1))]
  events : s'.db.events = writeStatus s.db.events
    (eventId, resultStatus opts
      (nextOutcome w s eventId endpointId (nextTryNumber s.db eventId endpointId))
      (nextTryNumber s.db eventId endpointId))
  endpoints : s'.db.endpoints = s.db.endpoints
  clean : s'.ctx.Clean

theorem persist_healthy {w : World} (hw : w.Healthy) {row : DeliveryAttempt} (status : EventStatus)
    (label : DeliveryResult) {s : State} (hctx : s.ctx.Clean)
    (hfresh : ∀ a ∈ s.db.attempts.rows, a.key ≠ row.key) :
    (persist w row status label s).1 = true ∧
      Committed row status label s (persist w row status label s).2 := by
  apply persist_committed _ _ _ (hw _)
  rw [Table.insertAll?_isSome_iff, hctx.added]
  exact ⟨by simp, by simpa using hfresh⟩

theorem processPair_skipped {w : World} (opts : DeliveryOptions) {ev : Event} {ep : Endpoint}
    {s : State} (hdue : isDue s.db ev.id ep.id (w.clock s.reads) = false) :
    ∃ r, s.reads ≤ r ∧ processPair w opts ev ep s = (.skipped, { s with reads := r }) := by
  obtain ⟨r, hr, heq⟩ := getAttemptStateAsync_spec w s ev.id ep.id
  refine ⟨r, hr, ?_⟩
  simp [processPair, heq, hdue]

/-- How a visit ends whose save succeeds. -/
def HttpOutcome.pairEnd : HttpOutcome → PairEnd
  | .response _ _ => .processed
  | .exception _ => .caught

/-- What the answer itself leaves in the log. -/
def HttpOutcome.received : HttpOutcome → List Effect
  | .response _ _ => [.deliveryDuration]
  | .exception _ => []

/-- All that the visit of a due pair does when the request is sent so often and has this
outcome. `SentAt` is the `r`-th clock read. -/
structure Recorded (w : World) (opts : DeliveryOptions) (ev : Event) (ep : Endpoint) (s : State)
    (r sends : Nat) (outcome : HttpOutcome) (result : PairEnd × State) : Prop where
  ended : result.1 = outcome.pairEnd
  rows : result.2.db.attempts.rows = s.db.attempts.rows ++
    [attemptRow opts ev.id ep.id (nextTryNumber s.db ev.id ep.id) outcome (w.newGuid s.guids)
      (w.clock r) (w.clock (r + 1))]
  events : result.2.db.events = writeStatus s.db.events
    (ev.id, resultStatus opts outcome (nextTryNumber s.db ev.id ep.id))
  endpoints : result.2.db.endpoints = s.db.endpoints
  clean : result.2.ctx.Clean
  log : result.2.log = s.log ++
    .post { eventId := ev.id, endpointId := ep.id, tryNumber := nextTryNumber s.db ev.id ep.id
            url := ep.url, payload := ev.payload } sends ::
      (outcome.received ++
        [.save true, .deliveriesTotal (deliveryResult opts outcome (nextTryNumber s.db ev.id ep.id))])

/-- The save of a due visit succeeds, since its try number is new. -/
theorem persist_due {w : World} (hw : w.Healthy) (opts : DeliveryOptions) {eventId endpointId : Guid}
    {s : State} (s₁ : State) (hctx : s.ctx.Clean) (hdb : s₁.db = s.db) (hctx₁ : s₁.ctx = s.ctx)
    (outcome : HttpOutcome) (id : Guid) (sentAt now : Time) {n : Int}
    (hn : nextTryNumber s.db eventId endpointId = n) (label : DeliveryResult) :
    (persist w (attemptRow opts eventId endpointId n outcome id sentAt now)
        (resultStatus opts outcome n) label s₁).1 = true ∧
      Committed (attemptRow opts eventId endpointId n outcome id sentAt now)
        (resultStatus opts outcome n) label s₁
        (persist w (attemptRow opts eventId endpointId n outcome id sentAt now)
          (resultStatus opts outcome n) label s₁).2 := by
  apply persist_healthy hw _ _ (hctx₁ ▸ hctx : s₁.ctx.Clean)
  intro a ha hkey
  rw [hdb] at ha
  simp only [DeliveryAttempt.key, attemptRow, Prod.mk.injEq] at hkey
  have := nextTry_fresh (mem_pairRows.mpr ⟨ha, hkey.1, hkey.2.1⟩)
  omega

/-- **One visit.** Whatever the requests answer, the row of a due visit is sent at the same
clock read. -/
theorem processPair_recorded {w : World} (hw : w.Healthy) (opts : DeliveryOptions) {ev : Event}
    {ep : Endpoint} {s : State} (hctx : s.ctx.Clean)
    (hdue : isDue s.db ev.id ep.id (w.clock s.reads) = true) :
    ∃ r, s.reads ≤ r ∧ ∀ exchange, Recorded w opts ev ep s r
      (nextSends { w with exchange } s ev.id ep.id (nextTryNumber s.db ev.id ep.id))
      (nextOutcome { w with exchange } s ev.id ep.id (nextTryNumber s.db ev.id ep.id))
      (processPair { w with exchange } opts ev ep s) := by
  obtain ⟨r, hr, hstat⟩ := getAttemptStateAsync_spec w s ev.id ep.id
  refine ⟨r, hr, fun exchange => ?_⟩
  have heq : getAttemptStateAsync { w with exchange } s ev.id ep.id =
      getAttemptStateAsync w s ev.id ep.id := rfl
  rw [hstat] at heq
  generalize hn : nextTryNumber s.db ev.id ep.id = n at heq
  generalize hout : nextOutcome { w with exchange } s ev.id ep.id n = outcome
  have hsent : nextOutcome { w with exchange } { s with reads := r } ev.id ep.id n = outcome := hout
  generalize htimes : nextSends { w with exchange } s ev.id ep.id n = sends
  have hwire : nextSends { w with exchange } { s with reads := r } ev.id ep.id n = sends := htimes
  generalize hresult : processPair { w with exchange } opts ev ep s = result
  simp only [processPair, heq, hdue, if_true, hsent, hwire] at hresult
  cases outcome with
  | response statusCode body =>
    dsimp only at hresult
    generalize hs₁ : State.emit (State.emit { s with reads := r } _) .deliveryDuration = s₁ at hresult
    obtain ⟨r', -, hrec⟩ := recordResponse_eq { w with exchange } opts ev.id ep.id n statusCode body s₁
    obtain ⟨hsaved, hcom⟩ := persist_due (w := { w with exchange }) hw opts
      { s₁ with reads := r', guids := s₁.guids + 1 } hctx (by subst hs₁; rfl) (by subst hs₁; rfl)
      (.response statusCode body) (w.newGuid s₁.guids) (w.clock s₁.reads) (w.clock (s₁.reads + 1)) hn
      (deliveryResult opts (.response statusCode body) n)
    rw [hrec] at hresult
    simp only [hsaved, if_true] at hresult
    subst hs₁ hresult hn
    refine ⟨rfl, ?_, ?_, hcom.endpoints, ⟨hcom.added, hcom.statuses⟩, ?_⟩
    · exact hcom.rows.trans (by rw [State.emit, State.emit, hctx.added]; rfl)
    · exact hcom.events.trans (by rw [State.emit, State.emit, hctx.statuses]; rfl)
    · exact hcom.log.trans (by simp [State.emit, HttpOutcome.received])
  | exception typeName =>
    dsimp only at hresult
    generalize hs₁ : State.emit { s with reads := r } _ = s₁ at hresult
    obtain ⟨r', -, hrec⟩ := recordException_eq { w with exchange } opts ev.id ep.id n typeName s₁
    obtain ⟨hsaved, hcom⟩ := persist_due (w := { w with exchange }) hw opts
      { s₁ with reads := r', guids := s₁.guids + 1 } hctx (by subst hs₁; rfl) (by subst hs₁; rfl)
      (.exception typeName) (w.newGuid s₁.guids) (w.clock s₁.reads) (w.clock (s₁.reads + 1)) hn
      (deliveryResult opts (.exception typeName) n)
    rw [hrec] at hresult
    simp only [hsaved, if_true] at hresult
    subst hs₁ hresult hn
    refine ⟨rfl, ?_, ?_, hcom.endpoints, ⟨hcom.added, hcom.statuses⟩, ?_⟩
    · exact hcom.rows.trans (by rw [State.emit, hctx.added]; rfl)
    · exact hcom.events.trans (by rw [State.emit, hctx.statuses]; rfl)
    · exact hcom.log.trans (by simp [State.emit, HttpOutcome.received])

theorem processPair_delivered {w : World} (hw : w.Healthy) (opts : DeliveryOptions) {ev : Event}
    {ep : Endpoint} {s : State} (hctx : s.ctx.Clean)
    (hdue : isDue s.db ev.id ep.id (w.clock s.reads) = true) :
    (processPair w opts ev ep s).1 =
        (nextOutcome w s ev.id ep.id (nextTryNumber s.db ev.id ep.id)).pairEnd ∧
      Delivered w opts ev.id ep.id s (processPair w opts ev ep s).2 := by
  obtain ⟨r, hr, hrecorded⟩ := processPair_recorded hw opts hctx hdue
  have h := hrecorded w.exchange
  exact ⟨h.ended, ⟨r, hr, h.rows⟩, h.events, h.endpoints, h.clean⟩

end WebhookInbox.Worker
