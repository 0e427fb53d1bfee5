import WebhookInbox.Worker.Agreement

/-!
# The attempt cap

Nothing on the path of a visit compares the next try with the cap: `GetAttemptStateAsync`
reads the newest attempt and its deadline only. A pair whose last try has failed is kept
from another visit by the status of its event, and that status is the last word of all
the endpoints: `LastWord` says that the newest attempt of an event has written it. So the
pair comes back when another endpoint fails after it with tries left, and the event is
`Failed` again. `withinCap_run_iff` says that nothing else breaks the cap.
-/

namespace WebhookInbox.Worker

def WithinCap (opts : DeliveryOptions) (db : Database) : Prop :=
  ∀ a ∈ db.attempts.rows, a.tryNumber ≤ attemptCap opts

/-- The newest attempt of the event is another endpoint's, and it failed with tries left. -/
def ReopenedByOther (opts : DeliveryOptions) (db : Database) (eventId endpointId : Guid) : Prop :=
  ∃ a, (eventRows db eventId).getLast? = some a ∧ a.endpointId ≠ endpointId ∧
    a.success = false ∧ isExhausted opts a.tryNumber = false

/-- The deadline of the attempt is set and still ahead. -/
def StillWaits (last : DeliveryAttempt) (now : Time) : Prop :=
  ∃ deadline, last.nextAttemptAt = some deadline ∧ now < deadline

/-- Wherever a pair has failed with its last try and another endpoint's failure has reopened
the event since, the visit of the pair comes before the deadline of that last try. -/
def PassSparesReopened (w : World) (opts : DeliveryOptions) (endpoints : List Endpoint) (s : State) :
    Prop :=
  ∀ x ∈ passTrace w opts endpoints s, ∀ last, lastAttempt s.db x.2.1.id x.2.2.id = some last →
    last.success = false → isExhausted opts last.tryNumber = true →
      ReopenedByOther opts s.db x.2.1.id x.2.2.id → StillWaits last (w.clock x.1.reads)

/-- The condition on an action; only a pass adds attempts. -/
def SparesReopened (w : World) (opts : DeliveryOptions) (s : State) : Action → Prop
  | .pass endpoints => PassSparesReopened w opts endpoints s
  | .insertEvent _ => True
  | .saveEndpoint _ => True

/-! ## The last word on an event -/

/-- Every attempt is one of a stored event, and the newest attempt of an event is the newest of
its pair and has written the status. -/
structure LastWord (opts : DeliveryOptions) (db : Database) : Prop where
  stored : ∀ a ∈ db.attempts.rows, a.eventId ∈ db.events.rows.map Event.id
  newest : ∀ e a, (eventRows db e).getLast? = some a → lastAttempt db e a.endpointId = some a
  status : ∀ e a, (eventRows db e).getLast? = some a → statusOf db e = rowStatus opts a

theorem mem_eventRows {db : Database} {e : Guid} {a : DeliveryAttempt} :
    a ∈ eventRows db e ↔ a ∈ db.attempts.rows ∧ a.eventId = e := by
  simp [eventRows]

theorem statusOf_writeStatus {db db' : Database} {change : Guid × EventStatus} {e : Guid}
    (hevents : db'.events = writeStatus db.events change) (he : e ∈ db.events.rows.map Event.id) :
    statusOf db' e = if change.1 = e then change.2 else statusOf db e := by
  rw [statusOf, hevents, elim_status_writeStatus he]
  rfl

section Commit

variable {opts : DeliveryOptions} {db db' : Database} {row : DeliveryAttempt}

/-- A row that is committed with its status is the last word on its event. -/
theorem LastWord.commit (h : LastWord opts db) (hrows : db'.attempts.rows = db.attempts.rows ++ [row])
    (htry : row.tryNumber = nextTryNumber db row.eventId row.endpointId)
    (hstored : row.eventId ∈ db.events.rows.map Event.id)
    (hevents : db'.events = writeStatus db.events (rowChange opts row)) : LastWord opts db' := by
  have hids : db'.events.rows.map Event.id = db.events.rows.map Event.id := by
    rw [hevents, ids_writeStatus]
  have hself : eventRows db' row.eventId = eventRows db row.eventId ++ [row] := by
    simp [eventRows, hrows, List.filter_append]
  have hother : ∀ e, row.eventId ≠ e → eventRows db' e = eventRows db e := by
    intro e hne
    simp [eventRows, hrows, List.filter_append, hne]
  refine ⟨fun a ha => ?_, fun e a ha => ?_, fun e a ha => ?_⟩
  · rw [hids]
    rw [hrows, List.mem_append, List.mem_singleton] at ha
    rcases ha with ha | rfl
    · exact h.stored a ha
    · exact hstored
  · by_cases he : row.eventId = e
    · subst he
      rw [hself, List.getLast?_concat] at ha
      cases ha
      exact lastAttempt_commit hrows htry
    · rw [hother e he] at ha
      rw [lastAttempt_congr (pairRows_commit_of_ne hrows fun hkey => he hkey.1)]
      exact h.newest e a ha
  · by_cases he : row.eventId = e
    · subst he
      rw [hself, List.getLast?_concat] at ha
      cases ha
      rw [statusOf_writeStatus hevents hstored, rowChange, if_pos rfl]
    · rw [hother e he] at ha
      have hknown : e ∈ db.events.rows.map Event.id := by
        obtain ⟨hmem, hid⟩ := mem_eventRows.mp (List.mem_of_getLast? ha)
        rw [← hid]
        exact h.stored a hmem
      rw [statusOf_writeStatus hevents hknown, rowChange, if_neg he]
      exact h.status e a ha

/-- What keeps the attempts and the statuses of the events that have some. -/
theorem LastWord.congr (h : LastWord opts db) (hattempts : db'.attempts = db.attempts)
    (hids : ∀ e ∈ db.events.rows.map Event.id, e ∈ db'.events.rows.map Event.id)
    (hstatus : ∀ e ∈ db.events.rows.map Event.id, statusOf db' e = statusOf db e) :
    LastWord opts db' := by
  have hrows : ∀ e, eventRows db' e = eventRows db e := fun e => by rw [eventRows, eventRows, hattempts]
  refine ⟨fun a ha => ?_, fun e a ha => ?_, fun e a ha => ?_⟩
  · rw [hattempts] at ha
    exact hids _ (h.stored a ha)
  · rw [hrows] at ha
    rw [lastAttempt, hattempts]
    exact h.newest e a ha
  · rw [hrows] at ha
    obtain ⟨hmem, hid⟩ := mem_eventRows.mp (List.mem_of_getLast? ha)
    rw [hstatus e (hid ▸ h.stored a hmem)]
    exact h.status e a ha

/-- **A pair that has used up its tries is selected again** only when another endpoint's failure
has reopened its event. -/
theorem LastWord.reopened (h : LastWord opts db) {ev : Event} (hev : ev ∈ db.events.rows)
    (hcandidate : isCandidate ev = true) {endpointId : Guid} {last : DeliveryAttempt}
    (hlast : lastAttempt db ev.id endpointId = some last)
    (hexhausted : isExhausted opts last.tryNumber = true) : ReopenedByOther opts db ev.id endpointId := by
  obtain ⟨hmem, hid, -⟩ := mem_pairRows.mp (lastAttempt_eq_some_iff.mp hlast).1
  cases hnewest : (eventRows db ev.id).getLast? with
  | none =>
    rw [List.getLast?_eq_none_iff] at hnewest
    have hrow : last ∈ eventRows db ev.id := mem_eventRows.mpr ⟨hmem, hid⟩
    rw [hnewest] at hrow
    cases hrow
  | some a =>
    -- the status that the newest attempt wrote is one the query selects
    have hstatus : rowStatus opts a = .new ∨ rowStatus opts a = .failed := by
      rw [← h.status ev.id a hnewest, statusOf_eq hev]
      simpa [isCandidate] using hcandidate
    have hfailed := rowStatus_eq_failed_iff.mp (hstatus.resolve_left (rowStatus_ne_new opts a))
    refine ⟨a, hnewest, fun hsame => ?_, hfailed⟩
    -- the pair's own newest attempt is exhausted
    have hown := h.newest ev.id a hnewest
    rw [hsame, hlast] at hown
    rw [← Option.some.inj hown, hexhausted] at hfailed
    exact Bool.noConfusion hfailed.2

end Commit

section Run

variable {w : World} {opts : DeliveryOptions}

theorem lastWord_start (opts : DeliveryOptions) (events : Table Event Guid Event.id)
    (endpoints : Table Endpoint Guid Endpoint.id) : LastWord opts (State.start events endpoints).db := by
  constructor
  · intro a ha
    cases ha
  · intro e a ha
    cases ha
  · intro e a ha
    cases ha

variable (hw : w.Healthy) {s s' : State}
include hw

theorem lastWord_deliver {ids : List Guid} {v : Event × Endpoint} (hs : Settled ids s)
    (h : LastWord opts s.db) (hv : v.1.id ∈ ids) : LastWord opts (deliver w opts s v).db := by
  cases hdue : dueAt w s v with
  | false =>
    rw [(deliver_not_due hdue).1]
    exact h
  | true =>
    have hdel := deliver_due opts hw hs.clean hdue
    obtain ⟨r, -, hrows⟩ := hdel.row
    exact h.commit hrows rfl (hs.ids.symm ▸ hv) hdel.events

theorem lastWord_pass {endpoints : List Endpoint} (hctx : s.ctx.Clean) (h : LastWord opts s.db) :
    LastWord opts (processOnceAsync w opts endpoints s).2.db := by
  rw [(processOnceAsync_spec hw opts endpoints hctx).1]
  have hfold := FoldTrace.foldl_invariant_of_mem (f := deliver w opts)
    (I := fun s' => Settled (s.db.events.rows.map Event.id) s' ∧ LastWord opts s'.db)
    (s := passStart endpoints s) (passVisits opts endpoints s) ?_
    ⟨⟨passStart_clean endpoints hctx, rfl⟩, h⟩
  · exact hfold.2
  · intro s' v hv hs'
    have hid := List.mem_map_of_mem (f := Event.id)
      (mem_candidates (List.pair_mem_product.mp hv).1).1
    exact ⟨Settled.deliver hw s' v hs'.1, lastWord_deliver hw hs'.1 hs'.2 hid⟩

theorem lastWord_step {a : Action} (hctx : s.ctx.Clean) (h : LastWord opts s.db)
    (hstep : step w opts s a = some s') : LastWord opts s'.db := by
  cases a with
  | pass endpoints =>
    obtain ⟨-, rfl⟩ := step_pass_eq_some_iff.mp hstep
    exact lastWord_pass hw hctx h
  | insertEvent e =>
    obtain ⟨events, hevents, rfl⟩ := Option.map_eq_some_iff.mp hstep
    have hrows := Table.insertAll?_eq_some_iff.mp hevents
    refine h.congr rfl (fun e he => ?_) fun e he => statusOf_insert he hrows
    rw [hrows, List.map_append]
    exact List.mem_append_left _ he
  | saveEndpoint ep =>
    cases hstep
    exact h.congr rfl (fun e he => he) fun e he => rfl

end Run

/-! ## The cap -/

theorem one_le_attemptCap {opts : DeliveryOptions} (hmax : 1 ≤ opts.maxAttempts) :
    1 ≤ attemptCap opts := by
  unfold attemptCap
  omega

theorem isExhausted_eq_false_iff (opts : DeliveryOptions) (tryNumber : Int) :
    isExhausted opts tryNumber = false ↔ tryNumber + 1 ≤ attemptCap opts := by
  have h := isExhausted_iff opts tryNumber
  rw [← Bool.not_eq_true, h]
  omega

/-- The next try is within the cap exactly when the newest attempt is not exhausted. -/
theorem nextTryNumber_le_attemptCap_iff {opts : DeliveryOptions} (hmax : 1 ≤ opts.maxAttempts)
    {db : Database} {eventId endpointId : Guid} :
    nextTryNumber db eventId endpointId ≤ attemptCap opts ↔
      ∀ last, lastAttempt db eventId endpointId = some last → isExhausted opts last.tryNumber = false := by
  unfold nextTryNumber
  cases lastAttempt db eventId endpointId with
  | none => simpa using one_le_attemptCap hmax
  | some last => simp [isExhausted_eq_false_iff]

theorem IsVisitRow.tryNumber_eq {w : World} {opts : DeliveryOptions} {s : State}
    {v : Event × Endpoint} {a : DeliveryAttempt} (h : IsVisitRow w opts s v a) :
    a.tryNumber = nextTryNumber s.db v.1.id v.2.id := by
  obtain ⟨r, -, rfl⟩ := h
  rfl

/-- Whether a pair with a failed newest attempt is due is a question of its deadline. -/
theorem isDue_eq_false_iff {db : Database} {eventId endpointId : Guid} {now : Time} {last : DeliveryAttempt}
    (hlast : lastAttempt db eventId endpointId = some last) (hfailed : last.success = false) :
    isDue db eventId endpointId now = false ↔ StillWaits last now := by
  unfold StillWaits isDue
  rw [hlast, Option.all_some, hfailed]
  cases last.nextAttemptAt with
  | none => simp
  | some deadline => simp

/-- **One pass.** -/
theorem withinCap_pass_iff {w : World} (hw : w.Healthy) {opts : DeliveryOptions}
    (hmax : 1 ≤ opts.maxAttempts) {endpoints : List Endpoint} {s : State} (hctx : s.ctx.Clean)
    (hword : LastWord opts s.db) (hperm : endpoints.Perm (activeEndpoints s.db))
    (hcap : WithinCap opts s.db) :
    WithinCap opts (processOnceAsync w opts endpoints s).2.db ↔
      PassSparesReopened w opts endpoints s := by
  have hnext : ∀ x ∈ passTrace w opts endpoints s, ∀ a, IsVisitRow w opts x.1 x.2 a →
      (a.tryNumber ≤ attemptCap opts ↔ ∀ last, lastAttempt s.db x.2.1.id x.2.2.id = some last →
        isExhausted opts last.tryNumber = false) := by
    intro x hx a ha
    rw [ha.tryNumber_eq, nextTryNumber_passTrace hw hctx hperm hx, nextTryNumber_le_attemptCap_iff hmax]
  have hdueAt : ∀ x ∈ passTrace w opts endpoints s,
      dueAt w x.1 x.2 = isDue s.db x.2.1.id x.2.2.id (w.clock x.1.reads) :=
    fun x hx => isDue_congr (lastAttempt_passTrace hw hctx hperm hx)
  constructor
  · intro h x hx last hlast hfailed hexhausted _
    rw [← isDue_eq_false_iff hlast hfailed, ← hdueAt x hx, ← Bool.not_eq_true]
    intro hdue
    obtain ⟨a, ha, hrow⟩ := exists_row_of_due hw hctx hx hdue
    have hopen := (hnext x hx a hrow).mp (h a ha) last hlast
    rw [hopen] at hexhausted
    cases hexhausted
  · intro h a ha
    rcases mem_rows_pass hw hctx ha with ha | ⟨x, hx, hdue, hrow⟩
    · exact hcap a ha
    · refine (hnext x hx a hrow).mpr fun last hlast => ?_
      by_contra hexhausted
      rw [Bool.not_eq_false] at hexhausted
      rw [hdueAt x hx] at hdue
      have hfailed := success_eq_false_of_isDue hdue last hlast
      obtain ⟨hev, hcandidate⟩ := mem_candidates (List.pair_mem_product.mp (FoldTrace.item_mem hx)).1
      have hreopened := hword.reopened hev hcandidate hlast hexhausted
      have hwaits := h x hx last hlast hfailed hexhausted hreopened
      rw [← isDue_eq_false_iff hlast hfailed, hdue] at hwaits
      cases hwaits

/-- **The attempt cap** is kept in every state of a run exactly when no pass of the run
comes to a pair that has failed with its last try, has no deadline ahead, and whose event
another endpoint's failure has reopened since. -/
theorem withinCap_run_iff {w : World} (hw : w.Healthy) {opts : DeliveryOptions}
    (hmax : 1 ≤ opts.maxAttempts)
    (events : Table Event Guid Event.id) (endpoints : Table Endpoint Guid Endpoint.id)
    (actions : List Action) {s' : State}
    (hrun : Transition.run (step w opts) (.start events endpoints) actions = some s') :
    Transition.Always (step w opts) (fun s => WithinCap opts s.db) (.start events endpoints) actions ↔
      Transition.Along (step w opts) (SparesReopened w opts) (.start events endpoints) actions := by
  refine Transition.always_iff_along (I := fun s => s.ctx.Clean ∧ LastWord opts s.db) ?_ ?_
    ⟨⟨rfl, rfl⟩, lastWord_start opts events endpoints⟩ ?_ hrun
  · intro s a s₁ hs h
    exact ⟨step_clean hw hs.1 h, lastWord_step hw hs.1 hs.2 h⟩
  · intro s a s₁ hs hcap h
    cases a with
    | pass eps =>
      obtain ⟨hperm, rfl⟩ := step_pass_eq_some_iff.mp h
      exact withinCap_pass_iff hw hmax hs.1 hs.2 hperm hcap
    | insertEvent e =>
      have hdb := (step_other (fun _ => Action.noConfusion) h).1
      exact iff_of_true (by rwa [WithinCap, hdb]) trivial
    | saveEndpoint ep =>
      have hdb := (step_other (fun _ => Action.noConfusion) h).1
      exact iff_of_true (by rwa [WithinCap, hdb]) trivial
  · intro a ha
    cases ha

/-- Every request is answered 500, and a long time passes between two reads of the clock. -/
def refusingWorld : World where
  clock n := addSeconds 0 (1000 * n)
  newGuid n := 100 + n
  exchange _ _ _ _ := (Reply.result 500 []).exchange
  saveFails _ := false

theorem refusingWorld_clockAdvances : refusingWorld.ClockAdvances := by
  intro m n hmn
  show (0 : Int) + 1000 * m * 10000000 ≤ 0 + 1000 * n * 10000000
  omega

def twoTries : DeliveryOptions := { backoffSeconds := [60], maxAttempts := 2 }

def olderEndpoint : Endpoint := { id := 1, url := "https://a.example/hook".toList }

def newerEndpoint : Endpoint := { id := 2, url := "https://b.example/hook".toList }

def staggeredStart : State :=
  .start (.single { id := 7, source := "test".toList, receivedAt := 0 }) (.single olderEndpoint)

/-- The second endpoint is added after the first one's first failure. -/
def staggeredActions : List Action :=
  [.pass [olderEndpoint], .saveEndpoint newerEndpoint, .pass [olderEndpoint, newerEndpoint],
    .pass [olderEndpoint, newerEndpoint]]

theorem staggeredRun_isSome :
    (Transition.run (step refusingWorld twoTries) staggeredStart staggeredActions).isSome := by
  decide

theorem withinCap_run_staggered :
    Transition.Always (step refusingWorld twoTries) (fun s => WithinCap twoTries s.db)
        staggeredStart staggeredActions ↔
      Transition.Along (step refusingWorld twoTries) (SparesReopened refusingWorld twoTries)
        staggeredStart staggeredActions :=
  withinCap_run_iff (fun _ => rfl) (by decide) _ _ staggeredActions
    (Option.some_get staggeredRun_isSome).symm

/-- The second endpoint's first failure reopens the event that the first endpoint's second
failure had closed, and the next pass sends the first endpoint a third try. -/
theorem cap_exceeded :
    refusingWorld.Healthy ∧ refusingWorld.ClockAdvances ∧ 1 ≤ twoTries.maxAttempts ∧
      ∃ s', Transition.run (step refusingWorld twoTries) staggeredStart staggeredActions = some s' ∧
        ¬ WithinCap twoTries s'.db := by
  refine ⟨fun _ => rfl, refusingWorld_clockAdvances, by decide, _,
    (Option.some_get staggeredRun_isSome).symm, ?_⟩
  unfold WithinCap
  decide

end WebhookInbox.Worker
