import WebhookInbox.Worker.Log
import WebhookInbox.Worker.Schedule

/-!
# The exception path beside the response path

A request that throws and one that is answered with a failure are recorded by two pieces of
code. They build the same row apart from the response, and set the same status
(`sameEffect_iff`), but the catch block adds the label `failed` also for the last try of a
pair, where the other path adds `deadletter`. So the counter of a run agrees with the
attempts that set `DeadLetter` exactly when no last try ends in an exception
(`countsDeadLetters_run_iff`).
-/

namespace WebhookInbox.Worker

/-- The one reply that has this outcome. -/
def HttpOutcome.reply : HttpOutcome → Reply
  | .response statusCode body => .result statusCode body
  | .exception typeName => .exception typeName

/-- The same world, in which every request is sent once and has this outcome. -/
def World.answering (w : World) (outcome : HttpOutcome) : World :=
  { w with exchange := fun _ _ _ _ => outcome.reply.exchange }

/-- The two visits add rows that differ in the response only, leave the same events and
endpoints, and differ in the log by the histogram only. -/
structure SameEffect (s : State) (result result' : PairEnd × State) : Prop where
  row : ∃ row row', result.2.db.attempts.rows = s.db.attempts.rows ++ [row] ∧
    result'.2.db.attempts.rows = s.db.attempts.rows ++ [row'] ∧
    row' = { row with responseCode := row'.responseCode, responseBody := row'.responseBody }
  events : result'.2.db.events = result.2.db.events
  endpoints : result'.2.db.endpoints = result.2.db.endpoints
  log : ∃ effects, result.2.log = s.log ++ effects ∧
    result'.2.log = s.log ++ effects.filter fun effect => effect ≠ .deliveryDuration

/-- The save of the attempt has set its event to `DeadLetter`. -/
def setsDeadLetter (opts : DeliveryOptions) (a : DeliveryAttempt) : Bool :=
  !a.success && isExhausted opts a.tryNumber

def CountsDeadLetters (opts : DeliveryOptions) (s : State) : Prop :=
  s.deliveries.count .deadletter = s.db.attempts.rows.countP (setsDeadLetter opts)

/-- The step does not record an exception of a last try. -/
def NoLastException (opts : DeliveryOptions) (p : Process) (a : ProcessAction) : Prop :=
  ∀ l v n typeName, a = .move .next → p.phase = .recording l v n (.exception typeName) →
    isExhausted opts n = false

theorem setsDeadLetter_attemptRow {opts : DeliveryOptions} {e ep id : Guid} {n : Int}
    {outcome : HttpOutcome} {sentAt now : Time} :
    setsDeadLetter opts (attemptRow opts e ep n outcome id sentAt now) = true ↔
      resultStatus opts outcome n = .deadLetter := by
  unfold resultStatus failureStatus setsDeadLetter attemptRow
  dsimp only
  cases outcome.succeeded <;> cases isExhausted opts n <;> decide

/-! ## One visit -/

section Visit

variable {opts : DeliveryOptions}

theorem deliveryResult_response {statusCode : Nat} {body : Utf16} {n : Int} :
    deliveryResult opts (.response statusCode body) n = .deadletter ↔
      resultStatus opts (.response statusCode body) n = .deadLetter := by
  unfold deliveryResult resultStatus failureStatus HttpOutcome.succeeded
  cases hs : isSuccessStatusCode statusCode <;> cases he : isExhausted opts n <;> simp [hs]

theorem deliveryResult_exception {typeName : Text} {n : Int} :
    deliveryResult opts (.exception typeName) n ≠ .deadletter := by
  show DeliveryResult.failed ≠ .deadletter
  decide

/-- The labels of the two paths for a failure. -/
theorem deliveryResult_failure_eq_iff {statusCode : Nat} {body : Utf16} {typeName : Text} {n : Int}
    (hcode : isSuccessStatusCode statusCode = false) :
    deliveryResult opts (.exception typeName) n = deliveryResult opts (.response statusCode body) n ↔
      isExhausted opts n = false := by
  simp only [deliveryResult, hcode, Bool.false_eq_true, if_false]
  cases isExhausted opts n <;> decide

theorem resultStatus_failure {statusCode : Nat} {body : Utf16} {typeName : Text} {n : Int}
    (hcode : isSuccessStatusCode statusCode = false) :
    resultStatus opts (.exception typeName) n = resultStatus opts (.response statusCode body) n := by
  have hsame : (HttpOutcome.exception typeName).succeeded =
      (HttpOutcome.response statusCode body).succeeded := hcode.symm
  rw [resultStatus, resultStatus, hsame]

/-- **One visit.** An exception has the effect of a failed response, unless the try is the
last one. -/
theorem sameEffect_iff {w : World} (hw : w.Healthy) {ev : Event} {ep : Endpoint} {s : State}
    (hctx : s.ctx.Clean) (hdue : isDue s.db ev.id ep.id (w.clock s.reads) = true)
    {statusCode : Nat} (hcode : isSuccessStatusCode statusCode = false) (body : Utf16)
    (typeName : Text) :
    SameEffect s (processPair (w.answering (.response statusCode body)) opts ev ep s)
        (processPair (w.answering (.exception typeName)) opts ev ep s) ↔
      isExhausted opts (nextTryNumber s.db ev.id ep.id) = false := by
  obtain ⟨r, -, hrecorded⟩ := processPair_recorded hw opts hctx hdue
  have hresponse : Recorded w opts ev ep s r 1 (.response statusCode body)
      (processPair (w.answering (.response statusCode body)) opts ev ep s) :=
    hrecorded fun _ _ _ _ => (Reply.result statusCode body).exchange
  have hexception : Recorded w opts ev ep s r 1 (.exception typeName)
      (processPair (w.answering (.exception typeName)) opts ev ep s) :=
    hrecorded fun _ _ _ _ => (Reply.exception typeName).exchange
  have hlabel : deliveryResult opts (.exception typeName) (nextTryNumber s.db ev.id ep.id) =
      deliveryResult opts (.response statusCode body) (nextTryNumber s.db ev.id ep.id) ↔
        isExhausted opts (nextTryNumber s.db ev.id ep.id) = false :=
    deliveryResult_failure_eq_iff hcode
  rw [← hlabel]
  constructor
  · rintro ⟨-, -, -, effects, hlog, hlog'⟩
    have heffects := List.append_cancel_left (hlog.symm.trans hresponse.log)
    have heffects' := List.append_cancel_left (hlog'.symm.trans hexception.log)
    rw [heffects] at heffects'
    -- without the histogram, the two logs end in the two labels
    simpa [HttpOutcome.received] using heffects'.symm
  · intro hsame
    refine ⟨⟨_, _, hresponse.rows, hexception.rows, ?_⟩, ?_, ?_, _, hresponse.log, ?_⟩
    · simp only [attemptRow, HttpOutcome.succeeded, hcode, Bool.false_eq_true, if_false]
    · rw [hexception.events, hresponse.events, resultStatus_failure hcode]
    · rw [hexception.endpoints, hresponse.endpoints]
    · rw [hexception.log, hsame]
      simp [HttpOutcome.received]

end Visit

/-! ## The labels of a run -/

section Steps

variable {w : World} {opts : DeliveryOptions} {p p' : Process}

/-- A save adds one label when it commits. -/
theorem deliveries_recordOutcome (w : World) (opts : DeliveryOptions) (v : Event × Endpoint) (n : Int)
    (outcome : HttpOutcome) (s : State) :
    (recordOutcome w opts v n outcome s).2.deliveries =
      if (recordOutcome w opts v n outcome s).1 then s.deliveries ++ [deliveryResult opts outcome n]
      else s.deliveries := by
  obtain ⟨s₁, hdb, hctx, hsaves, -, hdeliveries, -, heq⟩ := recordOutcome_eq w opts v n outcome s
  rw [heq, ← hdeliveries]
  by_cases hfail : w.saveFails s₁.saves.length = true ∨
      s₁.db.attempts.insertAll? (s₁.ctx.added ++ [visitRow w opts v n outcome s]) = none
  · rw [persist_eq_of_rejected _ _ _ hfail]
    simp [State.deliveries, State.emit, State.add, State.setStatus]
  · rw [not_or, Bool.not_eq_true, ← Ne, Option.ne_none_iff_isSome] at hfail
    obtain ⟨hres, hcom⟩ := persist_committed (visitRow w opts v n outcome s)
      (resultStatus opts outcome n) (deliveryResult opts outcome n) hfail.1 hfail.2
    rw [hres, if_pos rfl, State.deliveries, hcom.log, List.filterMap_append]
    rfl

/-- The state behind a save, and whether it has thrown. -/
theorem state_of_record? {l : Loop} {v : Event × Endpoint} {n : Int} {outcome : HttpOutcome}
    (hphase : p.phase.record? = some (l, v, n, outcome))
    (h : proceed w opts p.state p.phase = some p') :
    p'.state = (recordOutcome w opts v n outcome p.state).2 ∧
      p'.phase.saveFailed = !(recordOutcome w opts v n outcome p.state).1 := by
  obtain ⟨s, phase⟩ := p
  cases phase with
  | recording l' v' n' outcome' =>
    cases hphase
    simp only [proceed] at h
    generalize recordOutcome w opts v n outcome s = res at h
    obtain ⟨saved, s'⟩ := res
    cases saved <;> cases outcome <;> cases h <;> exact ⟨rfl, rfl⟩
  | catching l' v' n' =>
    cases hphase
    simp only [proceed] at h
    generalize recordOutcome w opts v n (.exception "DbUpdateException".toList) s = res at h
    obtain ⟨saved, s'⟩ := res
    cases saved <;> cases h <;> exact ⟨rfl, rfl⟩
  | _ => cases hphase

/-- A step adds no label and no attempt, or it is a save that adds both. -/
theorem deliveries_step {a : ProcessAction} (h : processStep w opts p a = some p') :
    (p'.state.deliveries = p.state.deliveries ∧ p'.state.db.attempts = p.state.db.attempts) ∨
      ∃ l v n outcome, a = .move .next ∧ p.phase.record? = some (l, v, n, outcome) ∧
        p'.state.deliveries = p.state.deliveries ++ [deliveryResult opts outcome n] ∧
        p'.state.db.attempts.rows = p.state.db.attempts.rows ++
          (p.state.ctx.added ++ [visitRow w opts v n outcome p.state]) := by
  cases a with
  | move m =>
    cases moved_of_move h with
    | rested _ s' _ hdb _ _ hlog => exact Or.inl ⟨by rw [State.deliveries, hlog]; rfl, by rw [hdb]⟩
    | queried | loaded | skipped | due => exact Or.inl ⟨rfl, rfl⟩
    | sent => exact Or.inl ⟨by simp [State.deliveries, State.emit], rfl⟩
    | recorded l l' v n outcome s' hphase hsame hend =>
      obtain ⟨hstate, hfailed⟩ := state_of_record? hphase h
      have hsaved : (recordOutcome w opts v n outcome p.state).1 = true := by
        simpa [Phase.saveFailed] using hfailed
      refine Or.inr ⟨l, v, n, outcome, rfl, hphase, ?_, ?_⟩
      · rw [hstate, deliveries_recordOutcome, hsaved, if_pos rfl]
      · cases hend with
        | committed _ hrows => exact hrows
    | thrown l v n outcome s' phase hphase hthrown hend =>
      obtain ⟨hstate, hfailed⟩ := state_of_record? hphase h
      have hsaved : (recordOutcome w opts v n outcome p.state).1 = false := by
        rcases hthrown with rfl | rfl <;> simpa [Phase.saveFailed] using hfailed
      refine Or.inl ⟨?_, ?_⟩
      · rw [hstate, deliveries_recordOutcome, hsaved, if_neg Bool.false_ne_true]
      · cases hend with
        | rejected _ hdb => exact congrArg Database.attempts hdb
  | restart =>
    cases h
    exact Or.inl ⟨rfl, rfl⟩
  | insertEvent ev =>
    obtain ⟨-, events, -, rfl⟩ := insertEvent_eq_some h
    exact Or.inl ⟨rfl, rfl⟩
  | saveEndpoint ep =>
    cases h
    exact Or.inl ⟨rfl, rfl⟩

/-- A process whose saves all have succeeded. -/
structure Saving (w : World) (p : Process) : Prop where
  steady : Steady w p
  saved : p.phase.saveFailed = false

theorem saving_step (hw : w.Healthy) {a : ProcessAction} (hp : Saving w p)
    (h : processStep w opts p a = some p') : Saving w p' := by
  have hstop : stoppingStep w opts p a = some p' := by
    cases a with
    | move m =>
      show (if p.phase.saveFailed then none else p.move w opts m) = some p'
      rw [hp.saved]
      exact h
    | _ => exact h
  refine ⟨steady_step hp.steady hstop, ?_⟩
  cases a with
  | move m =>
    cases moved_of_move h with
    | thrown l v n outcome s' phase hphase _ hend =>
      have hfails := hp.steady.saveFails_of_rejected hp.saved hphase hend
      rw [hw] at hfails
      cases hfails
    | _ => rfl
  | restart =>
    cases h
    rfl
  | insertEvent ev =>
    obtain ⟨-, events, -, rfl⟩ := insertEvent_eq_some h
    exact hp.saved
  | saveEndpoint ep =>
    cases h
    exact hp.saved

/-- What a save adds to the two counts. -/
theorem counts_of_record {v : Event × Endpoint} {n : Int} {outcome : HttpOutcome}
    (hdeliveries : p'.state.deliveries = p.state.deliveries ++ [deliveryResult opts outcome n])
    (hrows : p'.state.db.attempts.rows = p.state.db.attempts.rows ++
      (p.state.ctx.added ++ [visitRow w opts v n outcome p.state])) :
    p'.state.deliveries.count .deadletter = p.state.deliveries.count .deadletter +
        (if deliveryResult opts outcome n = .deadletter then 1 else 0) ∧
      p'.state.db.attempts.rows.countP (setsDeadLetter opts) =
        p.state.db.attempts.rows.countP (setsDeadLetter opts) +
          (p.state.ctx.added.countP (setsDeadLetter opts) +
            if resultStatus opts outcome n = .deadLetter then 1 else 0) := by
  constructor
  · rw [hdeliveries, List.count_append, List.count_singleton]
    simp only [beq_iff_eq]
  · rw [hrows, List.countP_append, List.countP_append, List.countP_singleton, visitRow]
    simp only [setsDeadLetter_attemptRow]

theorem deliveryResult_deadletter {outcome : HttpOutcome} {n : Int}
    (h : deliveryResult opts outcome n = .deadletter) : resultStatus opts outcome n = .deadLetter := by
  cases outcome with
  | response statusCode body => exact deliveryResult_response.mp h
  | exception typeName => exact absurd h deliveryResult_exception

/-- The labels never get ahead of the attempts. -/
theorem behind_step {a : ProcessAction}
    (hbehind : p.state.deliveries.count .deadletter <
      p.state.db.attempts.rows.countP (setsDeadLetter opts))
    (h : processStep w opts p a = some p') :
    p'.state.deliveries.count .deadletter <
      p'.state.db.attempts.rows.countP (setsDeadLetter opts) := by
  rcases deliveries_step h with ⟨hdeliveries, hattempts⟩ | ⟨l, v, n, outcome, -, -, hdeliveries, hrows⟩
  · rw [hdeliveries, hattempts]
    exact hbehind
  · obtain ⟨hcount, hcount'⟩ := counts_of_record hdeliveries hrows
    rw [hcount, hcount']
    split
    · rename_i hlabel
      rw [if_pos (deliveryResult_deadletter hlabel)]
      omega
    · omega

/-- A step that is no last exception adds as many labels as attempts. -/
theorem countsDeadLetters_step {a : ProcessAction} (hp : Saving w p)
    (hcounts : CountsDeadLetters opts p.state) (hgood : NoLastException opts p a)
    (h : processStep w opts p a = some p') : CountsDeadLetters opts p'.state := by
  unfold CountsDeadLetters at hcounts ⊢
  rcases deliveries_step h with
    ⟨hdeliveries, hattempts⟩ | ⟨l, v, n, outcome, ha, hphase, hdeliveries, hrows⟩
  · rw [hdeliveries, hattempts]
    exact hcounts
  · obtain ⟨hcount, hcount'⟩ := counts_of_record hdeliveries hrows
    rw [hcount, hcount', hcounts, (hp.steady.clean hp.saved).added, List.countP_nil, Nat.zero_add]
    have hlabel : deliveryResult opts outcome n = .deadletter ↔
        resultStatus opts outcome n = .deadLetter := by
      cases outcome with
      | response statusCode body => exact deliveryResult_response
      | exception typeName =>
        have hlast := hgood l v n typeName ha (Phase.recording_of_record? hphase hp.saved)
        have hstatus : resultStatus opts (.exception typeName) n = .failed :=
          resultStatus_eq_failed_iff.mpr ⟨rfl, hlast⟩
        rw [hstatus]
        exact iff_of_false deliveryResult_exception (by decide)
    simp only [hlabel]

/-- An exception of a last try leaves the labels behind. -/
theorem behind_of_last_exception (hw : w.Healthy) {a : ProcessAction} (hp : Saving w p)
    (hcounts : CountsDeadLetters opts p.state) (hbad : ¬ NoLastException opts p a)
    (h : processStep w opts p a = some p') :
    p'.state.deliveries.count .deadletter <
      p'.state.db.attempts.rows.countP (setsDeadLetter opts) := by
  unfold NoLastException at hbad
  push Not at hbad
  obtain ⟨l, v, n, typeName, rfl, hphase, hlast⟩ := hbad
  have hp' := saving_step hw hp h
  have hrecord : p.phase.record? = some (l, v, n, .exception typeName) := by
    rw [hphase]
    rfl
  have hstate := state_of_record? hrecord h
  have hsaved : (recordOutcome w opts v n (.exception typeName) p.state).1 = true := by
    simpa [hp'.saved] using hstate.2.symm
  have hend := recordOutcome_end w opts v n (.exception typeName) p.state
  have hdeliveries := deliveries_recordOutcome w opts v n (.exception typeName) p.state
  rw [hsaved, ← hstate.1] at hend
  rw [hsaved, if_pos rfl, ← hstate.1] at hdeliveries
  cases hend with
  | committed _ hrows =>
    obtain ⟨hcount, hcount'⟩ := counts_of_record hdeliveries hrows
    have hstatus : resultStatus opts (.exception typeName) n = .deadLetter := by
      have hfailed : (HttpOutcome.exception typeName).succeeded = false := rfl
      have hexhausted : isExhausted opts n = true := by simpa using hlast
      rw [resultStatus, hfailed, if_neg Bool.false_ne_true, failureStatus, if_pos hexhausted]
    unfold CountsDeadLetters at hcounts
    rw [hcount, hcount', hcounts, if_neg deliveryResult_exception, if_pos hstatus]
    omega

end Steps

/-- **The counter of a run** agrees with the attempts that have set `DeadLetter` exactly when
no last try of the run ends in an exception. -/
theorem countsDeadLetters_run_iff {w : World} (hw : w.Healthy) (opts : DeliveryOptions)
    (events : Table Event Guid Event.id) (endpoints : Table Endpoint Guid Endpoint.id)
    (actions : List ProcessAction) {p' : Process}
    (hrun : Transition.run (processStep w opts) { state := .start events endpoints } actions = some p') :
    CountsDeadLetters opts p'.state ↔ Transition.Along (processStep w opts) (NoLastException opts)
      { state := .start events endpoints } actions := by
  have hstart : Saving w { state := .start events endpoints } :=
    ⟨steady_start w _ ⟨rfl, rfl⟩ rfl, rfl⟩
  have hiff : Transition.Along (processStep w opts) (NoLastException opts)
      { state := .start events endpoints } actions ↔ ¬ p'.state.deliveries.count .deadletter <
        p'.state.db.attempts.rows.countP (setsDeadLetter opts) :=
    Transition.along_iff_not_bad (I := fun p => Saving w p ∧ CountsDeadLetters opts p.state)
    (fun p a p₁ hI hgood h => ⟨saving_step hw hI.1 h, countsDeadLetters_step hI.1 hI.2 hgood h⟩)
    (fun p a p₁ hI hbad h => behind_of_last_exception hw hI.1 hI.2 hbad h)
    (fun p a p₁ hbehind h => behind_step hbehind h)
    (fun p hI hbehind => Nat.ne_of_lt hbehind hI.2)
    ⟨hstart, rfl⟩ hrun
  constructor
  · intro hcounts
    exact hiff.mpr fun hbehind => Nat.ne_of_lt hbehind hcounts
  · intro hgood
    have hend := hgood.invariant (I := fun p => Saving w p ∧ CountsDeadLetters opts p.state)
      (fun p a p₁ hI hg h => ⟨saving_step hw hI.1 h, countsDeadLetters_step hI.1 hI.2 hg h⟩)
      ⟨hstart, rfl⟩ hrun
    exact hend.2

/-- **The two paths**, in one visit and over runs. -/
theorem exceptionPath_iff {w : World} (hw : w.Healthy) (opts : DeliveryOptions) :
    (∀ (ev : Event) (ep : Endpoint) (s : State) (statusCode : Nat) (body : Utf16) (typeName : Text),
        s.ctx.Clean → isDue s.db ev.id ep.id (w.clock s.reads) = true →
        isSuccessStatusCode statusCode = false →
        (SameEffect s (processPair (w.answering (.response statusCode body)) opts ev ep s)
            (processPair (w.answering (.exception typeName)) opts ev ep s) ↔
          isExhausted opts (nextTryNumber s.db ev.id ep.id) = false)) ∧
      ∀ (events : Table Event Guid Event.id) (endpoints : Table Endpoint Guid Endpoint.id)
        (actions : List ProcessAction) (p' : Process),
        Transition.run (processStep w opts) { state := .start events endpoints } actions = some p' →
        (CountsDeadLetters opts p'.state ↔ Transition.Along (processStep w opts) (NoLastException opts)
          { state := .start events endpoints } actions) :=
  ⟨fun _ _ _ _ body typeName hctx hdue hcode => sameEffect_iff hw hctx hdue hcode body typeName,
    fun events endpoints actions _ hrun => countsDeadLetters_run_iff hw opts events endpoints actions hrun⟩

/-! ## A last try that throws -/

def throwingWorld : World := splitWorld.answering (.exception "HttpRequestException".toList)

def throwingEvent : Event := { id := 7, source := "test".toList, receivedAt := 0 }

theorem throwingRun_isSome : (Transition.run (processStep throwingWorld oneTry) { state := splitStart }
    failedTryActions).isSome := by
  decide

theorem exceptionPath_first_of_many :
    SameEffect splitStart (processPair (throwingWorld.answering (.response 500 [])) {} throwingEvent
        failingEndpoint splitStart)
      (processPair (throwingWorld.answering (.exception [])) {} throwingEvent failingEndpoint splitStart) ∧
    (CountsDeadLetters oneTry
        ((Transition.run (processStep throwingWorld oneTry) { state := splitStart }
          failedTryActions).get throwingRun_isSome).state ↔
      Transition.Along (processStep throwingWorld oneTry) (NoLastException oneTry)
        { state := splitStart } failedTryActions) :=
  ⟨((exceptionPath_iff (fun _ => rfl) {}).1 throwingEvent failingEndpoint splitStart 500 [] []
      ⟨rfl, rfl⟩ rfl rfl).mpr rfl,
    (exceptionPath_iff (fun _ => rfl) oneTry).2 _ _ failedTryActions _
      (Option.some_get throwingRun_isSome).symm⟩

/-- The only try throws: its event is set to `DeadLetter`, and the label is `failed`. -/
theorem last_exception_labelled_failed :
    throwingWorld.Healthy ∧ splitStart.ctx.Clean ∧
      ¬ SameEffect splitStart (processPair (throwingWorld.answering (.response 500 [])) oneTry throwingEvent
          failingEndpoint splitStart)
        (processPair (throwingWorld.answering (.exception [])) oneTry throwingEvent failingEndpoint
          splitStart) ∧
      ∃ p', Transition.run (processStep throwingWorld oneTry) { state := splitStart }
        failedTryActions = some p' ∧ ¬ CountsDeadLetters oneTry p'.state := by
  refine ⟨fun _ => rfl, ⟨rfl, rfl⟩, ?_, _, (Option.some_get throwingRun_isSome).symm, ?_⟩
  · intro h
    have hlast := (sameEffect_iff (w := throwingWorld) (fun _ => rfl) ⟨rfl, rfl⟩ rfl rfl [] []).mp h
    exact absurd hlast (by decide)
  · unfold CountsDeadLetters
    decide

end WebhookInbox.Worker
