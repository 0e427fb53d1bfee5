import Mathlib.Data.Fintype.Basic
import WebhookInbox.Library.Interleaving
import WebhookInbox.Library.Transition
import WebhookInbox.LoadTest.Requests
import WebhookInbox.Worker.Options

/-!
# The loops of the load generator

Each worker runs `RunWorkerAsync`: it sends a request, records what comes of it and waits, until its
token is cancelled. The gauge of the requests under way is exact in every state. An
`OperationCanceledException` ends the loop whatever has raised it, and a timeout of `HttpClient` is
one: the workers go on as long as the token is not cancelled exactly when no request ends in a
timeout before (`survives_iff`).
-/

namespace WebhookInbox.LoadTest

open Api Transition

/-! ## The state -/

/-- A count of `requests_total` with its tags. -/
structure RecordedResult where
  source : Text
  scenario : LoadTestScenarioKind
  outcome : Text
  statusCode : Option Nat
  deriving DecidableEq, Repr

/-- The metrics, the status and the token, which the workers share. Times are left out. -/
structure Monitor where
  inflight : Int := 0
  results : List RecordedResult := []
  lastScenario : Option LoadTestScenarioKind := none
  lastError : Option Text := none
  isCancellationRequested : Bool := false

namespace Monitor

def incrementInflight (m : Monitor) : Monitor := { m with inflight := m.inflight + 1 }

def decrementInflight (m : Monitor) : Monitor := { m with inflight := m.inflight - 1 }

def recordResult (m : Monitor) (source : Text) (scenario : LoadTestScenarioKind) (outcome : String)
    (statusCode : Option Nat) : Monitor :=
  { m with results := m.results ++ [⟨source, scenario, outcome.toList, statusCode⟩] }

def markRequest (m : Monitor) (scenario : LoadTestScenarioKind) : Monitor :=
  { m with lastScenario := some scenario }

def recordError (m : Monitor) (message : Text) : Monitor := { m with lastError := some message }

end Monitor

/-- The sources are not empty, or the workers are not started. There is no timer when the interval is
`TimeSpan.Zero`; its constructor, which refuses an interval below a millisecond, comes before the loop. -/
structure RuntimeConfiguration where
  sources : List RuntimeSource
  intervalPerWorker : Int
  sources_ne : sources ≠ []

def RuntimeConfiguration.hasTimer (cfg : RuntimeConfiguration) : Bool := decide (0 < cfg.intervalPerWorker)

/-- Where a worker is: at the test of its loop, in the request, in the wait, or past its end, with or
without an exception. -/
inductive LoopPhase where
  | testing
  | sending (source : RuntimeSource) (scenario : LoadTestScenarioKind)
  | waiting
  | ended (threw : Bool)

def LoopPhase.isSending : LoopPhase → Bool
  | .sending _ _ => true
  | _ => false

def LoopPhase.isEnded : LoopPhase → Bool
  | .ended _ => true
  | _ => false

def LoopPhase.threw : LoopPhase → Bool
  | .ended threw => threw
  | _ => false

structure LoopWorker where
  phase : LoopPhase := .testing
  timerDisposed : Bool := false

/-! ## The steps -/

/-- What `ExecuteScenarioAsync` comes to. The exceptions carry the name of their type. -/
inductive RequestOutcome where
  | response (statusCode : Nat)
  | operationCanceledException
  | httpRequestException (typeName : Text)
  | exception (typeName : Text)
  deriving DecidableEq, Repr

/-- The body of the `try` and its `catch` clauses; `true` when an exception is thrown on. -/
def handleOutcome (m : Monitor) (source : RuntimeSource) (scenario : LoadTestScenarioKind) :
    RequestOutcome → Monitor × Bool
  | .response statusCode =>
    (m.recordResult source.source scenario
      (if Worker.isSuccessStatusCode statusCode then "success" else "failure") (some statusCode), false)
  | .operationCanceledException => (m, true)
  | .httpRequestException typeName =>
    ((m.recordResult source.source scenario "http_error" none).recordError
      ("http_error:".toList ++ typeName), false)
  | .exception typeName =>
    ((m.recordResult source.source scenario "error" none).recordError
      ("exception:".toList ++ typeName), false)

/-- A worker's own steps. `test` draws the index of a source and a scenario; `interrupted` is the wait
that the token has cancelled. -/
inductive LoopMove where
  | test (index : Nat) (scenario : LoadTestScenarioKind)
  | finish (outcome : RequestOutcome)
  | elapsed
  | interrupted

/-- The loop is left, and the timer disposed. -/
def LoopWorker.leave (cfg : RuntimeConfiguration) (threw : Bool) : LoopWorker where
  phase := .ended threw
  timerDisposed := cfg.hasTimer

def LoopWorker.move (p : Platform) (cfg : RuntimeConfiguration) (m : Monitor) (w : LoopWorker) :
    LoopMove → Option (Monitor × LoopWorker)
  | .test index scenario =>
    match w.phase with
    | .testing =>
      if m.isCancellationRequested then some (m, .leave cfg false)
      else
        (cfg.sources[index]?).map fun source =>
          (m.incrementInflight, { w with phase := .sending source (normalizeScenario p source scenario) })
    | _ => none
  | .finish outcome =>
    match w.phase with
    | .sending source scenario =>
      -- the `finally` block runs in both cases
      let handled := handleOutcome m source scenario outcome
      some (handled.1.decrementInflight.markRequest scenario,
        if handled.2 then .leave cfg true else { w with phase := .waiting })
    | _ => none
  | .elapsed =>
    match w.phase with
    | .waiting =>
      -- a timer answers false when it has been disposed
      if cfg.hasTimer && w.timerDisposed then some (m, .leave cfg false)
      else some (m, { w with phase := .testing })
    | _ => none
  | .interrupted =>
    match w.phase with
    | .waiting => if m.isCancellationRequested then some (m, .leave cfg false) else none
    | _ => none

variable {ι : Type} [DecidableEq ι]

/-- The workers of one load test. -/
abbrev Loops (ι : Type) := Cluster ι Monitor LoopWorker

def Loops.start (ι : Type) (m : Monitor) : Loops ι where
  shared := m
  members _ := {}

inductive LoopAction (ι : Type) where
  | cancel
  | move (i : ι) (m : LoopMove)

def loopStep (p : Platform) (cfg : RuntimeConfiguration) (c : Loops ι) : LoopAction ι → Option (Loops ι)
  | .cancel => some { c with shared := { c.shared with isCancellationRequested := true } }
  | .move i m => ((c.members i).move p cfg c.shared m).map fun x => c.put i x.1 x.2

/-- How `ExecuteAsync` ends when all workers have: whether an exception leaves it, and the phase of the
status. -/
def executeAsyncEnd [Fintype ι] (c : Loops ι) : Option (Bool × Text) :=
  if ∀ i, (c.members i).phase.isEnded = true then
    some (decide (∃ i, (c.members i).phase.threw = true) && !c.shared.isCancellationRequested,
      (if c.shared.isCancellationRequested then "stopped" else "completed").toList)
  else none

/-! ## What has to hold -/

/-- The worker comes to a request by its own steps, whichever it takes. -/
inductive Issues (p : Platform) (cfg : RuntimeConfiguration) (i : ι) : Loops ι → Prop
  | sending {c : Loops ι} (h : (c.members i).phase.isSending = true) : Issues p cfg i c
  | move {c : Loops ι} (hcan : ∃ m c', loopStep p cfg c (.move i m) = some c')
      (hall : ∀ m c', loopStep p cfg c (.move i m) = some c' → Issues p cfg i c') : Issues p cfg i c

/-- The gauge counts the requests under way on top of `base`, and every worker issues its next request
unless the token is cancelled. -/
structure Survives [Fintype ι] (p : Platform) (cfg : RuntimeConfiguration) (base : Int) (c : Loops ι) :
    Prop where
  inflight : c.shared.inflight = base + c.count fun w => w.phase.isSending
  issues : c.shared.isCancellationRequested = false → ∀ i, Issues p cfg i c

/-- No request ends in an `OperationCanceledException` before the token is cancelled. -/
def NoTimeout (c : Loops ι) : LoopAction ι → Prop
  | .move _ (.finish .operationCanceledException) => c.shared.isCancellationRequested = true
  | _ => True

instance decidableNoTimeout (c : Loops ι) : (a : LoopAction ι) → Decidable (NoTimeout c a)
  | .move _ (.finish .operationCanceledException) =>
    inferInstanceAs (Decidable (c.shared.isCancellationRequested = true))
  | .move _ (.finish (.response _)) | .move _ (.finish (.httpRequestException _))
  | .move _ (.finish (.exception _)) | .move _ (.test _ _) | .move _ .elapsed | .move _ .interrupted
  | .cancel => isTrue trivial

/-! ## One step of a worker -/

section Outcome

variable (m : Monitor) (source : RuntimeSource) (scenario : LoadTestScenarioKind) (outcome : RequestOutcome)

theorem inflight_handleOutcome : (handleOutcome m source scenario outcome).1.inflight = m.inflight := by
  cases outcome <;> rfl

theorem isCancellationRequested_handleOutcome :
    (handleOutcome m source scenario outcome).1.isCancellationRequested = m.isCancellationRequested := by
  cases outcome <;> rfl

theorem threw_handleOutcome_iff :
    (handleOutcome m source scenario outcome).2 = true ↔ outcome = .operationCanceledException := by
  cases outcome <;> simp [handleOutcome]

end Outcome

/-- What a step of a worker can be, and what it leaves of the monitor. -/
inductive Moved (p : Platform) (cfg : RuntimeConfiguration) (m : Monitor) (w : LoopWorker) :
    LoopMove → Monitor → LoopWorker → Prop
  | stopped {index : Nat} {scenario : LoadTestScenarioKind} (hphase : w.phase = .testing)
      (htoken : m.isCancellationRequested = true) : Moved p cfg m w (.test index scenario) m (.leave cfg false)
  | issued {index : Nat} {scenario : LoadTestScenarioKind} {source : RuntimeSource} (hphase : w.phase = .testing)
      (htoken : m.isCancellationRequested = false) (hsource : cfg.sources[index]? = some source) :
      Moved p cfg m w (.test index scenario) m.incrementInflight
        { w with phase := .sending source (normalizeScenario p source scenario) }
  | finished {outcome : RequestOutcome} {m' : Monitor} (hphase : w.phase.isSending = true)
      (houtcome : outcome ≠ .operationCanceledException) (hinflight : m'.inflight = m.inflight - 1)
      (htoken : m'.isCancellationRequested = m.isCancellationRequested) :
      Moved p cfg m w (.finish outcome) m' { w with phase := .waiting }
  | thrown {m' : Monitor} (hphase : w.phase.isSending = true) (hinflight : m'.inflight = m.inflight - 1)
      (htoken : m'.isCancellationRequested = m.isCancellationRequested) :
      Moved p cfg m w (.finish .operationCanceledException) m' (.leave cfg true)
  | disposed (hphase : w.phase = .waiting) (hdisposed : w.timerDisposed = true) :
      Moved p cfg m w .elapsed m (.leave cfg false)
  | elapsed (hphase : w.phase = .waiting) : Moved p cfg m w .elapsed m { w with phase := .testing }
  | interrupted (hphase : w.phase = .waiting) (htoken : m.isCancellationRequested = true) :
      Moved p cfg m w .interrupted m (.leave cfg false)

section Moved

variable {p : Platform} {cfg : RuntimeConfiguration} {m m' : Monitor} {w w' : LoopWorker} {mv : LoopMove}

theorem moved_of_move (h : w.move p cfg m mv = some (m', w')) : Moved p cfg m w mv m' w' := by
  cases mv with
  | test index scenario =>
    dsimp only [LoopWorker.move] at h
    split at h
    · rename_i hphase
      split at h
      · rename_i htoken
        cases h
        exact .stopped hphase htoken
      · rename_i htoken
        rw [Option.map_eq_some_iff] at h
        obtain ⟨source, hsource, heq⟩ := h
        cases heq
        exact .issued hphase (Bool.eq_false_of_not_eq_true htoken) hsource
    · cases h
  | finish outcome =>
    dsimp only [LoopWorker.move] at h
    split at h
    · rename_i source scenario hphase
      have hsending : w.phase.isSending = true := by rw [hphase]; rfl
      have hinflight := inflight_handleOutcome m source scenario outcome
      have htoken := isCancellationRequested_handleOutcome m source scenario outcome
      have hthrew := threw_handleOutcome_iff m source scenario outcome
      split at h
      · rename_i hthrown
        obtain rfl := hthrew.mp hthrown
        cases h
        exact .thrown hsending (congrArg (· - 1) hinflight) htoken
      · rename_i hthrown
        cases h
        exact .finished hsending (fun houtcome => hthrown (hthrew.mpr houtcome))
          (congrArg (· - 1) hinflight) htoken
    · cases h
  | elapsed =>
    dsimp only [LoopWorker.move] at h
    split at h
    · rename_i hphase
      split at h
      · rename_i hdisposed
        rw [Bool.and_eq_true] at hdisposed
        cases h
        exact .disposed hphase hdisposed.2
      · cases h
        exact .elapsed hphase
    · cases h
  | interrupted =>
    dsimp only [LoopWorker.move] at h
    split at h
    · rename_i hphase
      split at h
      · rename_i htoken
        cases h
        exact .interrupted hphase htoken
      · cases h
    · cases h

theorem Moved.token (h : Moved p cfg m w mv m' w') : m'.isCancellationRequested = m.isCancellationRequested := by
  cases h with
  | stopped | issued | disposed | elapsed | interrupted => rfl
  | finished _ _ _ htoken => exact htoken
  | thrown _ _ htoken => exact htoken

/-- The gauge moves with the worker: `finally` takes back what the test has added. -/
theorem Moved.inflight_eq (h : Moved p cfg m w mv m' w') :
    m'.inflight + (w.phase.isSending.toNat : Int) = m.inflight + (w'.phase.isSending.toNat : Int) := by
  cases h with
  | stopped hphase _ => rw [hphase]; rfl
  | issued hphase _ _ =>
    rw [hphase]
    simp [Monitor.incrementInflight, LoopPhase.isSending]
  | finished hphase _ hinflight _ =>
    rw [hphase, hinflight]
    simp [LoopPhase.isSending]
  | thrown hphase hinflight _ =>
    rw [hphase, hinflight]
    simp [LoopWorker.leave, LoopPhase.isSending]
  | disposed hphase _ => rw [hphase]; rfl
  | elapsed hphase => rw [hphase]; rfl
  | interrupted hphase _ => rw [hphase]; rfl

/-- The timer of a worker that has not ended is not disposed. -/
def TimerRuns (w : LoopWorker) : Prop := w.phase.isEnded = false → w.timerDisposed = false

theorem Moved.timerRuns (h : Moved p cfg m w mv m' w') (hw : TimerRuns w) : TimerRuns w' := by
  intro hended
  cases h with
  | stopped | thrown | disposed | interrupted => cases hended
  | issued hphase _ _ => exact hw (by rw [hphase]; rfl)
  | elapsed hphase => exact hw (by rw [hphase]; rfl)
  | finished hphase _ _ _ =>
    apply hw
    cases hw' : w.phase with
    | sending => rfl
    | testing | waiting | ended =>
      rw [hw'] at hphase
      cases hphase

/-- While the token is not cancelled a worker ends by an exception only. -/
theorem Moved.isEnded_iff (h : Moved p cfg m w mv m' w') (htoken : m.isCancellationRequested = false)
    (hw : TimerRuns w) : w'.phase.isEnded = true ↔ mv = .finish .operationCanceledException := by
  cases h with
  | stopped _ hcancelled =>
    rw [htoken] at hcancelled
    cases hcancelled
  | interrupted _ hcancelled =>
    rw [htoken] at hcancelled
    cases hcancelled
  | disposed hphase hdisposed =>
    rw [hw (by rw [hphase]; rfl)] at hdisposed
    cases hdisposed
  | issued | elapsed => simp [LoopPhase.isEnded]
  | finished _ houtcome _ _ => simp [LoopPhase.isEnded, houtcome]
  | thrown => simp [LoopPhase.isEnded, LoopWorker.leave]

end Moved

/-! ## The next request -/

section Issues

variable {p : Platform} {cfg : RuntimeConfiguration} {c c' : Loops ι} {i : ι}

theorem moved_of_loopStep {mv : LoopMove} (h : loopStep p cfg c (.move i mv) = some c') :
    ∃ m' w', Moved p cfg c.shared (c.members i) mv m' w' ∧ c' = c.put i m' w' := by
  obtain ⟨⟨m', w'⟩, hmove, rfl⟩ := Option.map_eq_some_iff.mp h
  exact ⟨m', w', moved_of_move hmove, rfl⟩

theorem issues_of_testing (hphase : (c.members i).phase = .testing)
    (htoken : c.shared.isCancellationRequested = false) : Issues p cfg i c := by
  obtain ⟨source, sources, hsources⟩ := List.exists_cons_of_ne_nil cfg.sources_ne
  refine .move ⟨.test 0 .valid, c.put i c.shared.incrementInflight
    { c.members i with phase := .sending source (normalizeScenario p source .valid) }, ?_⟩ ?_
  · simp [loopStep, LoopWorker.move, hphase, htoken, hsources]
  · intro mv c' hstep
    obtain ⟨m', w', hmoved, rfl⟩ := moved_of_loopStep hstep
    apply Issues.sending
    rw [Cluster.members_put_self]
    cases hmoved with
    | issued => rfl
    | stopped _ hcancelled =>
      rw [htoken] at hcancelled
      cases hcancelled
    | finished hsending | thrown hsending =>
      rw [hphase] at hsending
      cases hsending
    | disposed hwaiting | elapsed hwaiting | interrupted hwaiting =>
      rw [hphase] at hwaiting
      cases hwaiting

theorem issues_of_waiting (hphase : (c.members i).phase = .waiting)
    (htoken : c.shared.isCancellationRequested = false) (htimer : TimerRuns (c.members i)) :
    Issues p cfg i c := by
  have hruns : (c.members i).timerDisposed = false := htimer (by rw [hphase]; rfl)
  refine .move ⟨.elapsed, c.put i c.shared { c.members i with phase := .testing }, ?_⟩ ?_
  · simp [loopStep, LoopWorker.move, hphase, hruns]
  · intro mv c' hstep
    obtain ⟨m', w', hmoved, rfl⟩ := moved_of_loopStep hstep
    cases hmoved with
    | elapsed => exact issues_of_testing (by rw [Cluster.members_put_self]) htoken
    | disposed _ hdisposed =>
      rw [hruns] at hdisposed
      cases hdisposed
    | interrupted _ hcancelled =>
      rw [htoken] at hcancelled
      cases hcancelled
    | finished hsending | thrown hsending =>
      rw [hphase] at hsending
      cases hsending
    | stopped htesting | issued htesting =>
      rw [hphase] at htesting
      cases htesting

/-- A worker comes to its next request unless it has ended. -/
theorem issues_iff (htoken : c.shared.isCancellationRequested = false) (htimer : TimerRuns (c.members i)) :
    Issues p cfg i c ↔ (c.members i).phase.isEnded = false := by
  constructor
  · intro h
    cases h with
    | sending hsending =>
      cases hphase : (c.members i).phase with
      | testing | sending | waiting => rfl
      | ended =>
        rw [hphase] at hsending
        cases hsending
    | move hcan _ =>
      obtain ⟨mv, c', hstep⟩ := hcan
      obtain ⟨m', w', hmoved, -⟩ := moved_of_loopStep hstep
      cases hphase : (c.members i).phase with
      | testing | sending | waiting => rfl
      | ended threw =>
        cases hmoved with
        | stopped h | issued h | disposed h | elapsed h | interrupted h | finished h | thrown h =>
          rw [hphase] at h
          cases h
  · intro hended
    cases hphase : (c.members i).phase with
    | testing => exact issues_of_testing hphase htoken
    | sending source scenario => exact .sending (by rw [hphase]; rfl)
    | waiting => exact issues_of_waiting hphase htoken htimer
    | ended threw =>
      rw [hphase] at hended
      cases hended

end Issues

/-! ## Runs -/

section Runs

variable [Fintype ι] {p : Platform} {cfg : RuntimeConfiguration} {base : Int} {c c' : Loops ι}
  {a : LoopAction ι}

/-- What every step keeps, whatever the outcomes. -/
structure Counted (base : Int) (c : Loops ι) : Prop where
  inflight : c.shared.inflight = base + c.count fun w => w.phase.isSending
  timers : ∀ i, TimerRuns (c.members i)

theorem counted_step (hc : Counted base c) (h : loopStep p cfg c a = some c') : Counted base c' := by
  cases a with
  | cancel =>
    cases h
    exact ⟨hc.inflight, hc.timers⟩
  | move i mv =>
    obtain ⟨m', w', hmoved, rfl⟩ := moved_of_loopStep h
    constructor
    · have hcount := Cluster.count_put (fun w : LoopWorker => w.phase.isSending) c i m' w'
      have hgauge := hmoved.inflight_eq
      have hbefore := hc.inflight
      rw [Cluster.shared_put]
      omega
    · intro j
      by_cases hj : j = i
      · subst hj
        rw [Cluster.members_put_self]
        exact hmoved.timerRuns (hc.timers j)
      · rw [Cluster.members_put_of_ne hj]
        exact hc.timers j

theorem survives_iff_of_counted (hc : Counted base c) : Survives p cfg base c ↔
    (c.shared.isCancellationRequested = false → ∀ i, (c.members i).phase.isEnded = false) := by
  constructor
  · intro h htoken i
    exact (issues_iff htoken (hc.timers i)).mp (h.issues htoken i)
  · intro h
    exact ⟨hc.inflight, fun htoken i => (issues_iff htoken (hc.timers i)).mpr (h htoken i)⟩

omit [Fintype ι] [DecidableEq ι] in
theorem noTimeout_move_iff {i : ι} {mv : LoopMove} : NoTimeout c (.move i mv) ↔
    (mv = .finish .operationCanceledException → c.shared.isCancellationRequested = true) := by
  cases mv with
  | finish outcome => cases outcome <;> simp [NoTimeout]
  | test | elapsed | interrupted => simp [NoTimeout]

/-- From a state in which the workers go on, a step leads to another one exactly when it is no timeout. -/
theorem survives_step_iff (hc : Counted base c) (hs : Survives p cfg base c)
    (h : loopStep p cfg c a = some c') : Survives p cfg base c' ↔ NoTimeout c a := by
  rw [survives_iff_of_counted (counted_step hc h)]
  rw [survives_iff_of_counted hc] at hs
  cases a with
  | cancel =>
    cases h
    exact iff_of_true (fun htoken => nomatch htoken) trivial
  | move i mv =>
    obtain ⟨m', w', hmoved, rfl⟩ := moved_of_loopStep h
    rw [noTimeout_move_iff, Cluster.shared_put, hmoved.token]
    cases htoken : c.shared.isCancellationRequested with
    | true => simp
    | false =>
      have hended := hmoved.isEnded_iff htoken (hc.timers i)
      constructor
      · intro hgoes htimeout
        have hrunning := hgoes rfl i
        rw [Cluster.members_put_self, hended.mpr htimeout] at hrunning
        cases hrunning
      · intro hno _ j
        by_cases hj : j = i
        · subst hj
          rw [Cluster.members_put_self, Bool.eq_false_iff]
          exact fun h' => nomatch hno (hended.mp h')
        · rw [Cluster.members_put_of_ne hj]
          exact hs htoken j

omit [DecidableEq ι] in
theorem counted_start (m : Monitor) : Counted m.inflight (Loops.start ι m) := by
  constructor
  · simp [Loops.start, Cluster.count, LoopPhase.isSending]
  · intro i _
    rfl

/-- **The gauge** is exact in every run, whatever the requests come to. -/
theorem inflight_of_run {m : Monitor} {as : List (LoopAction ι)}
    (hrun : run (loopStep p cfg) (Loops.start ι m) as = some c) :
    c.shared.inflight = m.inflight + c.count fun w => w.phase.isSending :=
  (invariant (fun _ _ _ hc h => counted_step hc h) (counted_start m) hrun).inflight

omit [DecidableEq ι] [Fintype ι] in
theorem isEnded_start (m : Monitor) (i : ι) : ((Loops.start ι m).members i).phase.isEnded = false := rfl

theorem survives_start (m : Monitor) : Survives p cfg m.inflight (Loops.start ι m) :=
  (survives_iff_of_counted (counted_start m)).mpr fun _ i => isEnded_start m i

/-- **Survival.** In every state of a run the gauge is exact and the workers go on unless the token is
cancelled, exactly when no request of the run has ended in a timeout before. -/
theorem survives_iff (p : Platform) (cfg : RuntimeConfiguration) (m : Monitor)
    (as : List (LoopAction ι)) (c : Loops ι)
    (hrun : run (loopStep p cfg) (Loops.start ι m) as = some c) :
    Always (loopStep p cfg) (Survives p cfg m.inflight) (Loops.start ι m) as ↔
      Along (loopStep p cfg) NoTimeout (Loops.start ι m) as :=
  always_iff_along (fun _ _ _ hc h => counted_step hc h)
    (fun _ _ _ hc hs h => survives_step_iff hc hs h) (counted_start m) (survives_start m) hrun

theorem survives_of_along {m : Monitor} {as : List (LoopAction ι)}
    (hgood : Along (loopStep p cfg) NoTimeout (Loops.start ι m) as)
    (hrun : run (loopStep p cfg) (Loops.start ι m) as = some c) :
    Counted m.inflight c ∧ Survives p cfg m.inflight c := by
  apply hgood.invariant (I := fun c => Counted m.inflight c ∧ Survives p cfg m.inflight c) _
    ⟨counted_start m, survives_start m⟩ hrun
  intro c a c' hc hno h
  exact ⟨counted_step hc.1 h, (survives_step_iff hc.1 hc.2 h).mpr hno⟩

/-- Without a timeout the load test ends by its token only. -/
theorem executeAsyncEnd_of_along [Nonempty ι] {m : Monitor} {as : List (LoopAction ι)} {ended : Bool × Text}
    (hgood : Along (loopStep p cfg) NoTimeout (Loops.start ι m) as)
    (hrun : run (loopStep p cfg) (Loops.start ι m) as = some c) (hend : executeAsyncEnd c = some ended) :
    ended = (false, "stopped".toList) := by
  obtain ⟨hcounted, hsurvives⟩ := survives_of_along hgood hrun
  rw [survives_iff_of_counted hcounted] at hsurvives
  unfold executeAsyncEnd at hend
  split at hend
  · rename_i hall
    have htoken : c.shared.isCancellationRequested = true := by
      by_contra hnot
      obtain ⟨i⟩ := (inferInstance : Nonempty ι)
      have hrunning := hsurvives (Bool.eq_false_of_not_eq_true hnot) i
      rw [hall i] at hrunning
      cases hrunning
    rw [htoken, Option.some.injEq] at hend
    rw [← hend]
    simp
  · cases hend

end Runs

/-! ## Two runs -/

def loopPlatform : Platform := .ascii (fun _ => []) fun _ _ => []

def loopSource : RuntimeSource where
  source := "shop".toList
  provider := "github".toList
  secret := none
  canSign := false
  toleranceSeconds := 300
  canSign_eq := rfl

def loopConfiguration : RuntimeConfiguration where
  sources := [loopSource]
  intervalPerWorker := 10000000
  sources_ne := List.cons_ne_nil _ _

/-- Two workers, with a response, an error and a request that the token cancels. -/
def stoppedRun : List (LoopAction (Fin 2)) :=
  [.move 0 (.test 0 .valid), .move 1 (.test 0 .replay), .move 0 (.finish (.response 202)),
    .move 1 (.finish (.httpRequestException "HttpRequestException".toList)), .move 0 .elapsed,
    .move 0 (.test 0 .invalidPayload), .cancel, .move 0 (.finish .operationCanceledException)]

theorem survives_stoppedRun :
    Always (loopStep loopPlatform loopConfiguration) (Survives loopPlatform loopConfiguration 0)
      (Loops.start (Fin 2) {}) stoppedRun :=
  (survives_iff loopPlatform loopConfiguration {} stoppedRun _ rfl).mpr (by decide)

/-- One worker and a timeout. -/
def timeoutRun : List (LoopAction (Fin 1)) :=
  [.move 0 (.test 0 .valid), .move 0 (.finish .operationCanceledException)]

/-- The load test is over with an exception, and its token is not cancelled. -/
theorem not_survives_timeoutRun :
    (∃ c, run (loopStep loopPlatform loopConfiguration) (Loops.start (Fin 1) {}) timeoutRun = some c ∧
      c.shared.isCancellationRequested = false ∧ executeAsyncEnd c = some (true, "completed".toList)) ∧
    ¬ Always (loopStep loopPlatform loopConfiguration) (Survives loopPlatform loopConfiguration 0)
      (Loops.start (Fin 1) {}) timeoutRun := by
  refine ⟨⟨_, rfl, rfl, by decide⟩, ?_⟩
  intro h
  have hlast := h.last (rfl : run _ _ timeoutRun = some _)
  have hissues := hlast.issues rfl 0
  have hended := (issues_iff rfl fun hrunning => absurd hrunning (by decide)).mp hissues
  cases hended

end WebhookInbox.LoadTest
