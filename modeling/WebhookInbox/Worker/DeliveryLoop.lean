import WebhookInbox.Library.Transition

/-!
# The loop of the worker

`ExecuteAsync` calls `ProcessOnceAsync` again and again. An exception of a call is caught and waited
out, but the wait in the `catch` block is under no `try`: what it throws ends the loop.
`Task.Delay` throws when the token is cancelled, and for every interval out of its range.
So the loop comes to its next call, whatever the calls come to, exactly when the poll interval is in
that range (`executeAsync_goesOn`).
-/

namespace WebhookInbox.Worker

/-- What `Task.Delay` takes, for whole seconds. -/
def delayInRange (seconds : Int) : Bool := decide (0 ≤ seconds ∧ seconds * 1000 ≤ 4294967294)

/-- What a call of `ProcessOnceAsync` comes to. -/
inductive ProcessResult where
  | returned (count : Nat)
  | operationCanceledException
  | exception
  deriving DecidableEq, Repr

/-- Where the loop is: at its test, in the call, in a wait, or past its end, with or without an exception.
`caught` is the wait of the `catch` block. -/
inductive DeliveryPhase where
  | testing
  | processing
  | delaying (caught : Bool)
  | ended (threw : Bool)
  deriving DecidableEq, Repr

def DeliveryPhase.isEnded : DeliveryPhase → Bool
  | .ended _ => true
  | _ => false

structure DeliveryLoop where
  phase : DeliveryPhase := .testing
  isCancellationRequested : Bool := false
  deriving DecidableEq, Repr

/-- `interrupted` is a wait that the token has cancelled. -/
inductive LoopAction where
  | cancel
  | test
  | finish (result : ProcessResult)
  | elapsed
  | interrupted
  deriving DecidableEq, Repr

def LoopAction.isFinish : LoopAction → Bool
  | .finish _ => true
  | _ => false

/-- Where the `OperationCanceledException` of a wait leads. -/
def interruptDelay (caught : Bool) : DeliveryPhase := if caught then .ended true else .testing

/-- `await Task.Delay(poll, stoppingToken)`. Out of range it throws in both blocks, and what the one in the
`try` block throws leads to the other one. -/
def startDelay (poll : Int) (isCancellationRequested caught : Bool) : DeliveryPhase :=
  if !delayInRange poll then .ended true
  else if isCancellationRequested then interruptDelay caught
  else .delaying caught

/-- After the call. -/
def finishProcess (poll : Int) (isCancellationRequested : Bool) : ProcessResult → DeliveryPhase
  | .returned 0 => startDelay poll isCancellationRequested false
  | .returned (_ + 1) => .testing
  | .operationCanceledException =>
    if isCancellationRequested then .testing else startDelay poll isCancellationRequested true
  | .exception => startDelay poll isCancellationRequested true

def loopStep (poll : Int) (l : DeliveryLoop) : LoopAction → Option DeliveryLoop
  | .cancel => some { l with isCancellationRequested := true }
  | .test =>
    match l.phase with
    | .testing => some { l with phase := if l.isCancellationRequested then .ended false else .processing }
    | _ => none
  | .finish result =>
    match l.phase with
    | .processing => some { l with phase := finishProcess poll l.isCancellationRequested result }
    | _ => none
  | .elapsed =>
    match l.phase with
    | .delaying _ => some { l with phase := .testing }
    | _ => none
  | .interrupted =>
    match l.phase with
    | .delaying caught =>
      if l.isCancellationRequested then some { l with phase := interruptDelay caught } else none
    | _ => none

/-! ## One step -/

section Step

variable {poll : Int} {l l' : DeliveryLoop}

theorem loopStep_test (h : loopStep poll l .test = some l') : l.phase = .testing ∧
    l' = { l with phase := if l.isCancellationRequested then .ended false else .processing } := by
  simp only [loopStep] at h
  split at h
  · rename_i hphase
    cases h
    exact ⟨hphase, rfl⟩
  · cases h

theorem loopStep_finish {result : ProcessResult} (h : loopStep poll l (.finish result) = some l') :
    l.phase = .processing ∧
      l' = { l with phase := finishProcess poll l.isCancellationRequested result } := by
  simp only [loopStep] at h
  split at h
  · rename_i hphase
    cases h
    exact ⟨hphase, rfl⟩
  · cases h

theorem loopStep_elapsed (h : loopStep poll l .elapsed = some l') :
    (∃ caught, l.phase = .delaying caught) ∧ l' = { l with phase := .testing } := by
  simp only [loopStep] at h
  split at h
  · rename_i caught hphase
    cases h
    exact ⟨⟨caught, hphase⟩, rfl⟩
  · cases h

theorem loopStep_interrupted (h : loopStep poll l .interrupted = some l') :
    l.isCancellationRequested = true ∧
      ∃ caught, l.phase = .delaying caught ∧ l' = { l with phase := interruptDelay caught } := by
  simp only [loopStep] at h
  split at h
  · rename_i caught hphase
    split at h
    · rename_i htoken
      cases h
      exact ⟨htoken, caught, hphase, rfl⟩
    · cases h
  · cases h

theorem token_loopStep {a : LoopAction} (ha : a ≠ .cancel) (h : loopStep poll l a = some l') :
    l'.isCancellationRequested = l.isCancellationRequested := by
  cases a with
  | cancel => exact absurd rfl ha
  | test =>
    obtain ⟨-, rfl⟩ := loopStep_test h
    rfl
  | finish result =>
    obtain ⟨-, rfl⟩ := loopStep_finish h
    rfl
  | elapsed =>
    obtain ⟨-, rfl⟩ := loopStep_elapsed h
    rfl
  | interrupted =>
    obtain ⟨-, caught, -, rfl⟩ := loopStep_interrupted h
    rfl

/-- While the token is not cancelled and the interval is in range, a call never ends the loop. -/
theorem isEnded_finishProcess (hrange : delayInRange poll = true) (result : ProcessResult) :
    (finishProcess poll false result).isEnded = false := by
  have hdelay : ∀ caught, startDelay poll false caught = .delaying caught := by
    intro caught
    simp [startDelay, hrange]
  cases result with
  | returned count =>
    cases count with
    | zero => rw [finishProcess, hdelay]; rfl
    | succ count => rfl
  | operationCanceledException => simp [finishProcess, hdelay, DeliveryPhase.isEnded]
  | exception => rw [finishProcess, hdelay]; rfl

/-- The token has ended the loop. -/
def StopsByToken (l : DeliveryLoop) : Prop := l.isCancellationRequested = false → l.phase.isEnded = false

theorem stopsByToken_step (hrange : delayInRange poll = true) {a : LoopAction}
    (hstep : loopStep poll l a = some l') : StopsByToken l' := by
  cases a with
  | cancel =>
    cases hstep
    exact fun htoken => nomatch htoken
  | test =>
    obtain ⟨-, rfl⟩ := loopStep_test hstep
    intro htoken
    dsimp only at htoken
    simp [htoken, DeliveryPhase.isEnded]
  | finish result =>
    obtain ⟨-, rfl⟩ := loopStep_finish hstep
    intro htoken
    dsimp only at htoken
    rw [htoken]
    exact isEnded_finishProcess hrange result
  | elapsed =>
    obtain ⟨-, rfl⟩ := loopStep_elapsed hstep
    exact fun _ => rfl
  | interrupted =>
    obtain ⟨hcancelled, caught, -, rfl⟩ := loopStep_interrupted hstep
    intro htoken
    dsimp only at htoken
    rw [hcancelled] at htoken
    cases htoken

end Step

/-! ## The next call -/

/-- The loop comes to a call by its own steps, whichever it takes. -/
inductive CallsNext (poll : Int) : DeliveryLoop → Prop
  | processing {l : DeliveryLoop} (h : l.phase = .processing) : CallsNext poll l
  | step {l : DeliveryLoop} (hcan : ∃ a l', a ≠ .cancel ∧ loopStep poll l a = some l')
      (hall : ∀ a l', a ≠ .cancel → loopStep poll l a = some l' → CallsNext poll l') : CallsNext poll l

section CallsNext

variable {poll : Int} {l : DeliveryLoop}

theorem callsNext_of_testing (hphase : l.phase = .testing) (htoken : l.isCancellationRequested = false) :
    CallsNext poll l := by
  refine .step ⟨.test, { l with phase := .processing }, LoopAction.noConfusion, ?_⟩ ?_
  · simp [loopStep, hphase, htoken]
  · intro a l' ha hstep
    cases a with
    | cancel => exact absurd rfl ha
    | test =>
      obtain ⟨-, rfl⟩ := loopStep_test hstep
      apply CallsNext.processing
      simp [htoken]
    | finish result =>
      rw [(loopStep_finish hstep).1] at hphase
      cases hphase
    | elapsed =>
      obtain ⟨⟨caught, hdelaying⟩, -⟩ := loopStep_elapsed hstep
      rw [hdelaying] at hphase
      cases hphase
    | interrupted =>
      obtain ⟨-, caught, hdelaying, -⟩ := loopStep_interrupted hstep
      rw [hdelaying] at hphase
      cases hphase

theorem callsNext_of_delaying {caught : Bool} (hphase : l.phase = .delaying caught)
    (htoken : l.isCancellationRequested = false) : CallsNext poll l := by
  refine .step ⟨.elapsed, { l with phase := .testing }, LoopAction.noConfusion, ?_⟩ ?_
  · simp [loopStep, hphase]
  · intro a l' ha hstep
    cases a with
    | cancel => exact absurd rfl ha
    | test =>
      rw [(loopStep_test hstep).1] at hphase
      cases hphase
    | finish result =>
      rw [(loopStep_finish hstep).1] at hphase
      cases hphase
    | elapsed =>
      obtain ⟨-, rfl⟩ := loopStep_elapsed hstep
      exact callsNext_of_testing rfl htoken
    | interrupted =>
      obtain ⟨hcancelled, -⟩ := loopStep_interrupted hstep
      rw [htoken] at hcancelled
      cases hcancelled

theorem callsNext_iff (htoken : l.isCancellationRequested = false) :
    CallsNext poll l ↔ l.phase.isEnded = false := by
  constructor
  · intro h
    cases hphase : l.phase with
    | testing | processing | delaying => rfl
    | ended threw =>
      cases h with
      | processing hprocessing =>
        rw [hphase] at hprocessing
        cases hprocessing
      | step hcan _ =>
        obtain ⟨a, l', ha, hstep⟩ := hcan
        cases a with
        | cancel => exact absurd rfl ha
        | _ => simp [loopStep, hphase] at hstep
  · intro hended
    cases hphase : l.phase with
    | testing => exact callsNext_of_testing hphase htoken
    | processing => exact .processing hphase
    | delaying caught => exact callsNext_of_delaying hphase htoken
    | ended threw =>
      rw [hphase] at hended
      cases hended

end CallsNext

/-- The steps to the next call. -/
def DeliveryPhase.stepsLeft : DeliveryPhase → Nat
  | .delaying _ => 2
  | .testing => 1
  | .processing | .ended _ => 0

/-- A step of the loop that ends no call leads towards the next one. -/
theorem stepsLeft_step {poll : Int} {l l' : DeliveryLoop} {a : LoopAction}
    (htoken : l.isCancellationRequested = false) (hcancel : a ≠ .cancel) (hfinish : a.isFinish = false)
    (hstep : loopStep poll l a = some l') : l'.phase.stepsLeft < l.phase.stepsLeft := by
  cases a with
  | cancel => exact absurd rfl hcancel
  | test =>
    obtain ⟨hphase, rfl⟩ := loopStep_test hstep
    rw [hphase]
    simp [htoken, DeliveryPhase.stepsLeft]
  | finish result => cases hfinish
  | elapsed =>
    obtain ⟨⟨caught, hphase⟩, rfl⟩ := loopStep_elapsed hstep
    rw [hphase]
    exact Nat.one_lt_two
  | interrupted =>
    obtain ⟨hcancelled, -⟩ := loopStep_interrupted hstep
    rw [htoken] at hcancelled
    cases hcancelled

/-! ## Runs -/

section Run

variable {poll : Int} {l l' : DeliveryLoop} {actions : List LoopAction}

theorem stopsByToken_run (hrange : delayInRange poll = true)
    (hrun : Transition.run (loopStep poll) {} actions = some l') : StopsByToken l' :=
  Transition.invariant (I := StopsByToken) (fun _ _ _ _ hstep => stopsByToken_step hrange hstep)
    (fun _ => rfl) hrun

/-- The calls that a loop can still make once its token is cancelled. -/
def DeliveryPhase.callsLeft : DeliveryPhase → Nat
  | .processing => 1
  | _ => 0

theorem callsLeft_le (phase : DeliveryPhase) : phase.callsLeft ≤ 1 := by
  cases phase <;> simp [DeliveryPhase.callsLeft]

theorem callsLeft_interruptDelay (caught : Bool) : (interruptDelay caught).callsLeft = 0 := by
  cases caught <;> rfl

theorem callsLeft_finishProcess (cancelled : Bool) (result : ProcessResult) :
    (finishProcess poll cancelled result).callsLeft = 0 := by
  have hdelay : ∀ caught, (startDelay poll cancelled caught).callsLeft = 0 := by
    intro caught
    unfold startDelay
    split
    · rfl
    · split
      · exact callsLeft_interruptDelay caught
      · rfl
  cases result with
  | returned count =>
    cases count with
    | zero => exact hdelay false
    | succ count => rfl
  | operationCanceledException =>
    rw [finishProcess]
    split
    · rfl
    · exact hdelay true
  | exception => exact hdelay true

/-- With the token cancelled a step ends the call under way, or calls nothing. -/
theorem callsLeft_step {a : LoopAction} (htoken : l.isCancellationRequested = true)
    (hstep : loopStep poll l a = some l') : l'.isCancellationRequested = true ∧
      l'.phase.callsLeft + (if a.isFinish then 1 else 0) ≤ l.phase.callsLeft := by
  cases a with
  | cancel =>
    cases hstep
    exact ⟨rfl, Nat.le_refl _⟩
  | test =>
    obtain ⟨-, rfl⟩ := loopStep_test hstep
    simp [htoken, DeliveryPhase.callsLeft, LoopAction.isFinish]
  | finish result =>
    obtain ⟨hphase, rfl⟩ := loopStep_finish hstep
    refine ⟨htoken, ?_⟩
    dsimp only
    rw [callsLeft_finishProcess, hphase]
    exact Nat.le_refl _
  | elapsed =>
    obtain ⟨-, rfl⟩ := loopStep_elapsed hstep
    exact ⟨htoken, Nat.zero_le _⟩
  | interrupted =>
    obtain ⟨-, caught, -, rfl⟩ := loopStep_interrupted hstep
    refine ⟨htoken, ?_⟩
    dsimp only
    rw [callsLeft_interruptDelay]
    exact Nat.zero_le _

theorem countP_isFinish_le (htoken : l.isCancellationRequested = true)
    (hrun : Transition.run (loopStep poll) l actions = some l') :
    actions.countP LoopAction.isFinish ≤ l.phase.callsLeft := by
  induction actions generalizing l with
  | nil => exact Nat.zero_le _
  | cons a actions ih =>
    obtain ⟨l₁, hstep, hrest⟩ := Transition.run_cons.mp hrun
    obtain ⟨htoken₁, hle⟩ := callsLeft_step htoken hstep
    have hlater := ih htoken₁ hrest
    rw [List.countP_cons]
    omega

end Run

/-- **The loop goes on**, whatever the calls come to, exactly when the poll interval is in the range of
`Task.Delay`: with its token not cancelled it then always comes to its next call. Once the token is
cancelled, it ends at most the call under way. -/
theorem executeAsync_goesOn (poll : Int) :
    (delayInRange poll = true ↔
      ∀ actions l, Transition.run (loopStep poll) {} actions = some l →
        l.isCancellationRequested = false → CallsNext poll l) ∧
      ∀ l actions l', l.isCancellationRequested = true →
        Transition.run (loopStep poll) l actions = some l' → actions.countP LoopAction.isFinish ≤ 1 := by
  refine ⟨⟨fun hrange actions l hrun htoken => ?_, fun h => ?_⟩, fun l actions l' htoken hrun => ?_⟩
  · exact (callsNext_iff htoken).mpr (stopsByToken_run hrange hrun htoken)
  · -- out of the range, the first wait ends the loop
    by_contra hrange
    rw [Bool.not_eq_true] at hrange
    have hended : Transition.run (loopStep poll) {} [.test, .finish (.returned 0)] =
        some { phase := .ended true } := by
      simp [Transition.run, loopStep, finishProcess, startDelay, hrange]
    have hrunning := (callsNext_iff rfl).mp (h _ _ hended rfl)
    cases hrunning
  · exact Nat.le_trans (countP_isFinish_le htoken hrun) (callsLeft_le l.phase)

end WebhookInbox.Worker
