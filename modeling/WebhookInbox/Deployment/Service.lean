import WebhookInbox.Deployment.Custody
import WebhookInbox.Worker.DeliveryLoop
import WebhookInbox.Worker.Quiescence

/-!
# The service with one worker

The inbox and the loop of one worker run on one database, and a pass of the worker is one step. A
pass that the token interrupts is not among the steps. The loop calls the next pass at once after a
pass that has processed something. It does not spin: every pass is followed by a wait, or has sent a
request (`paced_run`), whatever fails.
-/

namespace WebhookInbox.Deployment

open Api Worker

structure Service where
  inbox : Ingestion.State
  loop : DeliveryLoop
  worker : State
  /-- One events table. -/
  shared : inbox.events = worker.db.events

inductive ServiceAction where
  | inbox (a : Ingestion.Action)
  /-- A step of the loop that is not the end of a call. -/
  | loop (a : LoopAction)
  | pass (endpoints : List Endpoint)
  | saveEndpoint (ep : Endpoint)

def ServiceAction.isPass : ServiceAction → Bool
  | .pass _ => true
  | _ => false

def ServiceAction.isWait : ServiceAction → Bool
  | .loop .elapsed => true
  | _ => false

/-- What the loop makes of a pass. -/
def processResult : PassEnd → ProcessResult
  | .returned processed => .returned processed
  | .threw => .exception

/-- The worker with other events in the database. -/
def workerWith (worker : State) (events : Table Event Guid Event.id) : State :=
  { worker with db := { worker.db with events } }

theorem events_workerWith (worker : State) (events : Table Event Guid Event.id) :
    (workerWith worker events).db.events = events := rfl

theorem events_start (events : Table Event Guid Event.id) (endpoints : Table Endpoint Guid Endpoint.id) :
    (State.start events endpoints).db.events = events := rfl

namespace Service

def start (endpoints : Table Endpoint Guid Endpoint.id) : Service where
  inbox := {}
  loop := {}
  worker := .start ∅ endpoints
  shared := (events_start ∅ endpoints).symm

def withInbox (s : Service) (inbox : Ingestion.State) : Service where
  inbox := inbox
  loop := s.loop
  worker := workerWith s.worker inbox.events
  shared := (events_workerWith s.worker inbox.events).symm

def withWorker (s : Service) (worker : State) : Service where
  inbox := { s.inbox with events := worker.db.events }
  loop := s.loop
  worker := worker
  shared := rfl

variable (srv : Server) (w : World) (opts : DeliveryOptions) (poll : Int)

def step (s : Service) : ServiceAction → Option Service
  | .inbox a => (Ingestion.step srv s.inbox a).map s.withInbox
  | .loop a => if a.isFinish then none else (loopStep poll s.loop a).map fun loop => { s with loop }
  | .pass endpoints =>
    (loopStep poll s.loop (.finish (processResult (processOnceAsync w opts endpoints s.worker).1))).bind
      fun loop => (Worker.step w opts s.worker (.pass endpoints)).map fun worker =>
        { s.withWorker worker with loop }
  | .saveEndpoint ep => (Worker.step w opts s.worker (.saveEndpoint ep)).map s.withWorker

/-- The service after a pass. -/
def afterPass (s : Service) (result : PassEnd × State) : Service where
  inbox := { s.inbox with events := result.2.db.events }
  loop.phase := finishProcess poll s.loop.isCancellationRequested (processResult result.1)
  loop.isCancellationRequested := s.loop.isCancellationRequested
  worker := result.2
  shared := rfl

end Service

section Step

variable {srv : Server} {w : World} {opts : DeliveryOptions} {poll : Int} {s s' : Service}

theorem loop_of_step {a : LoopAction} (h : s.step srv w opts poll (.loop a) = some s') :
    a.isFinish = false ∧ ∃ loop, loopStep poll s.loop a = some loop ∧ s' = { s with loop } := by
  simp only [Service.step] at h
  split at h
  · cases h
  · rename_i hfinish
    obtain ⟨loop, hloop, rfl⟩ := Option.map_eq_some_iff.mp h
    exact ⟨by simpa using hfinish, loop, hloop, rfl⟩

theorem pass_of_step {endpoints : List Endpoint} (h : s.step srv w opts poll (.pass endpoints) = some s') :
    endpoints.Perm (activeEndpoints s.worker.db) ∧ s.loop.phase = .processing ∧
      s' = s.afterPass poll (processOnceAsync w opts endpoints s.worker) := by
  obtain ⟨loop, hloop, hmap⟩ := Option.bind_eq_some_iff.mp h
  obtain ⟨worker, hworker, rfl⟩ := Option.map_eq_some_iff.mp hmap
  obtain ⟨hperm, rfl⟩ := step_pass_eq_some_iff.mp hworker
  obtain ⟨hphase, rfl⟩ := loopStep_finish hloop
  exact ⟨hperm, hphase, rfl⟩

/-! ## The pace of the loop -/

/-- The loop waits, or will never wait again. -/
def pause : DeliveryPhase → Nat
  | .delaying _ | .ended _ => 1
  | .testing | .processing => 0

theorem pause_startDelay (caught : Bool) : pause (startDelay poll false caught) = 1 := by
  unfold startDelay
  split <;> rfl

variable (poll) in
/-- A pass leads to a wait, or it has processed something. -/
theorem pause_finishProcess (e : PassEnd) :
    pause (finishProcess poll false (processResult e)) = 1 ∨ ∃ m, 0 < m ∧ e = .returned m := by
  cases e with
  | returned m =>
    cases m with
    | zero => exact Or.inl (pause_startDelay false)
    | succ m => exact Or.inr ⟨m + 1, Nat.succ_pos m, rfl⟩
  | threw => exact Or.inl (pause_startDelay true)

theorem paced_step {a : ServiceAction} (hstep : s.step srv w opts poll a = some s')
    (htoken : s'.loop.isCancellationRequested = false) : s.loop.isCancellationRequested = false ∧
      (if a.isPass then 1 else 0) + s.worker.answers + pause s.loop.phase ≤
        (if a.isWait then 1 else 0) + s'.worker.answers + pause s'.loop.phase := by
  cases a with
  | inbox c =>
    obtain ⟨inbox, -, rfl⟩ := Option.map_eq_some_iff.mp hstep
    exact ⟨htoken, le_rfl⟩
  | saveEndpoint ep =>
    cases hstep
    exact ⟨htoken, le_rfl⟩
  | loop c =>
    obtain ⟨hfinish, loop, hloop, rfl⟩ := loop_of_step hstep
    cases c with
    | cancel =>
      cases hloop
      cases htoken
    | test =>
      obtain ⟨hphase, rfl⟩ := loopStep_test hloop
      dsimp only at htoken ⊢
      rw [htoken, hphase]
      exact ⟨rfl, le_rfl⟩
    | finish result => cases hfinish
    | elapsed =>
      obtain ⟨⟨caught, hphase⟩, rfl⟩ := loopStep_elapsed hloop
      dsimp only at htoken ⊢
      rw [hphase]
      refine ⟨htoken, ?_⟩
      simp [ServiceAction.isPass, ServiceAction.isWait, pause]
    | interrupted =>
      obtain ⟨hcancelled, caught, -, rfl⟩ := loopStep_interrupted hloop
      rw [hcancelled] at htoken
      cases htoken
  | pass endpoints =>
    obtain ⟨-, hphase, rfl⟩ := pass_of_step hstep
    dsimp only [Service.afterPass] at htoken ⊢
    refine ⟨htoken, ?_⟩
    rw [htoken, hphase]
    have hmono := answers_pass w opts endpoints s.worker
    rcases pause_finishProcess poll (processOnceAsync w opts endpoints s.worker).1 with
      hpause | ⟨m, hm, hend⟩
    · rw [hpause]
      simp [ServiceAction.isPass, ServiceAction.isWait, pause]
      omega
    · have hanswered := answers_of_returned hm hend
      simp [ServiceAction.isPass, ServiceAction.isWait, pause]
      omega

end Step

/-- **The loop does not spin.** As long as its token is not cancelled, every pass but the last one is
followed by a wait of the poll interval, or it has sent a request and read the answer, whatever
fails. -/
theorem paced_run (srv : Server) (w : World) (opts : DeliveryOptions) (poll : Int)
    (endpoints : Table Endpoint Guid Endpoint.id) (actions : List ServiceAction) {s' : Service}
    (hrun : Transition.run (Service.step srv w opts poll) (.start endpoints) actions = some s')
    (htoken : s'.loop.isCancellationRequested = false) :
    actions.countP ServiceAction.isPass ≤
      actions.countP ServiceAction.isWait + s'.worker.answers + 1 := by
  have hpaced : ∀ s, Transition.run (Service.step srv w opts poll) s actions = some s' →
      s.loop.isCancellationRequested = false ∧
        actions.countP ServiceAction.isPass + s.worker.answers + pause s.loop.phase ≤
          actions.countP ServiceAction.isWait + s'.worker.answers + pause s'.loop.phase := by
    clear hrun
    induction actions with
    | nil =>
      intro s hrun
      cases hrun
      exact ⟨htoken, le_rfl⟩
    | cons a actions ih =>
      intro s hrun
      obtain ⟨s₁, hstep, hrest⟩ := Transition.run_cons.mp hrun
      obtain ⟨htoken₁, hlater⟩ := ih s₁ hrest
      obtain ⟨htoken₀, hfirst⟩ := paced_step hstep htoken₁
      refine ⟨htoken₀, ?_⟩
      rw [List.countP_cons, List.countP_cons]
      omega
  have hle := (hpaced _ hrun).2
  have hpause : pause s'.loop.phase ≤ 1 := by
    cases s'.loop.phase <;> simp [pause]
  have hstart : (Service.start endpoints).worker.answers = 0 := rfl
  rw [hstart] at hle
  omega

/-- A request is stored and delivered, and a pass without work is waited out. -/
def pacedActions : List ServiceAction :=
  [.inbox (.post ⟨0, 0, 0⟩ 7 unsignedRequest), .inbox (.save 7 (.committed true)), .loop .test,
    .pass [workingEndpoint], .loop .test, .pass [workingEndpoint], .loop .elapsed, .loop .test]

theorem pacedRun_isSome : (Transition.run (Service.step openServer splitWorld {} 5)
    (.start (.single workingEndpoint)) pacedActions).isSome := by
  decide

theorem paced_run_delivered :
    pacedActions.countP ServiceAction.isPass ≤ pacedActions.countP ServiceAction.isWait +
      ((Transition.run (Service.step openServer splitWorld {} 5) (.start (.single workingEndpoint))
        pacedActions).get pacedRun_isSome).worker.answers + 1 :=
  paced_run openServer splitWorld {} 5 (.single workingEndpoint) pacedActions
    (Option.some_get pacedRun_isSome).symm rfl

end WebhookInbox.Deployment
