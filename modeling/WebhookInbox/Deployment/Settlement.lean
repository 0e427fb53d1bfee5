import WebhookInbox.Deployment.Service
import WebhookInbox.Worker.Drain

/-!
# Every answered request is settled

In an infinite run of the service the worker sees an infinite run of its own: a save of the inbox
inserts an event, and a step it does not see changes nothing (`exists_workerAction`). The loop goes on,
so passes go on (`exists_pass`). When finitely many requests are posted, the inbox comes to rest with
nothing in flight (`exists_forall_inFlight_eq_nil`), and the worker with no backlog. So every request
that was answered ends as an event that is dispatched or in the dead letters (`settles`).
-/

namespace WebhookInbox.Deployment

open Api Worker

/-- The loop or one of its passes takes a step. -/
def ServiceAction.IsTurn : ServiceAction → Prop
  | .loop a => a ≠ .cancel
  | .pass _ => True
  | _ => False

namespace Service

/-- What the environment of an infinite run does: the loop gets its turn as long as it runs, and is not
cancelled; finitely many requests are posted, and every save ends in some way; the endpoints stay
active. -/
structure Fair (ids : List Guid) (states : Nat → Service) (actions : Nat → ServiceAction) : Prop where
  turns : (∀ i, (states i).loop.phase.isEnded = false) → ∀ n, ∃ i, n ≤ i ∧ (actions i).IsTurn
  notCancelled : ∀ i, actions i ≠ .loop .cancel
  posts : {i | ∃ times id req, actions i = .inbox (.post times id req)}.Finite
  saves : ∀ i, ∀ ev ∈ (states i).inbox.inFlight,
    ∃ j, i ≤ j ∧ ∃ result, actions j = .inbox (.save ev.id result)
  keepsActive : ∀ i ep, actions i = .saveEndpoint ep → ep.id ∈ ids ∧ ep.isActive = true

/-- The inbox keeps what it answers. -/
def Keeps (srv : Server) (s : Service) : ServiceAction → Prop
  | .inbox a => Ingestion.Keeps srv s.inbox a
  | _ => True

end Service

section Step

variable {srv : Server} {w : World} {opts : DeliveryOptions} {poll : Int} {s s' : Service}

/-- The worker is as it was after a step of the inbox that stores nothing. -/
theorem withInbox_worker {inbox : Ingestion.State} (h : inbox.events = s.inbox.events) :
    (s.withInbox inbox).worker = s.worker := by
  show { s.worker with db := { s.worker.db with events := inbox.events } } = s.worker
  rw [h, s.shared]

/-- A step of the inbox inserts an event, or the worker does not see it. -/
theorem worker_withInbox {a : Ingestion.Action} {inbox : Ingestion.State}
    (h : Ingestion.step srv s.inbox a = some inbox) :
    (s.withInbox inbox).worker = s.worker ∨
      ∃ ev, Worker.step w opts s.worker (.insertEvent ev) = some (s.withInbox inbox).worker := by
  cases Ingestion.step_cases h with
  | unanswered => exact Or.inl (withInbox_worker rfl)
  | duplicate => exact Or.inl (withInbox_worker rfl)
  | saving => exact Or.inl (withInbox_worker rfl)
  | failed => exact Or.inl (withInbox_worker rfl)
  | committed entity answered hmem events hrows =>
    refine Or.inr ⟨entity, ?_⟩
    have hinsert : s.worker.db.events.insertAll? [entity] = some events := by
      rw [← s.shared]
      exact Table.insertAll?_eq_some_iff.mpr hrows
    rw [Worker.step, hinsert]
    rfl

variable (w opts) in
/-- A step that the worker does not see is the save of an endpoint as it is. -/
theorem exists_stutter {ids : List Guid} (hsome : ids ≠ []) (h : Answerable ids s.worker) :
    ∃ ep, Worker.step w opts s.worker (.saveEndpoint ep) = some s.worker ∧
      KeepsActive ids (.saveEndpoint ep) := by
  obtain ⟨id, hid⟩ := List.exists_mem_of_ne_nil ids hsome
  rw [← h.stored] at hid
  obtain ⟨ep, hep, rfl⟩ := List.mem_map.mp hid
  refine ⟨ep, ?_, h.stored ▸ hid, h.active ep hep⟩
  rw [Worker.step, Table.upsert_self _ hep]

/-- **What the worker sees of a step.** -/
theorem exists_workerAction {ids : List Guid} (hsome : ids ≠ []) (h : Answerable ids s.worker)
    {a : ServiceAction} (hkeeps : ∀ ep, a = .saveEndpoint ep → ep.id ∈ ids ∧ ep.isActive = true)
    (hstep : s.step srv w opts poll a = some s') :
    ∃ b, Worker.step w opts s.worker b = some s'.worker ∧ KeepsActive ids b ∧
      ((∃ endpoints, a = .pass endpoints) → IsPass b) ∧
      ((∃ ev, b = .insertEvent ev) → ∃ c, a = .inbox c) := by
  obtain ⟨ep, hstutter, hactive⟩ := exists_stutter w opts hsome h
  cases a with
  | inbox c =>
    obtain ⟨inbox, hinbox, rfl⟩ := Option.map_eq_some_iff.mp hstep
    rcases worker_withInbox hinbox with hsame | ⟨ev, hinsert⟩
    · rw [hsame]
      exact ⟨_, hstutter, hactive, fun ⟨_, hpass⟩ => (by cases hpass), fun _ => ⟨c, rfl⟩⟩
    · exact ⟨_, hinsert, trivial, fun ⟨_, hpass⟩ => (by cases hpass), fun _ => ⟨c, rfl⟩⟩
  | loop c =>
    obtain ⟨-, loop, -, rfl⟩ := loop_of_step hstep
    exact ⟨_, hstutter, hactive, fun ⟨_, hpass⟩ => (by cases hpass),
      fun ⟨_, hinsert⟩ => (by cases hinsert)⟩
  | pass endpoints =>
    obtain ⟨hperm, -, rfl⟩ := pass_of_step hstep
    exact ⟨.pass endpoints, step_pass_eq_some_iff.mpr ⟨hperm, rfl⟩, trivial,
      fun _ => ⟨endpoints, rfl⟩, fun ⟨_, hinsert⟩ => (by cases hinsert)⟩
  | saveEndpoint ep =>
    cases hstep
    exact ⟨.saveEndpoint ep, rfl, hkeeps ep rfl, fun ⟨_, hpass⟩ => (by cases hpass),
      fun ⟨_, hinsert⟩ => (by cases hinsert)⟩

theorem inFlight_of_worker {a : ServiceAction} (ha : ∀ c, a ≠ .inbox c)
    (hstep : s.step srv w opts poll a = some s') : s'.inbox.inFlight = s.inbox.inFlight := by
  cases a with
  | inbox c => exact absurd rfl (ha c)
  | loop c =>
    obtain ⟨-, loop, -, rfl⟩ := loop_of_step hstep
    rfl
  | pass endpoints =>
    obtain ⟨-, -, rfl⟩ := pass_of_step hstep
    rfl
  | saveEndpoint ep =>
    cases hstep
    rfl

/-- A save takes one row out of the flight. -/
theorem inFlight_of_save {id : Guid} {result : Ingestion.SaveResult}
    (hstep : s.step srv w opts poll (.inbox (.save id result)) = some s') :
    s'.inbox.inFlight.length < s.inbox.inFlight.length := by
  obtain ⟨inbox, hinbox, rfl⟩ := Option.map_eq_some_iff.mp hstep
  have hfilter : ∀ entity ∈ s.inbox.inFlight,
      (s.inbox.inFlight.filter fun e => e.id ≠ entity.id).length < s.inbox.inFlight.length := by
    intro entity hmem
    apply List.length_filter_lt_length_iff_exists.mpr
    exact ⟨entity, hmem, by simp⟩
  cases Ingestion.step_save_cases hinbox with
  | failed entity hmem => exact hfilter entity hmem
  | committed entity answered hmem => exact hfilter entity hmem

theorem inv_step_service {a : ServiceAction} (hw : w.Healthy) (hctx : s.worker.ctx.Clean)
    (h : Ingestion.Inv s.inbox) (hkeeps : Service.Keeps srv s a)
    (hstep : s.step srv w opts poll a = some s') : Ingestion.Inv s'.inbox := by
  cases a with
  | inbox c =>
    obtain ⟨inbox, hinbox, rfl⟩ := Option.map_eq_some_iff.mp hstep
    exact Ingestion.inv_step h hkeeps hinbox
  | loop c =>
    obtain ⟨-, loop, -, rfl⟩ := loop_of_step hstep
    exact h
  | pass endpoints =>
    obtain ⟨-, -, rfl⟩ := pass_of_step hstep
    apply inv_withEvents h
    rw [s.shared]
    exact ids_pass hw hctx
  | saveEndpoint ep =>
    cases hstep
    exact inv_withEvents h (by rw [s.shared])

/-- The loop runs, and its token is not cancelled. -/
structure Running (s : Service) : Prop where
  token : s.loop.isCancellationRequested = false
  phase : s.loop.phase.isEnded = false

theorem running_step (hrange : delayInRange poll = true) {a : ServiceAction} (ha : a ≠ .loop .cancel)
    (h : Running s) (hstep : s.step srv w opts poll a = some s') : Running s' := by
  cases a with
  | inbox c =>
    obtain ⟨inbox, -, rfl⟩ := Option.map_eq_some_iff.mp hstep
    exact ⟨h.token, h.phase⟩
  | loop c =>
    obtain ⟨-, loop, hloop, rfl⟩ := loop_of_step hstep
    have htoken : loop.isCancellationRequested = false := by
      rw [token_loopStep (fun hc => ha (by rw [hc])) hloop]
      exact h.token
    exact ⟨htoken, stopsByToken_step hrange hloop htoken⟩
  | pass endpoints =>
    obtain ⟨-, -, rfl⟩ := pass_of_step hstep
    refine ⟨h.token, ?_⟩
    dsimp only [Service.afterPass]
    rw [h.token]
    exact isEnded_finishProcess hrange _
  | saveEndpoint ep =>
    cases hstep
    exact ⟨h.token, h.phase⟩

/-- A step that is no pass brings the loop no farther from its next pass, and a turn brings it nearer. -/
theorem stepsLeft_service {a : ServiceAction} (ha : a ≠ .loop .cancel)
    (hpass : ∀ endpoints, a ≠ .pass endpoints) (h : Running s) (hstep : s.step srv w opts poll a = some s') :
    s'.loop.phase.stepsLeft ≤ s.loop.phase.stepsLeft ∧
      (a.IsTurn → s'.loop.phase.stepsLeft < s.loop.phase.stepsLeft) := by
  cases a with
  | inbox c =>
    obtain ⟨inbox, -, rfl⟩ := Option.map_eq_some_iff.mp hstep
    exact ⟨le_rfl, fun hturn => hturn.elim⟩
  | loop c =>
    obtain ⟨hfinish, loop, hloop, rfl⟩ := loop_of_step hstep
    have hlt := stepsLeft_step h.token (fun hc => ha (by rw [hc])) hfinish hloop
    exact ⟨hlt.le, fun _ => hlt⟩
  | pass endpoints => exact absurd rfl (hpass endpoints)
  | saveEndpoint ep =>
    cases hstep
    exact ⟨le_rfl, fun hturn => hturn.elim⟩

end Step

/-! ## Infinite runs -/

section Run

variable {srv : Server} {w : World} {opts : DeliveryOptions} {poll : Int} {states : Nat → Service}
variable {actions : Nat → ServiceAction} {ids : List Guid}
variable (hrun : Transition.Endless (Service.step srv w opts poll) states actions)
variable (hfair : Service.Fair ids states actions)
include hrun hfair

/-- The worker's own run. -/
theorem exists_workerRun (hw : w.Healthy) (hsome : ids ≠ []) (hstart : Answerable ids (states 0).worker) :
    ∃ workerActions : Nat → Action,
      Transition.Endless (Worker.step w opts) (fun i => (states i).worker) workerActions ∧
        (∀ i, KeepsActive ids (workerActions i)) ∧
        (∀ i, (∃ endpoints, actions i = .pass endpoints) → IsPass (workerActions i)) ∧
        ∀ i, (∃ ev, workerActions i = .insertEvent ev) → ∃ c, actions i = .inbox c := by
  have hanswerable : ∀ i, Answerable ids (states i).worker := by
    intro i
    induction i with
    | zero => exact hstart
    | succ i ih =>
      obtain ⟨b, hb, hactive, -⟩ := exists_workerAction hsome ih (hfair.keepsActive i) (hrun i)
      exact answerable_step hw hsome ih hactive hb
  choose b hb hactive hpass hinsert using fun i =>
    exists_workerAction hsome (hanswerable i) (hfair.keepsActive i) (hrun i)
  exact ⟨b, hb, hactive, hpass, hinsert⟩

omit hfair in
/-- After the last request only saves change what is in flight. -/
theorem inFlight_le {n : Nat}
    (hn : ∀ i, n ≤ i → ¬ ∃ times id req, actions i = .inbox (.post times id req)) {i : Nat} (hi : n ≤ i) :
    (states (i + 1)).inbox.inFlight.length ≤ (states i).inbox.inFlight.length := by
  have hstep := hrun i
  cases haction : actions i with
  | inbox c =>
    cases c with
    | post times id req => exact absurd ⟨times, id, req, haction⟩ (hn i hi)
    | save id result =>
      rw [haction] at hstep
      exact (inFlight_of_save hstep).le
  | _ =>
    rw [haction] at hstep
    rw [inFlight_of_worker (fun _ hc => by cases hc) hstep]

theorem finite_inboxSteps : {i | ∃ c, actions i = .inbox c}.Finite := by
  obtain ⟨n, hn⟩ := Transition.exists_forall_not_of_finite hfair.posts
  have hsaves : {i | n ≤ i ∧ ∃ id result, actions i = .inbox (.save id result)}.Finite := by
    apply Transition.finite_of_lowers (fun i => (states i).inbox.inFlight.length) n
      (fun i hi => inFlight_le hrun hn hi)
    rintro i - ⟨-, id, result, haction⟩
    have hstep := hrun i
    rw [haction] at hstep
    exact inFlight_of_save hstep
  refine ((Set.finite_lt_nat n).union hsaves).subset ?_
  rintro i ⟨c, hc⟩
  rcases Nat.lt_or_ge i n with hlt | hge
  · exact Or.inl hlt
  · refine Or.inr ⟨hge, ?_⟩
    cases c with
    | post times id req => exact absurd ⟨times, id, req, hc⟩ (hn i hge)
    | save id result => exact ⟨id, result, hc⟩

/-- **Passes go on.** -/
theorem exists_pass (hrange : delayInRange poll = true) (hstart : Running (states 0)) (n : Nat) :
    ∃ i, n ≤ i ∧ ∃ endpoints, actions i = .pass endpoints := by
  have hrunning := hrun.invariant (fun _ a => a ≠ .loop .cancel) hfair.notCancelled
    (fun _ _ _ h ha hstep => running_step hrange ha h hstep) hstart
  by_contra hnone
  have hpass : ∀ i, n ≤ i → ∀ endpoints, actions i ≠ .pass endpoints :=
    fun i hi endpoints haction => hnone ⟨i, hi, endpoints, haction⟩
  have hturns : {i | (actions i).IsTurn}.Finite := by
    apply Transition.finite_of_lowers (fun i => (states i).loop.phase.stepsLeft) n
    · exact fun i hi => (stepsLeft_service (hfair.notCancelled i) (hpass i hi) (hrunning i) (hrun i)).1
    · exact fun i hi => (stepsLeft_service (hfair.notCancelled i) (hpass i hi) (hrunning i) (hrun i)).2
  obtain ⟨m, hm⟩ := Transition.exists_forall_not_of_finite hturns
  obtain ⟨i, hi, hturn⟩ := hfair.turns (fun i => (hrunning i).phase) m
  exact hm i hi hturn

/-- **The inbox comes to rest.** -/
theorem exists_forall_inFlight_eq_nil : ∃ n, ∀ i, n ≤ i → (states i).inbox.inFlight = [] := by
  obtain ⟨n, hn⟩ := Transition.exists_forall_not_of_finite (finite_inboxSteps hrun hfair)
  refine ⟨n, fun i hi => List.eq_nil_iff_forall_not_mem.mpr fun ev hev => ?_⟩
  obtain ⟨j, hj, result, haction⟩ := hfair.saves i ev hev
  exact hn j (hi.trans hj) ⟨_, haction⟩

end Run

/-- The answered request is stored, and its event is dispatched or in the dead letters. -/
def Settled (s : Service) (id : Guid) : Prop :=
  ∃ ev ∈ s.worker.db.events.rows, ev.id = id ∧ (ev.status = .dispatched ∨ ev.status = .deadLetter)

/-- **Every answered request is settled.** Whatever the endpoints answer and whichever saves of the
inbox fail, as long as it keeps what it answers, from some moment on nothing is in flight and every
answered request is an event that is dispatched or in the dead letters. -/
theorem settles (srv : Server) {w : World} (hw : w.Healthy) (hclock : w.ClockAdvances)
    (hpasses : w.ClockPasses) (opts : DeliveryOptions) (hbatch : 1 ≤ opts.batchSize)
    (endpoints : Table Endpoint Guid Endpoint.id) (hsome : endpoints.rows ≠ [])
    (hactive : ∀ ep ∈ endpoints.rows, ep.isActive = true) (poll : Int)
    (hrange : delayInRange poll = true) (states : Nat → Service) (actions : Nat → ServiceAction)
    (hstart : states 0 = .start endpoints)
    (hrun : Transition.Endless (Service.step srv w opts poll) states actions)
    (hfair : Service.Fair (endpoints.rows.map Endpoint.id) states actions)
    (hkeeps : ∀ i, Service.Keeps srv (states i) (actions i)) :
    ∃ n, ∀ i, n ≤ i → (states i).inbox.inFlight = [] ∧
      ∀ id ∈ (states i).inbox.acknowledged, Settled (states i) id := by
  have hanswerable : Answerable (endpoints.rows.map Endpoint.id) (states 0).worker := by
    rw [hstart]
    exact answerable_start ∅ hsome hactive
  have hids : endpoints.rows.map Endpoint.id ≠ [] := by rwa [ne_eq, List.map_eq_nil_iff]
  obtain ⟨b, hworker, hkept, hpass, hinsert⟩ := exists_workerRun hrun hfair hw hids hanswerable
  have hworkerFair : Worker.Fair (endpoints.rows.map Endpoint.id) b := by
    refine ⟨fun n => ?_, (finite_inboxSteps hrun hfair).subset hinsert, hkept⟩
    have hrunning : Running (states 0) := by
      rw [hstart]
      exact ⟨rfl, rfl⟩
    obtain ⟨i, hi, hendpoints⟩ := exists_pass hrun hfair hrange hrunning n
    exact ⟨i, hi, hpass i hendpoints⟩
  have hclean : ∀ i, (states i).worker.ctx.Clean := fun i =>
    (answerable_run hworker hw hids hanswerable hkept i).clean
  have hinv : ∀ i, Ingestion.Inv (states i).inbox := by
    intro i
    induction i with
    | zero =>
      rw [hstart]
      exact Ingestion.inv_start
    | succ i ih => exact inv_step_service hw (hclean i) ih (hkeeps i) (hrun i)
  obtain ⟨n, hn⟩ := exists_forall_inFlight_eq_nil hrun hfair
  obtain ⟨m, hm⟩ :=
    exists_forall_not_backlog hw hclock hpasses hbatch hids hanswerable hworker hworkerFair
  refine ⟨max n m, fun i hi => ?_⟩
  have hquiet := hn i (le_of_max_le_left hi)
  refine ⟨hquiet, fun id hid => ?_⟩
  obtain ⟨ev, hev, heq⟩ := Ingestion.nothingLost_of_inv (hinv i) hquiet id hid
  rw [(states i).shared] at hev
  exact ⟨ev, hev, heq, closed_of_not_backlog (hm i (le_of_max_le_right hi)) ev hev⟩

/-- The turn of a loop over one endpoint. -/
def turn (s : Service) : ServiceAction :=
  match s.loop.phase with
  | .testing => .loop .test
  | .processing => .pass [olderEndpoint]
  | .delaying _ => .loop .elapsed
  | .ended _ => .saveEndpoint olderEndpoint

/-- A request is accepted and stored, and then the loop takes its turns. -/
def settledAction (s : Service) : Nat → ServiceAction
  | 0 => .inbox (.post ⟨0, 0, 0⟩ 7 unsignedRequest)
  | 1 => .inbox (.save 7 (.committed true))
  | _ + 2 => turn s

def settledStates : Nat → Service
  | 0 => .start (.single olderEndpoint)
  | i + 1 => ((settledStates i).step openServer refusingWorld twoTries 5
      (settledAction (settledStates i) i)).getD (settledStates i)

/-- Nothing is in flight, and the loop runs over its endpoint. -/
structure Ready (s : Service) : Prop extends Running s where
  clean : s.worker.ctx.Clean
  endpoints : s.worker.db.endpoints.rows = [olderEndpoint]
  quiet : s.inbox.inFlight = []

theorem isTurn_turn {s : Service} (h : Running s) : (turn s).IsTurn ∧ turn s ≠ .loop .cancel ∧
    (∀ c, turn s ≠ .inbox c) ∧ ∀ ep, turn s ≠ .saveEndpoint ep := by
  have hphase := h.phase
  unfold turn
  cases hloop : s.loop.phase with
  | ended =>
    rw [hloop] at hphase
    cases hphase
  | _ => simp [ServiceAction.IsTurn]

theorem exists_turn {s : Service} (h : Ready s) :
    ∃ s', s.step openServer refusingWorld twoTries 5 (turn s) = some s' := by
  have hphase := h.phase
  unfold turn
  cases hloop : s.loop.phase with
  | testing => simp [Service.step, loopStep, hloop, LoopAction.isFinish]
  | delaying => simp [Service.step, loopStep, hloop, LoopAction.isFinish]
  | processing =>
    have hperm : [olderEndpoint].Perm (activeEndpoints s.worker.db) := by
      rw [activeEndpoints, h.endpoints]
      exact List.Perm.refl _
    simp [Service.step, loopStep, hloop, Worker.step, hperm]
  | ended =>
    rw [hloop] at hphase
    cases hphase

theorem ready_turn {s s' : Service} (h : Ready s)
    (hstep : s.step openServer refusingWorld twoTries 5 (turn s) = some s') : Ready s' := by
  have hw : refusingWorld.Healthy := fun _ => rfl
  obtain ⟨-, hcancel, hinbox, hsave⟩ := isTurn_turn h.toRunning
  have hrunning := running_step (by decide) hcancel h.toRunning hstep
  have hquiet := (inFlight_of_worker hinbox hstep).trans h.quiet
  cases hturn : turn s with
  | inbox c => exact absurd hturn (hinbox c)
  | saveEndpoint ep => exact absurd hturn (hsave ep)
  | loop c =>
    rw [hturn] at hstep
    obtain ⟨-, loop, -, rfl⟩ := loop_of_step hstep
    exact ⟨hrunning, h.clean, h.endpoints, hquiet⟩
  | pass endpoints =>
    rw [hturn] at hstep
    obtain ⟨-, -, rfl⟩ := pass_of_step hstep
    refine ⟨hrunning, (processOnceAsync_spec hw _ _ h.clean).2, ?_, hquiet⟩
    exact (congrArg Table.rows (endpoints_pass hw h.clean)).trans h.endpoints

theorem settledStates_turn {i : Nat} (h : Ready (settledStates (i + 2))) :
    (settledStates (i + 2)).step openServer refusingWorld twoTries 5 (turn (settledStates (i + 2))) =
      some (settledStates (i + 3)) := by
  obtain ⟨s', hs'⟩ := exists_turn h
  have hnext : settledStates (i + 3) = ((settledStates (i + 2)).step openServer refusingWorld twoTries 5
      (turn (settledStates (i + 2)))).getD (settledStates (i + 2)) := rfl
  rw [hnext, hs', Option.getD_some]

theorem settledStates_ready (i : Nat) : Ready (settledStates (i + 2)) := by
  induction i with
  | zero => exact ⟨⟨rfl, rfl⟩, ⟨rfl, rfl⟩, rfl, rfl⟩
  | succ i ih => exact ready_turn ih (settledStates_turn ih)

theorem settledStates_endless : Transition.Endless (Service.step openServer refusingWorld twoTries 5)
    settledStates fun i => settledAction (settledStates i) i
  | 0 => rfl
  | 1 => rfl
  | i + 2 => settledStates_turn (settledStates_ready i)

theorem settledStates_fair :
    Service.Fair ((Table.single olderEndpoint : Table Endpoint Guid Endpoint.id).rows.map Endpoint.id)
      settledStates fun i => settledAction (settledStates i) i where
  turns _ n := ⟨n + 2, by omega, (isTurn_turn (settledStates_ready n).toRunning).1⟩
  notCancelled i := by
    match i with
    | 0 => exact ServiceAction.noConfusion
    | 1 => exact ServiceAction.noConfusion
    | i + 2 => exact (isTurn_turn (settledStates_ready i).toRunning).2.1
  posts := by
    refine (Set.finite_lt_nat 1).subset ?_
    rintro i ⟨times, id, req, haction⟩
    match i with
    | 0 => exact Nat.one_pos
    | 1 => cases haction
    | i + 2 => exact absurd haction ((isTurn_turn (settledStates_ready i).toRunning).2.2.1 _)
  saves i ev hev := by
    match i with
    | 0 => cases hev
    | 1 =>
      have hone : (settledStates 1).inbox.inFlight = [buildEvent openServer 0 7 unsignedRequest] := rfl
      rw [hone] at hev
      obtain rfl := List.mem_singleton.mp hev
      exact ⟨1, le_rfl, .committed true, rfl⟩
    | i + 2 =>
      rw [(settledStates_ready i).quiet] at hev
      cases hev
  keepsActive i ep haction := by
    match i with
    | 0 => cases haction
    | 1 => cases haction
    | i + 2 => exact absurd haction ((isTurn_turn (settledStates_ready i).toRunning).2.2.2 ep)

theorem settles_posted :
    ∃ n, ∀ i, n ≤ i → (settledStates i).inbox.inFlight = [] ∧
      ∀ id ∈ (settledStates i).inbox.acknowledged, Settled (settledStates i) id := by
  refine settles openServer (w := refusingWorld) (fun _ => rfl) refusingWorld_clockAdvances
    refusingWorld_clockPasses twoTries (by decide) (.single olderEndpoint) (List.cons_ne_nil _ _)
    (by decide) 5 (by decide) settledStates _ rfl settledStates_endless settledStates_fair
    fun i => ?_
  match i with
  | 0 => exact fun _ _ _ hlive => by cases hlive
  | 1 => trivial
  | i + 2 =>
    dsimp only [settledAction]
    cases hturn : turn (settledStates (i + 2)) with
    | inbox c => exact absurd hturn ((isTurn_turn (settledStates_ready i).toRunning).2.2.1 c)
    | _ => trivial

end WebhookInbox.Deployment
