import WebhookInbox.Worker.Cap

/-!
# The delay between two tries

The deadline of a failed try is written in the pass that fails and compared in a later
one, each time with a clock value of its own: the try is sent at one read, its deadline is
counted from the next read, the due check of the following try makes a third one, and that
try is sent at a fourth. With a clock that never goes back these four are in order, so the
delay of the list lies between the two tries (`Delivered.respectsBackoff`).
-/

namespace WebhookInbox.Worker

/-- Two consecutive tries of a pair, the first of which has a delay in the list: the first
one failed, and the second was sent no earlier than the delay after it. -/
def RespectsBackoff (opts : DeliveryOptions) (db : Database) : Prop :=
  ∀ k : Nat, 1 ≤ k → ∀ delay, opts.backoffSeconds[k - 1]? = some delay →
    ∀ a ∈ db.attempts.rows, ∀ b ∈ db.attempts.rows,
      a.eventId = b.eventId → a.endpointId = b.endpointId → a.tryNumber = k → b.tryNumber = k + 1 →
        a.success = false ∧ addSeconds a.sentAt delay ≤ b.sentAt

/-- A failed try with a delay in the list has a deadline that keeps the delay. -/
def Scheduled (opts : DeliveryOptions) (a : DeliveryAttempt) : Prop :=
  a.success = false → ∀ k : Nat, 1 ≤ k → a.tryNumber = k →
    ∀ delay, opts.backoffSeconds[k - 1]? = some delay →
      ∃ deadline, a.nextAttemptAt = some deadline ∧ addSeconds a.sentAt delay ≤ deadline

structure KeepsBackoff (opts : DeliveryOptions) (db : Database) : Prop where
  respects : RespectsBackoff opts db
  scheduled : ∀ a ∈ db.attempts.rows, Scheduled opts a

theorem backoffDeadline_eq {opts : DeliveryOptions} {k : Nat} {delay : Int} (hk : 1 ≤ k)
    (hdelay : opts.backoffSeconds[k - 1]? = some delay) (now : Time) :
    backoffDeadline opts k now = some (addSeconds now delay) := by
  obtain ⟨hlt, hget⟩ := List.getElem?_eq_some_iff.mp hdelay
  have hindex : ((k : Int) - 1).toNat = k - 1 := by omega
  unfold backoffDeadline
  rw [if_neg (by omega), hindex, List.getD_eq_getElem?_getD, hdelay]
  rfl

theorem addSeconds_le {t t' : Time} (h : t ≤ t') (seconds : Int) :
    addSeconds t seconds ≤ addSeconds t' seconds :=
  Int.add_le_add_right h _

/-- The deadline is counted from a later read of the clock than the one the row is sent at. -/
theorem scheduled_attemptRow {w : World} (hclock : w.ClockAdvances) (opts : DeliveryOptions)
    (e ep : Guid) (n : Int) (outcome : HttpOutcome) (id : Guid) (r : Nat) :
    Scheduled opts (attemptRow opts e ep n outcome id (w.clock r) (w.clock (r + 1))) := by
  intro hfailed k hk htry delay hdelay
  change outcome.succeeded = false at hfailed
  change n = k at htry
  refine ⟨addSeconds (w.clock (r + 1)) delay, ?_, addSeconds_le (hclock r (r + 1) (by omega)) delay⟩
  show (if outcome.succeeded then none else backoffDeadline opts n (w.clock (r + 1))) = _
  rw [hfailed, htry, if_neg Bool.false_ne_true]
  exact backoffDeadline_eq hk hdelay _

/-- The deadline of the newest attempt has passed when its pair is due. -/
theorem deadline_le_of_isDue {db : Database} {e ep : Guid} {now : Time} (h : isDue db e ep now = true)
    {last : DeliveryAttempt} (hlast : lastAttempt db e ep = some last) :
    last.success = false ∧ ∀ deadline, last.nextAttemptAt = some deadline → deadline ≤ now := by
  rw [isDue, hlast, Option.all_some, Bool.and_eq_true] at h
  refine ⟨by simpa using h.1, fun deadline hd => ?_⟩
  have hall := h.2
  rw [hd] at hall
  simpa using hall

section Visit

variable {w : World} {opts : DeliveryOptions} {s s' : State} {e ep : Guid}

/-- **One delivery** keeps the delay to the try before it. -/
theorem Delivered.keepsBackoff (hclock : w.ClockAdvances) (h : Delivered w opts e ep s s')
    (hdue : isDue s.db e ep (w.clock s.reads) = true) (hkept : KeepsBackoff opts s.db) :
    KeepsBackoff opts s'.db := by
  obtain ⟨r, hr, hrows⟩ := h.row
  generalize hrow : attemptRow opts e ep _ _ _ _ _ = row at hrows
  have hsched : Scheduled opts row := hrow ▸ scheduled_attemptRow hclock opts e ep _ _ _ r
  have hevent : row.eventId = e := by rw [← hrow]; rfl
  have hendpoint : row.endpointId = ep := by rw [← hrow]; rfl
  have htry : row.tryNumber = nextTryNumber s.db e ep := by rw [← hrow]; rfl
  have hsent : row.sentAt = w.clock r := by rw [← hrow]; rfl
  refine ⟨?_, ?_⟩
  · intro k hk delay hdelay a ha b hb hae hap hatry hbtry
    rw [hrows, List.mem_append, List.mem_singleton] at ha hb
    rcases ha with ha | rfl
    · rcases hb with hb | rfl
      · exact hkept.respects k hk delay hdelay a ha b hb hae hap hatry hbtry
      · -- the new row is the second try, so the first one is the newest before the visit
        have hmem : a ∈ pairRows s.db e ep :=
          mem_pairRows.mpr ⟨ha, hae.trans hevent, hap.trans hendpoint⟩
        have hnewest : lastAttempt s.db e ep = some a := by
          apply lastAttempt_eq_some_iff.mpr
          refine ⟨hmem, fun c hc => ?_⟩
          have := nextTry_fresh hc
          omega
        obtain ⟨hfailed, hpassed⟩ := deadline_le_of_isDue hdue hnewest
        obtain ⟨deadline, hd, hle⟩ := hkept.scheduled a ha hfailed k hk hatry delay hdelay
        refine ⟨hfailed, Int.le_trans hle ?_⟩
        rw [hsent]
        exact Int.le_trans (hpassed deadline hd) (hclock _ _ hr)
    · rcases hb with hb | rfl
      · have := nextTry_fresh (mem_pairRows.mpr ⟨hb, hae.symm.trans hevent, hap.symm.trans hendpoint⟩)
        omega
      · omega
  · intro a ha
    rw [hrows, List.mem_append, List.mem_singleton] at ha
    rcases ha with ha | rfl
    · exact hkept.scheduled a ha
    · exact hsched

theorem keepsBackoff_deliver (hw : w.Healthy) (hclock : w.ClockAdvances) (s : State)
    (v : Event × Endpoint) (h : s.ctx.Clean ∧ KeepsBackoff opts s.db) :
    (deliver w opts s v).ctx.Clean ∧ KeepsBackoff opts (deliver w opts s v).db := by
  refine ⟨deliver_clean hw h.1, ?_⟩
  cases hdue : dueAt w s v with
  | false =>
    rw [(deliver_not_due hdue).1]
    exact h.2
  | true => exact (deliver_due opts hw h.1 hdue).keepsBackoff hclock hdue h.2

end Visit

theorem KeepsBackoff.congr {opts : DeliveryOptions} {db db' : Database} (h : KeepsBackoff opts db)
    (hattempts : db'.attempts = db.attempts) : KeepsBackoff opts db' := by
  refine ⟨?_, ?_⟩
  · rw [RespectsBackoff, hattempts]
    exact h.respects
  · rw [hattempts]
    exact h.scheduled

theorem keepsBackoff_step {w : World} (hw : w.Healthy) (hclock : w.ClockAdvances)
    {opts : DeliveryOptions} {s s' : State} {a : Action}
    (h : s.ctx.Clean ∧ KeepsBackoff opts s.db) (hstep : step w opts s a = some s') :
    s'.ctx.Clean ∧ KeepsBackoff opts s'.db := by
  refine ⟨step_clean hw h.1 hstep, ?_⟩
  cases a with
  | pass endpoints =>
    obtain ⟨-, rfl⟩ := step_pass_eq_some_iff.mp hstep
    rw [(processOnceAsync_spec hw opts endpoints h.1).1]
    apply And.right
    apply FoldTrace.foldl_invariant (fun s v => keepsBackoff_deliver hw hclock s v)
    exact ⟨passStart_clean endpoints h.1, h.2⟩
  | insertEvent ev => exact h.2.congr (step_other (fun _ => Action.noConfusion) hstep).1
  | saveEndpoint ep => exact h.2.congr (step_other (fun _ => Action.noConfusion) hstep).1

/-- **Scheduled retries respect the backoff list** in every reachable state. -/
theorem respectsBackoff_run {w : World} (hw : w.Healthy) (hclock : w.ClockAdvances)
    (opts : DeliveryOptions) (events : Table Event Guid Event.id)
    (endpoints : Table Endpoint Guid Endpoint.id) (actions : List Action) {s' : State}
    (hrun : Transition.run (step w opts) (.start events endpoints) actions = some s') :
    RespectsBackoff opts s'.db := by
  have hstart : (State.start events endpoints).ctx.Clean ∧
      KeepsBackoff opts (State.start events endpoints).db :=
    ⟨⟨rfl, rfl⟩, ⟨fun _ _ _ _ _ ha => (by cases ha), fun _ ha => by cases ha⟩⟩
  have hend := Transition.invariant (I := fun s => s.ctx.Clean ∧ KeepsBackoff opts s.db)
    (fun _ _ _ h hstep => keepsBackoff_step hw hclock h hstep) hstart hrun
  exact hend.2.respects

theorem respectsBackoff_run_staggered :
    RespectsBackoff twoTries ((Transition.run (step refusingWorld twoTries) staggeredStart
      staggeredActions).get staggeredRun_isSome).db :=
  respectsBackoff_run (fun _ => rfl) refusingWorld_clockAdvances twoTries _ _ staggeredActions
    (Option.some_get staggeredRun_isSome).symm

end WebhookInbox.Worker
