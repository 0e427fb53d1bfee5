import WebhookInbox.Worker.Pass

/-!
# Which failed deliveries stay in reach

The candidates query looks at the one `Status` of an event, while retries are counted per
(event, endpoint) pair. `NoneAbandoned` says that every event with a pair that failed and
still has tries left has a status the query selects.

Every due visit of a pass writes the status of its event, so the status after the pass is
that of the event's last due visit. `PassKeepsRetries` is the condition that this last
word does not close an event with a pair left to retry, and `noneAbandoned_pass_iff` says
that it is exactly what one pass needs.
-/

namespace WebhookInbox.Worker

/-- The newest attempt failed and the pair has tries left. -/
def retryable (opts : DeliveryOptions) (last : Option DeliveryAttempt) : Bool :=
  last.any fun a => !a.success && !isExhausted opts a.tryNumber

def NoneAbandoned (opts : DeliveryOptions) (db : Database) : Prop :=
  ∀ ev ∈ db.events.rows, ∀ endpointId, retryable opts (lastAttempt db ev.id endpointId) = true →
    ev.status = .new ∨ ev.status = .failed

/-- If the event's last due visit of the pass succeeds or exhausts its pair, then no due
visit of the event fails with tries left, and no pair of the event that is not due waits
for a retry. -/
def PassKeepsRetries (w : World) (opts : DeliveryOptions) (endpoints : List Endpoint) (s : State) :
    Prop :=
  ∀ ev ∈ s.db.events.rows, ∀ status,
    (passStatuses w opts endpoints s ev.id).getLast? = some status → status ≠ .failed →
      .failed ∉ passStatuses w opts endpoints s ev.id ∧
      ∀ endpointId,
        (∀ x ∈ passTrace w opts endpoints s, visitKey x.2 = (ev.id, endpointId) →
          dueAt w x.1 x.2 = false) →
        retryable opts (lastAttempt s.db ev.id endpointId) = false

theorem resultStatus_eq_failed_iff {opts : DeliveryOptions} {outcome : HttpOutcome} {n : Int} :
    resultStatus opts outcome n = .failed ↔ outcome.succeeded = false ∧ isExhausted opts n = false := by
  unfold resultStatus failureStatus
  cases outcome.succeeded <;> cases isExhausted opts n <;> simp

theorem resultStatus_ne_new (opts : DeliveryOptions) (outcome : HttpOutcome) (n : Int) :
    resultStatus opts outcome n ≠ .new := by
  unfold resultStatus failureStatus
  cases outcome.succeeded <;> cases isExhausted opts n <;> simp

theorem statusOf_eq {db : Database} {ev : Event} (hev : ev ∈ db.events.rows) :
    statusOf db ev.id = ev.status := by
  rw [statusOf, (Table.find?_eq_some_iff _).mpr ⟨hev, rfl⟩]
  rfl

theorem noneAbandoned_iff {opts : DeliveryOptions} {db : Database} :
    NoneAbandoned opts db ↔ ∀ e ∈ db.events.rows.map Event.id, ∀ endpointId,
      retryable opts (lastAttempt db e endpointId) = true →
        statusOf db e = .new ∨ statusOf db e = .failed := by
  simp only [NoneAbandoned, List.forall_mem_map]
  constructor
  · intro h ev hev endpointId hr
    rw [statusOf_eq hev]
    exact h ev hev endpointId hr
  · intro h ev hev endpointId hr
    rw [← statusOf_eq hev]
    exact h ev hev endpointId hr

section Pass

variable {w : World} {opts : DeliveryOptions} {endpoints : List Endpoint} {s : State}
variable (hw : w.Healthy) (hctx : s.ctx.Clean) (hperm : endpoints.Perm (activeEndpoints s.db))
include hw hctx hperm

/-- After a due visit the pair waits for a retry exactly when the visit wrote `Failed`. -/
theorem retryable_pass_of_due {x : State × (Event × Endpoint)}
    (hx : x ∈ passTrace w opts endpoints s) (hdue : dueAt w x.1 x.2 = true) :
    retryable opts (lastAttempt (processOnceAsync w opts endpoints s).2.db x.2.1.id x.2.2.id) = true ↔
      visitStatus w opts x.1 x.2 = .failed := by
  obtain ⟨a, ha, htry, hsucc⟩ := lastAttempt_pass_of_due hw hctx hperm hx hdue
  rw [ha, visitStatus, resultStatus_eq_failed_iff]
  simp [retryable, htry, hsucc]

/-- The pairs of an event that wait for a retry after the pass. -/
theorem retryable_pass_iff {e endpointId : Guid} :
    retryable opts (lastAttempt (processOnceAsync w opts endpoints s).2.db e endpointId) = true ↔
      (∃ x ∈ passTrace w opts endpoints s, visitKey x.2 = (e, endpointId) ∧ dueAt w x.1 x.2 = true ∧
        visitStatus w opts x.1 x.2 = .failed) ∨
      ((∀ x ∈ passTrace w opts endpoints s, visitKey x.2 = (e, endpointId) → dueAt w x.1 x.2 = false) ∧
        retryable opts (lastAttempt s.db e endpointId) = true) := by
  by_cases hk : ∀ x ∈ passTrace w opts endpoints s, visitKey x.2 = (e, endpointId) →
      dueAt w x.1 x.2 = false
  · rw [lastAttempt_pass_of_not_due hw hctx hperm (k := (e, endpointId)) hk]
    constructor
    · exact fun h => Or.inr ⟨hk, h⟩
    · rintro (⟨x, hx, hkey, hdue, -⟩ | ⟨-, h⟩)
      · rw [hk x hx hkey] at hdue
        cases hdue
      · exact h
  · push Not at hk
    obtain ⟨x, hx, hkey, hdue⟩ := hk
    simp only [Bool.not_eq_false] at hdue
    have hiff := retryable_pass_of_due hw hctx hperm hx hdue
    have hkey' : x.2.1.id = e ∧ x.2.2.id = endpointId := by simpa [visitKey] using hkey
    rw [hkey'.1, hkey'.2] at hiff
    rw [hiff]
    constructor
    · exact fun h => Or.inl ⟨x, hx, hkey, hdue, h⟩
    · rintro (⟨y, hy, hykey, hydue, hyst⟩ | ⟨hk, -⟩)
      · have hy' : y.2.1.id = e ∧ y.2.2.id = endpointId := by simpa [visitKey] using hykey
        have hiff' := retryable_pass_of_due hw hctx hperm hy hydue
        rw [hy'.1, hy'.2] at hiff'
        exact hiff.mp (hiff'.mpr hyst)
      · rw [hk x hx hkey] at hdue
        cases hdue

/-- **One pass.** From a state with no abandoned delivery, the pass leaves none exactly
when it meets the condition. -/
theorem noneAbandoned_pass_iff (hP : NoneAbandoned opts s.db) :
    NoneAbandoned opts (processOnceAsync w opts endpoints s).2.db ↔
      PassKeepsRetries w opts endpoints s := by
  rw [noneAbandoned_iff, ids_pass hw hctx, List.forall_mem_map]
  constructor
  · intro h ev hev status hlast hne
    have hstatus := status_pass opts endpoints hw hctx hev
    rw [hlast, Option.getD_some] at hstatus
    have hclosed : ¬ (status = .new ∨ status = .failed) := by
      obtain ⟨x, -, -, -, hx⟩ := mem_passStatuses.mp (List.mem_of_getLast? hlast)
      rintro (rfl | rfl)
      · exact resultStatus_ne_new _ _ _ hx
      · exact hne rfl
    have hnone : ∀ endpointId, ¬ retryable opts
        (lastAttempt (processOnceAsync w opts endpoints s).2.db ev.id endpointId) = true := by
      intro endpointId hr
      have := h ev hev endpointId hr
      rw [hstatus] at this
      exact hclosed this
    constructor
    · intro hfailed
      obtain ⟨x, hx, hid, hdue, hst⟩ := mem_passStatuses.mp hfailed
      apply hnone x.2.2.id
      rw [← hid]
      exact (retryable_pass_of_due hw hctx hperm hx hdue).mpr hst
    · intro endpointId hk
      by_contra hr
      apply hnone endpointId
      rw [retryable_pass_iff hw hctx hperm]
      exact Or.inr ⟨hk, by simpa using hr⟩
  · intro h ev hev endpointId hr
    have hstatus := status_pass opts endpoints hw hctx hev
    rw [hstatus]
    cases hlast : (passStatuses w opts endpoints s ev.id).getLast? with
    | none =>
      rw [Option.getD_none, statusOf_eq hev]
      rcases (retryable_pass_iff hw hctx hperm).mp hr with ⟨x, hx, hkey, hdue, -⟩ | ⟨-, hr'⟩
      · have hid : x.2.1.id = ev.id := congrArg Prod.fst hkey
        have hmem := mem_passStatuses.mpr ⟨x, hx, hid, hdue, rfl⟩
        rw [List.getLast?_eq_none_iff.mp hlast] at hmem
        cases hmem
      · exact hP ev hev endpointId hr'
    | some status =>
      rw [Option.getD_some]
      by_cases hne : status = .failed
      · exact Or.inr hne
      · obtain ⟨hfailed, hwait⟩ := h ev hev status hlast hne
        rcases (retryable_pass_iff hw hctx hperm).mp hr with ⟨x, hx, hkey, hdue, hst⟩ | ⟨hk, hr'⟩
        · have hid : x.2.1.id = ev.id := congrArg Prod.fst hkey
          exact absurd (mem_passStatuses.mpr ⟨x, hx, hid, hdue, hst⟩) hfailed
        · rw [hwait endpointId hk] at hr'
          cases hr'

end Pass

/-! ## Runs of passes -/

/-- A pass as the only action. -/
def passStep (w : World) (opts : DeliveryOptions) (s : State) (endpoints : List Endpoint) :
    Option State :=
  step w opts s (.pass endpoints)

/-- **No retryable delivery is abandoned**, in every state between the passes of a run,
exactly when every pass of the run meets the condition. -/
theorem noneAbandoned_run_iff {w : World} (hw : w.Healthy) (opts : DeliveryOptions)
    (events : Table Event Guid Event.id) (endpoints : Table Endpoint Guid Endpoint.id)
    (orders : List (List Endpoint)) {s' : State}
    (hrun : Transition.run (passStep w opts) (.start events endpoints) orders = some s') :
    Transition.Always (passStep w opts) (fun s => NoneAbandoned opts s.db)
        (.start events endpoints) orders ↔
      Transition.Along (passStep w opts) (fun s eps => PassKeepsRetries w opts eps s)
        (.start events endpoints) orders := by
  refine Transition.always_iff_along (I := fun s => s.ctx.Clean) ?_ ?_ ⟨rfl, rfl⟩ ?_ hrun
  · intro s eps s₁ hctx h
    exact step_clean hw hctx h
  · intro s eps s₁ hctx hP h
    obtain ⟨hperm, rfl⟩ := step_pass_eq_some_iff.mp h
    exact noneAbandoned_pass_iff hw hctx hperm hP
  · intro ev _ endpointId hr
    have hnone : lastAttempt (State.start events endpoints).db ev.id endpointId = none :=
      lastAttempt_eq_none_iff.mpr rfl
    rw [hnone] at hr
    cases hr

/-- The first endpoint answers 500 and the second 200. -/
def splitWorld : World where
  clock _ := 0
  newGuid n := 100 + n
  exchange _ endpointId _ _ := (if endpointId = 1 then Reply.result 500 [] else .result 200 []).exchange
  saveFails _ := false

def failingEndpoint : Endpoint := { id := 1, url := "https://a.example/hook".toList }

def workingEndpoint : Endpoint := { id := 2, url := "https://b.example/hook".toList }

def splitStart : State :=
  .start (.single { id := 7, source := "test".toList, receivedAt := 0 })
    ⟨[failingEndpoint, workingEndpoint], by decide⟩

def splitOrders : List (List Endpoint) := [[failingEndpoint, workingEndpoint]]

theorem splitRun_isSome : (Transition.run (passStep splitWorld {}) splitStart splitOrders).isSome := by
  decide

theorem noneAbandoned_run_split :
    Transition.Always (passStep splitWorld {}) (fun s => NoneAbandoned {} s.db) splitStart splitOrders ↔
      Transition.Along (passStep splitWorld {}) (fun s eps => PassKeepsRetries splitWorld {} eps s)
        splitStart splitOrders :=
  noneAbandoned_run_iff (fun _ => rfl) {} _ _ splitOrders (Option.some_get splitRun_isSome).symm

/-- The first endpoint's retry is due in a minute, but the second endpoint's success has
set the event to `Dispatched`. -/
theorem retry_abandoned :
    splitWorld.Healthy ∧ splitWorld.ClockAdvances ∧
      ∃ s', Transition.run (passStep splitWorld {}) splitStart splitOrders = some s' ∧
        ¬ NoneAbandoned {} s'.db := by
  refine ⟨fun _ => rfl, fun _ _ _ => Int.le_refl _, _, (Option.some_get splitRun_isSome).symm, fun h => ?_⟩
  have hstatus := h _ (List.mem_cons_self) 1 (by decide)
  revert hstatus
  decide

end WebhookInbox.Worker
