import WebhookInbox.Worker.Quiescence

/-!
# When a next attempt is shown

`ComputeNextAttemptAt` stops where the backoff list ends, and `IsExhausted` also at the
attempt limit. A limit inside the list makes them disagree, and the last failure then shows a
next attempt that is never made. With a limit past the list (`LimitPastBackoff`) or an empty
list they agree on every try, and every stored row shows what it should.
-/

namespace WebhookInbox.Worker

/-- The options under which the list never has a delay for an exhausted try. -/
def LimitPastBackoff (opts : DeliveryOptions) : Prop :=
  opts.backoffSeconds = [] ∨ opts.backoffSeconds.length < opts.maxAttempts

/-- The two helpers stop at the same tries. -/
def HelpersAgree (opts : DeliveryOptions) : Prop :=
  ∀ (w : World) (s : State) (tryNumber : Int), 1 ≤ tryNumber →
    ((computeNextAttemptAt w opts tryNumber s).1 = none ↔ isExhausted opts tryNumber = true)

/-- A row shows a next attempt exactly when it failed with tries left. -/
def ShowsRetries (opts : DeliveryOptions) (db : Database) : Prop :=
  ∀ a ∈ db.attempts.rows,
    a.nextAttemptAt.isSome = true ↔ a.success = false ∧ isExhausted opts a.tryNumber = false

theorem backoffDeadline_eq_none_iff {opts : DeliveryOptions} {n : Int} (hn : 1 ≤ n) (now : Time) :
    backoffDeadline opts n now = none ↔ opts.backoffSeconds.length < n := by
  unfold backoffDeadline
  dsimp only
  split
  · simp only [true_iff]
    omega
  · simp only [reduceCtorEq, false_iff]
    omega

/-- With a limit past the list, the tries are exhausted where the list ends. -/
theorem LimitPastBackoff.isExhausted_iff {opts : DeliveryOptions} (h : LimitPastBackoff opts) {n : Int}
    (hn : 1 ≤ n) : isExhausted opts n = true ↔ opts.backoffSeconds.length < n := by
  rw [Worker.isExhausted_iff, attemptCap]
  rcases h with hempty | hlt
  · rw [hempty, List.length_nil]
    omega
  · omega

theorem helpersAgree_iff {opts : DeliveryOptions} : HelpersAgree opts ↔ LimitPastBackoff opts := by
  have hhelper : ∀ (w : World) (s : State) {n : Int}, 1 ≤ n →
      ((computeNextAttemptAt w opts n s).1 = none ↔ opts.backoffSeconds.length < n) := by
    intro w s n hn
    obtain ⟨r, -, heq⟩ := computeNextAttemptAt_spec w opts n s
    rw [heq]
    exact backoffDeadline_eq_none_iff hn _
  constructor
  · intro h
    by_contra hlimit
    rw [LimitPastBackoff, not_or, not_lt] at hlimit
    have hpos : 0 < opts.backoffSeconds.length := List.length_pos_iff.mpr hlimit.1
    -- the first try at the limit is exhausted, and the list has a delay for it
    have htry : 1 ≤ max opts.maxAttempts 1 := le_max_right _ _
    have hagree := h ⟨fun _ => 0, fun _ => 0, fun _ _ _ _ => (Reply.result 200 []).exchange, fun _ => false⟩
      (.start ∅ ∅) _ htry
    rw [hhelper _ _ htry, isExhausted_iff, attemptCap] at hagree
    have := hagree.mpr (by omega)
    omega
  · intro hlimit w s n hn
    rw [hhelper w s hn, hlimit.isExhausted_iff hn]

/-! ## Runs -/

/-- The row is numbered from one on, and its deadline is the one of the list. -/
def Planned (opts : DeliveryOptions) (a : DeliveryAttempt) : Prop :=
  1 ≤ a.tryNumber ∧
    ∃ now, a.nextAttemptAt = if a.success then none else backoffDeadline opts a.tryNumber now

structure PlannedProcess (opts : DeliveryOptions) (p : Process) : Prop where
  rows : ∀ a ∈ p.state.db.attempts.rows, Planned opts a
  added : ∀ a ∈ p.state.ctx.added, Planned opts a
  visit : ∀ v n, p.phase.visit? = some (v, n) → 1 ≤ n

theorem showsRetries_of_planned {opts : DeliveryOptions} (hlimit : LimitPastBackoff opts)
    {db : Database} (h : ∀ a ∈ db.attempts.rows, Planned opts a) : ShowsRetries opts db := by
  intro a ha
  obtain ⟨htry, now, hnext⟩ := h a ha
  rw [hnext]
  cases hs : a.success with
  | true => simp
  | false =>
    rw [if_neg Bool.false_ne_true, Option.isSome_iff_ne_none, ne_eq,
      backoffDeadline_eq_none_iff htry, ← hlimit.isExhausted_iff htry, Bool.not_eq_true]
    simp only [true_and]

section Run

variable {w : World} {opts : DeliveryOptions} {p p' : Process}

theorem planned_visitRow (w : World) (opts : DeliveryOptions) (v : Event × Endpoint) {n : Int}
    (hn : 1 ≤ n) (outcome : HttpOutcome) (s : State) :
    Planned opts (visitRow w opts v n outcome s) := ⟨hn, w.clock (s.reads + 1), rfl⟩

theorem Moved.planned {m : Move} (h : Moved w opts p m p') (hp : PlannedProcess opts p) :
    PlannedProcess opts p' := by
  cases h with
  | rested _ s' _ hdb hadded =>
    refine ⟨?_, ?_, fun _ _ hv => by cases hv⟩
    · rw [hdb]
      exact hp.rows
    · rw [hadded]
      exact hp.added
  | queried | loaded | skipped => exact ⟨hp.rows, hp.added, fun _ _ hv => by cases hv⟩
  | due l v rest r =>
    refine ⟨hp.rows, hp.added, fun u n hv => ?_⟩
    cases hv
    exact one_le_nextTryNumber (fun a ha => (hp.rows a ha).1) v.1.id v.2.id
  | sent l v n hphase =>
    refine ⟨hp.rows, hp.added, fun u m hv => hp.visit u m ?_⟩
    rw [hphase]
    exact hv
  | recorded l l' v n outcome s' hphase hsame hend =>
    have hn := hp.visit v n (Phase.of_record? hphase).2.2.2
    cases hend with
    | committed hsave hrows hevents hendpoints hadded =>
      refine ⟨fun a ha => ?_, fun a ha => ?_, fun _ _ hv => by cases hv⟩
      · rw [hrows, List.mem_append, List.mem_append, List.mem_singleton] at ha
        rcases ha with ha | ha | rfl
        · exact hp.rows a ha
        · exact hp.added a ha
        · exact planned_visitRow w opts v hn outcome p.state
      · rw [hadded] at ha
        cases ha
  | thrown l v n outcome s' phase hphase hthrown hend =>
    have hn := hp.visit v n (Phase.of_record? hphase).2.2.2
    cases hend with
    | rejected hfail hdb hadded =>
      refine ⟨fun a ha => hp.rows a (hdb ▸ ha), fun a ha => ?_, fun u m hv => ?_⟩
      · rw [hadded, List.mem_append, List.mem_singleton] at ha
        rcases ha with ha | rfl
        · exact hp.added a ha
        · exact planned_visitRow w opts v hn outcome p.state
      · rcases hthrown with rfl | rfl
        · cases hv
          exact hn
        · cases hv

theorem planned_step {a : ProcessAction} (hp : PlannedProcess opts p)
    (h : processStep w opts p a = some p') : PlannedProcess opts p' := by
  cases a with
  | move m => exact (moved_of_move h).planned hp
  | restart =>
    cases h
    exact ⟨hp.rows, fun a ha => (by cases ha), fun _ _ hv => by cases hv⟩
  | insertEvent ev =>
    obtain ⟨-, events, -, rfl⟩ := insertEvent_eq_some h
    exact ⟨hp.rows, hp.added, hp.visit⟩
  | saveEndpoint ep =>
    cases h
    exact ⟨hp.rows, hp.added, hp.visit⟩

end Run

/-- **A next attempt is shown exactly when a retry will be made**, by the two helpers and in
every reachable state, under the options whose limit is not inside the list. -/
theorem showsRetries_iff (opts : DeliveryOptions) :
    (HelpersAgree opts ∧
      ∀ (w : World) (events : Table Event Guid Event.id) (endpoints : Table Endpoint Guid Endpoint.id)
        (actions : List ProcessAction) (p' : Process),
        Transition.run (processStep w opts) { state := .start events endpoints } actions = some p' →
          ShowsRetries opts p'.state.db) ↔
      LimitPastBackoff opts := by
  constructor
  · rintro ⟨hagree, -⟩
    exact helpersAgree_iff.mp hagree
  · intro hlimit
    refine ⟨helpersAgree_iff.mpr hlimit, fun w events endpoints actions p' hrun => ?_⟩
    have hstart : PlannedProcess opts { state := .start events endpoints } :=
      ⟨fun a ha => (by cases ha), fun a ha => (by cases ha), fun _ _ hv => by cases hv⟩
    have hend := Transition.invariant (I := PlannedProcess opts)
      (fun _ _ _ hp hstep => planned_step hp hstep) hstart hrun
    exact showsRetries_of_planned hlimit hend.rows

/-! ## A limit inside the list -/

def oneTry : DeliveryOptions := { maxAttempts := 1 }

/-- The failing endpoint is visited first, up to its save. -/
def failedTryActions : List ProcessAction :=
  [.move .queryCandidates, .move (.queryEndpoints [failingEndpoint, workingEndpoint]),
    .move .next, .move .next, .move .next]

theorem failedTryRun_isSome : (Transition.run (processStep splitWorld oneTry) { state := splitStart }
    failedTryActions).isSome := by
  decide

/-- The only try is exhausted, and its row shows an attempt in a minute. -/
theorem retry_shown_after_last_try :
    splitWorld.Healthy ∧ ∃ p', Transition.run (processStep splitWorld oneTry) { state := splitStart }
      failedTryActions = some p' ∧ ¬ ShowsRetries oneTry p'.state.db := by
  refine ⟨fun _ => rfl, _, (Option.some_get failedTryRun_isSome).symm, fun h => ?_⟩
  have hrow := (h _ List.mem_cons_self).mp rfl
  exact absurd hrow.2 (by decide)

end WebhookInbox.Worker
