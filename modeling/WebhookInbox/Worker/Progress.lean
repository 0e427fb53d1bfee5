import WebhookInbox.Worker.Requests

/-!
# Which due work a pass reaches

The candidates query cuts the selected events at the batch size, in the order of their
ids, before any due time is looked at. A pass therefore reaches due work of its batch
(`attemptsDue_pass`), while due work behind a batch of events that only wait stays where
it is (`due_work_blocked`).
-/

namespace WebhookInbox.Worker

/-- Some selected event has an active endpoint whose pair is due. -/
def DueWork (db : Database) (now : Time) : Prop :=
  ∃ ev ∈ db.events.rows, isCandidate ev = true ∧
    ∃ ep ∈ activeEndpoints db, isDue db ev.id ep.id now = true

/-- Some event of the batch has an active endpoint whose pair is due. -/
def BatchDue (opts : DeliveryOptions) (db : Database) (now : Time) : Prop :=
  ∃ ev ∈ (candidates? opts db).getD [], ∃ ep ∈ activeEndpoints db, isDue db ev.id ep.id now = true

/-- The `n`-th read of the clock is one that the pass makes. -/
def ReadsClock (w : World) (opts : DeliveryOptions) (endpoints : List Endpoint) (s : State) (n : Nat) :
    Prop :=
  s.reads ≤ n ∧ n < (processOnceAsync w opts endpoints s).2.reads

/-- The pass tries a pair that is due at a clock value the pass reads. -/
def AttemptsDue (w : World) (opts : DeliveryOptions) (endpoints : List Endpoint) (s : State) : Prop :=
  ∃ more, (processOnceAsync w opts endpoints s).2.tries = s.tries ++ more ∧
    ∃ p ∈ more, ∃ n, ReadsClock w opts endpoints s n ∧
      isDue s.db p.eventId p.endpointId (w.clock n) = true

/-- A pair that is due stays due. -/
theorem isDue_mono {db : Database} {e ep : Guid} {now now' : Time} (hle : now ≤ now')
    (h : isDue db e ep now = true) : isDue db e ep now' = true := by
  cases hlast : lastAttempt db e ep with
  | none =>
    rw [isDue, hlast]
    rfl
  | some last =>
    rw [isDue, hlast, Option.all_some, Bool.and_eq_true] at h ⊢
    refine ⟨h.1, ?_⟩
    cases hnext : last.nextAttemptAt with
    | none => rfl
    | some deadline =>
      have hpassed := h.2
      rw [hnext, Option.all_some, decide_eq_true_eq] at hpassed
      rw [Option.all_some, decide_eq_true_eq]
      exact Int.le_trans hpassed hle

section Pass

variable {w : World} (hclock : w.ClockAdvances) {opts : DeliveryOptions}
include hclock

/-- Visits that are not due leave the database as it is, so the loops come to the pair, and the
visit that is due reads the clock. -/
theorem not_along_of_isDue {db : Database} {start last : Nat} {pairs : List (Event × Endpoint)}
    {s : State} (hdb : s.db = db) (hstart : start ≤ s.reads)
    (hlast : ∃ m, (processPairs w opts pairs m s).2.reads ≤ last)
    (h : ∃ v ∈ pairs, isDue db v.1.id v.2.id (w.clock s.reads) = true) :
    ¬ Transition.Along (visitStep w opts) (fun s v => dueAt w s v = true →
      ¬ ∃ n, (start ≤ n ∧ n < last) ∧ isDue db v.1.id v.2.id (w.clock n) = true) s pairs := by
  induction pairs generalizing s with
  | nil =>
    obtain ⟨v, hv, -⟩ := h
    cases hv
  | cons v pairs ih =>
    intro halong
    obtain ⟨m, hm⟩ := hlast
    cases hdue : dueAt w s v with
    | true =>
      have hvisit := (processPair_due w opts hdue).reads
      have hrest := reads_visit_le w opts v pairs m s
      apply halong.1 hdue
      refine ⟨s.reads, ⟨hstart, by omega⟩, ?_⟩
      rw [← hdb]
      exact hdue
    | false =>
      obtain ⟨r, hr, heq⟩ := processPair_skipped opts hdue
      have hstep : visitStep w opts s v = some { s with reads := r } := by rw [visitStep, heq]
      have hlast : (processPairs w opts pairs m { s with reads := r }).2.reads ≤ last := by
        rwa [processPairs, heq] at hm
      refine ih (s := { s with reads := r }) hdb (Nat.le_trans hstart hr) ⟨m, hlast⟩ ?_ (halong.2 _ hstep)
      obtain ⟨u, hu, hudue⟩ := h
      rcases List.mem_cons.mp hu with rfl | hu
      · rw [dueAt, hdb, hudue] at hdue
        cases hdue
      · exact ⟨u, hu, isDue_mono (hclock _ _ hr) hudue⟩

/-- **What a pass reaches.** It attempts a due pair when the batch holds one as the pass
starts, and only when the batch holds one at some clock value that the pass reads. -/
theorem attemptsDue_pass (opts : DeliveryOptions) {endpoints : List Endpoint} {s : State}
    (hperm : endpoints.Perm (activeEndpoints s.db)) :
    (BatchDue opts s.db (w.clock s.reads) → AttemptsDue w opts endpoints s) ∧
      (AttemptsDue w opts endpoints s →
        ∃ n, ReadsClock w opts endpoints s n ∧ BatchDue opts s.db (w.clock n)) := by
  constructor
  · rintro ⟨ev, hev, ep, hep, hdue⟩
    obtain ⟨more, hmore, hiff⟩ := tries_processOnceAsync w opts
      (fun p => ¬ ∃ n, ReadsClock w opts endpoints s n ∧
        isDue s.db p.eventId p.endpointId (w.clock n) = true) endpoints s
    have hvisits : passVisits opts endpoints s ≠ [] := List.ne_nil_of_mem
      (List.pair_mem_product.mpr ⟨hev, List.mem_map_of_mem (hperm.mem_iff.mpr hep)⟩)
    have hlast : (processPairs w opts (passVisits opts endpoints s) 0 (passStart endpoints s)).2.reads ≤
        (processOnceAsync w opts endpoints s).2.reads := by
      rcases processOnceAsync_cases w opts endpoints s with ⟨hempty, -⟩ | heq
      · exact absurd hempty hvisits
      · rw [heq]
    have hnot : ¬ ∀ p ∈ more, ¬ ∃ n, ReadsClock w opts endpoints s n ∧
        isDue s.db p.eventId p.endpointId (w.clock n) = true := by
      rw [hiff]
      refine not_along_of_isDue (s := passStart endpoints s) hclock rfl le_rfl ⟨0, hlast⟩
        ⟨(ev, materialise s.ctx ep), ?_, ?_⟩
      · apply List.pair_mem_product.mpr
        exact ⟨hev, List.mem_map_of_mem (hperm.mem_iff.mpr hep)⟩
      · rw [ids_materialise]
        exact hdue
    push Not at hnot
    obtain ⟨p, hp, n, hn, hpdue⟩ := hnot
    exact ⟨more, hmore, p, hp, n, hn, hpdue⟩
  · rintro ⟨more, hmore, p, hp, n, hn, hdue⟩
    obtain ⟨x, hx, -, rfl⟩ := exists_due_of_try hmore hp
    obtain ⟨hev, row, hrow, hmat⟩ := mem_passVisits (FoldTrace.item_mem hx)
    refine ⟨n, hn, x.2.1, hev, row, hperm.mem_iff.mp hrow, ?_⟩
    change isDue s.db x.2.1.id x.2.2.id (w.clock n) = true at hdue
    rw [hmat, ids_materialise] at hdue
    exact hdue

end Pass

/-! ## Work behind a waiting batch -/

def oneAtATime : DeliveryOptions := { batchSize := 1 }

/-- Two events for an endpoint that answers 500. -/
def queuedStart : State :=
  .start
    ⟨[{ id := 7, source := "test".toList, receivedAt := 0 },
      { id := 8, source := "test".toList, receivedAt := 0 }], by decide⟩
    (.single failingEndpoint)

theorem queuedRun_isSome :
    (Transition.run (step splitWorld oneAtATime) queuedStart [.pass [failingEndpoint]]).isSome := by
  decide

theorem attemptsDue_pass_queued :
    (BatchDue oneAtATime queuedStart.db (splitWorld.clock queuedStart.reads) →
        AttemptsDue splitWorld oneAtATime [failingEndpoint] queuedStart) ∧
      (AttemptsDue splitWorld oneAtATime [failingEndpoint] queuedStart →
        ∃ n, ReadsClock splitWorld oneAtATime [failingEndpoint] queuedStart n ∧
          BatchDue oneAtATime queuedStart.db (splitWorld.clock n)) :=
  attemptsDue_pass (fun _ _ _ => Int.le_refl _) oneAtATime (by decide)

/-- The first event waits for its retry and fills the batch, so the second one, which has
not been tried yet, is not tried. -/
theorem due_work_blocked :
    ∃ s, Transition.run (step splitWorld oneAtATime) queuedStart [.pass [failingEndpoint]] = some s ∧
      1 ≤ oneAtATime.batchSize ∧ splitWorld.ClockAdvances ∧
      [failingEndpoint].Perm (activeEndpoints s.db) ∧
      DueWork s.db (splitWorld.clock s.reads) ∧
      ¬ AttemptsDue splitWorld oneAtATime [failingEndpoint] s := by
  refine ⟨_, (Option.some_get queuedRun_isSome).symm, by decide, fun _ _ _ => Int.le_refl _,
    by decide, ?_, ?_⟩
  · refine ⟨_, List.mem_cons_of_mem _ (List.mem_singleton_self _), by decide, failingEndpoint, ?_, ?_⟩
    · decide
    · decide
  · rintro ⟨more, hmore, p, hp, -⟩
    have hsame : (processOnceAsync splitWorld oneAtATime [failingEndpoint]
        ((Transition.run (step splitWorld oneAtATime) queuedStart
          [.pass [failingEndpoint]]).get queuedRun_isSome)).2.tries =
        ((Transition.run (step splitWorld oneAtATime) queuedStart
          [.pass [failingEndpoint]]).get queuedRun_isSome).tries := by decide
    rw [hsame] at hmore
    have hnil : more = [] := by simpa using hmore
    rw [hnil] at hp
    cases hp

end WebhookInbox.Worker
