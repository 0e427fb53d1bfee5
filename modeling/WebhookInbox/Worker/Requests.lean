import WebhookInbox.Worker.Process
import WebhookInbox.Worker.Recovery

/-!
# The requests of a pass

A visit tries its pair once when the pair is due and not at all otherwise, whatever becomes
of its saves, and it reads the deadline of the pair as the visits before it left it. So what
a condition says about every try of a pass, it says about every due visit
(`calls_processPairs`). A try need not send its request, but an answered one has sent it.
-/

namespace WebhookInbox.Worker

/-- The try of a visit: its request, and how often it is sent. -/
def visitCall (w : World) (s : State) (v : Event × Endpoint) : Post × Nat :=
  let tryNumber := nextTryNumber s.db v.1.id v.2.id
  (request v tryNumber, nextSends w s v.1.id v.2.id tryNumber)

section Visit

variable (w : World) (opts : DeliveryOptions)

/-- What recording an outcome leaves as it is, and the clock it reads. -/
structure VisitTail (s s' : State) : Prop where
  calls : s'.calls = s.calls
  reads : s.reads < s'.reads
  tracked : s'.ctx.endpoints = s.ctx.endpoints

theorem recordException_tail (v : Event × Endpoint) (n : Int) (typeName : Text) (s : State) :
    VisitTail s (recordException w opts v.1.id v.2.id n typeName s).2 :=
  have hend := recordOutcome_end w opts v n (.exception typeName) s
  ⟨hend.calls, hend.reads_lt, tracked_recordOutcome w opts v n (.exception typeName) s⟩

theorem recordResponse_tail (v : Event × Endpoint) (n : Int) (statusCode : Nat) (body : Utf16)
    (s : State) :
    VisitTail s (recordResponse w opts v.1.id v.2.id n statusCode body (s.emit .deliveryDuration)).2 :=
  have hend := recordOutcome_end w opts v n (.response statusCode body) s
  ⟨hend.calls, hend.reads_lt, tracked_recordOutcome w opts v n (.response statusCode body) s⟩

/-- A due visit makes one try and reads the clock for it, whatever becomes of its saves. -/
structure Tried (s : State) (v : Event × Endpoint) (s' : State) : Prop where
  calls : s'.calls = s.calls ++ [visitCall w s v]
  reads : s.reads < s'.reads
  tracked : s'.ctx.endpoints = s.ctx.endpoints

theorem processPair_due {v : Event × Endpoint} {s : State} (hdue : dueAt w s v = true) :
    Tried w s v (processPair w opts v.1 v.2 s).2 := by
  obtain ⟨r, hr, hstat⟩ := getAttemptStateAsync_spec w s v.1.id v.2.id
  have hcall : visitCall w s v = (request v (nextTryNumber s.db v.1.id v.2.id),
      nextSends w { s with reads := r } v.1.id v.2.id (nextTryNumber s.db v.1.id v.2.id)) := rfl
  generalize nextTryNumber s.db v.1.id v.2.id = n at hstat hcall
  unfold dueAt at hdue
  simp only [processPair, hstat, hdue, if_true]
  generalize nextSends w { s with reads := r } v.1.id v.2.id n = sends at hcall
  generalize hs₁ : State.emit { s with reads := r } (.post (request v n) sends) = s₁
  have hcalls : s₁.calls = s.calls ++ [visitCall w s v] := by
    rw [← hs₁, hcall]
    exact State.calls_emit { s with reads := r } _ sends
  have hreads : s.reads ≤ s₁.reads := by
    rw [← hs₁]
    exact hr
  have htracked : s₁.ctx.endpoints = s.ctx.endpoints := by rw [← hs₁]; rfl
  unfold request at hs₁
  rw [hs₁]
  have hend : ∀ {s' : State}, VisitTail s₁ s' → Tried w s v s' := fun h =>
    ⟨h.calls.trans hcalls, Nat.lt_of_le_of_lt hreads h.reads, h.tracked.trans htracked⟩
  generalize nextOutcome w { s with reads := r } v.1.id v.2.id n = outcome
  cases outcome with
  | response statusCode body =>
    have htail := recordResponse_tail w opts v n statusCode body s₁
    dsimp only
    split
    · exact hend htail
    · have hcaught := recordException_tail w opts v n "DbUpdateException".toList
        (recordResponse w opts v.1.id v.2.id n statusCode body (s₁.emit .deliveryDuration)).2
      exact hend ⟨hcaught.calls.trans htail.calls, htail.reads.trans hcaught.reads,
        hcaught.tracked.trans htail.tracked⟩
  | exception typeName => exact hend (recordException_tail w opts v n typeName s₁)

/-- A due visit makes one try, and a visit that is not due makes none. -/
theorem calls_processPair (v : Event × Endpoint) (s : State) :
    (processPair w opts v.1 v.2 s).2.calls = s.calls ++ if dueAt w s v then [visitCall w s v] else [] := by
  cases hdue : dueAt w s v with
  | false =>
    obtain ⟨r, -, heq⟩ := processPair_skipped opts hdue
    rw [heq]
    exact (List.append_nil _).symm
  | true => exact (processPair_due w opts hdue).calls

theorem reads_processPair (v : Event × Endpoint) (s : State) :
    s.reads ≤ (processPair w opts v.1 v.2 s).2.reads := by
  cases hdue : dueAt w s v with
  | false =>
    obtain ⟨r, hr, heq⟩ := processPair_skipped opts hdue
    rw [heq]
    exact hr
  | true => exact (processPair_due w opts hdue).reads.le

theorem tracked_processPair (v : Event × Endpoint) (s : State) :
    (processPair w opts v.1 v.2 s).2.ctx.endpoints = s.ctx.endpoints := by
  cases hdue : dueAt w s v with
  | false =>
    obtain ⟨r, -, heq⟩ := processPair_skipped opts hdue
    rw [heq]
  | true => exact (processPair_due w opts hdue).tracked

end Visit

section Pass

variable {w : World} {opts : DeliveryOptions}

variable (w opts) in
/-- The tries of the loops are those of the due visits that are made. -/
theorem calls_processPairs (Q : Post × Nat → Prop) (pairs : List (Event × Endpoint)) (n : Nat)
    (s : State) :
    ∃ more, (processPairs w opts pairs n s).2.calls = s.calls ++ more ∧
      ((∀ c ∈ more, Q c) ↔ Transition.Along (visitStep w opts)
        (fun s v => dueAt w s v = true → Q (visitCall w s v)) s pairs) := by
  induction pairs generalizing n s with
  | nil => exact ⟨[], (List.append_nil _).symm, by simp [Transition.Along]⟩
  | cons v pairs ih =>
    have hvisit := calls_processPair w opts v s
    have hQ : (∀ c ∈ (if dueAt w s v then [visitCall w s v] else []), Q c) ↔
        (dueAt w s v = true → Q (visitCall w s v)) := by
      cases dueAt w s v <;> simp
    generalize (if dueAt w s v then [visitCall w s v] else []) = first at hvisit hQ
    simp only [processPairs, Transition.Along, visitStep, ← hQ]
    cases hres : processPair w opts v.1 v.2 s with
    | mk result s' =>
      rw [hres] at hvisit
      have hrest : ∀ m, ∃ more, (processPairs w opts pairs m s').2.calls = s.calls ++ more ∧
          ((∀ c ∈ more, Q c) ↔ (∀ c ∈ first, Q c) ∧ Transition.Along (visitStep w opts)
            (fun s v => dueAt w s v = true → Q (visitCall w s v)) s' pairs) := by
        intro m
        obtain ⟨more, hmore, hiff⟩ := ih m s'
        refine ⟨first ++ more, ?_, ?_⟩
        · rw [hmore, hvisit, List.append_assoc]
        · rw [← hiff, List.forall_mem_append]
      cases result with
      | skipped => simpa using hrest n
      | processed => simpa using hrest (n + 1)
      | caught => simpa using hrest n
      | threw => exact ⟨first, hvisit, by simp⟩

variable (w opts) in
/-- **The tries of a pass** are those of the due visits that are made. -/
theorem calls_processOnceAsync (Q : Post × Nat → Prop) (endpoints : List Endpoint) (s : State) :
    ∃ more, (processOnceAsync w opts endpoints s).2.calls = s.calls ++ more ∧
      ((∀ c ∈ more, Q c) ↔ Transition.Along (visitStep w opts)
        (fun s v => dueAt w s v = true → Q (visitCall w s v))
        (passStart endpoints s) (passVisits opts endpoints s)) := by
  rcases processOnceAsync_cases w opts endpoints s with ⟨hempty, heq⟩ | heq
  · rw [heq, hempty]
    exact ⟨[], (List.append_nil _).symm, by simp [Transition.Along]⟩
  · rw [heq]
    exact calls_processPairs w opts Q _ 0 _

variable (w opts) in
theorem tries_processOnceAsync (Q : Post → Prop) (endpoints : List Endpoint) (s : State) :
    ∃ more, (processOnceAsync w opts endpoints s).2.tries = s.tries ++ more ∧
      ((∀ p ∈ more, Q p) ↔ Transition.Along (visitStep w opts)
        (fun s v => dueAt w s v = true → Q (request v (nextTryNumber s.db v.1.id v.2.id)))
        (passStart endpoints s) (passVisits opts endpoints s)) := by
  obtain ⟨more, hmore, hiff⟩ := calls_processOnceAsync w opts (fun c => Q c.1) endpoints s
  refine ⟨more.map Prod.fst, State.tries_append hmore, ?_⟩
  rw [List.forall_mem_map]
  exact hiff

theorem mem_passVisits {endpoints : List Endpoint} {s : State} {v : Event × Endpoint}
    (h : v ∈ passVisits opts endpoints s) :
    v.1 ∈ (candidates? opts s.db).getD [] ∧ ∃ row ∈ endpoints, v.2 = materialise s.ctx row := by
  obtain ⟨hev, hep⟩ := List.pair_mem_product.mp h
  obtain ⟨row, hrow, heq⟩ := List.mem_map.mp hep
  exact ⟨hev, row, hrow, heq.symm⟩

/-- What every visit of a fault-free pass meets holds along its visits. -/
theorem along_of_trace {good : State → Event × Endpoint → Prop} {pairs : List (Event × Endpoint)}
    {s : State} (h : ∀ x ∈ FoldTrace.trace (deliver w opts) s pairs, good x.1 x.2) :
    Transition.Along (visitStep w opts) good s pairs := by
  induction pairs generalizing s with
  | nil => trivial
  | cons v pairs ih =>
    refine ⟨h (s, v) List.mem_cons_self, fun s' hs' => ih fun x hx => h x ?_⟩
    have hdel : deliver w opts s v = s' := by
      unfold visitStep at hs'
      rw [deliver]
      split at hs'
      · cases hs'
      · cases hs'
        rename_i heq
        rw [heq]
    rw [FoldTrace.trace_cons, hdel]
    exact List.mem_cons_of_mem _ hx

/-- A try of a pass comes from a due visit. -/
theorem exists_due_of_try {endpoints : List Endpoint} {s : State} {more : List Post}
    (hmore : (processOnceAsync w opts endpoints s).2.tries = s.tries ++ more) {p : Post} (hp : p ∈ more) :
    ∃ x ∈ passTrace w opts endpoints s, dueAt w x.1 x.2 = true ∧
      p = request x.2 (nextTryNumber x.1.db x.2.1.id x.2.2.id) := by
  obtain ⟨more', hmore', hiff⟩ := tries_processOnceAsync w opts
    (fun q => ∃ x ∈ passTrace w opts endpoints s, dueAt w x.1 x.2 = true ∧
      q = request x.2 (nextTryNumber x.1.db x.2.1.id x.2.2.id)) endpoints s
  obtain rfl : more' = more := List.append_cancel_left (hmore'.symm.trans hmore)
  exact hiff.mpr (along_of_trace fun x hx hdue => ⟨x, hx, hdue, rfl⟩) p hp

variable (w opts) in
theorem reads_processPairs (pairs : List (Event × Endpoint)) (n : Nat) (s : State) :
    s.reads ≤ (processPairs w opts pairs n s).2.reads :=
  processPairs_rel w opts (R := fun s s' => s.reads ≤ s'.reads) (fun _ => le_rfl) Nat.le_trans
    (fun v s => reads_processPair w opts v s) pairs n s

variable (w opts) in
/-- In the loops no endpoint is queried. -/
theorem tracked_processPairs (pairs : List (Event × Endpoint)) (n : Nat) (s : State) :
    (processPairs w opts pairs n s).2.ctx.endpoints = s.ctx.endpoints :=
  processPairs_rel w opts (R := fun s s' => s'.ctx.endpoints = s.ctx.endpoints) (fun _ => rfl)
    (fun h h' => h'.trans h) (fun v s => tracked_processPair w opts v s) pairs n s

variable (w opts) in
/-- What the visit reads, the loops have read. -/
theorem reads_visit_le (v : Event × Endpoint) (pairs : List (Event × Endpoint)) (n : Nat) (s : State) :
    (processPair w opts v.1 v.2 s).2.reads ≤ (processPairs w opts (v :: pairs) n s).2.reads := by
  rcases processPairs_cons_cases w opts v pairs n s with heq | ⟨m, heq⟩
  · rw [heq]
  · rw [heq]
    exact reads_processPairs w opts pairs m _

end Pass

/-! ## Processed pairs -/

section Processed

variable {w : World} {opts : DeliveryOptions}

theorem dueAt_of_processed {v : Event × Endpoint} {s : State}
    (h : (processPair w opts v.1 v.2 s).1 = .processed) : dueAt w s v = true := by
  by_contra hnot
  obtain ⟨r, -, heq⟩ := processPair_skipped opts (Bool.not_eq_true _ ▸ hnot)
  rw [heq] at h
  cases h

/-- The answer to the request of a processed pair was measured. -/
theorem answers_of_processed {v : Event × Endpoint} {s : State}
    (h : (processPair w opts v.1 v.2 s).1 = .processed) :
    s.answers < (processPair w opts v.1 v.2 s).2.answers := by
  have hdue : isDue s.db v.1.id v.2.id (w.clock s.reads) = true := dueAt_of_processed h
  obtain ⟨r, -, hstat⟩ := getAttemptStateAsync_spec w s v.1.id v.2.id
  simp only [processPair, hstat, hdue, if_true] at h ⊢
  generalize nextOutcome w { s with reads := r } v.1.id v.2.id _ = outcome at h
  cases outcome with
  | response statusCode body =>
    dsimp only at h ⊢
    generalize hs₁ : State.emit (State.emit { s with reads := r } _) .deliveryDuration = s₁ at h
    have hanswered : s₁.answers = s.answers + 1 := by
      rw [← hs₁]
      simp [State.answers, State.emit]
    have hgrows := logGrows_recordResponse w opts v.1.id v.2.id (nextTryNumber s.db v.1.id v.2.id)
      statusCode body s₁
    split at h
    · rename_i hsaved
      rw [if_pos hsaved]
      exact Nat.lt_of_lt_of_le (by omega) hgrows.answers
    · split at h
      · cases h
      · cases h
  | exception typeName =>
    dsimp only at h
    split at h
    · cases h
    · cases h

/-- What every visit keeps and a processed one raises is at least the count of the loops. -/
theorem processed_le {f : State → Nat}
    (hkeep : ∀ (v : Event × Endpoint) s, f s ≤ f (processPair w opts v.1 v.2 s).2)
    (hraise : ∀ (v : Event × Endpoint) s, (processPair w opts v.1 v.2 s).1 = .processed →
      f s < f (processPair w opts v.1 v.2 s).2)
    {pairs : List (Event × Endpoint)} {n m : Nat} {s : State}
    (h : (processPairs w opts pairs n s).1 = .returned m) :
    m + f s ≤ n + f (processPairs w opts pairs n s).2 := by
  induction pairs generalizing n s with
  | nil =>
    cases h
    exact le_rfl
  | cons v pairs ih =>
    have hvisit := hkeep v s
    have hprocessed := hraise v s
    rw [processPairs] at h ⊢
    cases hres : processPair w opts v.1 v.2 s with
    | mk result s' =>
      rw [hres] at h hvisit hprocessed
      cases result with
      | skipped =>
        have := ih h
        dsimp only at hvisit ⊢
        omega
      | caught =>
        have := ih h
        dsimp only at hvisit ⊢
        omega
      | processed =>
        have := ih h
        have hlt := hprocessed rfl
        dsimp only at hlt ⊢
        omega
      | threw => cases h

/-- A pass that returns a count has run the loops, unless the count is zero. -/
theorem returned_processPairs {endpoints : List Endpoint} {s : State} {m : Nat} (hm : 0 < m)
    (h : (processOnceAsync w opts endpoints s).1 = .returned m) :
    processOnceAsync w opts endpoints s =
      processPairs w opts (passVisits opts endpoints s) 0 (passStart endpoints s) := by
  unfold processOnceAsync at h ⊢
  unfold passVisits
  cases hc : candidates? opts s.db with
  | none =>
    rw [hc] at h
    cases h
  | some candidates =>
    rw [hc] at h
    cases candidates with
    | nil =>
      cases h
      omega
    | cons ev evs =>
      dsimp only at h ⊢
      split at h
      · cases h
        omega
      · rename_i hempty
        rw [if_neg hempty]
        rfl

/-- A pass that processed a pair has made a try. -/
theorem exists_try_of_returned {endpoints : List Endpoint} {s : State} {m : Nat} (hm : 0 < m)
    (h : (processOnceAsync w opts endpoints s).1 = .returned m) :
    ∃ more, (processOnceAsync w opts endpoints s).2.tries = s.tries ++ more ∧ more ≠ [] := by
  obtain ⟨more, hmore, -⟩ := calls_processOnceAsync w opts (fun _ => True) endpoints s
  refine ⟨more.map Prod.fst, State.tries_append hmore, fun hnone => ?_⟩
  have hloops := returned_processPairs hm h
  rw [hloops] at h
  have hle := processed_le (f := fun s => s.calls.length) ?_ ?_ h
  · rw [← hloops, hmore, List.map_eq_nil_iff.mp hnone, List.append_nil] at hle
    have hstart : (passStart endpoints s).calls = s.calls := rfl
    rw [hstart] at hle
    omega
  · intro v s
    rw [calls_processPair, List.length_append]
    exact Nat.le_add_right _ _
  · intro v s hres
    rw [(processPair_due w opts (dueAt_of_processed hres)).calls, List.length_append]
    exact Nat.lt_succ_self _

variable (w opts) in
theorem answers_pass (endpoints : List Endpoint) (s : State) :
    s.answers ≤ (processOnceAsync w opts endpoints s).2.answers := by
  rcases processOnceAsync_cases w opts endpoints s with ⟨-, heq⟩ | heq
  · rw [heq]
  · rw [heq]
    exact (logGrows_processPairs w opts _ 0 (passStart endpoints s)).answers

/-- A pass that processed a pair has got an answer. -/
theorem answers_of_returned {endpoints : List Endpoint} {s : State} {m : Nat} (hm : 0 < m)
    (h : (processOnceAsync w opts endpoints s).1 = .returned m) :
    s.answers < (processOnceAsync w opts endpoints s).2.answers := by
  have hloops := returned_processPairs hm h
  rw [hloops] at h ⊢
  have hle := processed_le (f := State.answers)
    (fun v s => (logGrows_processPair w opts v.1 v.2 s).answers)
    (fun v s hres => answers_of_processed hres) h
  have hstart : (passStart endpoints s).answers = s.answers := rfl
  rw [hstart] at hle
  omega

end Processed

end WebhookInbox.Worker
