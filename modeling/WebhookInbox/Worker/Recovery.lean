import WebhookInbox.Worker.Pass

/-!
# After a failed save

A save that fails leaves its row in the change set, and the next save sends it again. The
worker survives that as long as the change set never holds two rows of one (event,
endpoint, try): such a change set is refused by every later save.

The catch block adds a second row for the try of the visit, so a save that fails in the
try block ends there at once; and a pair whose row is still pending must not be visited
again, since its next try number is still that of the pending row. `VisitRecovers` is the
condition on a visit and `recovered_run_iff` says that it is exact, for a run in which one
save fails.
-/

namespace WebhookInbox.Worker

def HttpOutcome.isResponse : HttpOutcome → Bool
  | .response _ _ => true
  | .exception _ => false

def Post.key (p : Post) : Guid × Guid × Int := (p.eventId, p.endpointId, p.tryNumber)

/-- The key of the row a visit adds. -/
def tryKey (s : State) (v : Event × Endpoint) : Guid × Guid × Int :=
  (v.1.id, v.2.id, nextTryNumber s.db v.1.id v.2.id)

/-- What the request of a visit comes to. -/
def visitOutcome (w : World) (s : State) (v : Event × Endpoint) : HttpOutcome :=
  nextOutcome w s v.1.id v.2.id (nextTryNumber s.db v.1.id v.2.id)

/-- The `k`-th save fails for an outside reason, and no other. -/
def World.FailsOnce (w : World) (k : Nat) : Prop := ∀ n, w.saveFails n = true ↔ n = k

/-- The effects after the first save that failed. -/
def afterFailure (log : List Effect) : List Effect := (log.dropWhile fun e => e ≠ .save false).tail

/-- Every later save commits, and every later request has exactly one row. -/
structure Recovered (s : State) : Prop where
  commits : .save false ∉ afterFailure s.log
  recorded : ∀ p sends, .post p sends ∈ afterFailure s.log → ∃! a, a ∈ s.db.attempts.rows ∧ a.key = p.key

/-- The save of an answered request does not fail, and no row of the same try is pending. -/
def VisitRecovers (w : World) (s : State) (v : Event × Endpoint) : Prop :=
  dueAt w s v = true →
    ((visitOutcome w s v).isResponse = true → w.saveFails s.saves.length = false) ∧
      tryKey s v ∉ s.ctx.added.map DeliveryAttempt.key

/-! ## One visit -/

/-- The change set could be committed. -/
def Sendable (s : State) : Prop := (s.db.attempts.insertAll? s.ctx.added).isSome

theorem sendable_iff {s : State} :
    Sendable s ↔ (s.ctx.added.map DeliveryAttempt.key).Nodup ∧
      ∀ b ∈ s.ctx.added, ∀ a ∈ s.db.attempts.rows, a.key ≠ b.key :=
  Table.insertAll?_isSome_iff

theorem insertAll?_concat_isSome {s : State} (hs : Sendable s) {row : DeliveryAttempt}
    (hnew : ∀ a ∈ s.db.attempts.rows, a.key ≠ row.key)
    (hpend : row.key ∉ s.ctx.added.map DeliveryAttempt.key) :
    (s.db.attempts.insertAll? (s.ctx.added ++ [row])).isSome := by
  obtain ⟨hnd, hfresh⟩ := sendable_iff.mp hs
  rw [Table.insertAll?_isSome_iff, List.map_append, List.map_singleton, ← List.concat_eq_append,
    List.nodup_concat]
  refine ⟨⟨hpend, hnd⟩, fun b hb => ?_⟩
  rcases List.mem_append.mp hb with hb | hb
  · exact hfresh b hb
  · rw [List.mem_singleton.mp hb]
    exact hnew

theorem insertAll?_concat_eq_none {t : Table DeliveryAttempt (Guid × Guid × Int) DeliveryAttempt.key}
    {added : List DeliveryAttempt} {row : DeliveryAttempt}
    (hpend : row.key ∈ added.map DeliveryAttempt.key) : t.insertAll? (added ++ [row]) = none := by
  rw [← Option.not_isSome_iff_eq_none, Table.insertAll?_isSome_iff, List.map_append,
    List.map_singleton, ← List.concat_eq_append, List.nodup_concat]
  exact fun h => h.1.1 hpend

theorem tryKey_fresh {s : State} {v : Event × Endpoint} {a : DeliveryAttempt}
    (ha : a ∈ s.db.attempts.rows) : a.key ≠ tryKey s v := by
  intro h
  simp only [DeliveryAttempt.key, tryKey, Prod.mk.injEq] at h
  have := nextTry_fresh (mem_pairRows.mpr ⟨ha, h.1, h.2.1⟩)
  omega

/-- The three ways the visit of a due pair ends. -/
inductive VisitEnd (w : World) (s : State) (v : Event × Endpoint) (result : PairEnd) (s' : State) : Prop
  /-- The save commits the pending rows and the row of the visit. -/
  | committed (row : DeliveryAttempt) (p : Post) (sends : Nat) (effects : List Effect)
      (hsave : w.saveFails s.saves.length = false)
      (hpend : tryKey s v ∉ s.ctx.added.map DeliveryAttempt.key)
      (hresult : result ≠ .threw) (hrow : row.key = tryKey s v) (hp : p.key = tryKey s v)
      (hrows : s'.db.attempts.rows = s.db.attempts.rows ++ (s.ctx.added ++ [row]))
      (hadded : s'.ctx.added = []) (hlog : s'.log = s.log ++ .post p sends :: effects)
      (heffects : .save false ∉ effects ∧ ∀ q n, .post q n ∉ effects)
  /-- The save of the catch block fails after the request has thrown. -/
  | pending (row : DeliveryAttempt) (p : Post) (sends : Nat)
      (hfail : w.saveFails s.saves.length = true ∨ tryKey s v ∈ s.ctx.added.map DeliveryAttempt.key)
      (hout : (visitOutcome w s v).isResponse = false)
      (hresult : result = .threw) (hrow : row.key = tryKey s v)
      (hdb : s'.db = s.db) (hadded : s'.ctx.added = s.ctx.added ++ [row])
      (hlog : s'.log = s.log ++ [.post p sends, .save false])
  /-- The save of the try block fails, and then that of the catch block. -/
  | poisoned (p : Post) (sends : Nat)
      (hfail : w.saveFails s.saves.length = true ∨ tryKey s v ∈ s.ctx.added.map DeliveryAttempt.key)
      (hout : (visitOutcome w s v).isResponse = true)
      (hresult : result = .threw)
      (hlog : s'.log = s.log ++ [.post p sends, .deliveryDuration, .save false, .save false])

/-- The save of a visit, made in a state that agrees with the one before the visit. -/
theorem persist_visit {w : World} {s : State} (s₁ : State) {v : Event × Endpoint} {row : DeliveryAttempt}
    (status : EventStatus) (label : DeliveryResult) (hs : Sendable s) (hrow : row.key = tryKey s v)
    (hdb : s₁.db = s.db) (hctx : s₁.ctx = s.ctx) (hsaves : s₁.saves = s.saves) :
    (w.saveFails s.saves.length = false ∧ tryKey s v ∉ s.ctx.added.map DeliveryAttempt.key ∧
        (persist w row status label s₁).1 = true ∧
        Committed row status label s₁ (persist w row status label s₁).2) ∨
      ((w.saveFails s.saves.length = true ∨ tryKey s v ∈ s.ctx.added.map DeliveryAttempt.key) ∧
        (persist w row status label s₁).1 = false ∧
        Rejected row s₁ (persist w row status label s₁).2) := by
  by_cases hfail : w.saveFails s.saves.length = true ∨ tryKey s v ∈ s.ctx.added.map DeliveryAttempt.key
  · refine Or.inr ⟨hfail, persist_rejected _ _ ?_⟩
    rw [hsaves, hdb, hctx]
    exact hfail.imp_right fun h => insertAll?_concat_eq_none (hrow ▸ h)
  · rw [not_or, Bool.not_eq_true] at hfail
    refine Or.inl ⟨hfail.1, hfail.2, persist_committed _ _ _ (by rw [hsaves]; exact hfail.1) ?_⟩
    rw [hdb, hctx]
    exact insertAll?_concat_isSome hs (fun a ha => hrow ▸ tryKey_fresh ha) (hrow ▸ hfail.2)

/-- The catch block cannot save while a row of its try is pending. -/
theorem recordException_rejected (w : World) (opts : DeliveryOptions) {e p : Guid} {n : Int}
    (typeName : Text) {s : State} (hpend : (e, p, n) ∈ s.ctx.added.map DeliveryAttempt.key) :
    (recordException w opts e p n typeName s).1 = false ∧
      (recordException w opts e p n typeName s).2.log = s.log ++ [.save false] := by
  obtain ⟨r, -, hrec⟩ := recordException_eq w opts e p n typeName s
  generalize hrow : attemptRow opts e p n (.exception typeName) _ _ _ = row at hrec
  have hkey : row.key = (e, p, n) := by rw [← hrow]; rfl
  have hnone : s.db.attempts.insertAll? (s.ctx.added ++ [row]) = none :=
    insertAll?_concat_eq_none (hkey ▸ hpend)
  obtain ⟨hres, hrej⟩ := persist_rejected (w := w) (s := { s with reads := r, guids := s.guids + 1 })
    (resultStatus opts (.exception typeName) n) (deliveryResult opts (.exception typeName) n)
    (Or.inr hnone)
  rw [hrec]
  exact ⟨hres, hrej.log⟩

/-- The visit whose save commits: `pre` is what follows the request before the save. -/
theorem VisitEnd.of_committed {w : World} {s s₁ s' : State} {v : Event × Endpoint} {result : PairEnd}
    {row : DeliveryAttempt} {status : EventStatus} {label : DeliveryResult} {p : Post} {sends : Nat}
    {pre : List Effect}
    (hcom : Committed row status label s₁ s') (hsave : w.saveFails s.saves.length = false)
    (hpend : tryKey s v ∉ s.ctx.added.map DeliveryAttempt.key) (hresult : result ≠ .threw)
    (hrow : row.key = tryKey s v) (hp : p.key = tryKey s v) (hdb : s₁.db = s.db) (hctx : s₁.ctx = s.ctx)
    (hlog : s₁.log = s.log ++ .post p sends :: pre)
    (hpre : .save false ∉ pre ∧ ∀ q n, .post q n ∉ pre) : VisitEnd w s v result s' := by
  refine .committed row p sends (pre ++ [.save true, .deliveriesTotal label]) hsave hpend hresult hrow hp
    ?_ hcom.added ?_ ?_
  · rw [hcom.rows, hdb, hctx]
  · rw [hcom.log, hlog, List.append_assoc]
    rfl
  · simp [hpre.1, hpre.2]

theorem processPair_end {w : World} (opts : DeliveryOptions) {s : State} {v : Event × Endpoint}
    (hs : Sendable s) (hdue : dueAt w s v = true) :
    VisitEnd w s v (processPair w opts v.1 v.2 s).1 (processPair w opts v.1 v.2 s).2 := by
  obtain ⟨r, hr, heq⟩ := getAttemptStateAsync_spec w s v.1.id v.2.id
  unfold dueAt at hdue
  have hkey : tryKey s v = (v.1.id, v.2.id, nextTryNumber s.db v.1.id v.2.id) := rfl
  have hvout : visitOutcome w s v =
      nextOutcome w { s with reads := r } v.1.id v.2.id (nextTryNumber s.db v.1.id v.2.id) := rfl
  generalize hn : nextTryNumber s.db v.1.id v.2.id = n at heq hkey hvout
  simp only [processPair, heq, hdue, if_true]
  generalize nextSends w { s with reads := r } v.1.id v.2.id n = sends
  generalize nextOutcome w { s with reads := r } v.1.id v.2.id n = outcome at hvout
  generalize hp : ({ eventId := v.1.id, endpointId := v.2.id, tryNumber := n
                     url := v.2.url, payload := v.1.payload } : Post) = p
  have hpkey : p.key = tryKey s v := by rw [hkey, ← hp]; rfl
  cases outcome with
  | response statusCode body =>
    dsimp only
    generalize hs₁ : State.emit (State.emit { s with reads := r } (.post p sends)) .deliveryDuration = s₁
    have hlog₁ : s₁.log = s.log ++ [.post p sends, .deliveryDuration] := by
      rw [← hs₁]
      simp [State.emit]
    have hsaves₁ : s₁.saves = s.saves := by simp [State.saves, hlog₁]
    have hdb₁ : s₁.db = s.db := by rw [← hs₁]; rfl
    have hctx₁ : s₁.ctx = s.ctx := by rw [← hs₁]; rfl
    obtain ⟨r₁, -, hrec⟩ := recordResponse_eq w opts v.1.id v.2.id n statusCode body s₁
    generalize deliveryResult opts (.response statusCode body) n = label at hrec
    generalize hrow : attemptRow opts v.1.id v.2.id n (.response statusCode body) _ _ _ = row at hrec
    have hrowkey : row.key = tryKey s v := by rw [hkey, ← hrow]; rfl
    rcases persist_visit (w := w) { s₁ with reads := r₁, guids := s₁.guids + 1 }
        (resultStatus opts (.response statusCode body) n) label hs hrowkey hdb₁ hctx₁ hsaves₁ with
      ⟨hsave, hpend, hres, hcom⟩ | ⟨hfail, hres, hrej⟩
    · rw [hrec]
      simp only [hres, if_true]
      exact .of_committed hcom hsave hpend PairEnd.noConfusion hrowkey hpkey hdb₁ hctx₁ hlog₁ (by simp)
    · rw [hrec]
      simp only [hres, Bool.false_eq_true, if_false]
      generalize (persist w row (resultStatus opts (.response statusCode body) n) label
        { s₁ with reads := r₁, guids := s₁.guids + 1 }).2 = s₂ at hrej
      obtain ⟨hres₂, hlog₂⟩ := recordException_rejected w opts (e := v.1.id) (p := v.2.id) (n := n)
        "DbUpdateException".toList (s := s₂) (by rw [hrej.added, ← hkey, ← hrowkey]; simp)
      simp only [hres₂, Bool.false_eq_true, if_false]
      refine .poisoned p sends hfail (by rw [hvout]; rfl) rfl ?_
      rw [hlog₂, hrej.log]
      show s₁.log ++ _ ++ _ = _
      rw [hlog₁, List.append_assoc, List.append_assoc]
      rfl
  | exception typeName =>
    dsimp only
    generalize hs₁ : State.emit { s with reads := r } (.post p sends) = s₁
    have hlog₁ : s₁.log = s.log ++ [.post p sends] := by
      rw [← hs₁]
      rfl
    have hsaves₁ : s₁.saves = s.saves := by simp [State.saves, hlog₁]
    have hdb₁ : s₁.db = s.db := by rw [← hs₁]; rfl
    have hctx₁ : s₁.ctx = s.ctx := by rw [← hs₁]; rfl
    obtain ⟨r₁, -, hrec⟩ := recordException_eq w opts v.1.id v.2.id n typeName s₁
    generalize deliveryResult opts (.exception typeName) n = label at hrec
    generalize hrow : attemptRow opts v.1.id v.2.id n (.exception typeName) _ _ _ = row at hrec
    have hrowkey : row.key = tryKey s v := by rw [hkey, ← hrow]; rfl
    rcases persist_visit (w := w) { s₁ with reads := r₁, guids := s₁.guids + 1 }
        (resultStatus opts (.exception typeName) n) label hs hrowkey hdb₁ hctx₁ hsaves₁ with
      ⟨hsave, hpend, hres, hcom⟩ | ⟨hfail, hres, hrej⟩
    · rw [hrec]
      simp only [hres, if_true]
      exact .of_committed hcom hsave hpend PairEnd.noConfusion hrowkey hpkey hdb₁ hctx₁ hlog₁ (by simp)
    · rw [hrec]
      simp only [hres, Bool.false_eq_true, if_false]
      refine .pending row p sends hfail (by rw [hvout]; rfl) rfl hrowkey ?_ ?_ ?_
      · rw [hrej.db, hdb₁]
      · rw [hrej.added, hctx₁]
      · rw [hrej.log, hlog₁, List.append_assoc]
        rfl

theorem processPair_skipped_eq {w : World} (opts : DeliveryOptions) {s : State} {v : Event × Endpoint}
    (hdue : dueAt w s v = false) :
    ∃ r, processPair w opts v.1 v.2 s = (.skipped, { s with reads := r }) := by
  obtain ⟨r, -, heq⟩ := processPair_skipped opts hdue
  exact ⟨r, heq⟩

/-! ## The log after the failure -/

theorem afterFailure_append_of_mem {log effects : List Effect} (h : .save false ∈ log) :
    afterFailure (log ++ effects) = afterFailure log ++ effects := by
  unfold afterFailure
  induction log with
  | nil => cases h
  | cons e log ih =>
    by_cases he : e = .save false
    · simp [he]
    · have hmem : Effect.save false ∈ log := by
        rcases List.mem_cons.mp h with h | h
        · exact absurd h.symm he
        · exact h
      simpa [he] using ih hmem

theorem afterFailure_append_of_not_mem {log : List Effect} (effects : List Effect) (h : .save false ∉ log) :
    afterFailure (log ++ effects) = afterFailure effects := by
  unfold afterFailure
  induction log with
  | nil => rfl
  | cons e log ih =>
    rw [List.mem_cons, not_or] at h
    simpa [Ne.symm h.1] using ih h.2

theorem afterFailure_of_not_mem {log : List Effect} (h : .save false ∉ log) : afterFailure log = [] := by
  have happ := afterFailure_append_of_not_mem [] h
  rwa [List.append_nil] at happ

/-- A later state's log extends an earlier one's. -/
def LogGrows (s s' : State) : Prop := s.log <+: s'.log

theorem LogGrows.trans {s s' s'' : State} (h : LogGrows s s') (h' : LogGrows s' s'') : LogGrows s s'' :=
  List.IsPrefix.trans h h'

theorem LogGrows.answers {s s' : State} (h : LogGrows s s') : s.answers ≤ s'.answers :=
  h.sublist.count_le _

theorem logGrows_emit (s : State) (e : Effect) : LogGrows s (s.emit e) := List.prefix_append _ _

theorem logGrows_persist (w : World) (row : DeliveryAttempt) (status : EventStatus)
    (label : DeliveryResult) (s : State) : LogGrows s (persist w row status label s).2 := by
  have hsave : ∀ t : State, LogGrows t (saveChangesAsync w t).2 := by
    intro t
    unfold saveChangesAsync
    split
    · exact logGrows_emit t _
    · split
      · exact logGrows_emit t _
      · exact logGrows_emit t _
  have hstart := hsave ((s.add row).setStatus row.eventId status)
  unfold persist
  cases hres : saveChangesAsync w ((s.add row).setStatus row.eventId status) with
  | mk saved s₁ =>
    rw [hres] at hstart
    cases saved with
    | true => exact LogGrows.trans hstart (logGrows_emit s₁ _)
    | false => exact hstart

theorem logGrows_recordException (w : World) (opts : DeliveryOptions) (eventId endpointId : Guid)
    (tryNumber : Int) (typeName : Text) (s : State) :
    LogGrows s (recordException w opts eventId endpointId tryNumber typeName s).2 := by
  obtain ⟨r, -, heq⟩ := recordException_eq w opts eventId endpointId tryNumber typeName s
  rw [heq]
  exact logGrows_persist w _ _ _ { s with reads := r, guids := s.guids + 1 }

theorem logGrows_recordResponse (w : World) (opts : DeliveryOptions) (eventId endpointId : Guid)
    (tryNumber : Int) (statusCode : Nat) (body : Utf16) (s : State) :
    LogGrows s (recordResponse w opts eventId endpointId tryNumber statusCode body s).2 := by
  obtain ⟨r, -, heq⟩ := recordResponse_eq w opts eventId endpointId tryNumber statusCode body s
  rw [heq]
  exact logGrows_persist w _ _ _ { s with reads := r, guids := s.guids + 1 }

theorem logGrows_processPair (w : World) (opts : DeliveryOptions) (ev : Event) (ep : Endpoint)
    (s : State) : LogGrows s (processPair w opts ev ep s).2 := by
  obtain ⟨r, -, heq⟩ := getAttemptStateAsync_spec w s ev.id ep.id
  simp only [processPair, heq]
  split
  · split
    · rename_i statusCode body _
      generalize hs₁ : State.emit (State.emit { s with reads := r } _) .deliveryDuration = s₁
      have hgrow : LogGrows s s₁ := by
        rw [← hs₁]
        exact (logGrows_emit { s with reads := r } _).trans (logGrows_emit _ _)
      have hrec := hgrow.trans
        (logGrows_recordResponse w opts ev.id ep.id (nextTryNumber s.db ev.id ep.id) statusCode body s₁)
      split
      · exact hrec
      · exact hrec.trans (logGrows_recordException w opts _ _ _ _ _)
    · exact (logGrows_emit { s with reads := r } _).trans (logGrows_recordException w opts _ _ _ _ _)
  · exact List.prefix_rfl

theorem logGrows_processPairs (w : World) (opts : DeliveryOptions) (pairs : List (Event × Endpoint))
    (n : Nat) (s : State) : LogGrows s (processPairs w opts pairs n s).2 :=
  processPairs_rel w opts (R := LogGrows) (fun _ => List.prefix_rfl) LogGrows.trans
    (fun v s => logGrows_processPair w opts v.1 v.2 s) pairs n s

theorem logGrows_step {w : World} {opts : DeliveryOptions} {s s' : State} {a : Action}
    (h : step w opts s a = some s') : LogGrows s s' := by
  cases a with
  | pass endpoints =>
    obtain ⟨-, rfl⟩ := step_pass_eq_some_iff.mp h
    rcases processOnceAsync_cases w opts endpoints s with ⟨-, heq⟩ | heq
    · rw [heq]
      exact List.prefix_rfl
    · rw [heq]
      exact logGrows_processPairs w opts _ 0 (passStart endpoints s)
  | insertEvent e =>
    have hlog := (step_other (fun _ => Action.noConfusion) h).2.2
    exact ⟨[], by rw [hlog, List.append_nil]⟩
  | saveEndpoint ep =>
    have hlog := (step_other (fun _ => Action.noConfusion) h).2.2
    exact ⟨[], by rw [hlog, List.append_nil]⟩

/-! ## The invariant -/

/-- Before the failure nothing is pending. After it, the run has recovered so far. In both
cases the change set could be committed. -/
structure Recovering (k : Nat) (s : State) : Prop where
  sendable : Sendable s
  phase : (.save false ∉ s.log ∧ s.ctx.added = []) ∨
    (.save false ∈ s.log ∧ k < s.saves.length ∧ Recovered s)

/-- A second save has failed. -/
def Stuck (s : State) : Prop := .save false ∈ afterFailure s.log

theorem Recovering.recovered {k : Nat} {s : State} (h : Recovering k s) : Recovered s := by
  rcases h.phase with ⟨hnone, -⟩ | ⟨-, -, hrec⟩
  · have hnil := afterFailure_of_not_mem hnone
    exact ⟨by rw [hnil]; exact List.not_mem_nil, fun p sends hp => by rw [hnil] at hp; cases hp⟩
  · exact hrec

theorem Stuck.mono {s s' : State} (h : Stuck s) (hlog : LogGrows s s') : Stuck s' := by
  obtain ⟨effects, heq⟩ := hlog
  have hmem : .save false ∈ s.log := by
    by_contra hnone
    rw [Stuck, afterFailure_of_not_mem hnone] at h
    cases h
  rw [Stuck, ← heq, afterFailure_append_of_mem hmem]
  exact List.mem_append_left _ h

/-- What the invariant reads. -/
theorem Recovering.congr {k : Nat} {s s' : State} (h : Recovering k s)
    (hattempts : s'.db.attempts = s.db.attempts) (hadded : s'.ctx.added = s.ctx.added)
    (hlog : s'.log = s.log) : Recovering k s' := by
  have hsaves : s'.saves = s.saves := by rw [State.saves, State.saves, hlog]
  refine ⟨?_, ?_⟩
  · rw [Sendable, hattempts, hadded]
    exact h.sendable
  · rw [hlog, hadded, hsaves]
    exact h.phase.imp_right fun ⟨hmem, hk, hrec⟩ => ⟨hmem, hk,
      ⟨by rw [hlog]; exact hrec.commits, by rw [hlog, hattempts]; exact hrec.recorded⟩⟩

theorem existsUnique_row {t : Table DeliveryAttempt (Guid × Guid × Int) DeliveryAttempt.key}
    {a : DeliveryAttempt} (ha : a ∈ t.rows) : ∃! b, b ∈ t.rows ∧ b.key = a.key :=
  ⟨a, ⟨ha, rfl⟩, fun _ hb => t.eq_of_key_eq hb.1 ha hb.2⟩

/-- Further effects without a failed save keep what is recorded, if their requests are. -/
theorem Recovered.append {s s' : State} {effects : List Effect} (h : Recovered s)
    (hmem : .save false ∈ s.log) (hlog : s'.log = s.log ++ effects) (hsaves : .save false ∉ effects)
    (hrows : ∀ a ∈ s.db.attempts.rows, a ∈ s'.db.attempts.rows)
    (htries : ∀ p sends, .post p sends ∈ effects → ∃ a ∈ s'.db.attempts.rows, a.key = p.key) :
    Recovered s' where
  commits := by
    rw [hlog, afterFailure_append_of_mem hmem, List.mem_append, not_or]
    exact ⟨h.commits, hsaves⟩
  recorded p sends hp := by
    rw [hlog, afterFailure_append_of_mem hmem, List.mem_append] at hp
    rcases hp with hp | hp
    · obtain ⟨a, ⟨ha, hkey⟩, -⟩ := h.recorded p sends hp
      exact hkey ▸ existsUnique_row (hrows a ha)
    · obtain ⟨a, ha, hkey⟩ := htries p sends hp
      exact hkey ▸ existsUnique_row ha

theorem recovered_of_afterFailure_eq_nil {s : State} (h : afterFailure s.log = []) : Recovered s where
  commits := by
    rw [h]
    exact List.not_mem_nil
  recorded p sends hp := by
    rw [h] at hp
    cases hp

section Visit

variable {w : World} {k : Nat} (hk : w.FailsOnce k) (opts : DeliveryOptions) {s : State}
variable {v : Event × Endpoint}
include hk

/-- A visit that meets the condition keeps the invariant. -/
theorem visit_recovering (h : Recovering k s) (hgood : VisitRecovers w s v) :
    Recovering k (processPair w opts v.1 v.2 s).2 := by
  cases hdue : dueAt w s v with
  | false =>
    obtain ⟨r, heq⟩ := processPair_skipped_eq opts hdue
    rw [heq]
    exact h.congr rfl rfl rfl
  | true =>
    obtain ⟨hanswered, hnew⟩ := hgood hdue
    have hend := processPair_end opts h.sendable hdue
    generalize (processPair w opts v.1 v.2 s).1 = result at hend
    generalize (processPair w opts v.1 v.2 s).2 = s' at hend
    cases hend with
    | committed row p sends effects hsave _ _ hrow hp hrows hadded hlog heffects =>
      have hsend : Sendable s' := sendable_iff.mpr (by simp [hadded])
      refine ⟨hsend, ?_⟩
      have hnotin : Effect.save false ∉ Effect.post p sends :: effects := by simp [heffects.1]
      rcases h.phase with ⟨hnone, -⟩ | ⟨hmem, hlt, hrec⟩
      · refine Or.inl ⟨?_, hadded⟩
        rw [hlog, List.mem_append, not_or]
        exact ⟨hnone, hnotin⟩
      · have hkeep : ∀ a ∈ s.db.attempts.rows, a ∈ s'.db.attempts.rows := by
          intro a ha
          rw [hrows]
          exact List.mem_append_left _ ha
        refine Or.inr ⟨by rw [hlog]; exact List.mem_append_left _ hmem, ?_,
          hrec.append hmem hlog hnotin hkeep ?_⟩
        · rw [State.saves, hlog, List.filterMap_append, List.length_append]
          exact Nat.lt_add_right _ hlt
        · intro q n hq
          rcases List.mem_cons.mp hq with hq | hq
          · cases hq
            exact ⟨row, by rw [hrows]; simp, hrow.trans hp.symm⟩
          · exact absurd hq (heffects.2 q n)
    | pending row p sends hfail _ _ hrow hdb hadded hlog =>
      have hkfail : w.saveFails s.saves.length = true := hfail.resolve_right hnew
      have hlen := (hk _).mp hkfail
      have hphase : .save false ∉ s.log ∧ s.ctx.added = [] := by
        rcases h.phase with hphase | ⟨-, hlt, -⟩
        · exact hphase
        · omega
      refine ⟨?_, Or.inr ⟨by rw [hlog]; simp, ?_, ?_⟩⟩
      · rw [Sendable, hdb, hadded]
        exact insertAll?_concat_isSome h.sendable (fun a ha => hrow ▸ tryKey_fresh ha) (hrow ▸ hnew)
      · rw [State.saves, hlog, List.filterMap_append, List.length_append]
        show k < s.saves.length + 1
        omega
      · apply recovered_of_afterFailure_eq_nil
        rw [hlog, afterFailure_append_of_not_mem _ hphase.1]
        rfl
    | poisoned p sends hfail hout _ hlog =>
      rw [hanswered hout] at hfail
      rcases hfail with hfail | hfail
      · cases hfail
      · exact absurd hfail hnew

omit hk in
/-- Any other visit ends with a second failed save. -/
theorem visit_stuck (h : Recovering k s) (hbad : ¬ VisitRecovers w s v) :
    Stuck (processPair w opts v.1 v.2 s).2 := by
  have hdue : dueAt w s v = true := by
    by_contra hdue
    exact hbad fun h => absurd h hdue
  have hend := processPair_end opts h.sendable hdue
  generalize (processPair w opts v.1 v.2 s).1 = result at hend
  generalize (processPair w opts v.1 v.2 s).2 = s' at hend
  cases hend with
  | committed row p sends effects hsave hpend => exact absurd (fun _ => ⟨fun _ => hsave, hpend⟩) hbad
  | pending row p sends hfail hout _ hrow hdb hadded hlog =>
    have hpend : tryKey s v ∈ s.ctx.added.map DeliveryAttempt.key := by
      by_contra hnew
      refine hbad fun _ => ⟨fun hresp => ?_, hnew⟩
      rw [hout] at hresp
      cases hresp
    rcases h.phase with ⟨-, hempty⟩ | ⟨hmem, -, -⟩
    · rw [hempty] at hpend
      cases hpend
    · rw [Stuck, hlog, afterFailure_append_of_mem hmem]
      simp
  | poisoned p sends hfail hout _ hlog =>
    by_cases hmem : .save false ∈ s.log
    · rw [Stuck, hlog, afterFailure_append_of_mem hmem]
      simp
    · rw [Stuck, hlog, afterFailure_append_of_not_mem _ hmem]
      simp [afterFailure]

end Visit

/-! ## Passes and runs -/

/-- The step from one visit of a pass to the next; a visit that throws ends the pass. -/
def visitStep (w : World) (opts : DeliveryOptions) (s : State) (v : Event × Endpoint) : Option State :=
  match processPair w opts v.1 v.2 s with
  | (.threw, _) => none
  | (_, s') => some s'

/-- Every visit the pass makes meets the condition. -/
def PassRecovers (w : World) (opts : DeliveryOptions) (endpoints : List Endpoint) (s : State) : Prop :=
  Transition.Along (visitStep w opts) (VisitRecovers w) (passStart endpoints s)
    (passVisits opts endpoints s)

def Recovers (w : World) (opts : DeliveryOptions) (s : State) : Action → Prop
  | .pass endpoints => PassRecovers w opts endpoints s
  | .insertEvent _ => True
  | .saveEndpoint _ => True

section Run

variable {w : World} {k : Nat} (hk : w.FailsOnce k) {opts : DeliveryOptions}
include hk

theorem processPairs_recovering {pairs : List (Event × Endpoint)} {n : Nat} {s : State}
    (h : Recovering k s) (hgood : Transition.Along (visitStep w opts) (VisitRecovers w) s pairs) :
    Recovering k (processPairs w opts pairs n s).2 := by
  induction pairs generalizing n s with
  | nil => exact h
  | cons v pairs ih =>
    have hvisit := visit_recovering hk opts h hgood.1
    have hrest := hgood.2
    unfold visitStep at hrest
    rw [processPairs]
    cases hres : processPair w opts v.1 v.2 s with
    | mk result s₁ =>
      rw [hres] at hvisit hrest
      cases result with
      | skipped => exact ih hvisit (hrest s₁ rfl)
      | processed => exact ih hvisit (hrest s₁ rfl)
      | caught => exact ih hvisit (hrest s₁ rfl)
      | threw => exact hvisit

theorem processPairs_stuck {pairs : List (Event × Endpoint)} {n : Nat} {s : State}
    (h : Recovering k s) (hbad : ¬ Transition.Along (visitStep w opts) (VisitRecovers w) s pairs) :
    Stuck (processPairs w opts pairs n s).2 := by
  induction pairs generalizing n s with
  | nil => exact absurd trivial hbad
  | cons v pairs ih =>
    by_cases hv : VisitRecovers w s v
    · have hvisit := visit_recovering hk opts h hv
      obtain ⟨s₁, hstep, hrest⟩ : ∃ s₁, visitStep w opts s v = some s₁ ∧
          ¬ Transition.Along (visitStep w opts) (VisitRecovers w) s₁ pairs := by
        by_contra hall
        push Not at hall
        exact hbad ⟨hv, hall⟩
      unfold visitStep at hstep
      rw [processPairs]
      cases hres : processPair w opts v.1 v.2 s with
      | mk result s₂ =>
        rw [hres] at hvisit hstep
        cases result with
        | skipped => cases hstep; exact ih hvisit hrest
        | processed => cases hstep; exact ih hvisit hrest
        | caught => cases hstep; exact ih hvisit hrest
        | threw => cases hstep
    · have hvisit := visit_stuck opts h hv
      rw [processPairs]
      cases hres : processPair w opts v.1 v.2 s with
      | mk result s₂ =>
        rw [hres] at hvisit
        cases result with
        | skipped => exact hvisit.mono (logGrows_processPairs w opts pairs n s₂)
        | processed => exact hvisit.mono (logGrows_processPairs w opts pairs (n + 1) s₂)
        | caught => exact hvisit.mono (logGrows_processPairs w opts pairs n s₂)
        | threw => exact hvisit

theorem step_recovering {s s' : State} {a : Action} (h : Recovering k s) (hgood : Recovers w opts s a)
    (hstep : step w opts s a = some s') : Recovering k s' := by
  cases a with
  | pass endpoints =>
    obtain ⟨-, rfl⟩ := step_pass_eq_some_iff.mp hstep
    rcases processOnceAsync_cases w opts endpoints s with ⟨-, heq⟩ | heq
    · rw [heq]
      exact h
    · rw [heq]
      exact processPairs_recovering hk (h.congr rfl rfl rfl) hgood
  | insertEvent e =>
    obtain ⟨hattempts, hctx, hlog⟩ := step_other (fun _ => Action.noConfusion) hstep
    exact h.congr hattempts (by rw [hctx]) hlog
  | saveEndpoint ep =>
    obtain ⟨hattempts, hctx, hlog⟩ := step_other (fun _ => Action.noConfusion) hstep
    exact h.congr hattempts (by rw [hctx]) hlog

theorem step_stuck {s s' : State} {a : Action} (h : Recovering k s) (hbad : ¬ Recovers w opts s a)
    (hstep : step w opts s a = some s') : Stuck s' := by
  cases a with
  | pass endpoints =>
    obtain ⟨-, rfl⟩ := step_pass_eq_some_iff.mp hstep
    rcases processOnceAsync_cases w opts endpoints s with ⟨hempty, -⟩ | heq
    · exact absurd (by rw [Recovers, PassRecovers, hempty]; trivial) hbad
    · rw [heq]
      exact processPairs_stuck hk (h.congr rfl rfl rfl) hbad
  | insertEvent e => exact absurd trivial hbad
  | saveEndpoint ep => exact absurd trivial hbad

/-- **Recovery.** In a run in which the `k`-th save fails and no other fails for an outside
reason, everything after the failure is committed and recorded exactly when every visit of
the run meets the condition. -/
theorem recovered_run_iff (db : Database) (actions : List Action) {s' : State}
    (hrun : Transition.run (step w opts) { db } actions = some s') :
    Recovered s' ↔ Transition.Along (step w opts) (Recovers w opts) { db } actions := by
  have hstart : Recovering k { db } :=
    ⟨sendable_iff.mpr (by simp), Or.inl ⟨List.not_mem_nil, rfl⟩⟩
  have hgood := fun s a s' (h : Recovering k s) (hgood : Recovers w opts s a) (hstep : step w opts s a = some s') =>
    step_recovering hk h hgood hstep
  have hexact : Transition.Along (step w opts) (Recovers w opts) { db } actions ↔ ¬ Stuck s' :=
    Transition.along_iff_not_bad hgood
      (fun _ _ _ h hbad hstep => step_stuck hk h hbad hstep)
      (fun _ _ _ h hstep => h.mono (logGrows_step hstep))
      (fun _ h => h.recovered.commits) hstart hrun
  constructor
  · intro h
    exact hexact.mpr h.commits
  · intro h
    exact (h.invariant hgood hstart hrun).recovered

end Run

/-- Every request is answered 200, and the first save fails. -/
def flakyWorld : World where
  clock _ := 0
  newGuid n := 100 + n
  exchange _ _ _ _ := (Reply.result 200 []).exchange
  saveFails n := n == 0

def flakyEndpoint : Endpoint := { id := 1, url := "https://a.example/hook".toList }

def flakyDatabase : Database where
  events := .single { id := 7, source := "test".toList, receivedAt := 0 }
  endpoints := .single flakyEndpoint
  attempts := ∅

def flakyActions : List Action := [.pass [flakyEndpoint], .pass [flakyEndpoint]]

theorem flakyWorld_failsOnce : flakyWorld.FailsOnce 0 := fun n => by simp [flakyWorld]

theorem flakyRun_isSome :
    (Transition.run (step flakyWorld {}) { db := flakyDatabase } flakyActions).isSome := by
  decide

theorem recovered_run_flaky :
    Recovered ((Transition.run (step flakyWorld {}) { db := flakyDatabase } flakyActions).get
        flakyRun_isSome) ↔
      Transition.Along (step flakyWorld {}) (Recovers flakyWorld {}) { db := flakyDatabase } flakyActions :=
  recovered_run_iff flakyWorld_failsOnce flakyDatabase flakyActions (Option.some_get flakyRun_isSome).symm

/-- The catch block records the try a second time, and from then on no save commits. -/
theorem save_never_recovers :
    flakyWorld.FailsOnce 0 ∧
      ∃ s', Transition.run (step flakyWorld {}) { db := flakyDatabase } flakyActions = some s' ∧
        s'.saves = [false, false, false, false] ∧ ¬ Recovered s' := by
  refine ⟨flakyWorld_failsOnce, _, (Option.some_get flakyRun_isSome).symm, by decide, fun h => ?_⟩
  have hcommits := h.commits
  revert hcommits
  decide

end WebhookInbox.Worker
