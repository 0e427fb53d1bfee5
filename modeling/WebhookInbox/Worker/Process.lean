import WebhookInbox.Worker.Retries

/-!
# A worker process, step by step

`processOnceAsync` runs a pass in one go. Here the same pass is cut where the process
touches what it shares with others: the two queries, the query of an attempt state, the
request, and the save. A `Phase` is the place a process has reached in
`ProcessOnceAsync`, with the locals that are live there, and a `Move` takes it to the next
place. `processOnceAsync_moves` says that a pass is such a list of moves.

`processStep` is one action of a run: a move, the end of the process and the start of a
fresh one on the committed database, which may come in any phase, or a write of someone
else. `moved_of_move` is the one case analysis of a move; the invariants of runs are
derived from it.
-/

namespace WebhookInbox.Worker

/-- The locals of `ProcessOnceAsync` in its loops; `rest` are the pairs still to visit. -/
structure Loop where
  candidates : List Event
  endpoints : List Endpoint
  rest : List (Event × Endpoint)
  processed : Nat

inductive Phase where
  /-- Before the candidates query. -/
  | idle
  /-- Before the endpoints query. -/
  | queried (candidates : List Event)
  /-- Before the query of the next pair's attempt state. -/
  | checking (l : Loop)
  /-- The pair is due; before its request. -/
  | sending (l : Loop) (v : Event × Endpoint) (tryNumber : Int)
  /-- The request has been answered or has thrown; before the save. -/
  | recording (l : Loop) (v : Event × Endpoint) (tryNumber : Int) (outcome : HttpOutcome)
  /-- The save of the try block has thrown; before the save of the catch block. -/
  | catching (l : Loop) (v : Event × Endpoint) (tryNumber : Int)
  /-- The save of the catch block has thrown, and with it the pass. -/
  | failed

namespace Phase

def candidates : Phase → List Event
  | .idle => []
  | .queried candidates => candidates
  | .checking l => l.candidates
  | .sending l _ _ => l.candidates
  | .recording l _ _ _ => l.candidates
  | .catching l _ _ => l.candidates
  | .failed => []

/-- The locals, when the process is in the loops. -/
def loop? : Phase → Option Loop
  | .checking l => some l
  | .sending l _ _ => some l
  | .recording l _ _ _ => some l
  | .catching l _ _ => some l
  | _ => none

/-- The due pair whose visit has begun, with the number of its try. -/
def visit? : Phase → Option ((Event × Endpoint) × Int)
  | .sending _ v tryNumber => some (v, tryNumber)
  | .recording _ v tryNumber _ => some (v, tryNumber)
  | .catching _ v tryNumber => some (v, tryNumber)
  | _ => none

/-- The pair of the visit that has begun and the pairs still to visit. -/
def pairs : Phase → List (Event × Endpoint)
  | .checking l => l.rest
  | .sending l v _ => v :: l.rest
  | .recording l v _ _ => v :: l.rest
  | .catching l v _ => v :: l.rest
  | _ => []

/-- The outcome that the next save is about, in the try block or in the catch block. -/
def record? : Phase → Option (Loop × (Event × Endpoint) × Int × HttpOutcome)
  | .recording l v tryNumber outcome => some (l, v, tryNumber, outcome)
  | .catching l v tryNumber => some (l, v, tryNumber, .exception "DbUpdateException".toList)
  | _ => none

/-- A save of the pass has thrown. -/
def saveFailed : Phase → Bool
  | .catching _ _ _ => true
  | .failed => true
  | _ => false

theorem of_record? {phase : Phase} {l : Loop} {v : Event × Endpoint} {tryNumber : Int}
    {outcome : HttpOutcome} (h : phase.record? = some (l, v, tryNumber, outcome)) :
    phase.candidates = l.candidates ∧ phase.loop? = some l ∧ phase.pairs = v :: l.rest ∧
      phase.visit? = some (v, tryNumber) := by
  cases phase with
  | recording =>
    cases h
    exact ⟨rfl, rfl, rfl, rfl⟩
  | catching =>
    cases h
    exact ⟨rfl, rfl, rfl, rfl⟩
  | _ => cases h

theorem recording_of_record? {phase : Phase} {l : Loop} {v : Event × Endpoint} {tryNumber : Int}
    {outcome : HttpOutcome} (h : phase.record? = some (l, v, tryNumber, outcome))
    (hfailed : phase.saveFailed = false) : phase = .recording l v tryNumber outcome := by
  cases phase with
  | recording =>
    cases h
    rfl
  | catching => cases hfailed
  | _ => cases h

theorem record?_of_visit? {phase : Phase} (h : phase.visit? = none) : phase.record? = none := by
  cases phase with
  | recording => cases h
  | catching => cases h
  | _ => rfl

theorem candidates_of_loop? {phase : Phase} {l : Loop} (h : phase.loop? = some l) :
    phase.candidates = l.candidates := by
  cases phase with
  | checking => cases h; rfl
  | sending => cases h; rfl
  | recording => cases h; rfl
  | catching => cases h; rfl
  | _ => cases h

end Phase

structure Process where
  state : State
  phase : Phase := .idle

inductive Move where
  | queryCandidates
  /-- The endpoints query answers with these rows in this order. -/
  | queryEndpoints (rows : List Endpoint)
  | next

/-- The rest of the try block after the request, or the catch block. -/
def recordOutcome (w : World) (opts : DeliveryOptions) (v : Event × Endpoint) (tryNumber : Int)
    (outcome : HttpOutcome) (s : State) : Bool × State :=
  match outcome with
  | .response statusCode body =>
    recordResponse w opts v.1.id v.2.id tryNumber statusCode body (s.emit .deliveryDuration)
  | .exception typeName => recordException w opts v.1.id v.2.id tryNumber typeName s

def request (v : Event × Endpoint) (tryNumber : Int) : Post where
  eventId := v.1.id
  endpointId := v.2.id
  tryNumber := tryNumber
  url := v.2.url
  payload := v.1.payload

/-- To the next place in the loops. -/
def proceed (w : World) (opts : DeliveryOptions) (s : State) : Phase → Option Process
  | .checking l =>
    match l.rest with
    | [] => some { state := s }
    | v :: rest =>
      let ((due, nextTryNumber), s) := getAttemptStateAsync w s v.1.id v.2.id
      if due then some { state := s, phase := .sending { l with rest } v nextTryNumber }
      else some { state := s, phase := .checking { l with rest } }
  | .sending l v tryNumber =>
    some { state := s.emit (.post (request v tryNumber) (nextSends w s v.1.id v.2.id tryNumber))
           phase := .recording l v tryNumber (nextOutcome w s v.1.id v.2.id tryNumber) }
  | .recording l v tryNumber outcome =>
    let (saved, s) := recordOutcome w opts v tryNumber outcome s
    match saved, outcome with
    | true, .response _ _ =>
      some { state := s, phase := .checking { l with processed := l.processed + 1 } }
    | true, .exception _ => some { state := s, phase := .checking l }
    | false, .response _ _ => some { state := s, phase := .catching l v tryNumber }
    | false, .exception _ => some { state := s, phase := .failed }
  | .catching l v tryNumber =>
    let (saved, s) := recordOutcome w opts v tryNumber (.exception "DbUpdateException".toList) s
    some { state := s, phase := if saved then .checking l else .failed }
  | _ => none

/-- The loop of `DeliveryWorker` calls the next pass when one has returned or thrown. -/
def Process.move (w : World) (opts : DeliveryOptions) (p : Process) : Move → Option Process
  | .queryCandidates =>
    match p.phase with
    | .idle | .failed =>
      match candidates? opts p.state.db with
      | none | some [] => some { p with phase := .idle }
      | some candidates => some { p with phase := .queried candidates }
    | _ => none
  | .queryEndpoints rows =>
    match p.phase with
    | .queried candidates =>
      if rows.Perm (activeEndpoints p.state.db) then
        let endpoints := rows.map (materialise p.state.ctx)
        let state := { p.state with ctx := track p.state.ctx rows }
        if rows.isEmpty then some { state }
        else some
          { state
            phase := .checking
              { candidates, endpoints, rest := candidates.product endpoints, processed := 0 } }
      else none
    | _ => none
  | .next => proceed w opts p.state p.phase

inductive ProcessAction where
  | move (m : Move)
  /-- The process ends, and a fresh one starts on the committed database. -/
  | restart
  | insertEvent (e : Event)
  | saveEndpoint (ep : Endpoint)

def Process.restart (p : Process) : Process := { state := { p.state with ctx := {} } }

def processStep (w : World) (opts : DeliveryOptions) (p : Process) : ProcessAction → Option Process
  | .move m => p.move w opts m
  | .restart => some p.restart
  | .insertEvent e =>
    (p.state.db.events.insertAll? [e]).map fun events =>
      { p with state := { p.state with db := { p.state.db with events } } }
  | .saveEndpoint ep =>
    some { p with state := { p.state with
      db := { p.state.db with endpoints := p.state.db.endpoints.upsert ep } } }

/-- Runs in which a save that throws stops the worker. The catch block would only repeat
the row that is pending already, and the unique index refuses that. -/
def stoppingStep (w : World) (opts : DeliveryOptions) (p : Process) : ProcessAction → Option Process
  | .move m => if p.phase.saveFailed then none else p.move w opts m
  | a => processStep w opts p a

/-! ## The save of a visit -/

/-- The row the visit adds to the change set. -/
def visitRow (w : World) (opts : DeliveryOptions) (v : Event × Endpoint) (tryNumber : Int)
    (outcome : HttpOutcome) (s : State) : DeliveryAttempt :=
  attemptRow opts v.1.id v.2.id tryNumber outcome (w.newGuid s.guids) (w.clock s.reads)
    (w.clock (s.reads + 1))

/-- The status the visit sets on its event. -/
def visitChange (opts : DeliveryOptions) (v : Event × Endpoint) (tryNumber : Int)
    (outcome : HttpOutcome) : Guid × EventStatus :=
  (v.1.id, resultStatus opts outcome tryNumber)

/-- The two ends of the save: what was pending is committed with the row, or the row is
pending as well. -/
inductive RecordEnd (w : World) (opts : DeliveryOptions) (v : Event × Endpoint) (tryNumber : Int)
    (outcome : HttpOutcome) (s s' : State) : Bool → Prop
  | committed
      (hsave : w.saveFails s.saves.length = false)
      (hrows : s'.db.attempts.rows =
        s.db.attempts.rows ++ (s.ctx.added ++ [visitRow w opts v tryNumber outcome s]))
      (hevents : s'.db.events =
        (s.ctx.statuses ++ [visitChange opts v tryNumber outcome]).foldl writeStatus s.db.events)
      (hendpoints : s'.db.endpoints = s.db.endpoints)
      (hadded : s'.ctx.added = []) (hstatuses : s'.ctx.statuses = [])
      (hsaves : s'.saves = s.saves ++ [true]) (hcalls : s'.calls = s.calls)
      (hreads : s.reads < s'.reads) : RecordEnd w opts v tryNumber outcome s s' true
  | rejected
      (hfail : w.saveFails s.saves.length = true ∨
        s.db.attempts.insertAll? (s.ctx.added ++ [visitRow w opts v tryNumber outcome s]) = none)
      (hdb : s'.db = s.db)
      (hadded : s'.ctx.added = s.ctx.added ++ [visitRow w opts v tryNumber outcome s])
      (hstatuses : s'.ctx.statuses = s.ctx.statuses ++ [visitChange opts v tryNumber outcome])
      (hsaves : s'.saves = s.saves ++ [false]) (hcalls : s'.calls = s.calls)
      (hreads : s.reads < s'.reads) : RecordEnd w opts v tryNumber outcome s s' false

section RecordEnd

variable {w : World} {opts : DeliveryOptions} {v : Event × Endpoint} {n : Int} {outcome : HttpOutcome}
variable {s s' : State} {saved : Bool}

theorem RecordEnd.calls (h : RecordEnd w opts v n outcome s s' saved) : s'.calls = s.calls := by
  cases h with
  | committed _ _ _ _ _ _ _ hcalls => exact hcalls
  | rejected _ _ _ _ _ hcalls => exact hcalls

/-- `SentAt` is a read of the clock. -/
theorem RecordEnd.reads_lt (h : RecordEnd w opts v n outcome s s' saved) : s.reads < s'.reads := by
  cases h with
  | committed _ _ _ _ _ _ _ _ hreads => exact hreads
  | rejected _ _ _ _ _ _ hreads => exact hreads

end RecordEnd

theorem recordOutcome_eq (w : World) (opts : DeliveryOptions) (v : Event × Endpoint) (tryNumber : Int)
    (outcome : HttpOutcome) (s : State) :
    ∃ s₁, s₁.db = s.db ∧ s₁.ctx = s.ctx ∧ s₁.saves = s.saves ∧ s₁.calls = s.calls ∧
      s₁.deliveries = s.deliveries ∧ s.reads < s₁.reads ∧
      recordOutcome w opts v tryNumber outcome s =
        persist w (visitRow w opts v tryNumber outcome s) (resultStatus opts outcome tryNumber)
          (deliveryResult opts outcome tryNumber) s₁ := by
  cases outcome with
  | response statusCode body =>
    obtain ⟨r, hr, heq⟩ := recordResponse_eq w opts v.1.id v.2.id tryNumber statusCode body
      (s.emit .deliveryDuration)
    refine ⟨{ s.emit .deliveryDuration with reads := r, guids := s.guids + 1 }, rfl, rfl,
      ?_, ?_, ?_, hr, heq⟩
    · simp [State.saves, State.emit]
    · simp [State.calls, State.emit]
    · simp [State.deliveries, State.emit]
  | exception typeName =>
    obtain ⟨r, hr, heq⟩ := recordException_eq w opts v.1.id v.2.id tryNumber typeName s
    exact ⟨{ s with reads := r, guids := s.guids + 1 }, rfl, rfl, rfl, rfl, rfl, hr, heq⟩

theorem tracked_persist (w : World) (row : DeliveryAttempt) (status : EventStatus)
    (label : DeliveryResult) (s : State) :
    (persist w row status label s).2.ctx.endpoints = s.ctx.endpoints := by
  have hsave : (saveChangesAsync w ((s.add row).setStatus row.eventId status)).2.ctx.endpoints =
      s.ctx.endpoints := by
    unfold saveChangesAsync
    split
    · rfl
    · split
      · rfl
      · rfl
  unfold persist
  dsimp only
  split
  · exact hsave
  · exact hsave

/-- Recording an outcome queries no endpoint. -/
theorem tracked_recordOutcome (w : World) (opts : DeliveryOptions) (v : Event × Endpoint) (n : Int)
    (outcome : HttpOutcome) (s : State) :
    (recordOutcome w opts v n outcome s).2.ctx.endpoints = s.ctx.endpoints := by
  obtain ⟨s₁, -, hctx, -, -, -, -, heq⟩ := recordOutcome_eq w opts v n outcome s
  rw [heq, tracked_persist, hctx]

theorem persist_eq_of_rejected {w : World} (row : DeliveryAttempt) (status : EventStatus)
    (label : DeliveryResult) {s : State} (h : w.saveFails s.saves.length = true ∨
      s.db.attempts.insertAll? (s.ctx.added ++ [row]) = none) :
    persist w row status label s =
      (false, ((s.add row).setStatus row.eventId status).emit (.save false)) := by
  have hres := saveChangesAsync_rejected (w := w) (s := (s.add row).setStatus row.eventId status) h
  unfold persist
  rw [hres]
  rfl

theorem reads_persist (w : World) (row : DeliveryAttempt) (status : EventStatus)
    (label : DeliveryResult) (s : State) : (persist w row status label s).2.reads = s.reads := by
  have hsave : (saveChangesAsync w ((s.add row).setStatus row.eventId status)).2.reads = s.reads := by
    unfold saveChangesAsync
    split
    · rfl
    · split
      · rfl
      · rfl
  unfold persist
  dsimp only
  split
  · exact hsave
  · exact hsave

theorem recordOutcome_end (w : World) (opts : DeliveryOptions) (v : Event × Endpoint)
    (tryNumber : Int) (outcome : HttpOutcome) (s : State) :
    RecordEnd w opts v tryNumber outcome s (recordOutcome w opts v tryNumber outcome s).2
      (recordOutcome w opts v tryNumber outcome s).1 := by
  obtain ⟨s₁, hdb, hctx, hsaves, hcalls, -, hreads, heq⟩ :=
    recordOutcome_eq w opts v tryNumber outcome s
  generalize deliveryResult opts outcome tryNumber = label at heq
  have hreads' := reads_persist w (visitRow w opts v tryNumber outcome s)
    (resultStatus opts outcome tryNumber) label s₁
  rw [heq]
  by_cases hfail : w.saveFails s.saves.length = true ∨
      s.db.attempts.insertAll? (s.ctx.added ++ [visitRow w opts v tryNumber outcome s]) = none
  · have hrej := persist_eq_of_rejected (w := w) (s := s₁)
      (visitRow w opts v tryNumber outcome s) (resultStatus opts outcome tryNumber) label
      (by rw [hsaves, hdb, hctx]; exact hfail)
    rw [hrej]
    refine .rejected hfail hdb ?_ ?_ ?_ ?_ hreads
    · rw [← hctx]; rfl
    · rw [← hctx]; rfl
    · rw [← hsaves]; simp [State.saves, State.emit, State.add, State.setStatus]
    · rw [← hcalls]; simp [State.calls, State.emit, State.add, State.setStatus]
  · rw [not_or, Bool.not_eq_true, ← Ne, Option.ne_none_iff_isSome] at hfail
    obtain ⟨hres, hcom⟩ := persist_committed (w := w) (s := s₁)
      (visitRow w opts v tryNumber outcome s) (resultStatus opts outcome tryNumber) label
      (by rw [hsaves]; exact hfail.1) (by rw [hdb, hctx]; exact hfail.2)
    rw [hres]
    refine .committed hfail.1 ?_ ?_ ?_ hcom.added hcom.statuses ?_ ?_ ?_
    · rw [hcom.rows, hdb, hctx]
    · rw [hcom.events, hdb, hctx]; rfl
    · rw [hcom.endpoints, hdb]
    · rw [← hsaves, State.saves, hcom.log, List.filterMap_append]; rfl
    · rw [← hcalls, State.calls, hcom.log, List.filterMap_append]; exact List.append_nil _
    · rw [hreads']; exact hreads

/-! ## What a move does -/

/-- The loops differ at most in the count of processed pairs. -/
structure Loop.Same (l l' : Loop) : Prop where
  candidates : l'.candidates = l.candidates
  endpoints : l'.endpoints = l.endpoints
  rest : l'.rest = l.rest

inductive Moved (w : World) (opts : DeliveryOptions) (p : Process) : Move → Process → Prop
  /-- There is no candidate or no endpoint, or the loops have ended. -/
  | rested (m : Move) (s' : State) (hvisit : p.phase.visit? = none) (hdb : s'.db = p.state.db)
      (hadded : s'.ctx.added = p.state.ctx.added) (hstatuses : s'.ctx.statuses = p.state.ctx.statuses) (hlog : s'.log = p.state.log)
      (hreads : s'.reads = p.state.reads) : Moved w opts p m { state := s' }
  | queried (candidates : List Event) (hvisit : p.phase.visit? = none)
      (hcandidates : candidates? opts p.state.db = some candidates) :
      Moved w opts p .queryCandidates { p with phase := .queried candidates }
  | loaded (candidates : List Event) (rows : List Endpoint) (hphase : p.phase = .queried candidates)
      (hperm : rows.Perm (activeEndpoints p.state.db)) :
      Moved w opts p (.queryEndpoints rows)
        { state := { p.state with ctx := track p.state.ctx rows }
          phase := .checking
            { candidates, endpoints := rows.map (materialise p.state.ctx)
              rest := candidates.product (rows.map (materialise p.state.ctx)), processed := 0 } }
  | skipped (l : Loop) (v : Event × Endpoint) (rest : List (Event × Endpoint)) (r : Nat)
      (hphase : p.phase = .checking l) (hrest : l.rest = v :: rest)
      (hdue : dueAt w p.state v = false) (hreads : p.state.reads ≤ r) :
      Moved w opts p .next
        { state := { p.state with reads := r }, phase := .checking { l with rest } }
  | due (l : Loop) (v : Event × Endpoint) (rest : List (Event × Endpoint)) (r : Nat)
      (hphase : p.phase = .checking l) (hrest : l.rest = v :: rest)
      (hdue : dueAt w p.state v = true) (hreads : p.state.reads ≤ r) :
      Moved w opts p .next
        { state := { p.state with reads := r }
          phase := .sending { l with rest } v (nextTryNumber p.state.db v.1.id v.2.id) }
  | sent (l : Loop) (v : Event × Endpoint) (tryNumber : Int)
      (hphase : p.phase = .sending l v tryNumber) :
      Moved w opts p .next
        { state := p.state.emit
            (.post (request v tryNumber) (nextSends w p.state v.1.id v.2.id tryNumber))
          phase := .recording l v tryNumber (nextOutcome w p.state v.1.id v.2.id tryNumber) }
  | recorded (l l' : Loop) (v : Event × Endpoint) (tryNumber : Int) (outcome : HttpOutcome) (s' : State)
      (hphase : p.phase.record? = some (l, v, tryNumber, outcome)) (hsame : l.Same l')
      (hend : RecordEnd w opts v tryNumber outcome p.state s' true) :
      Moved w opts p .next { state := s', phase := .checking l' }
  | thrown (l : Loop) (v : Event × Endpoint) (tryNumber : Int) (outcome : HttpOutcome) (s' : State)
      (phase : Phase) (hphase : p.phase.record? = some (l, v, tryNumber, outcome))
      (hthrown : phase = .catching l v tryNumber ∨ phase = .failed)
      (hend : RecordEnd w opts v tryNumber outcome p.state s' false) :
      Moved w opts p .next { state := s', phase }

theorem moved_of_proceed {w : World} {opts : DeliveryOptions} {p p' : Process}
    (h : proceed w opts p.state p.phase = some p') : Moved w opts p .next p' := by
  obtain ⟨s, phase⟩ := p
  cases phase with
  | idle => cases h
  | queried candidates => cases h
  | failed => cases h
  | checking l =>
    simp only [proceed] at h
    cases hrest : l.rest with
    | nil =>
      rw [hrest] at h
      cases h
      exact .rested _ _ rfl rfl rfl rfl rfl rfl
    | cons v rest =>
      obtain ⟨r, hr, heq⟩ := getAttemptStateAsync_spec w s v.1.id v.2.id
      simp only [hrest, heq] at h
      cases hdue : isDue s.db v.1.id v.2.id (w.clock s.reads) with
      | false =>
        rw [hdue] at h
        cases h
        exact .skipped l v rest r rfl hrest hdue hr
      | true =>
        rw [hdue] at h
        cases h
        exact .due l v rest r rfl hrest hdue hr
  | sending l v tryNumber =>
    cases h
    exact .sent l v tryNumber rfl
  | recording l v tryNumber outcome =>
    have hend := recordOutcome_end w opts v tryNumber outcome s
    simp only [proceed] at h
    cases hres : recordOutcome w opts v tryNumber outcome s with
    | mk saved s' =>
      rw [hres] at h hend
      cases saved with
      | true =>
        cases outcome with
        | response statusCode body =>
          cases h
          exact .recorded l _ v tryNumber _ s' rfl ⟨rfl, rfl, rfl⟩ hend
        | exception typeName =>
          cases h
          exact .recorded l l v tryNumber _ s' rfl ⟨rfl, rfl, rfl⟩ hend
      | false =>
        cases outcome with
        | response statusCode body =>
          cases h
          exact .thrown l v tryNumber _ s' _ rfl (Or.inl rfl) hend
        | exception typeName =>
          cases h
          exact .thrown l v tryNumber _ s' _ rfl (Or.inr rfl) hend
  | catching l v tryNumber =>
    have hend := recordOutcome_end w opts v tryNumber (.exception "DbUpdateException".toList) s
    simp only [proceed] at h
    cases hres : recordOutcome w opts v tryNumber (.exception "DbUpdateException".toList) s with
    | mk saved s' =>
      rw [hres] at h hend
      cases saved with
      | true =>
        cases h
        exact .recorded l l v tryNumber _ s' rfl ⟨rfl, rfl, rfl⟩ hend
      | false =>
        cases h
        exact .thrown l v tryNumber _ s' _ rfl (Or.inr rfl) hend

/-- All that a move can do. -/
theorem moved_of_move {w : World} {opts : DeliveryOptions} {p p' : Process} {m : Move}
    (h : p.move w opts m = some p') : Moved w opts p m p' := by
  cases m with
  | queryCandidates =>
    have hvisit : p.phase.visit? = none := by
      unfold Process.move at h
      cases hphase : p.phase <;> simp only [hphase, reduceCtorEq] at h <;> rfl
    have hres : (match candidates? opts p.state.db with
        | none | some [] => some { p with phase := .idle }
        | some candidates => some { p with phase := .queried candidates }) = some p' := by
      unfold Process.move at h
      cases hphase : p.phase <;> simp only [hphase, reduceCtorEq] at h <;> exact h
    split at hres
    · cases hres
      exact .rested _ _ hvisit rfl rfl rfl rfl rfl
    · cases hres
      exact .rested _ _ hvisit rfl rfl rfl rfl rfl
    · rename_i candidates _ hcandidates
      cases hres
      exact .queried candidates hvisit hcandidates
  | queryEndpoints rows =>
    unfold Process.move at h
    obtain ⟨s, phase⟩ := p
    cases phase with
    | queried candidates =>
      dsimp only at h
      split at h
      · rename_i hperm
        split at h
        · cases h
          exact .rested _ _ rfl rfl rfl rfl rfl rfl
        · cases h
          exact .loaded candidates rows rfl hperm
      · cases h
    | _ => cases h
  | next => exact moved_of_proceed h

/-! ## What every process keeps -/

/-- The events a pass works on are stored, and its pairs are those of its two lists. -/
structure Process.Grounded (p : Process) : Prop where
  stored : ∀ ev ∈ p.phase.candidates, ev.id ∈ p.state.db.events.rows.map Event.id
  placed : ∀ l, p.phase.loop? = some l → ∀ v ∈ p.phase.pairs, v.1 ∈ l.candidates ∧ v.2 ∈ l.endpoints

theorem ids_foldl_writeStatus (changes : List (Guid × EventStatus)) (events : Table Event Guid Event.id) :
    (changes.foldl writeStatus events).rows.map Event.id = events.rows.map Event.id := by
  induction changes generalizing events with
  | nil => rfl
  | cons change changes ih => rw [List.foldl_cons, ih, ids_writeStatus]

theorem RecordEnd.ids {w : World} {opts : DeliveryOptions} {v : Event × Endpoint} {tryNumber : Int}
    {outcome : HttpOutcome} {s s' : State} {saved : Bool}
    (h : RecordEnd w opts v tryNumber outcome s s' saved) :
    s'.db.events.rows.map Event.id = s.db.events.rows.map Event.id := by
  cases h with
  | committed _ _ hevents => rw [hevents, ids_foldl_writeStatus]
  | rejected _ hdb => rw [hdb]

theorem Process.grounded_start (s : State) : Process.Grounded { state := s } :=
  ⟨fun _ h => absurd h List.not_mem_nil, fun _ h => by cases h⟩

theorem Moved.ids {w : World} {opts : DeliveryOptions} {p p' : Process} {m : Move}
    (h : Moved w opts p m p') :
    p'.state.db.events.rows.map Event.id = p.state.db.events.rows.map Event.id := by
  cases h with
  | rested _ s' _ hdb => rw [hdb]
  | recorded _ _ _ _ _ _ _ _ hend => exact hend.ids
  | thrown _ _ _ _ _ _ _ _ hend => exact hend.ids
  | _ => rfl

theorem Moved.grounded {w : World} {opts : DeliveryOptions} {p p' : Process} {m : Move}
    (h : Moved w opts p m p') (hp : p.Grounded) : p'.Grounded := by
  have hids := h.ids
  have hkept : ∀ candidates, p.phase.candidates = candidates →
      ∀ ev ∈ candidates, ev.id ∈ p'.state.db.events.rows.map Event.id := by
    intro candidates heq ev hev
    rw [hids]
    exact hp.stored ev (heq ▸ hev)
  cases h with
  | rested _ s' => exact Process.grounded_start s'
  | queried candidates _ hcandidates =>
    refine ⟨fun ev hev => ?_, fun l hl => by cases hl⟩
    exact List.mem_map_of_mem (mem_candidates (by rw [hcandidates]; exact hev)).1
  | loaded candidates rows hphase hperm =>
    refine ⟨hkept candidates (by rw [hphase]; rfl), fun l hl v hv => ?_⟩
    cases hl
    exact List.pair_mem_product.mp hv
  | skipped l v rest r hphase hrest =>
    refine ⟨hkept l.candidates (by rw [hphase]; rfl), fun l' hl' u hu => ?_⟩
    cases hl'
    apply hp.placed l (by rw [hphase]; rfl)
    rw [hphase, Phase.pairs, hrest]
    exact List.mem_cons_of_mem v hu
  | due l v rest r hphase hrest =>
    refine ⟨hkept l.candidates (by rw [hphase]; rfl), fun l' hl' u hu => ?_⟩
    cases hl'
    apply hp.placed l (by rw [hphase]; rfl)
    rw [hphase, Phase.pairs, hrest]
    exact hu
  | sent l v tryNumber hphase =>
    refine ⟨hkept l.candidates (by rw [hphase]; rfl), fun l' hl' u hu => ?_⟩
    cases hl'
    apply hp.placed l (by rw [hphase]; rfl)
    rw [hphase]
    exact hu
  | recorded l l' v tryNumber outcome s' hphase hsame hend =>
    obtain ⟨hcand, hloop, hpairs, -⟩ := Phase.of_record? hphase
    refine ⟨hkept l'.candidates (hcand.trans hsame.candidates.symm), fun l'' hl'' u hu => ?_⟩
    cases hl''
    rw [hsame.candidates, hsame.endpoints]
    apply hp.placed l hloop
    rw [hpairs, ← hsame.rest]
    exact List.mem_cons_of_mem v hu
  | thrown l v tryNumber outcome s' phase hphase hthrown hend =>
    obtain ⟨hcand, hloop, hpairs, -⟩ := Phase.of_record? hphase
    rcases hthrown with rfl | rfl
    · refine ⟨hkept l.candidates hcand, fun l' hl' u hu => ?_⟩
      cases hl'
      apply hp.placed l hloop
      rw [hpairs]
      exact hu
    · exact ⟨fun _ h => absurd h List.not_mem_nil, fun _ h => by cases h⟩

/-- Events are never deleted, so a process stays grounded when others write. -/
theorem Process.Grounded.mono {p p' : Process} (h : p.Grounded) (hphase : p'.phase = p.phase)
    (hids : p.state.db.events.rows.map Event.id ⊆ p'.state.db.events.rows.map Event.id) :
    p'.Grounded := by
  refine ⟨fun ev hev => hids (h.stored ev (hphase ▸ hev)), fun l hl v hv => ?_⟩
  rw [hphase] at hl hv
  exact h.placed l hl v hv

theorem insertEvent_eq_some {w : World} {opts : DeliveryOptions} {p p' : Process} {ev : Event}
    (h : processStep w opts p (.insertEvent ev) = some p') :
    ev.id ∉ p.state.db.events.rows.map Event.id ∧
      ∃ events, events.rows = p.state.db.events.rows ++ [ev] ∧
        p' = { p with state := { p.state with db := { p.state.db with events } } } := by
  obtain ⟨events, hevents, rfl⟩ := Option.map_eq_some_iff.mp h
  have hrows := Table.insertAll?_eq_some_iff.mp hevents
  refine ⟨fun hmem => ?_, events, hrows, rfl⟩
  obtain ⟨other, hother, hid⟩ := List.mem_map.mp hmem
  have hnew := (Table.insertAll?_isSome_iff.mp (by rw [hevents]; rfl)).2 ev (List.mem_singleton_self ev)
  exact hnew other hother hid

theorem elim_status_writeStatus {events : Table Event Guid Event.id} {e : Guid}
    (h : e ∈ events.rows.map Event.id) (change : Guid × EventStatus) :
    ((writeStatus events change).find? e).elim .new Event.status =
      if change.1 = e then change.2 else (events.find? e).elim .new Event.status := by
  obtain ⟨ev, hev, rfl⟩ := List.mem_map.mp h
  rw [writeStatus, Table.find?_modify, (Table.find?_eq_some_iff _).mpr ⟨hev, rfl⟩]
  by_cases hid : change.1 = ev.id
  · simp [hid]
  · simp [hid, Ne.symm hid]

theorem statusOf_insertEvent {w : World} {opts : DeliveryOptions} {p p' : Process} {ev : Event}
    {e : Guid} (he : e ∈ p.state.db.events.rows.map Event.id)
    (h : processStep w opts p (.insertEvent ev) = some p') :
    statusOf p'.state.db e = statusOf p.state.db e := by
  obtain ⟨-, events, hrows, rfl⟩ := insertEvent_eq_some h
  exact statusOf_insert he hrows

theorem Process.grounded_step {w : World} {opts : DeliveryOptions} {p p' : Process}
    {a : ProcessAction} (hp : p.Grounded) (h : processStep w opts p a = some p') : p'.Grounded := by
  cases a with
  | move m => exact (moved_of_move h).grounded hp
  | restart =>
    cases h
    exact Process.grounded_start _
  | insertEvent ev =>
    obtain ⟨-, events, hrows, rfl⟩ := insertEvent_eq_some h
    refine hp.mono rfl ?_
    rw [hrows, List.map_append]
    exact List.subset_append_left _ _
  | saveEndpoint ep =>
    cases h
    exact hp.mono rfl (List.Subset.refl _)

/-! ## A pass is a list of moves -/

/-- The process gets from one state to the other by moves of its own. -/
def Reaches (w : World) (opts : DeliveryOptions) (p p' : Process) : Prop :=
  ∃ moves, Transition.run (Process.move w opts) p moves = some p'

theorem Reaches.refl (w : World) (opts : DeliveryOptions) (p : Process) : Reaches w opts p p := ⟨[], rfl⟩

theorem Reaches.head {w : World} {opts : DeliveryOptions} {p p'' : Process} (m : Move) (p' : Process)
    (h : p.move w opts m = some p') (h' : Reaches w opts p' p'') : Reaches w opts p p'' := by
  obtain ⟨moves, hmoves⟩ := h'
  exact ⟨m :: moves, Transition.run_cons.mpr ⟨p', h, hmoves⟩⟩

/-- Where the process stands after the visit of a pair. -/
def PairEnd.phase (l : Loop) : PairEnd → Phase
  | .skipped => .checking l
  | .processed => .checking { l with processed := l.processed + 1 }
  | .caught => .checking l
  | .threw => .failed

theorem processPair_moves (w : World) (opts : DeliveryOptions) (l : Loop) (v : Event × Endpoint)
    (rest : List (Event × Endpoint)) (hrest : l.rest = v :: rest) (s : State) :
    Reaches w opts { state := s, phase := .checking l }
      { state := (processPair w opts v.1 v.2 s).2
        phase := (processPair w opts v.1 v.2 s).1.phase { l with rest } } := by
  obtain ⟨r, -, hstat⟩ := getAttemptStateAsync_spec w s v.1.id v.2.id
  generalize hn : nextTryNumber s.db v.1.id v.2.id = n at hstat
  cases hdue : isDue s.db v.1.id v.2.id (w.clock s.reads) with
  | false =>
    rw [hdue] at hstat
    refine .head .next { state := { s with reads := r }, phase := .checking { l with rest } } ?_ ?_
    · simp [Process.move, proceed, hrest, hstat]
    · simp only [processPair, hstat, Bool.false_eq_true, if_false]
      exact .refl w opts _
  | true =>
    rw [hdue] at hstat
    refine .head .next
      { state := { s with reads := r }, phase := .sending { l with rest } v n } ?_ ?_
    · simp [Process.move, proceed, hrest, hstat]
    refine .head .next _ rfl ?_
    simp only [processPair, hstat, if_true]
    have hsend : nextOutcome w { s with reads := r } v.1.id v.2.id n = nextOutcome w s v.1.id v.2.id n := rfl
    rw [hsend]
    generalize nextSends w { s with reads := r } v.1.id v.2.id n = sends
    cases nextOutcome w s v.1.id v.2.id n with
    | response statusCode body =>
      dsimp only
      cases hrec : recordResponse w opts v.1.id v.2.id n statusCode body
          ((State.emit { s with reads := r } (.post (request v n) sends)).emit .deliveryDuration) with
      | mk saved s₁ =>
        have hmove : recordOutcome w opts v n (.response statusCode body)
            (State.emit { s with reads := r } (.post (request v n) sends)) = (saved, s₁) := hrec
        unfold request at hrec
        rw [hrec]
        cases saved with
        | true =>
          refine .head .next { state := s₁, phase := PairEnd.phase { l with rest } .processed } ?_
            (.refl w opts _)
          simp [Process.move, proceed, hmove, PairEnd.phase]
        | false =>
          refine .head .next { state := s₁, phase := .catching { l with rest } v n } ?_ ?_
          · simp [Process.move, proceed, hmove]
          dsimp only
          cases hcatch : recordException w opts v.1.id v.2.id n "DbUpdateException".toList s₁ with
          | mk saved s₂ =>
            refine .head .next _ ?_ (.refl w opts _)
            simp only [Process.move, proceed, recordOutcome, hcatch]
            cases saved <;> rfl
    | exception typeName =>
      dsimp only
      cases hrec : recordException w opts v.1.id v.2.id n typeName
          (State.emit { s with reads := r } (.post (request v n) sends)) with
      | mk saved s₁ =>
        have hmove : recordOutcome w opts v n (.exception typeName)
            (State.emit { s with reads := r } (.post (request v n) sends)) = (saved, s₁) := hrec
        unfold request at hrec
        rw [hrec]
        refine .head .next _ ?_ (.refl w opts _)
        simp only [Process.move, proceed, hmove]
        cases saved <;> rfl

theorem Reaches.trans {w : World} {opts : DeliveryOptions} {p p' p'' : Process}
    (h : Reaches w opts p p') (h' : Reaches w opts p' p'') : Reaches w opts p p'' := by
  obtain ⟨moves, hmoves⟩ := h
  induction moves generalizing p with
  | nil =>
    cases hmoves
    exact h'
  | cons m moves ih =>
    obtain ⟨p₁, hm, hrest⟩ := Transition.run_cons.mp hmoves
    exact (ih hrest).head m _ hm

theorem processPairs_moves (w : World) (opts : DeliveryOptions) (l : Loop) (n : Nat) (s : State) :
    ∃ phase, (phase = .idle ∨ phase = .failed) ∧
      Reaches w opts { state := s, phase := .checking l }
        { state := (processPairs w opts l.rest n s).2, phase } := by
  generalize hpairs : l.rest = pairs
  induction pairs generalizing l n s with
  | nil =>
    refine ⟨.idle, Or.inl rfl, .head .next _ ?_ (.refl w opts _)⟩
    simp [Process.move, proceed, hpairs, processPairs]
  | cons v rest ih =>
    have hvisit := processPair_moves w opts l v rest hpairs s
    rw [processPairs]
    cases hres : processPair w opts v.1 v.2 s with
    | mk result s' =>
      rw [hres] at hvisit
      cases result with
      | skipped =>
        obtain ⟨phase, hphase, hrest⟩ := ih { l with rest } n s' rfl
        exact ⟨phase, hphase, hvisit.trans hrest⟩
      | processed =>
        obtain ⟨phase, hphase, hrest⟩ :=
          ih { l with rest, processed := l.processed + 1 } (n + 1) s' rfl
        exact ⟨phase, hphase, hvisit.trans hrest⟩
      | caught =>
        obtain ⟨phase, hphase, hrest⟩ := ih { l with rest } n s' rfl
        exact ⟨phase, hphase, hvisit.trans hrest⟩
      | threw => exact ⟨.failed, Or.inr rfl, hvisit⟩

/-- **A pass that nothing interrupts** is a list of moves of the process. -/
theorem processOnceAsync_moves (w : World) (opts : DeliveryOptions) (endpoints : List Endpoint)
    (s : State) (hperm : endpoints.Perm (activeEndpoints s.db)) :
    ∃ phase, (phase = .idle ∨ phase = .failed) ∧
      Reaches w opts { state := s } { state := (processOnceAsync w opts endpoints s).2, phase } := by
  unfold processOnceAsync
  cases hc : candidates? opts s.db with
  | none =>
    refine ⟨.idle, Or.inl rfl, .head .queryCandidates _ ?_ (.refl w opts _)⟩
    simp [Process.move, hc]
  | some candidates =>
    cases candidates with
    | nil =>
      refine ⟨.idle, Or.inl rfl, .head .queryCandidates _ ?_ (.refl w opts _)⟩
      simp [Process.move, hc]
    | cons ev evs =>
      have hquery : Process.move w opts { state := s } .queryCandidates =
          some { state := s, phase := .queried (ev :: evs) } := by simp [Process.move, hc]
      have hload : Process.move w opts { state := s, phase := .queried (ev :: evs) }
          (.queryEndpoints endpoints) = if endpoints.isEmpty then some { state := passStart endpoints s }
            else some
              { state := passStart endpoints s
                phase := .checking
                  { candidates := ev :: evs, endpoints := endpoints.map (materialise s.ctx)
                    rest := (ev :: evs).product (endpoints.map (materialise s.ctx)), processed := 0 } } := by
        simp only [Process.move, if_pos hperm]
        rfl
      dsimp only
      cases hempty : endpoints.isEmpty with
      | true =>
        rw [hempty] at hload
        exact ⟨.idle, Or.inl rfl, .head _ _ hquery (.head _ _ hload (.refl w opts _))⟩
      | false =>
        rw [hempty] at hload
        obtain ⟨phase, hphase, hloops⟩ := processPairs_moves w opts
          { candidates := ev :: evs, endpoints := endpoints.map (materialise s.ctx)
            rest := (ev :: evs).product (endpoints.map (materialise s.ctx)), processed := 0 } 0
          (passStart endpoints s)
        exact ⟨phase, hphase, .head _ _ hquery (.head _ _ hload hloops)⟩

/-! ## A pass that is cut short -/

/-- The working endpoint is visited first, up to its save. -/
def cutActions : List ProcessAction :=
  [.move .queryCandidates, .move (.queryEndpoints [workingEndpoint, failingEndpoint]),
    .move .next, .move .next, .move .next]

/-- The process ends there, and a fresh one takes over. -/
def interruptedActions : List ProcessAction := cutActions ++ [.restart]

theorem interruptedRun_isSome :
    (Transition.run (processStep splitWorld {}) { state := splitStart } interruptedActions).isSome := by
  decide

end WebhookInbox.Worker
