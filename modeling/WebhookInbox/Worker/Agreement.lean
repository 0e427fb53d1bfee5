import WebhookInbox.Worker.Process

/-!
# The status of an event and its log

Every save writes an attempt and the status it gives its event in one transaction, and
every status that waits for a save belongs to a row that waits with it. So wherever the
process ends, the committed status of an event is the one its newest committed attempt
gives (`statusAgrees_run`). No assumption is made about the saves: one that throws leaves
its row and its status in the change set, or both are lost with the process.
-/

namespace WebhookInbox.Worker

/-- The attempts of an event, in the order of their commits. -/
def eventRows (db : Database) (eventId : Guid) : List DeliveryAttempt :=
  db.attempts.rows.filter fun a => a.eventId = eventId

/-- The status an attempt gives its event. -/
def rowStatus (opts : DeliveryOptions) (a : DeliveryAttempt) : EventStatus :=
  if a.success then .dispatched else if isExhausted opts a.tryNumber then .deadLetter else .failed

/-- The event is new exactly when it has no attempts, and otherwise its status is that of
its newest attempt. -/
structure StatusAgrees (opts : DeliveryOptions) (db : Database) (eventId : Guid) : Prop where
  new_iff : statusOf db eventId = .new ↔ eventRows db eventId = []
  last : ∀ a, (eventRows db eventId).getLast? = some a → statusOf db eventId = rowStatus opts a

theorem rowStatus_ne_new (opts : DeliveryOptions) (a : DeliveryAttempt) : rowStatus opts a ≠ .new := by
  unfold rowStatus
  split
  · exact EventStatus.noConfusion
  · split <;> exact EventStatus.noConfusion

theorem rowStatus_eq_failed_iff {opts : DeliveryOptions} {a : DeliveryAttempt} :
    rowStatus opts a = .failed ↔ a.success = false ∧ isExhausted opts a.tryNumber = false := by
  unfold rowStatus
  cases a.success <;> cases isExhausted opts a.tryNumber <;> simp

/-- The status a log gives an event. -/
def loggedStatus (opts : DeliveryOptions) (rows : List DeliveryAttempt) (eventId : Guid) : EventStatus :=
  (rows.filter fun a => a.eventId = eventId).getLast?.elim .new (rowStatus opts)

theorem loggedStatus_append (opts : DeliveryOptions) (rows : List DeliveryAttempt) (a : DeliveryAttempt)
    (eventId : Guid) : loggedStatus opts (rows ++ [a]) eventId =
      if a.eventId = eventId then rowStatus opts a else loggedStatus opts rows eventId := by
  unfold loggedStatus
  rw [List.filter_append]
  by_cases h : a.eventId = eventId
  · simp [h]
  · simp [h]

theorem statusAgrees_iff {opts : DeliveryOptions} {db : Database} {eventId : Guid} :
    StatusAgrees opts db eventId ↔ statusOf db eventId = loggedStatus opts db.attempts.rows eventId := by
  have hlogged : loggedStatus opts db.attempts.rows eventId =
      (eventRows db eventId).getLast?.elim .new (rowStatus opts) := rfl
  rw [hlogged]
  constructor
  · intro h
    cases hlast : (eventRows db eventId).getLast? with
    | none => exact h.new_iff.mpr (List.getLast?_eq_none_iff.mp hlast)
    | some a => exact h.last a hlast
  · intro h
    refine ⟨?_, fun a hlast => by rw [h, hlast]; rfl⟩
    rw [h]
    cases hlast : (eventRows db eventId).getLast? with
    | none => exact iff_of_true rfl (List.getLast?_eq_none_iff.mp hlast)
    | some a =>
      refine iff_of_false (rowStatus_ne_new opts a) fun hnil => ?_
      rw [hnil] at hlast
      cases hlast

/-! ## A commit -/

/-- The status change that goes with a row. -/
def rowChange (opts : DeliveryOptions) (a : DeliveryAttempt) : Guid × EventStatus :=
  (a.eventId, rowStatus opts a)

theorem visitChange_eq (w : World) (opts : DeliveryOptions) (v : Event × Endpoint) (tryNumber : Int)
    (outcome : HttpOutcome) (s : State) :
    visitChange opts v tryNumber outcome = rowChange opts (visitRow w opts v tryNumber outcome s) := rfl

/-- Rows and their status changes, applied together, keep the agreement. -/
theorem elim_status_foldl {opts : DeliveryOptions} {e : Guid} (added : List DeliveryAttempt)
    {events : Table Event Guid Event.id} {rows : List DeliveryAttempt}
    (hknown : e ∈ events.rows.map Event.id)
    (h : (events.find? e).elim .new Event.status = loggedStatus opts rows e) :
    (((added.map (rowChange opts)).foldl writeStatus events).find? e).elim .new Event.status =
      loggedStatus opts (rows ++ added) e := by
  induction added generalizing events rows with
  | nil => rw [List.append_nil]; exact h
  | cons a added ih =>
    rw [List.map_cons, List.foldl_cons, List.append_cons]
    apply ih
    · rw [ids_writeStatus]
      exact hknown
    · rw [elim_status_writeStatus hknown, loggedStatus_append, ← h]
      rfl

/-! ## Runs -/

/-- Every pending status belongs to a pending row, and an event that is not stored has
neither committed nor pending attempts. -/
structure Paired (opts : DeliveryOptions) (e : Guid) (p : Process) : Prop where
  grounded : p.Grounded
  pending : p.state.ctx.statuses = p.state.ctx.added.map (rowChange opts)
  unstored : e ∉ p.state.db.events.rows.map Event.id →
    (∀ a ∈ p.state.db.attempts.rows, a.eventId ≠ e) ∧ ∀ a ∈ p.state.ctx.added, a.eventId ≠ e

section Run

variable {w : World} {opts : DeliveryOptions} {e : Guid} {p p' : Process}

/-- The invariant reads the database, the change set and the phase only. -/
theorem Paired.congr (h : Paired opts e p) (hp : p'.Grounded) (hdb : p'.state.db = p.state.db)
    (hadded : p'.state.ctx.added = p.state.ctx.added)
    (hstatuses : p'.state.ctx.statuses = p.state.ctx.statuses) : Paired opts e p' := by
  refine ⟨hp, ?_, ?_⟩
  · rw [hadded, hstatuses]
    exact h.pending
  · rw [hdb, hadded]
    exact h.unstored

theorem visit_stored {l : Loop} {v : Event × Endpoint} {tryNumber : Int} {outcome : HttpOutcome}
    (hp : p.Grounded) (hphase : p.phase.record? = some (l, v, tryNumber, outcome)) :
    v.1.id ∈ p.state.db.events.rows.map Event.id := by
  obtain ⟨hcand, hloop, hpairs, -⟩ := Phase.of_record? hphase
  apply hp.stored
  rw [hcand]
  apply (hp.placed l hloop v _).1
  rw [hpairs]
  exact List.mem_cons_self

theorem Moved.paired {m : Move} (h : Moved w opts p m p') (hp : Paired opts e p) :
    Paired opts e p' := by
  have hground := h.grounded hp.grounded
  cases h with
  | rested _ s' _ hdb hadded hstatuses => exact hp.congr hground hdb hadded hstatuses
  | queried | loaded | skipped | due | sent => exact hp.congr hground rfl rfl rfl
  | recorded l l' v tryNumber outcome s' hphase hsame hend =>
    have hstored := visit_stored hp.grounded hphase
    cases hend with
    | committed hsave hrows hevents hendpoints hadded hstatuses =>
      refine ⟨hground, by rw [hadded, hstatuses]; rfl, fun hunstored => ?_⟩
      rw [hevents, ids_foldl_writeStatus] at hunstored
      obtain ⟨hcommitted, hpending⟩ := hp.unstored hunstored
      refine ⟨fun a ha => ?_, by simp [hadded]⟩
      rw [hrows, List.mem_append, List.mem_append, List.mem_singleton] at ha
      rcases ha with ha | ha | rfl
      · exact hcommitted a ha
      · exact hpending a ha
      · exact fun hid => hunstored (hid ▸ hstored)
  | thrown l v tryNumber outcome s' phase hphase hthrown hend =>
    have hstored := visit_stored hp.grounded hphase
    cases hend with
    | rejected hfail hdb hadded hstatuses =>
      refine ⟨hground, ?_, fun hunstored => ?_⟩
      · rw [hadded, hstatuses, hp.pending, visitChange_eq w, List.map_append]
        rfl
      · rw [hdb] at hunstored
        obtain ⟨hcommitted, hpending⟩ := hp.unstored hunstored
        refine ⟨by rw [hdb]; exact hcommitted, fun a ha => ?_⟩
        rw [hadded, List.mem_append, List.mem_singleton] at ha
        rcases ha with ha | rfl
        · exact hpending a ha
        · exact fun hid => hunstored (hid ▸ hstored)

theorem paired_start {db : Database} (hrows : eventRows db e = []) :
    Paired opts e { state := { db } } := by
  refine ⟨Process.grounded_start _, rfl, fun _ => ⟨fun a ha hid => ?_, by simp⟩⟩
  have hmem : a ∈ eventRows db e := List.mem_filter.mpr ⟨ha, by simpa using hid⟩
  rw [hrows] at hmem
  cases hmem

theorem paired_step {a : ProcessAction} (hp : Paired opts e p)
    (h : processStep w opts p a = some p') : Paired opts e p' := by
  have hground := Process.grounded_step hp.grounded h
  cases a with
  | move m => exact (moved_of_move h).paired hp
  | restart =>
    cases h
    exact ⟨hground, rfl, fun hunstored => ⟨(hp.unstored hunstored).1, by simp [Process.restart]⟩⟩
  | insertEvent ev =>
    obtain ⟨-, events, hrows, rfl⟩ := insertEvent_eq_some h
    refine ⟨hground, hp.pending, fun hunstored => hp.unstored fun hmem => hunstored ?_⟩
    rw [hrows, List.map_append]
    exact List.mem_append_left _ hmem
  | saveEndpoint ep =>
    cases h
    exact ⟨hground, hp.pending, hp.unstored⟩

/-- The event is stored and its status is that of its log. -/
structure Agreeing (opts : DeliveryOptions) (e : Guid) (p : Process) : Prop where
  paired : Paired opts e p
  stored : e ∈ p.state.db.events.rows.map Event.id
  agrees : statusOf p.state.db e = loggedStatus opts p.state.db.attempts.rows e

theorem Moved.agrees {m : Move} (h : Moved w opts p m p') (hp : Agreeing opts e p) :
    statusOf p'.state.db e = loggedStatus opts p'.state.db.attempts.rows e := by
  cases h with
  | rested _ s' _ hdb =>
    rw [hdb]
    exact hp.agrees
  | queried | loaded | skipped | due | sent => exact hp.agrees
  | recorded l l' v tryNumber outcome s' hphase hsame hend =>
    cases hend with
    | committed hsave hrows hevents =>
      have hchanges : p.state.ctx.statuses ++ [visitChange opts v tryNumber outcome] =
          (p.state.ctx.added ++ [visitRow w opts v tryNumber outcome p.state]).map (rowChange opts) := by
        rw [hp.paired.pending, visitChange_eq w, List.map_append]
        rfl
      rw [statusOf, hrows, hevents, hchanges]
      exact elim_status_foldl _ hp.stored hp.agrees
  | thrown l v tryNumber outcome s' phase hphase hthrown hend =>
    cases hend with
    | rejected hfail hdb =>
      rw [hdb]
      exact hp.agrees

theorem agreeing_step {a : ProcessAction} (hp : Agreeing opts e p)
    (h : processStep w opts p a = some p') : Agreeing opts e p' := by
  have hpaired := paired_step hp.paired h
  cases a with
  | move m =>
    have hmoved := moved_of_move h
    exact ⟨hpaired, by rw [hmoved.ids]; exact hp.stored, hmoved.agrees hp⟩
  | restart =>
    cases h
    exact ⟨hpaired, hp.stored, hp.agrees⟩
  | insertEvent ev =>
    obtain ⟨hfresh, events, hrows, rfl⟩ := insertEvent_eq_some h
    have hstored : e ∈ events.rows.map Event.id := by
      rw [hrows, List.map_append]
      exact List.mem_append_left _ hp.stored
    refine ⟨hpaired, hstored, ?_⟩
    rw [statusOf_insertEvent hp.stored h]
    exact hp.agrees
  | saveEndpoint ep =>
    cases h
    exact ⟨hpaired, hp.stored, hp.agrees⟩

/-- An event that has just been inserted as new has no attempts yet. -/
theorem agreeing_of_inserted {ev : Event} (hnew : ev.status = .new) (hp : Paired opts ev.id p)
    (h : processStep w opts p (.insertEvent ev) = some p') : Agreeing opts ev.id p' := by
  have hpaired := paired_step hp h
  obtain ⟨hfresh, events, hrows, rfl⟩ := insertEvent_eq_some h
  have hmem : ev ∈ events.rows := by
    rw [hrows]
    exact List.mem_append_right _ (List.mem_singleton_self ev)
  refine ⟨hpaired, List.mem_map_of_mem hmem, ?_⟩
  have hnone : p.state.db.attempts.rows.filter (fun a => a.eventId = ev.id) = [] := by
    rw [List.filter_eq_nil_iff]
    intro a ha
    simpa using (hp.unstored hfresh).1 a ha
  rw [statusOf, (Table.find?_eq_some_iff _).mpr ⟨hmem, rfl⟩, loggedStatus]
  dsimp only
  rw [hnone]
  exact hnew

/-- **Status and log agree** in every reachable state, for an event that was stored or is
inserted as new and without attempts. -/
theorem statusAgrees_run (w : World) (opts : DeliveryOptions) (db : Database)
    (actions : List ProcessAction) {p' : Process}
    (hrun : Transition.run (processStep w opts) { state := { db } } actions = some p')
    {ev : Event} (hev : ev ∈ db.events.rows ∨ ProcessAction.insertEvent ev ∈ actions)
    (hnew : ev.status = .new) (hrows : eventRows db ev.id = []) :
    StatusAgrees opts p'.state.db ev.id := by
  have hpaired : Paired opts ev.id { state := { db } } := paired_start hrows
  have hstep : ∀ p a p', Agreeing opts ev.id p → processStep w opts p a = some p' →
      Agreeing opts ev.id p' := fun _ _ _ hp h => agreeing_step hp h
  apply statusAgrees_iff.mpr
  rcases hev with hev | hev
  · have hagree : Agreeing opts ev.id { state := { db } } := by
      refine ⟨hpaired, List.mem_map_of_mem hev, ?_⟩
      have hlogged : loggedStatus opts db.attempts.rows ev.id =
          (eventRows db ev.id).getLast?.elim .new (rowStatus opts) := rfl
      rw [hlogged, hrows, statusOf, (Table.find?_eq_some_iff _).mpr ⟨hev, rfl⟩]
      exact hnew
    exact (Transition.invariant hstep hagree hrun).agrees
  · obtain ⟨before, after, rfl⟩ := List.append_of_mem hev
    obtain ⟨p₁, hbefore, hrest⟩ := Transition.run_append.mp hrun
    obtain ⟨p₂, hinsert, hafter⟩ := Transition.run_cons.mp hrest
    have hpaired₁ := Transition.invariant (I := Paired opts ev.id)
      (fun _ _ _ hp h => paired_step hp h) hpaired hbefore
    exact (Transition.invariant hstep (agreeing_of_inserted hnew hpaired₁ hinsert) hafter).agrees

end Run

def splitEvent : Event := { id := 7, source := "test".toList, receivedAt := 0 }

theorem statusAgrees_run_interrupted :
    StatusAgrees {} ((Transition.run (processStep splitWorld {}) { state := splitStart }
      interruptedActions).get interruptedRun_isSome).state.db 7 := by
  have hevent : splitEvent ∈ splitStart.db.events.rows := List.mem_singleton_self splitEvent
  have hagrees := statusAgrees_run splitWorld {} splitStart.db interruptedActions
    (Option.some_get interruptedRun_isSome).symm (Or.inl hevent) rfl rfl
  exact hagrees

end WebhookInbox.Worker
