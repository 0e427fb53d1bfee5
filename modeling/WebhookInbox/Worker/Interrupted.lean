import WebhookInbox.Worker.Log

/-!
# A pass that is cut between two saves

Every save of a pass commits a status for the whole event, while the other endpoints of
the pass may still wait for their first attempt. `CutLosesNone` says that a fresh worker,
started where the pass is cut, still selects the event for them. A save that gives the
event the status `Failed` keeps it so; any other one needs an attempt for each other
endpoint of the pass, and `cutLosesNone_run_iff` says that this condition is exact.
-/

namespace WebhookInbox.Worker

/-- If the process ends here, then every event of the batch that an endpoint of the pass
has no attempt for yet is still selected by the candidates query. -/
def CutLosesNone (p : Process) : Prop :=
  ∀ l, p.phase.loop? = some l → ∀ ev ∈ l.candidates, ∀ ep ∈ l.endpoints,
    pairRows p.restart.state.db ev.id ep.id = [] →
      statusOf p.restart.state.db ev.id = .new ∨ statusOf p.restart.state.db ev.id = .failed

/-- A save that commits a success or an exhausted try comes after an attempt for each other
endpoint of the pass. -/
def SaveLosesNone (w : World) (opts : DeliveryOptions) (p : Process) (a : ProcessAction) : Prop :=
  ∀ l v n outcome, a = .move .next → p.phase = .recording l v n outcome →
    w.saveFails p.state.saves.length = false →
    outcome.succeeded = true ∨ isExhausted opts n = true →
    ∀ ep ∈ l.endpoints, ep.id ≠ v.2.id → pairRows p.state.db v.1.id ep.id ≠ []

/-- The batch is selected while the endpoints query is still to come. -/
structure Selected (w : World) (p : Process) : Prop where
  grounded : p.Grounded
  steady : Steady w p
  batch : ∀ candidates, p.phase = .queried candidates → ∀ ev ∈ candidates,
    statusOf p.state.db ev.id = .new ∨ statusOf p.state.db ev.id = .failed

section Run

variable {w : World} {opts : DeliveryOptions} {p p' : Process}

theorem selected_step {a : ProcessAction} (h : Selected w p) (hstep : stoppingStep w opts p a = some p') :
    Selected w p' := by
  have hsteady := steady_step h.steady hstep
  obtain ⟨hproc, hmove⟩ := stoppingStep_eq_some hstep
  have hground := Process.grounded_step h.grounded hproc
  refine ⟨hground, hsteady, ?_⟩
  cases a with
  | move m =>
    intro candidates hphase ev hev
    cases moved_of_move hproc with
    | queried found _ hfound =>
      cases hphase
      obtain ⟨hmem, hstatus⟩ := mem_candidates (by rw [hfound]; exact hev)
      rw [statusOf_eq hmem]
      simpa [isCandidate] using hstatus
    | thrown l v n outcome s' phase hrecord hthrown =>
      dsimp only at hphase
      rw [hphase] at hthrown
      rcases hthrown with hthrown | hthrown
      · cases hthrown
      · cases hthrown
    | _ => cases hphase
  | restart =>
    cases hproc
    intro candidates hphase
    cases hphase
  | insertEvent ev =>
    have hphase : p'.phase = p.phase := by
      obtain ⟨-, events, -, rfl⟩ := insertEvent_eq_some hproc
      rfl
    intro candidates hqueried e he
    rw [hphase] at hqueried
    rw [statusOf_insertEvent (h.grounded.stored e (by rw [hqueried]; exact he)) hproc]
    exact h.batch candidates hqueried e he
  | saveEndpoint ep =>
    cases hproc
    exact h.batch

theorem resultStatus_of_not_closing {outcome : HttpOutcome} {n : Int}
    (h : ¬ (outcome.succeeded = true ∨ isExhausted opts n = true)) :
    resultStatus opts outcome n = .failed := by
  rw [not_or, Bool.not_eq_true, Bool.not_eq_true] at h
  exact resultStatus_eq_failed_iff.mpr h

theorem resultStatus_of_closing {outcome : HttpOutcome} {n : Int}
    (h : outcome.succeeded = true ∨ isExhausted opts n = true) :
    ¬ (resultStatus opts outcome n = .new ∨ resultStatus opts outcome n = .failed) := by
  rintro (hnew | hfailed)
  · exact resultStatus_ne_new _ _ _ hnew
  · obtain ⟨hs, hx⟩ := resultStatus_eq_failed_iff.mp hfailed
    rw [hs, hx] at h
    simp at h

/-- **One save.** A cut after it loses nothing exactly when the save meets the condition. -/
theorem cutLosesNone_recorded {l l' : Loop} {v : Event × Endpoint} {n : Int} {outcome : HttpOutcome}
    {s' : State} (h : Selected w p) (hfailed : p.phase.saveFailed = false)
    (hphase : p.phase.record? = some (l, v, n, outcome)) (hsame : l.Same l')
    (hend : RecordEnd w opts v n outcome p.state s' true) (hP : CutLosesNone p) :
    CutLosesNone { state := s', phase := .checking l' } ↔
      (outcome.succeeded = true ∨ isExhausted opts n = true →
        ∀ ep ∈ l.endpoints, ep.id ≠ v.2.id → pairRows p.state.db v.1.id ep.id ≠ []) := by
  obtain ⟨hcand, hloop, hpairs, hvisit⟩ := Phase.of_record? hphase
  obtain ⟨hrows, hevents⟩ := h.steady.committed hfailed hend
  obtain ⟨hv₁, hv₂⟩ := h.grounded.placed l hloop v (by rw [hpairs]; exact List.mem_cons_self)
  have hkept : ∀ e ep, ¬ (v.1.id = e ∧ v.2.id = ep) → pairRows s'.db e ep = pairRows p.state.db e ep :=
    fun e ep hkey => pairRows_commit_of_ne hrows hkey
  have hstatus : ∀ e ∈ p.state.db.events.rows.map Event.id, statusOf s'.db e =
      if v.1.id = e then resultStatus opts outcome n else statusOf p.state.db e := by
    intro e he
    rw [statusOf, hevents]
    exact elim_status_writeStatus he _
  have hstored : ∀ ev ∈ l.candidates, ev.id ∈ p.state.db.events.rows.map Event.id :=
    fun ev hev => h.grounded.stored ev (hcand ▸ hev)
  constructor
  · intro hcut hclosing ep hep hne hnone
    have hsel := hcut l' rfl v.1 (hsame.candidates ▸ hv₁) ep (hsame.endpoints ▸ hep)
      ((hkept _ _ fun hkey => hne hkey.2.symm).trans hnone)
    have hclosed := hstatus v.1.id (hstored v.1 hv₁)
    rw [if_pos rfl] at hclosed
    change statusOf s'.db v.1.id = .new ∨ statusOf s'.db v.1.id = .failed at hsel
    rw [hclosed] at hsel
    exact resultStatus_of_closing hclosing hsel
  · intro hgood l'' hl'' ev hev ep hep hnone
    cases hl''
    rw [hsame.candidates] at hev
    rw [hsame.endpoints] at hep
    change pairRows s'.db ev.id ep.id = [] at hnone
    show statusOf s'.db ev.id = .new ∨ statusOf s'.db ev.id = .failed
    have hother : ¬ (v.1.id = ev.id ∧ v.2.id = ep.id) := by
      intro hkey
      have hcommit : pairRows s'.db v.1.id v.2.id =
          pairRows p.state.db v.1.id v.2.id ++ [visitRow w opts v n outcome p.state] :=
        pairRows_commit hrows
      rw [hkey.1, hkey.2, hnone] at hcommit
      simp at hcommit
    rw [hkept _ _ hother] at hnone
    rw [hstatus ev.id (hstored ev hev)]
    by_cases hid : v.1.id = ev.id
    · rw [if_pos hid]
      apply Or.inr
      apply resultStatus_of_not_closing
      intro hclosing
      exact hgood hclosing ep hep (fun hep => hother ⟨hid, hep.symm⟩) (hid ▸ hnone)
    · rw [if_neg hid]
      exact hP l hloop ev hev ep hep hnone

/-- Away from the commits the property does not change. -/
theorem CutLosesNone.congr (hP : CutLosesNone p) (hdb : p'.state.db = p.state.db)
    (hloop : ∀ l', p'.phase.loop? = some l' → ∃ l, p.phase.loop? = some l ∧
      l'.candidates = l.candidates ∧ l'.endpoints = l.endpoints) : CutLosesNone p' := by
  intro l' hl' ev hev ep hep hnone
  obtain ⟨l, hl, hcand, hends⟩ := hloop l' hl'
  have h := hP l hl ev (hcand ▸ hev) ep (hends ▸ hep)
  change pairRows p'.state.db ev.id ep.id = [] at hnone
  show statusOf p'.state.db ev.id = .new ∨ statusOf p'.state.db ev.id = .failed
  rw [hdb] at hnone ⊢
  exact h hnone

/-- A new event is in no batch. -/
theorem CutLosesNone.insertEvent {e : Event} (hP : CutLosesNone p) (h : Selected w p)
    (hproc : processStep w opts p (.insertEvent e) = some p') : CutLosesNone p' := by
  obtain ⟨-, events, -, hp'⟩ := insertEvent_eq_some hproc
  intro l hl ev hev ep hep hnone
  have hphase : p'.phase = p.phase := by rw [hp']
  have hattempts : p'.state.db.attempts = p.state.db.attempts := by rw [hp']
  rw [hphase] at hl
  have hkept := statusOf_insertEvent
    (h.grounded.stored ev (Phase.candidates_of_loop? hl ▸ hev)) hproc
  show statusOf p'.state.db ev.id = .new ∨ statusOf p'.state.db ev.id = .failed
  rw [hkept]
  apply hP l hl ev hev ep hep
  change p'.state.db.attempts.rows.filter _ = [] at hnone
  rw [hattempts] at hnone
  exact hnone

theorem cutLosesNone_step {a : ProcessAction} (h : Selected w p) (hP : CutLosesNone p)
    (hstep : stoppingStep w opts p a = some p') : CutLosesNone p' ↔ SaveLosesNone w opts p a := by
  obtain ⟨hproc, hmove⟩ := stoppingStep_eq_some hstep
  cases a with
  | move m =>
    have hfailed := hmove m rfl
    have hother : p.phase.record? = none → SaveLosesNone w opts p (.move m) := by
      intro hnone l v n outcome _ hphase
      rw [hphase] at hnone
      cases hnone
    cases moved_of_move hproc with
    | rested _ s' hvisit =>
      exact iff_of_true (fun l hl => by cases hl) (hother (Phase.record?_of_visit? hvisit))
    | queried found hvisit =>
      exact iff_of_true (fun l hl => by cases hl) (hother (Phase.record?_of_visit? hvisit))
    | loaded candidates rows hphase =>
      refine iff_of_true (fun l hl ev hev ep hep _ => ?_) (hother (by rw [hphase]; rfl))
      cases hl
      exact h.batch candidates hphase ev hev
    | skipped l v rest r hphase =>
      refine iff_of_true (hP.congr rfl fun l' hl' => ?_) (hother (by rw [hphase]; rfl))
      cases hl'
      exact ⟨l, by rw [hphase]; rfl, rfl, rfl⟩
    | due l v rest r hphase =>
      refine iff_of_true (hP.congr rfl fun l' hl' => ?_) (hother (by rw [hphase]; rfl))
      cases hl'
      exact ⟨l, by rw [hphase]; rfl, rfl, rfl⟩
    | sent l v n hphase =>
      refine iff_of_true (hP.congr rfl fun l' hl' => ?_) (hother (by rw [hphase]; rfl))
      cases hl'
      exact ⟨l, by rw [hphase]; rfl, rfl, rfl⟩
    | recorded l l' v n outcome s' hphase hsame hend =>
      rw [cutLosesNone_recorded h hfailed hphase hsame hend hP]
      have hsave : w.saveFails p.state.saves.length = false := by cases hend; assumption
      constructor
      · intro hgood l₁ v₁ n₁ outcome₁ _ hphase₁ _
        rw [hphase₁] at hphase
        cases hphase
        exact hgood
      · intro hgood
        exact hgood l v n outcome rfl (Phase.recording_of_record? hphase hfailed) hsave
    | thrown l v n outcome s' phase hphase hthrown hend =>
      have hoff := h.steady.saveFails_of_rejected hfailed hphase hend
      cases hend with
      | rejected hfail hdb =>
        refine iff_of_true (hP.congr hdb fun l' hl' => ?_) fun l₁ v₁ n₁ outcome₁ _ _ hsave => ?_
        · rcases hthrown with rfl | rfl
          · cases hl'
            exact ⟨l, (Phase.of_record? hphase).2.1, rfl, rfl⟩
          · cases hl'
        · rw [hoff] at hsave
          cases hsave
  | restart =>
    cases hproc
    exact iff_of_true (fun l hl => by cases hl) fun _ _ _ _ ha => by cases ha
  | insertEvent e =>
    exact iff_of_true (hP.insertEvent h hproc) fun _ _ _ _ ha => by cases ha
  | saveEndpoint ep =>
    cases hproc
    exact iff_of_true (hP : CutLosesNone p) fun _ _ _ _ ha => by cases ha

/-- **A cut loses no endpoint**, wherever the passes of a run are cut, exactly when every
save of the run meets the condition. -/
theorem cutLosesNone_run_iff (w : World) (opts : DeliveryOptions) (db : Database)
    (actions : List ProcessAction)
    (hrun : Transition.run (stoppingStep w opts) { state := { db } } actions = some p') :
    Transition.Always (stoppingStep w opts) CutLosesNone { state := { db } } actions ↔
      Transition.Along (stoppingStep w opts) (SaveLosesNone w opts) { state := { db } } actions := by
  refine Transition.always_iff_along (I := Selected w) ?_ ?_ ?_ ?_ hrun
  · exact fun p a p' h hstep => selected_step h hstep
  · exact fun p a p' h hP hstep => cutLosesNone_step h hP hstep
  · exact ⟨Process.grounded_start _, steady_start w _ ⟨rfl, rfl⟩ rfl, fun _ h => by cases h⟩
  · exact fun l hl => by cases hl

end Run

theorem cutLosesNone_run_interrupted :
    Transition.Always (stoppingStep splitWorld {}) CutLosesNone { state := splitStart } interruptedActions ↔
      Transition.Along (stoppingStep splitWorld {}) (SaveLosesNone splitWorld {})
        { state := splitStart } interruptedActions :=
  cutLosesNone_run_iff splitWorld {} splitStart.db interruptedActions
    (Option.some_get stoppingRun_isSome).symm

theorem cutRun_isSome :
    (Transition.run (stoppingStep splitWorld {}) { state := splitStart } cutActions).isSome := by
  decide

/-- The pass is cut after the first endpoint's success has set the event to `Dispatched`,
and the second endpoint never gets it. -/
theorem cut_loses_endpoint :
    ∃ p', Transition.run (stoppingStep splitWorld {}) { state := splitStart } cutActions = some p' ∧
      ¬ CutLosesNone p' := by
  refine ⟨_, (Option.some_get cutRun_isSome).symm, fun h => ?_⟩
  have hlost := h _ rfl _ List.mem_cons_self failingEndpoint
    (List.mem_cons_of_mem _ (List.mem_singleton_self _)) (by decide)
  revert hlost
  decide

end WebhookInbox.Worker
