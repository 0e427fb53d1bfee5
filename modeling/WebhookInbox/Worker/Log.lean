import WebhookInbox.Worker.Process

/-!
# The attempt log of a pair

The number of the next try is computed from the database at every visit, and the process
may end between any two saves. When a save that throws stops the worker, nothing is ever
pending when a pair is visited (`Steady`), so a commit adds exactly the row of its visit:
its number is one more than the number of rows of the pair, and the rows before it are
failures that were sent earlier (`WellFormed.append`).
-/

namespace WebhookInbox.Worker

/-! ## Nothing is pending at a visit -/

/-- Between the saves of a run in which a save that throws stops the worker. -/
structure Steady (w : World) (p : Process) : Prop where
  clean : p.phase.saveFailed = false → p.state.ctx.Clean
  visit : ∀ v n, p.phase.visit? = some (v, n) →
    n = nextTryNumber p.state.db v.1.id v.2.id ∧
      ∀ last, lastAttempt p.state.db v.1.id v.2.id = some last → last.success = false
  outside : ∀ i : Nat, p.state.saves[i]? = some false → w.saveFails i = true

section Steady

variable {w : World} {opts : DeliveryOptions} {p p' : Process}

theorem stoppingStep_eq_some {a : ProcessAction} (h : stoppingStep w opts p a = some p') :
    processStep w opts p a = some p' ∧ ∀ m, a = .move m → p.phase.saveFailed = false := by
  cases a with
  | move m =>
    change (if p.phase.saveFailed then none else p.move w opts m) = some p' at h
    split at h
    · cases h
    · rename_i hfailed
      exact ⟨h, fun _ _ => by simpa using hfailed⟩
  | _ => exact ⟨h, fun _ hm => by cases hm⟩

variable (opts) in
/-- The number of a visit is still free when its save comes. -/
theorem insertAll?_visitRow_isSome {l : Loop} {v : Event × Endpoint} {n : Int} {outcome : HttpOutcome}
    (hp : Steady w p) (hfailed : p.phase.saveFailed = false)
    (hphase : p.phase.record? = some (l, v, n, outcome)) :
    (p.state.db.attempts.insertAll?
      (p.state.ctx.added ++ [visitRow w opts v n outcome p.state])).isSome := by
  obtain ⟨-, -, -, hvisit⟩ := Phase.of_record? hphase
  have hn := (hp.visit v n hvisit).1
  rw [Table.insertAll?_isSome_iff, (hp.clean hfailed).added]
  refine ⟨by simp, fun b hb a ha hkey => ?_⟩
  obtain rfl : b = visitRow w opts v n outcome p.state := by simpa using hb
  simp only [DeliveryAttempt.key, visitRow, attemptRow, Prod.mk.injEq] at hkey
  have hlt := nextTry_fresh (mem_pairRows.mpr ⟨ha, hkey.1, hkey.2.1⟩)
  omega

/-- A save of a steady process is rejected only when the world lets it fail. -/
theorem Steady.saveFails_of_rejected {l : Loop} {v : Event × Endpoint} {n : Int}
    {outcome : HttpOutcome} {s' : State} (hp : Steady w p) (hfailed : p.phase.saveFailed = false)
    (hphase : p.phase.record? = some (l, v, n, outcome))
    (hend : RecordEnd w opts v n outcome p.state s' false) :
    w.saveFails p.state.saves.length = true := by
  have hsome := insertAll?_visitRow_isSome opts hp hfailed hphase
  cases hend with
  | rejected hfail =>
    apply hfail.resolve_right
    intro hnone
    rw [hnone] at hsome
    cases hsome

/-- A commit of a steady process. -/
theorem Steady.committed {v : Event × Endpoint} {n : Int} {outcome : HttpOutcome} {s' : State}
    (hp : Steady w p) (hfailed : p.phase.saveFailed = false)
    (hend : RecordEnd w opts v n outcome p.state s' true) :
    s'.db.attempts.rows = p.state.db.attempts.rows ++ [visitRow w opts v n outcome p.state] ∧
      s'.db.events = writeStatus p.state.db.events (visitChange opts v n outcome) := by
  have hclean := hp.clean hfailed
  cases hend with
  | committed hsave hrows hevents =>
    rw [hrows, hevents, hclean.added, hclean.statuses]
    exact ⟨rfl, rfl⟩

theorem getElem?_append_singleton_eq_false {saves : List Bool} {saved : Bool} {i : Nat}
    (h : (saves ++ [saved])[i]? = some false) :
    saves[i]? = some false ∨ (i = saves.length ∧ saved = false) := by
  rw [List.getElem?_append] at h
  split at h
  · exact Or.inl h
  · rename_i hlt
    obtain ⟨hi, hval⟩ := List.getElem?_eq_some_iff.mp h
    simp only [List.length_singleton] at hi
    refine Or.inr ⟨by omega, ?_⟩
    simpa using hval

theorem Moved.steady {m : Move} (h : Moved w opts p m p') (hp : Steady w p)
    (hfailed : p.phase.saveFailed = false) : Steady w p' := by
  have hclean := hp.clean hfailed
  cases h with
  | rested _ s' _ hdb hadded hstatuses hlog =>
    refine ⟨fun _ => ⟨hadded.trans hclean.added, hstatuses.trans hclean.statuses⟩,
      fun _ _ hv => (by cases hv), fun i hi => hp.outside i ?_⟩
    rwa [State.saves, hlog] at hi
  | queried | loaded | skipped =>
    exact ⟨fun _ => ⟨hclean.added, hclean.statuses⟩, fun _ _ hv => (by cases hv), hp.outside⟩
  | due l v rest r hphase hrest hdue =>
    refine ⟨fun _ => hclean, fun u n hv => ?_, hp.outside⟩
    cases hv
    exact ⟨rfl, success_eq_false_of_isDue hdue⟩
  | sent l v tryNumber hphase =>
    refine ⟨fun _ => hclean, fun u n hv => hp.visit u n ?_, fun i hi => hp.outside i ?_⟩
    · rw [hphase]
      exact hv
    · have hsaves : (p.state.emit (.post (request v tryNumber)
          (nextSends w p.state v.1.id v.2.id tryNumber))).saves = p.state.saves := by
        simp [State.saves, State.emit]
      rwa [hsaves] at hi
  | recorded l l' v tryNumber outcome s' hphase hsame hend =>
    cases hend with
    | committed hsave hrows hevents hendpoints hadded hstatuses hsaves =>
      refine ⟨fun _ => ⟨hadded, hstatuses⟩, fun _ _ hv => (by cases hv), fun i hi => ?_⟩
      rw [hsaves] at hi
      rcases getElem?_append_singleton_eq_false hi with hi | ⟨-, hfalse⟩
      · exact hp.outside i hi
      · cases hfalse
  | thrown l v tryNumber outcome s' phase hphase hthrown hend =>
    have hoff := hp.saveFails_of_rejected hfailed hphase hend
    cases hend with
    | rejected hfail hdb hadded hstatuses hsaves =>
      refine ⟨?_, fun u n hv => ?_, fun i hi => ?_⟩
      · rcases hthrown with rfl | rfl
        · exact fun hfalse => by cases hfalse
        · exact fun hfalse => by cases hfalse
      · rcases hthrown with rfl | rfl
        · cases hv
          rw [hdb]
          exact hp.visit v tryNumber (Phase.of_record? hphase).2.2.2
        · cases hv
      · rw [hsaves] at hi
        rcases getElem?_append_singleton_eq_false hi with hi | ⟨rfl, -⟩
        · exact hp.outside i hi
        · exact hoff

theorem steady_start (w : World) (s : State) (hclean : s.ctx.Clean) (hlog : s.log = []) :
    Steady w { state := s } :=
  ⟨fun _ => hclean, fun _ _ h => (by cases h), fun i hi => by simp [State.saves, hlog] at hi⟩

theorem steady_step {a : ProcessAction} (hp : Steady w p) (h : stoppingStep w opts p a = some p') :
    Steady w p' := by
  obtain ⟨hstep, hmove⟩ := stoppingStep_eq_some h
  cases a with
  | move m => exact (moved_of_move hstep).steady hp (hmove m rfl)
  | restart =>
    cases hstep
    exact ⟨fun _ => ⟨rfl, rfl⟩, fun _ _ hv => (by cases hv), hp.outside⟩
  | insertEvent ev =>
    obtain ⟨-, events, -, rfl⟩ := insertEvent_eq_some hstep
    exact ⟨hp.clean, hp.visit, hp.outside⟩
  | saveEndpoint ep =>
    cases hstep
    exact ⟨hp.clean, hp.visit, hp.outside⟩

end Steady

/-! ## The rows of a pair -/

/-- The rows are numbered from one on without a gap, in some order. -/
def Numbered (rows : List DeliveryAttempt) : Prop :=
  (rows.map DeliveryAttempt.tryNumber).Perm ((List.range rows.length).map fun i : Nat => (i : Int) + 1)

namespace Numbered

variable {rows : List DeliveryAttempt}

theorem try_le (h : Numbered rows) {a : DeliveryAttempt} (ha : a ∈ rows) :
    a.tryNumber ≤ rows.length := by
  have hmem : a.tryNumber ∈ rows.map DeliveryAttempt.tryNumber := List.mem_map_of_mem ha
  rw [h.mem_iff] at hmem
  obtain ⟨i, hi, heq⟩ := List.mem_map.mp hmem
  have := List.mem_range.mp hi
  omega

theorem exists_last (h : Numbered rows) (hne : rows ≠ []) :
    ∃ a ∈ rows, a.tryNumber = rows.length := by
  have hpos : 0 < rows.length := List.length_pos_iff.mpr hne
  have hmem : (rows.length : Int) ∈ rows.map DeliveryAttempt.tryNumber := by
    rw [h.mem_iff]
    exact List.mem_map.mpr ⟨rows.length - 1, List.mem_range.mpr (by omega), by omega⟩
  exact List.mem_map.mp hmem

end Numbered

theorem nextTryNumber_eq_length {db : Database} {e ep : Guid} (h : Numbered (pairRows db e ep)) :
    nextTryNumber db e ep = (pairRows db e ep).length + 1 := by
  unfold nextTryNumber
  cases hlast : lastAttempt db e ep with
  | none =>
    rw [lastAttempt_eq_none_iff.mp hlast]
    rfl
  | some last =>
    obtain ⟨hmem, hmax⟩ := lastAttempt_eq_some_iff.mp hlast
    obtain ⟨a, ha, htry⟩ := h.exists_last (List.ne_nil_of_mem hmem)
    have hle := h.try_le hmem
    have hge := hmax a ha
    simp only [Option.elim_some]
    omega

/-- The attempts of one pair in the order of their commits: numbered from one, with at most
one success, which is the last of them, and sent in the order of their numbers. -/
structure WellFormed (rows : List DeliveryAttempt) : Prop where
  tries : rows.map DeliveryAttempt.tryNumber = (List.range rows.length).map fun i : Nat => (i : Int) + 1
  success : ∀ a ∈ rows, a.success = true → ∀ b ∈ rows, b ≠ a →
    b.success = false ∧ b.tryNumber < a.tryNumber
  sentAt : ∀ a ∈ rows, ∀ b ∈ rows, a.tryNumber ≤ b.tryNumber → a.sentAt ≤ b.sentAt

theorem WellFormed.nil : WellFormed [] := ⟨rfl, by simp, by simp⟩

namespace WellFormed

variable {rows : List DeliveryAttempt}

theorem numbered (h : WellFormed rows) : Numbered rows := List.Perm.of_eq h.tries

/-- A new last row is numbered next, comes after failures, and is not sent earlier. -/
theorem append (h : WellFormed rows) {b : DeliveryAttempt} (hb : b.tryNumber = rows.length + 1)
    (hfailed : ∀ a ∈ rows, a.success = false) (hsent : ∀ a ∈ rows, a.sentAt ≤ b.sentAt) :
    WellFormed (rows ++ [b]) := by
  refine ⟨?_, ?_, ?_⟩
  · rw [List.map_append, h.tries, List.length_append, List.length_singleton, List.range_succ,
      List.map_append, List.map_singleton, List.map_singleton, hb]
  · intro a ha hs c hc hne
    rw [List.mem_append, List.mem_singleton] at ha hc
    rcases ha with ha | rfl
    · rw [hfailed a ha] at hs
      cases hs
    · rcases hc with hc | rfl
      · have := h.numbered.try_le hc
        exact ⟨hfailed c hc, by omega⟩
      · exact absurd rfl hne
  · intro a ha c hc hle
    rw [List.mem_append, List.mem_singleton] at ha hc
    rcases ha with ha | rfl
    · rcases hc with hc | rfl
      · exact h.sentAt a ha c hc hle
      · exact hsent a ha
    · rcases hc with hc | rfl
      · have := h.numbered.try_le hc
        omega
      · exact le_rfl

end WellFormed

/-- While the newest attempt of a pair is a failure, all of them are. -/
theorem failures_of_last {db : Database} {e ep : Guid} (h : WellFormed (pairRows db e ep))
    (hlast : ∀ last, lastAttempt db e ep = some last → last.success = false) :
    ∀ a ∈ pairRows db e ep, a.success = false := by
  intro a ha
  by_contra hs
  rw [Bool.not_eq_false] at hs
  have hmax : ∀ b ∈ pairRows db e ep, b.tryNumber ≤ a.tryNumber := by
    intro b hb
    by_cases hba : b = a
    · rw [hba]
    · exact (h.success a ha hs b hb hba).2.le
  rw [hlast a (lastAttempt_eq_some_iff.mpr ⟨ha, hmax⟩)] at hs
  cases hs

/-! ## Runs -/

/-- Every pair's attempts are well formed, and none was sent after the clock was last read. -/
structure Chronicled (w : World) (p : Process) : Prop where
  steady : Steady w p
  wellFormed : ∀ e ep, WellFormed (pairRows p.state.db e ep)
  sent : ∀ a ∈ p.state.db.attempts.rows, a.sentAt ≤ w.clock p.state.reads

section Run

variable {w : World} {opts : DeliveryOptions} {p p' : Process}

theorem Chronicled.congr (hclock : w.ClockAdvances) (h : Chronicled w p) (hp : Steady w p')
    (hattempts : p'.state.db.attempts = p.state.db.attempts)
    (hreads : p.state.reads ≤ p'.state.reads) : Chronicled w p' := by
  refine ⟨hp, fun e ep => ?_, fun a ha => ?_⟩
  · rw [pairRows, hattempts]
    exact h.wellFormed e ep
  · rw [hattempts] at ha
    exact Int.le_trans (h.sent a ha) (hclock _ _ hreads)

theorem Chronicled.committed (hclock : w.ClockAdvances) {l : Loop} {v : Event × Endpoint} {n : Int}
    {outcome : HttpOutcome} {s' : State} {phase : Phase} (h : Chronicled w p)
    (hfailed : p.phase.saveFailed = false) (hphase : p.phase.record? = some (l, v, n, outcome))
    (hend : RecordEnd w opts v n outcome p.state s' true)
    (hp : Steady w { state := s', phase }) : Chronicled w { state := s', phase } := by
  obtain ⟨hn, hlast⟩ := h.steady.visit v n (Phase.of_record? hphase).2.2.2
  have hrows := (h.steady.committed hfailed hend).1
  have hreads : p.state.reads ≤ s'.reads := hend.reads_lt.le
  have hlater : ∀ a ∈ p.state.db.attempts.rows, a.sentAt ≤ w.clock s'.reads :=
    fun a ha => Int.le_trans (h.sent a ha) (hclock _ _ hreads)
  refine ⟨hp, fun e ep => ?_, fun a ha => ?_⟩
  · have hold := h.wellFormed e ep
    by_cases hkey : v.1.id = e ∧ v.2.id = ep
    · obtain ⟨rfl, rfl⟩ := hkey
      have hcommit : pairRows s'.db v.1.id v.2.id =
          pairRows p.state.db v.1.id v.2.id ++ [visitRow w opts v n outcome p.state] :=
        pairRows_commit hrows
      rw [hcommit]
      apply hold.append
      · show n = _
        rw [hn]
        exact nextTryNumber_eq_length hold.numbered
      · exact failures_of_last hold hlast
      · exact fun a ha => h.sent a (mem_pairRows.mp ha).1
    · rw [pairRows_commit_of_ne hrows hkey]
      exact hold
  · dsimp only at ha
    rw [hrows, List.mem_append, List.mem_singleton] at ha
    rcases ha with ha | rfl
    · exact hlater a ha
    · exact hclock _ _ hreads

theorem Moved.reads_le {m : Move} (h : Moved w opts p m p') : p.state.reads ≤ p'.state.reads := by
  cases h with
  | rested _ s' _ _ _ _ _ hreads => exact hreads.ge
  | skipped _ _ _ _ _ _ _ hreads => exact hreads
  | due _ _ _ _ _ _ _ hreads => exact hreads
  | recorded _ _ _ _ _ _ _ _ hend => exact hend.reads_lt.le
  | thrown _ _ _ _ _ _ _ _ hend => exact hend.reads_lt.le
  | _ => exact le_rfl

theorem chronicled_step (hclock : w.ClockAdvances) {a : ProcessAction} (h : Chronicled w p)
    (hstep : stoppingStep w opts p a = some p') : Chronicled w p' := by
  have hsteady := steady_step h.steady hstep
  obtain ⟨hstep, hmove⟩ := stoppingStep_eq_some hstep
  cases a with
  | move m =>
    have hmoved := moved_of_move hstep
    have hreads := hmoved.reads_le
    cases hmoved with
    | recorded l l' v n outcome s' hphase hsame hend =>
      exact h.committed hclock (hmove .next rfl) hphase hend hsteady
    | rested _ s' _ hdb => exact h.congr hclock hsteady (by rw [hdb]) hreads
    | thrown l v n outcome s' phase hphase hthrown hend =>
      cases hend with
      | rejected _ hdb => exact h.congr hclock hsteady (by rw [hdb]) hreads
    | _ => exact h.congr hclock hsteady rfl hreads
  | restart =>
    cases hstep
    exact h.congr hclock hsteady rfl le_rfl
  | insertEvent ev =>
    obtain ⟨-, events, -, rfl⟩ := insertEvent_eq_some hstep
    exact h.congr hclock hsteady rfl le_rfl
  | saveEndpoint ep =>
    cases hstep
    exact h.congr hclock hsteady rfl le_rfl

/-- **The attempt log is well formed** in every reachable state, and no save is ever refused
by the unique index. -/
theorem wellFormed_run (hclock : w.ClockAdvances) (opts : DeliveryOptions)
    (events : Table Event Guid Event.id) (endpoints : Table Endpoint Guid Endpoint.id)
    (actions : List ProcessAction)
    (hrun : Transition.run (stoppingStep w opts) { state := .start events endpoints } actions = some p') :
    (∀ e ep, WellFormed (pairRows p'.state.db e ep)) ∧
      ∀ i : Nat, p'.state.saves[i]? = some false → w.saveFails i = true := by
  have hstart : Chronicled w { state := .start events endpoints } :=
    ⟨steady_start w _ ⟨rfl, rfl⟩ rfl, fun e ep => WellFormed.nil, fun a ha => by cases ha⟩
  have hend := Transition.invariant (I := Chronicled w)
    (fun _ _ _ h hstep => chronicled_step hclock h hstep) hstart hrun
  exact ⟨hend.wellFormed, hend.steady.outside⟩

end Run

theorem stoppingRun_isSome :
    (Transition.run (stoppingStep splitWorld {}) { state := splitStart } interruptedActions).isSome := by
  decide

theorem wellFormed_run_interrupted :
    (∀ e ep, WellFormed (pairRows ((Transition.run (stoppingStep splitWorld {}) { state := splitStart }
        interruptedActions).get stoppingRun_isSome).state.db e ep)) ∧
      ∀ i : Nat, ((Transition.run (stoppingStep splitWorld {}) { state := splitStart }
        interruptedActions).get stoppingRun_isSome).state.saves[i]? = some false →
          splitWorld.saveFails i = true :=
  wellFormed_run (fun _ _ _ => Int.le_refl _) {} _ _ interruptedActions
    (Option.some_get stoppingRun_isSome).symm

end WebhookInbox.Worker
