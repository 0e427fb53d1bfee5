import Mathlib.Order.Bounds.Basic
import WebhookInbox.Worker.Progress
import WebhookInbox.Worker.Quiescence

/-!
# The backlog is worked off

A selected event always has an active endpoint whose pair is open: it has no attempt yet, or its
newest one failed (`Answerable`). A pass over a batch with such a pair either tries a pair or
finds every deadline of the batch ahead, and then it has read the clock (`silent_pass`). The
attempts do not change while nothing is tried, so their deadlines have a bound, and the clock
passes it. So a selected event leads to a try (`exists_attempt`). There are finitely many
tries, and at the end no event is selected (`drains`).
-/

namespace WebhookInbox.Worker

/-- The clock goes past every time. -/
def World.ClockPasses (w : World) : Prop := ∀ t, ∃ n, t ≤ w.clock n

/-- The newest attempt of the pair failed, or there is none. -/
def IsOpen (db : Database) (eventId endpointId : Guid) : Prop :=
  ∀ last, lastAttempt db eventId endpointId = some last → last.success = false

/-- An endpoint that is saved is one of the given ones, and active. -/
def KeepsActive (ids : List Guid) : Action → Prop
  | .pass _ => True
  | .insertEvent _ => True
  | .saveEndpoint ep => ep.id ∈ ids ∧ ep.isActive = true

/-- The action is no pass that tries a pair. -/
def Silent (w : World) (opts : DeliveryOptions) (s : State) (a : Action) : Prop :=
  ∀ e, ¬ Attempts w opts e s a

def IsPass (a : Action) : Prop := ∃ endpoints, a = .pass endpoints

/-- Some stored event is selected. -/
def Backlog (db : Database) : Prop := ∃ e ∈ db.events.rows.map Event.id, selected db e = true

/-- Some stored deadline is ahead. -/
def DeadlineAhead (w : World) (s : State) : Prop :=
  ∃ a ∈ s.db.attempts.rows, ∃ deadline, a.nextAttemptAt = some deadline ∧ w.clock s.reads < deadline

/-- Every endpoint is active, every attempt is one of a stored event, and every selected event
has an open pair. -/
structure Answerable (ids : List Guid) (s : State) : Prop extends Populated ids s where
  active : ∀ ep ∈ s.db.endpoints.rows, ep.isActive = true
  known : ∀ a ∈ s.db.attempts.rows, a.eventId ∈ s.db.events.rows.map Event.id
  isOpen : ∀ e ∈ s.db.events.rows.map Event.id, selected s.db e = true →
    ∃ ep ∈ ids, IsOpen s.db e ep

theorem KeepsActive.addsNoEndpoint {ids : List Guid} {a : Action} (h : KeepsActive ids a) :
    AddsNoEndpoint ids a := by
  cases a with
  | saveEndpoint ep => exact h.1
  | _ => trivial

/-! ## A selected event has an open pair -/

section Pass

variable {w : World} {opts : DeliveryOptions} {endpoints : List Endpoint} {s : State} {ids : List Guid}
variable (hw : w.Healthy)
include hw

/-- The last due visit of an event that is selected after the pass failed. -/
theorem isOpen_pass (hperm : endpoints.Perm (activeEndpoints s.db)) (h : Answerable ids s) {e : Guid}
    (he : e ∈ s.db.events.rows.map Event.id)
    (hselected : selected (processOnceAsync w opts endpoints s).2.db e = true) :
    ∃ ep ∈ ids, IsOpen (processOnceAsync w opts endpoints s).2.db e ep := by
  by_cases hdue : passStatuses w opts endpoints s e = []
  · -- no due visit: the status and the attempts of the event are as before
    unfold selected at hselected
    rw [statusOf_pass_of_not_due hw h.clean hdue] at hselected
    obtain ⟨ep, hep, hopen⟩ := h.isOpen e he hselected
    refine ⟨ep, hep, fun last hlast => hopen last ?_⟩
    rw [← hlast]
    refine (lastAttempt_pass_of_not_due hw h.clean hperm (k := (e, ep)) fun x hx hkey => ?_).symm
    rw [← Bool.not_eq_true]
    intro hxdue
    have hmem := mem_passStatuses.mpr ⟨x, hx, congrArg Prod.fst hkey, hxdue, rfl⟩
    rw [hdue] at hmem
    cases hmem
  · obtain ⟨status, hlast⟩ := List.getLast?_isSome.mpr hdue |> Option.isSome_iff_exists.mp
    obtain ⟨x, hx, rfl, hxdue, hxstatus⟩ := mem_passStatuses.mp (List.mem_of_getLast? hlast)
    obtain ⟨ev, hev, hid⟩ := List.mem_map.mp he
    have hafter := status_pass opts endpoints hw h.clean hev
    rw [hid, hlast, Option.getD_some] at hafter
    have hfailed : status = .failed := by
      have hnew : status ≠ .new := hxstatus ▸ resultStatus_ne_new _ _ _
      simpa [selected, hafter, hnew] using hselected
    rw [hfailed, visitStatus, resultStatus_eq_failed_iff] at hxstatus
    have hep := id_mem_of_passTrace hperm hx
    rw [h.stored] at hep
    refine ⟨x.2.2.id, hep, fun last hnewest => ?_⟩
    obtain ⟨a, ha, -, hsuccess⟩ := lastAttempt_pass_of_due hw h.clean hperm hx hxdue
    rw [ha] at hnewest
    cases hnewest
    rw [hsuccess]
    exact hxstatus.1

variable (opts) in
theorem answerable_pass (hperm : endpoints.Perm (activeEndpoints s.db)) (h : Answerable ids s) :
    Answerable ids (processOnceAsync w opts endpoints s).2 := by
  have hids : (processOnceAsync w opts endpoints s).2.db.events.rows.map Event.id =
      s.db.events.rows.map Event.id := ids_pass hw h.clean
  refine ⟨populated_pass opts hw hperm h.toPopulated, ?_, fun a ha => ?_, fun e he hselected => ?_⟩
  · rw [endpoints_pass hw h.clean]
    exact h.active
  · rw [hids]
    rcases mem_rows_pass hw h.clean ha with ha | ⟨x, hx, -, r, -, rfl⟩
    · exact h.known a ha
    · exact List.mem_map_of_mem (mem_candidates (mem_passVisits (FoldTrace.item_mem hx)).1).1
  · rw [hids] at he
    exact isOpen_pass hw hperm h he hselected

theorem answerable_step (hsome : ids ≠ []) {s' : State} {a : Action} (h : Answerable ids s)
    (hkeeps : KeepsActive ids a) (hstep : step w opts s a = some s') : Answerable ids s' := by
  have hpopulated := populated_step hw h.toPopulated hkeeps.addsNoEndpoint hstep
  cases a with
  | pass endpoints =>
    obtain ⟨hperm, rfl⟩ := step_pass_eq_some_iff.mp hstep
    exact answerable_pass opts hw hperm h
  | insertEvent ev =>
    obtain ⟨events, hevents, rfl⟩ := Option.map_eq_some_iff.mp hstep
    have hrows := Table.insertAll?_eq_some_iff.mp hevents
    refine ⟨hpopulated, h.active, fun a ha => ?_, fun e he hselected => ?_⟩
    · rw [hrows, List.map_append]
      exact List.mem_append_left _ (h.known a ha)
    · by_cases hold : e ∈ s.db.events.rows.map Event.id
      · unfold selected at hselected
        rw [statusOf_insert hold hrows] at hselected
        exact h.isOpen e hold hselected
      · -- a new event has no attempts
        obtain ⟨ep, hep⟩ := List.exists_mem_of_ne_nil ids hsome
        refine ⟨ep, hep, fun last hlast => ?_⟩
        obtain ⟨hmem, rfl, -⟩ := mem_pairRows.mp (lastAttempt_eq_some_iff.mp hlast).1
        exact absurd (h.known last hmem) hold
  | saveEndpoint ep =>
    cases hstep
    refine ⟨hpopulated, fun x hx => ?_, h.known, h.isOpen⟩
    rcases Table.mem_upsert hx with hx | rfl
    · exact h.active x hx
    · exact hkeeps.2

end Pass

/-! ## A pass that sends nothing -/

section SilentPass

variable {w : World} {opts : DeliveryOptions}

/-- A pair that waits for its deadline costs a look at the clock. -/
theorem processPair_waiting {v : Event × Endpoint} {s : State} (hdue : dueAt w s v = false)
    {last : DeliveryAttempt} (hlast : lastAttempt s.db v.1.id v.2.id = some last)
    (hfailed : last.success = false) :
    processPair w opts v.1 v.2 s = (.skipped, { s with reads := s.reads + 1 }) := by
  rw [dueAt, isDue, hlast, Option.all_some, hfailed, Bool.not_false, Bool.true_and] at hdue
  cases hnext : last.nextAttemptAt with
  | none =>
    rw [hnext] at hdue
    cases hdue
  | some deadline =>
    rw [hnext, Option.all_some] at hdue
    have hstate : getAttemptStateAsync w s v.1.id v.2.id =
        ((false, last.tryNumber + 1), { s with reads := s.reads + 1 }) := by
      rw [← hdue]
      simp only [getAttemptStateAsync, hlast, hfailed, hnext]
      rfl
    simp [processPair, hstate]

/-- Visits none of which is due only read the clock. -/
theorem processPairs_silent {db : Database} {pairs : List (Event × Endpoint)} (n : Nat) {s : State}
    (hdb : s.db = db)
    (h : Transition.Along (visitStep w opts) (fun s v => dueAt w s v = true → False) s pairs) :
    ∃ r, s.reads ≤ r ∧ (processPairs w opts pairs n s).2 = { s with reads := r } ∧
      ((∃ v ∈ pairs, ∃ last, lastAttempt db v.1.id v.2.id = some last ∧ last.success = false) →
        s.reads < r) := by
  induction pairs generalizing n s with
  | nil => exact ⟨s.reads, le_rfl, rfl, fun hwaits => by obtain ⟨v, hv, -⟩ := hwaits; cases hv⟩
  | cons v pairs ih =>
    obtain ⟨hnot, hrest⟩ := h
    have hdue : dueAt w s v = false := by rwa [← Bool.not_eq_true]
    obtain ⟨r, hr, heq⟩ := processPair_skipped opts hdue
    have hstep : visitStep w opts s v = some { s with reads := r } := by rw [visitStep, heq]
    obtain ⟨r', hr', hpairs, hlater⟩ := ih n (s := { s with reads := r }) hdb (hrest _ hstep)
    have hle : r ≤ r' := hr'
    refine ⟨r', hr.trans hle, ?_, ?_⟩
    · rw [processPairs, heq]
      exact hpairs
    · rintro ⟨u, hu, last, hlast, hfailed⟩
      rcases List.mem_cons.mp hu with rfl | hu
      · rw [← hdb] at hlast
        rw [processPair_waiting hdue hlast hfailed, Prod.mk.injEq, State.mk.injEq] at heq
        omega
      · have hlt : r < r' := hlater ⟨u, hu, last, hlast, hfailed⟩
        omega

theorem Silent.along {endpoints : List Endpoint} {s : State}
    (h : Silent w opts s (.pass endpoints)) (Q : Post → Prop) :
    Transition.Along (visitStep w opts)
      (fun s v => dueAt w s v = true → Q (request v (nextTryNumber s.db v.1.id v.2.id)))
      (passStart endpoints s) (passVisits opts endpoints s) := by
  obtain ⟨more, hmore, hiff⟩ := tries_processOnceAsync w opts Q endpoints s
  exact hiff.mp fun p hp => absurd ⟨more, hmore, p, hp, rfl⟩ (h p.eventId)

/-- The batch is empty only when no event is selected. -/
theorem exists_candidate (hbatch : 1 ≤ opts.batchSize) {db : Database} (h : Backlog db) :
    ∃ ev ∈ (candidates? opts db).getD [], selected db ev.id = true := by
  obtain ⟨e, he, hselected⟩ := h
  obtain ⟨ev, hev, rfl⟩ := List.mem_map.mp he
  have hcand : ev ∈ db.events.rows.filter isCandidate := by
    refine List.mem_filter.mpr ⟨hev, ?_⟩
    rw [selected, statusOf_eq hev] at hselected
    exact hselected
  have hne : (candidates? opts db).getD [] ≠ [] := by
    rw [candidates?, if_neg (by omega), Option.getD_some]
    apply Linq.take_ne_nil hbatch
    exact List.ne_nil_of_mem ((Linq.orderBy_perm Event.id _).mem_iff.mpr hcand)
  obtain ⟨first, hfirst⟩ := List.exists_mem_of_ne_nil _ hne
  obtain ⟨hmem, hfirstcand⟩ := mem_candidates hfirst
  refine ⟨first, hfirst, ?_⟩
  rw [selected, statusOf_eq hmem]
  exact hfirstcand

variable (hclock : w.ClockAdvances)
include hclock

/-- A pass over a batch with a selected event that tries nothing has looked at the clock, and a
deadline of the batch was ahead. -/
theorem silent_pass (hbatch : 1 ≤ opts.batchSize) {endpoints : List Endpoint} {s : State} {ids : List Guid}
    (hperm : endpoints.Perm (activeEndpoints s.db)) (h : Answerable ids s)
    (hbacklog : Backlog s.db) (hsilent : Silent w opts s (.pass endpoints)) :
    (processOnceAsync w opts endpoints s).2.db = s.db ∧
      s.reads < (processOnceAsync w opts endpoints s).2.reads ∧ DeadlineAhead w s := by
  obtain ⟨ev, hev, hselected⟩ := exists_candidate hbatch hbacklog
  obtain ⟨ep, hep, hopen⟩ := h.isOpen ev.id (List.mem_map_of_mem (mem_candidates hev).1) hselected
  rw [← h.stored] at hep
  obtain ⟨row, hrow, rfl⟩ := List.mem_map.mp hep
  -- the pass visits the pair
  have hrow' : row ∈ endpoints := hperm.mem_iff.mpr (List.mem_filter.mpr ⟨hrow, h.active row hrow⟩)
  have hvisit : (ev, materialise s.ctx row) ∈ passVisits opts endpoints s :=
    List.pair_mem_product.mpr ⟨hev, List.mem_map_of_mem hrow'⟩
  have hid : (materialise s.ctx row).id = row.id := ids_materialise s.ctx row
  have hlater : isDue s.db ev.id row.id (w.clock s.reads) = false := by
    rw [← Bool.not_eq_true]
    intro hdue
    let last := (processPairs w opts (passVisits opts endpoints s) 0 (passStart endpoints s)).2.reads
    have halong := hsilent.along fun p =>
      ¬ ∃ n, (s.reads ≤ n ∧ n < last) ∧ isDue s.db p.eventId p.endpointId (w.clock n) = true
    refine not_along_of_isDue (s := passStart endpoints s) hclock rfl le_rfl ⟨0, le_rfl⟩
      ⟨(ev, materialise s.ctx row), hvisit, ?_⟩ halong
    rw [hid]
    exact hdue
  cases hlast : lastAttempt s.db ev.id row.id with
  | none =>
    rw [isDue, hlast] at hlater
    cases hlater
  | some last =>
    have hfailed := hopen last hlast
    rw [isDue, hlast, Option.all_some, hfailed, Bool.not_false, Bool.true_and] at hlater
    obtain ⟨r, hr, hpairs, hlt⟩ := processPairs_silent 0 (s := passStart endpoints s) rfl
      (hsilent.along fun _ => False)
    have hreads : s.reads < r := hlt ⟨_, hvisit, last, by rw [hid]; exact hlast, hfailed⟩
    have hend : (processOnceAsync w opts endpoints s).2 = { passStart endpoints s with reads := r } := by
      rcases processOnceAsync_cases w opts endpoints s with ⟨hempty, -⟩ | heq
      · rw [hempty] at hvisit
        cases hvisit
      · rw [heq, hpairs]
    rw [hend]
    refine ⟨rfl, hreads, last, (mem_pairRows.mp (lastAttempt_eq_some_iff.mp hlast).1).1, ?_⟩
    cases hnext : last.nextAttemptAt with
    | none =>
      rw [hnext] at hlater
      cases hlater
    | some deadline =>
      rw [hnext, Option.all_some, decide_eq_false_iff_not, not_le] at hlater
      exact ⟨deadline, rfl, hlater⟩

/-- A step that tries nothing keeps the attempts and the backlog. -/
theorem silent_step (hbatch : 1 ≤ opts.batchSize) {s s' : State} {a : Action} {ids : List Guid}
    (h : Answerable ids s) (hbacklog : Backlog s.db) (hsilent : Silent w opts s a)
    (hstep : step w opts s a = some s') :
    s'.db.attempts = s.db.attempts ∧ Backlog s'.db ∧ s.reads ≤ s'.reads ∧
      (IsPass a → s.reads < s'.reads ∧ DeadlineAhead w s) := by
  cases a with
  | pass endpoints =>
    obtain ⟨hperm, rfl⟩ := step_pass_eq_some_iff.mp hstep
    obtain ⟨hdb, hreads, hahead⟩ := silent_pass hclock hbatch hperm h hbacklog hsilent
    rw [hdb]
    exact ⟨rfl, hbacklog, hreads.le, fun _ => ⟨hreads, hahead⟩⟩
  | insertEvent ev =>
    obtain ⟨events, hevents, rfl⟩ := Option.map_eq_some_iff.mp hstep
    have hrows := Table.insertAll?_eq_some_iff.mp hevents
    refine ⟨rfl, ?_, le_rfl, fun ⟨_, hpass⟩ => (by cases hpass)⟩
    obtain ⟨e, he, hselected⟩ := hbacklog
    refine ⟨e, ?_, ?_⟩
    · dsimp only
      rw [hrows, List.map_append]
      exact List.mem_append_left _ he
    · unfold selected
      rw [statusOf_insert he hrows]
      exact hselected
  | saveEndpoint ep =>
    cases hstep
    exact ⟨rfl, hbacklog, le_rfl, fun ⟨_, hpass⟩ => (by cases hpass)⟩

end SilentPass

/-! ## Infinite runs -/

section Run

variable {w : World} {opts : DeliveryOptions} {states : Nat → State} {actions : Nat → Action}
variable {ids : List Guid} (hrun : Transition.Endless (step w opts) states actions)
include hrun

theorem answerable_run (hw : w.Healthy) (hsome : ids ≠ []) (hstart : Answerable ids (states 0))
    (hkeeps : ∀ i, KeepsActive ids (actions i)) (i : Nat) : Answerable ids (states i) :=
  hrun.invariant (fun _ a => KeepsActive ids a) hkeeps
    (fun _ _ _ h hgood hstep => answerable_step hw hsome h hgood hstep) hstart i

/-- **A backlog leads to a request.** -/
theorem exists_attempt (hclock : w.ClockAdvances) (hpasses : w.ClockPasses)
    (hbatch : 1 ≤ opts.batchSize) (hanswerable : ∀ i, Answerable ids (states i))
    (hoften : ∀ n, ∃ i, n ≤ i ∧ IsPass (actions i)) {i : Nat} (hbacklog : Backlog (states i).db) :
    ∃ j, i ≤ j ∧ ∃ e, Attempts w opts e (states j) (actions j) := by
  by_contra hnone
  have hsilent : ∀ j, i ≤ j → Silent w opts (states j) (actions j) :=
    fun j hj e hattempts => hnone ⟨j, hj, e, hattempts⟩
  have hkept : ∀ j, i ≤ j →
      (states j).db.attempts = (states i).db.attempts ∧ Backlog (states j).db := by
    intro j hj
    induction j, hj using Nat.le_induction with
    | base => exact ⟨rfl, hbacklog⟩
    | succ j hj ih =>
      obtain ⟨hattempts, hlater, -⟩ :=
        silent_step hclock hbatch (hanswerable j) ih.2 (hsilent j hj) (hrun j)
      exact ⟨hattempts.trans ih.1, hlater⟩
  have hsteps : ∀ j, i ≤ j → _ := fun j hj =>
    (silent_step hclock hbatch (hanswerable j) (hkept j hj).2 (hsilent j hj) (hrun j)).2.2
  -- the clock passes every deadline that is stored
  obtain ⟨bound, hbound⟩ :=
    (List.finite_toSet ((states i).db.attempts.rows.filterMap DeliveryAttempt.nextAttemptAt)).bddAbove
  obtain ⟨m, hm⟩ := hpasses bound
  obtain ⟨j, hj, hpass, hreads⟩ := Transition.exists_le_gauge hoften
    (fun i => (states i).reads) (fun j hj => (hsteps j hj).1)
    (fun j hj hpass => ((hsteps j hj).2 hpass).1) m
  obtain ⟨-, x, hx, deadline, hnext, hlt⟩ := (hsteps j hj).2 hpass
  rw [(hkept j hj).1] at hx
  have hle : deadline ≤ bound := hbound (List.mem_filterMap.mpr ⟨x, hx, hnext⟩)
  have hlate : w.clock m ≤ w.clock (states j).reads := hclock _ _ hreads
  exact absurd (hle.trans (hm.trans hlate)) (not_le.mpr hlt)

omit hrun in
theorem stored_of_attempts {s : State} {a : Action} {e : Guid} (h : Attempts w opts e s a) :
    e ∈ s.db.events.rows.map Event.id := by
  cases a with
  | pass endpoints =>
    obtain ⟨more, hmore, p, hp, rfl⟩ := h
    obtain ⟨x, hx, -, rfl⟩ := exists_due_of_try hmore hp
    exact List.mem_map_of_mem (mem_candidates (mem_passVisits (FoldTrace.item_mem hx)).1).1
  | insertEvent ev => exact h.elim
  | saveEndpoint ep => exact h.elim

/-- With finitely many events only finitely many passes send a request. -/
theorem finite_attempts (hw : w.Healthy) (hstart : Populated ids (states 0))
    (hadds : ∀ i, AddsNoEndpoint ids (actions i))
    (hfin : {i | ∃ ev, actions i = .insertEvent ev}.Finite) :
    {i | ∃ e, Attempts w opts e (states i) (actions i)}.Finite := by
  obtain ⟨n, hn⟩ := Transition.exists_forall_not_of_finite hfin
  have hlater : Transition.Endless (step w opts) (fun k => states (n + k)) fun k => actions (n + k) :=
    fun k => hrun (n + k)
  have hattempts : ∀ e, {i | Attempts w opts e (states i) (actions i)}.Finite :=
    fun e => Set.finite_of_encard_le_coe (encard_attempts_le hw hrun hstart hadds e)
  have hstored := List.finite_toSet ((states n).db.events.rows.map Event.id)
  refine ((Set.finite_lt_nat n).union (hstored.biUnion fun e _ => hattempts e)).subset ?_
  rintro i ⟨e, he⟩
  rcases Nat.lt_or_ge i n with hlt | hge
  · exact Or.inl hlt
  · refine Or.inr (Set.mem_biUnion ?_ he)
    obtain ⟨k, rfl⟩ := Nat.exists_eq_add_of_le hge
    have hpopulated := populated_run hw hrun hstart hadds n
    rcases stored_run hw hlater hpopulated (fun k => hadds (n + k)) k e (stored_of_attempts he) with
      hold | ⟨j, ev, hinsert, -⟩
    · exact hold
    · exact absurd ⟨ev, hinsert⟩ (hn (n + j) (Nat.le_add_right n j))

end Run

theorem answerable_start (events : Table Event Guid Event.id) {endpoints : Table Endpoint Guid Endpoint.id}
    (hsome : endpoints.rows ≠ []) (hactive : ∀ ep ∈ endpoints.rows, ep.isActive = true) :
    Answerable (endpoints.rows.map Endpoint.id) (.start events endpoints) := by
  refine ⟨populated_start events endpoints, hactive, fun _ ha => absurd ha List.not_mem_nil, ?_⟩
  intro e _ _
  obtain ⟨ep, hep⟩ := List.exists_mem_of_ne_nil _ hsome
  refine ⟨ep.id, List.mem_map_of_mem hep, fun last hlast => ?_⟩
  exact absurd (mem_pairRows.mp (lastAttempt_eq_some_iff.mp hlast).1).1 List.not_mem_nil

/-- What the environment of an infinite run does: passes go on, finitely many events are inserted, and
the endpoints stay active. -/
structure Fair (ids : List Guid) (actions : Nat → Action) : Prop where
  passes : ∀ n, ∃ i, n ≤ i ∧ IsPass (actions i)
  inserts : {i | ∃ ev, actions i = .insertEvent ev}.Finite
  keepsActive : ∀ i, KeepsActive ids (actions i)

/-- **The backlog ends.** -/
theorem exists_forall_not_backlog {w : World} (hw : w.Healthy) (hclock : w.ClockAdvances)
    (hpasses : w.ClockPasses) {opts : DeliveryOptions} (hbatch : 1 ≤ opts.batchSize) {states : Nat → State}
    {actions : Nat → Action} {ids : List Guid} (hsome : ids ≠ []) (hstart : Answerable ids (states 0))
    (hrun : Transition.Endless (step w opts) states actions) (hfair : Fair ids actions) :
    ∃ n, ∀ i, n ≤ i → ¬ Backlog (states i).db := by
  have hfinite := finite_attempts hrun hw hstart.toPopulated
    (fun i => (hfair.keepsActive i).addsNoEndpoint) hfair.inserts
  apply Transition.exists_forall_not_of_leadsTo hfinite
  intro i hbacklog
  exact exists_attempt hrun hclock hpasses hbatch
    (answerable_run hrun hw hsome hstart hfair.keepsActive) hfair.passes hbacklog

theorem closed_of_not_backlog {db : Database} (h : ¬ Backlog db) :
    ∀ ev ∈ db.events.rows, ev.status = .dispatched ∨ ev.status = .deadLetter := by
  intro ev hev
  have hnot : ¬ selected db ev.id = true :=
    fun hselected => h ⟨ev.id, List.mem_map_of_mem hev, hselected⟩
  rw [selected, statusOf_eq hev] at hnot
  cases hstatus : ev.status with
  | dispatched => exact Or.inl rfl
  | deadLetter => exact Or.inr rfl
  | _ => simp [hstatus] at hnot

/-- **The backlog is worked off.** Whatever the endpoints answer, in an infinite run in which
passes go on, the clock passes every deadline and finitely many events are inserted, from some
moment on every event is dispatched or in the dead letters. -/
theorem drains {w : World} (hw : w.Healthy) (hclock : w.ClockAdvances) (hpasses : w.ClockPasses)
    (opts : DeliveryOptions) (hbatch : 1 ≤ opts.batchSize) (events : Table Event Guid Event.id)
    (endpoints : Table Endpoint Guid Endpoint.id) (hsome : endpoints.rows ≠ [])
    (hactive : ∀ ep ∈ endpoints.rows, ep.isActive = true) (states : Nat → State)
    (actions : Nat → Action) (hstart : states 0 = .start events endpoints)
    (hrun : Transition.Endless (step w opts) states actions)
    (hfair : Fair (endpoints.rows.map Endpoint.id) actions) :
    ∃ n, ∀ i, n ≤ i → ∀ ev ∈ (states i).db.events.rows,
      ev.status = .dispatched ∨ ev.status = .deadLetter := by
  have hanswerable : Answerable (endpoints.rows.map Endpoint.id) (states 0) := by
    rw [hstart]
    exact answerable_start events hsome hactive
  have hids : endpoints.rows.map Endpoint.id ≠ [] := by rwa [ne_eq, List.map_eq_nil_iff]
  obtain ⟨n, hn⟩ := exists_forall_not_backlog hw hclock hpasses hbatch hids hanswerable hrun hfair
  exact ⟨n, fun i hi => closed_of_not_backlog (hn i hi)⟩

theorem refusingWorld_clockPasses : refusingWorld.ClockPasses := by
  intro (t : Int)
  refine ⟨t.toNat, ?_⟩
  show t ≤ 0 + 1000 * t.toNat * 10000000
  omega

theorem drains_refused :
    ∃ n, ∀ i, n ≤ i → ∀ ev ∈ (refusedStates i).db.events.rows,
      ev.status = .dispatched ∨ ev.status = .deadLetter :=
  drains (w := refusingWorld) (fun _ => rfl) refusingWorld_clockAdvances refusingWorld_clockPasses twoTries
    (by decide) _ (.single olderEndpoint) (List.cons_ne_nil _ _) (by decide) refusedStates
    (fun _ => .pass [olderEndpoint]) rfl refusedStates_endless
    ⟨fun n => ⟨n, le_rfl, _, rfl⟩, by simp, fun _ => trivial⟩

end WebhookInbox.Worker
