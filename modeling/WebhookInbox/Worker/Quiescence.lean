import Mathlib.Data.Set.Finite.Lattice
import WebhookInbox.Library.Endless
import WebhookInbox.Worker.Cap
import WebhookInbox.Worker.Requests
import WebhookInbox.Worker.Retries

/-!
# The delivery loop comes to rest

`DeliveryWorker` waits after a pass that processed nothing and calls the next pass at once
after any other. No counter of the worker goes down: a pass may take an event from
`DeadLetter` back to `Failed`, and an exhausted pair is due at once. What cannot go on is
that a pass leaves the event selected. The last due visit of such a pass is a failure with
tries left, there is one such failure for each endpoint and each try below the limit, and
a pass that does not leave the event selected is the last one that attempts it
(`raises_gauge`). `quiesces` bounds the passes of an infinite run by counting them.
-/

namespace WebhookInbox.Worker

/-- The number of attempts of a pair after which a failure closes the event. -/
def attemptLimit (opts : DeliveryOptions) : Nat := (max 1 (attemptCap opts)).toNat

/-- The action is a pass that tries to deliver the event. -/
def Attempts (w : World) (opts : DeliveryOptions) (eventId : Guid) (s : State) : Action → Prop
  | .pass endpoints =>
    ∃ more, (processOnceAsync w opts endpoints s).2.tries = s.tries ++ more ∧
      ∃ p ∈ more, p.eventId = eventId
  | .insertEvent _ => False
  | .saveEndpoint _ => False

/-- Whether `ExecuteAsync` waits for the poll interval after the pass: when it processed
nothing and when it threw. -/
def PassEnd.delays : PassEnd → Bool
  | .returned processed => processed == 0
  | .threw => true

/-- The action is a pass after which the next one is called at once. -/
def Spins (w : World) (opts : DeliveryOptions) (s : State) : Action → Prop
  | .pass endpoints => (processOnceAsync w opts endpoints s).1.delays = false
  | .insertEvent _ => False
  | .saveEndpoint _ => False

/-- An endpoint that is saved is one of the given ones. -/
def AddsNoEndpoint (ids : List Guid) : Action → Prop
  | .pass _ => True
  | .insertEvent _ => True
  | .saveEndpoint ep => ep.id ∈ ids

/-- The candidates query selects the event. -/
def selected (db : Database) (eventId : Guid) : Bool :=
  statusOf db eventId = .new ∨ statusOf db eventId = .failed

/-- The attempts of the event after which its pair had tries left. -/
def openAttempts (opts : DeliveryOptions) (db : Database) (eventId : Guid) : List DeliveryAttempt :=
  db.attempts.rows.filter fun a => a.eventId = eventId ∧ isExhausted opts a.tryNumber = false

/-- What every pass that attempts the event raises. -/
def gauge (opts : DeliveryOptions) (eventId : Guid) (s : State) : Nat :=
  (openAttempts opts s.db eventId).length + if selected s.db eventId then 0 else 1

/-! ## What the passes keep -/

/-- Nothing is pending, the endpoints are the given ones, and every attempt is one of
theirs with a try number from 1 on. -/
structure Populated (ids : List Guid) (s : State) : Prop where
  clean : s.ctx.Clean
  stored : s.db.endpoints.rows.map Endpoint.id = ids
  placed : ∀ a ∈ s.db.attempts.rows, a.endpointId ∈ ids
  numbered : ∀ a ∈ s.db.attempts.rows, 1 ≤ a.tryNumber

theorem one_le_nextTryNumber {db : Database} (h : ∀ a ∈ db.attempts.rows, 1 ≤ a.tryNumber)
    (eventId endpointId : Guid) : 1 ≤ nextTryNumber db eventId endpointId := by
  unfold nextTryNumber
  cases hlast : lastAttempt db eventId endpointId with
  | none => exact le_rfl
  | some last =>
    have := h last (mem_pairRows.mp (lastAttempt_eq_some_iff.mp hlast).1).1
    rw [Option.elim_some]
    omega

section Pass

variable {w : World} {opts : DeliveryOptions} {endpoints : List Endpoint} {s : State}

/-- A visited endpoint is one of the stored ones. -/
theorem id_mem_of_passTrace (hperm : endpoints.Perm (activeEndpoints s.db))
    {x : State × (Event × Endpoint)} (hx : x ∈ passTrace w opts endpoints s) :
    x.2.2.id ∈ s.db.endpoints.rows.map Endpoint.id := by
  obtain ⟨-, row, hrow, heq⟩ := mem_passVisits (FoldTrace.item_mem hx)
  rw [heq, ids_materialise]
  apply List.mem_map_of_mem
  exact (List.mem_filter.mp (hperm.mem_iff.mp hrow)).1

variable (hw : w.Healthy)
include hw

theorem endpoints_deliver {v : Event × Endpoint} (hctx : s.ctx.Clean) :
    (deliver w opts s v).db.endpoints = s.db.endpoints := by
  cases hdue : dueAt w s v with
  | false => rw [(deliver_not_due hdue).1]
  | true => exact (deliver_due opts hw hctx hdue).endpoints

theorem endpoints_pass (hctx : s.ctx.Clean) :
    (processOnceAsync w opts endpoints s).2.db.endpoints = s.db.endpoints := by
  have hfold := FoldTrace.foldl_invariant (f := deliver w opts)
    (I := fun s' => s'.ctx.Clean ∧ s'.db.endpoints = s.db.endpoints)
    (fun s' v h => ⟨deliver_clean hw h.1, (endpoints_deliver hw h.1).trans h.2⟩)
    (passVisits opts endpoints s) ⟨passStart_clean endpoints hctx, rfl⟩
  rw [(processOnceAsync_spec hw opts endpoints hctx).1]
  exact hfold.2

variable (opts) in
theorem populated_pass (hperm : endpoints.Perm (activeEndpoints s.db)) {ids : List Guid}
    (h : Populated ids s) :
    Populated ids (processOnceAsync w opts endpoints s).2 := by
  have hadded : ∀ a ∈ (processOnceAsync w opts endpoints s).2.db.attempts.rows,
      a.endpointId ∈ ids ∧ 1 ≤ a.tryNumber := by
    intro a ha
    rcases mem_rows_pass hw h.clean ha with ha | ⟨x, hx, -, hrow⟩
    · exact ⟨h.placed a ha, h.numbered a ha⟩
    · have hid := id_mem_of_passTrace hperm hx
      have hone := one_le_nextTryNumber h.numbered x.2.1.id x.2.2.id
      rw [h.stored] at hid
      rw [← nextTryNumber_passTrace hw h.clean hperm hx, ← hrow.tryNumber_eq] at hone
      obtain ⟨r, -, rfl⟩ := hrow
      exact ⟨hid, hone⟩
  refine ⟨(processOnceAsync_spec hw opts endpoints h.clean).2, ?_,
    fun a ha => (hadded a ha).1, fun a ha => (hadded a ha).2⟩
  rw [endpoints_pass hw h.clean]
  exact h.stored

end Pass

theorem populated_step {w : World} (hw : w.Healthy) {opts : DeliveryOptions} {ids : List Guid}
    {s s' : State} {a : Action} (h : Populated ids s) (hadds : AddsNoEndpoint ids a)
    (hstep : step w opts s a = some s') : Populated ids s' := by
  cases a with
  | pass endpoints =>
    obtain ⟨hperm, rfl⟩ := step_pass_eq_some_iff.mp hstep
    exact populated_pass opts hw hperm h
  | insertEvent ev =>
    obtain ⟨events, -, rfl⟩ := Option.map_eq_some_iff.mp hstep
    exact ⟨h.clean, h.stored, h.placed, h.numbered⟩
  | saveEndpoint ep =>
    cases hstep
    refine ⟨h.clean, ?_, h.placed, h.numbered⟩
    exact (Table.keys_upsert _ (h.stored.symm ▸ hadds)).trans h.stored

/-! ## The gauge -/

theorem mem_openAttempts {opts : DeliveryOptions} {db : Database} {e : Guid} {a : DeliveryAttempt} :
    a ∈ openAttempts opts db e ↔
      a ∈ db.attempts.rows ∧ a.eventId = e ∧ isExhausted opts a.tryNumber = false := by
  simp [openAttempts]

/-- There is one open attempt for each endpoint and each try below the limit. -/
theorem length_openAttempts_le {ids : List Guid} {s : State} (h : Populated ids s)
    (opts : DeliveryOptions) (e : Guid) :
    (openAttempts opts s.db e).length ≤ ids.length * (attemptLimit opts - 1) := by
  have hone : ∀ a ∈ openAttempts opts s.db e, 1 ≤ a.tryNumber :=
    fun a ha => h.numbered a (mem_openAttempts.mp ha).1
  have hnodup : ((openAttempts opts s.db e).map fun a => (a.endpointId, (a.tryNumber - 1).toNat)).Nodup := by
    apply List.Nodup.map_on
    · intro a ha b hb hkey
      have ha₁ := hone a ha
      have hb₁ := hone b hb
      obtain ⟨ha, hae, -⟩ := mem_openAttempts.mp ha
      obtain ⟨hb, hbe, -⟩ := mem_openAttempts.mp hb
      obtain ⟨hep, htry⟩ := Prod.mk.inj hkey
      apply s.db.attempts.eq_of_key_eq ha hb
      have htry' : a.tryNumber = b.tryNumber := by omega
      rw [DeliveryAttempt.key, DeliveryAttempt.key, hae, hbe, hep, htry']
    · exact (List.Nodup.of_map _ s.db.attempts.nodup).filter _
  have hsub : ((openAttempts opts s.db e).map fun a => (a.endpointId, (a.tryNumber - 1).toNat)) ⊆
      ids.product (List.range (attemptLimit opts - 1)) := by
    intro k hk
    obtain ⟨a, ha, rfl⟩ := List.mem_map.mp hk
    have ha₁ := hone a ha
    obtain ⟨ha, -, hopen⟩ := mem_openAttempts.mp ha
    rw [isExhausted_eq_false_iff] at hopen
    apply List.pair_mem_product.mpr
    refine ⟨h.placed a ha, List.mem_range.mpr ?_⟩
    unfold attemptLimit
    omega
  have hle := (hnodup.subperm hsub).length_le
  have hlength : (ids.product (List.range (attemptLimit opts - 1))).length =
      ids.length * (List.range (attemptLimit opts - 1)).length := List.length_product _ _
  rwa [List.length_map, hlength, List.length_range] at hle

theorem gauge_le {ids : List Guid} {s : State} (h : Populated ids s) (opts : DeliveryOptions) (e : Guid) :
    gauge opts e s ≤ ids.length * (attemptLimit opts - 1) + 1 := by
  have hle := length_openAttempts_le h opts e
  unfold gauge
  split
  · omega
  · omega

section Gauge

variable {w : World} (hw : w.Healthy) {opts : DeliveryOptions} {endpoints : List Endpoint} {s : State}
variable (hctx : s.ctx.Clean) {e : Guid}
include hw hctx

variable (opts endpoints e) in
theorem openAttempts_pass : ∃ more, openAttempts opts (processOnceAsync w opts endpoints s).2.db e =
    openAttempts opts s.db e ++ more := by
  obtain ⟨rows, -, heq⟩ := rows_pass opts endpoints hw hctx
  unfold openAttempts
  rw [heq, List.filter_append]
  exact ⟨_, rfl⟩

/-- A pass with a due visit of the event raises the gauge: it adds an open attempt or it
closes the event. -/
theorem raises_gauge (hperm : endpoints.Perm (activeEndpoints s.db))
    (hdue : passStatuses w opts endpoints s e ≠ []) :
    gauge opts e s < gauge opts e (processOnceAsync w opts endpoints s).2 := by
  obtain ⟨status, hlast⟩ := List.getLast?_isSome.mpr hdue |> Option.isSome_iff_exists.mp
  obtain ⟨x, hx, rfl, hxdue, hxstatus⟩ := mem_passStatuses.mp (List.mem_of_getLast? hlast)
  obtain ⟨hev, hcand⟩ := mem_candidates (mem_passVisits (FoldTrace.item_mem hx)).1
  have hafter := status_pass opts endpoints hw hctx hev
  rw [hlast, Option.getD_some] at hafter
  have hbefore : selected s.db x.2.1.id = true := by
    rw [selected, statusOf_eq hev]
    exact hcand
  obtain ⟨more, hmore⟩ := openAttempts_pass hw opts endpoints hctx x.2.1.id
  unfold gauge
  rw [hbefore, hmore, List.length_append, if_pos rfl]
  by_cases hfailed : status = .failed
  · -- the row of the last due visit is an open attempt, and its try is a new one
    obtain ⟨a, ha, hrow⟩ := exists_row_of_due hw hctx hx hxdue
    have hnew : a ∉ openAttempts opts s.db x.2.1.id := by
      intro hold
      have htry := hrow.tryNumber_eq
      rw [nextTryNumber_passTrace hw hctx hperm hx] at htry
      have hpair : a ∈ pairRows s.db x.2.1.id x.2.2.id := by
        obtain ⟨r, -, rfl⟩ := hrow
        exact mem_pairRows.mpr ⟨(mem_openAttempts.mp hold).1, rfl, rfl⟩
      have hlt := nextTry_fresh hpair
      omega
    have hopen : a ∈ openAttempts opts (processOnceAsync w opts endpoints s).2.db x.2.1.id := by
      rw [hfailed, visitStatus, resultStatus_eq_failed_iff] at hxstatus
      refine mem_openAttempts.mpr ⟨ha, ?_, ?_⟩
      · obtain ⟨r, -, rfl⟩ := hrow
        rfl
      · rw [hrow.tryNumber_eq]
        exact hxstatus.2
    rw [hmore, List.mem_append] at hopen
    have hpos := List.length_pos_of_mem (hopen.resolve_left hnew)
    omega
  · have hclosed : selected (processOnceAsync w opts endpoints s).2.db x.2.1.id = false := by
      have hnew : status ≠ .new := hxstatus ▸ resultStatus_ne_new _ _ _
      simp [selected, hafter, hnew, hfailed]
    rw [hclosed]
    simp

/-- A pass without one leaves the status of the event. -/
theorem statusOf_pass_of_not_due (hdue : passStatuses w opts endpoints s e = []) :
    statusOf (processOnceAsync w opts endpoints s).2.db e = statusOf s.db e := by
  by_cases hmem : e ∈ s.db.events.rows.map Event.id
  · obtain ⟨ev, hev, rfl⟩ := List.mem_map.mp hmem
    rw [status_pass opts endpoints hw hctx hev, hdue]
    rfl
  · rw [statusOf_of_not_mem hmem]
    apply statusOf_of_not_mem
    rw [ids_pass hw hctx]
    exact hmem

theorem gauge_le_pass (hperm : endpoints.Perm (activeEndpoints s.db)) :
    gauge opts e s ≤ gauge opts e (processOnceAsync w opts endpoints s).2 := by
  by_cases hdue : passStatuses w opts endpoints s e = []
  · obtain ⟨more, hmore⟩ := openAttempts_pass hw opts endpoints hctx e
    unfold gauge selected
    rw [statusOf_pass_of_not_due hw hctx hdue, hmore, List.length_append]
    omega
  · exact (raises_gauge hw hctx hperm hdue).le

end Gauge

theorem gauge_le_step {w : World} (hw : w.Healthy) {opts : DeliveryOptions} {e : Guid} {s s' : State}
    {a : Action} (hctx : s.ctx.Clean) (h : step w opts s a = some s') :
    gauge opts e s ≤ gauge opts e s' := by
  cases a with
  | pass endpoints =>
    obtain ⟨hperm, rfl⟩ := step_pass_eq_some_iff.mp h
    exact gauge_le_pass hw hctx hperm
  | insertEvent ev =>
    obtain ⟨events, hevents, rfl⟩ := Option.map_eq_some_iff.mp h
    have hrows := Table.insertAll?_eq_some_iff.mp hevents
    unfold gauge
    by_cases hmem : e ∈ s.db.events.rows.map Event.id
    · apply le_of_eq
      unfold selected
      rw [statusOf_insert hmem hrows]
      rfl
    · have hnew : selected s.db e = true := by simp [selected, statusOf_of_not_mem hmem]
      rw [hnew]
      exact Nat.le_add_right _ _
  | saveEndpoint ep =>
    cases h
    exact le_rfl

theorem gauge_lt_of_attempts {w : World} (hw : w.Healthy) {opts : DeliveryOptions} {e : Guid}
    {s s' : State} {a : Action} (hctx : s.ctx.Clean) (hattempts : Attempts w opts e s a)
    (h : step w opts s a = some s') : gauge opts e s < gauge opts e s' := by
  cases a with
  | pass endpoints =>
    obtain ⟨hperm, rfl⟩ := step_pass_eq_some_iff.mp h
    obtain ⟨more, hmore, p, hp, rfl⟩ := hattempts
    obtain ⟨x, hx, hdue, rfl⟩ := exists_due_of_try hmore hp
    apply raises_gauge hw hctx hperm
    exact List.ne_nil_of_mem (mem_passStatuses.mpr ⟨x, hx, rfl, hdue, rfl⟩)
  | insertEvent ev => exact hattempts.elim
  | saveEndpoint ep => exact hattempts.elim

/-! ## Infinite runs -/

/-- A pass that processed a pair has attempted a stored event. -/
theorem exists_attempted {w : World} {opts : DeliveryOptions} {s : State} {a : Action}
    (h : Spins w opts s a) : ∃ e ∈ s.db.events.rows.map Event.id, Attempts w opts e s a := by
  cases a with
  | pass endpoints =>
    cases hend : (processOnceAsync w opts endpoints s).1 with
    | threw =>
      rw [Spins, hend] at h
      cases h
    | returned m =>
      rw [Spins, hend] at h
      have hm : m ≠ 0 := by simpa [PassEnd.delays] using h
      obtain ⟨more, hmore, hne⟩ := exists_try_of_returned (Nat.pos_of_ne_zero hm) hend
      obtain ⟨p, hp⟩ := List.exists_mem_of_ne_nil more hne
      obtain ⟨x, hx, -, heq⟩ := exists_due_of_try hmore hp
      refine ⟨p.eventId, ?_, more, hmore, p, hp, rfl⟩
      rw [heq]
      exact List.mem_map_of_mem (mem_candidates (mem_passVisits (FoldTrace.item_mem hx)).1).1
  | insertEvent ev => exact h.elim
  | saveEndpoint ep => exact h.elim

theorem populated_start (events : Table Event Guid Event.id)
    (endpoints : Table Endpoint Guid Endpoint.id) :
    Populated (endpoints.rows.map Endpoint.id) (.start events endpoints) :=
  ⟨⟨rfl, rfl⟩, rfl, fun _ ha => absurd ha List.not_mem_nil, fun _ ha => absurd ha List.not_mem_nil⟩

section Run

variable {w : World} (hw : w.Healthy) {opts : DeliveryOptions} {states : Nat → State}
variable {actions : Nat → Action} {ids : List Guid}
variable (hrun : Transition.Endless (step w opts) states actions)
variable (hstart : Populated ids (states 0)) (hadds : ∀ i, AddsNoEndpoint ids (actions i))
include hw hrun hstart hadds

theorem populated_run (i : Nat) : Populated ids (states i) :=
  hrun.invariant (fun _ a => AddsNoEndpoint ids a) hadds
    (fun _ _ _ h hgood hstep => populated_step hw h hgood hstep) hstart i

/-- A stored event was there from the start or was inserted. -/
theorem stored_run (i : Nat) : ∀ e ∈ (states i).db.events.rows.map Event.id,
    e ∈ (states 0).db.events.rows.map Event.id ∨
      ∃ j ev, actions j = .insertEvent ev ∧ ev.id = e := by
  induction i with
  | zero => exact fun e he => Or.inl he
  | succ i ih =>
    intro e he
    have hstep := hrun i
    cases haction : actions i with
    | pass endpoints =>
      rw [haction] at hstep
      obtain ⟨-, heq⟩ := step_pass_eq_some_iff.mp hstep
      rw [← heq, ids_pass hw (populated_run hw hrun hstart hadds i).clean] at he
      exact ih e he
    | insertEvent ev =>
      rw [haction] at hstep
      obtain ⟨events, hevents, heq⟩ := Option.map_eq_some_iff.mp hstep
      rw [← heq] at he
      dsimp only at he
      rw [Table.insertAll?_eq_some_iff.mp hevents, List.map_append, List.mem_append] at he
      rcases he with he | he
      · exact ih e he
      · exact Or.inr ⟨i, ev, haction, (List.mem_singleton.mp he).symm⟩
    | saveEndpoint ep =>
      rw [haction] at hstep
      rw [← Option.some.inj hstep] at he
      exact ih e he

theorem encard_attempts_le (e : Guid) : {i | Attempts w opts e (states i) (actions i)}.encard ≤
    (ids.length * (attemptLimit opts - 1) + 1 : Nat) :=
  hrun.encard_le_of_gauge (fun _ a => AddsNoEndpoint ids a) (gauge opts e) (I := Populated ids) hadds (fun _ _ _ h hgood hstep => populated_step hw h hgood hstep) hstart
    (fun _ _ _ h _ hstep => gauge_le_step hw h.clean hstep)
    (fun _ _ _ h _ hattempts hstep => gauge_lt_of_attempts hw h.clean hattempts hstep)
    (fun _ h => gauge_le h opts e)

/-- With finitely many events only finitely many passes process a pair. -/
theorem finite_spins (hfin : {i | ∃ ev, actions i = .insertEvent ev}.Finite) :
    {i | Spins w opts (states i) (actions i)}.Finite := by
  have hinserted : {e | ∃ j ev, actions j = .insertEvent ev ∧ ev.id = e}.Finite := by
    refine (hfin.image fun j => match actions j with
      | .insertEvent ev => ev.id
      | _ => 0).subset ?_
    rintro e ⟨j, ev, haction, rfl⟩
    exact ⟨j, ⟨ev, haction⟩, by dsimp only; rw [haction]⟩
  have hstored := (List.finite_toSet ((states 0).db.events.rows.map Event.id)).union hinserted
  refine (hstored.biUnion fun e _ =>
    Set.finite_of_encard_le_coe (encard_attempts_le hw hrun hstart hadds e)).subset ?_
  intro i hi
  obtain ⟨e, he, hattempts⟩ := exists_attempted hi
  exact Set.mem_biUnion (stored_run hw hrun hstart hadds i e he) hattempts

end Run

/-- **The delivery loop comes to rest.** Whatever the outcomes, in an infinite run that adds
no endpoint each event is attempted in a bounded number of passes, and when finitely many
events are inserted, the loop waits after every pass from some pass on. -/
theorem quiesces {w : World} (hw : w.Healthy) (opts : DeliveryOptions)
    (events : Table Event Guid Event.id) (endpoints : Table Endpoint Guid Endpoint.id)
    (states : Nat → State) (actions : Nat → Action) (hstart : states 0 = .start events endpoints)
    (hrun : Transition.Endless (step w opts) states actions)
    (hadds : ∀ i, AddsNoEndpoint (endpoints.rows.map Endpoint.id) (actions i)) :
    (∀ e, {i | Attempts w opts e (states i) (actions i)}.encard ≤
        (endpoints.rows.length * (attemptLimit opts - 1) + 1 : Nat)) ∧
      ({i | ∃ ev, actions i = .insertEvent ev}.Finite →
        {i | Spins w opts (states i) (actions i)}.Finite ∧
          ∃ n, ∀ i, n ≤ i → ¬ Spins w opts (states i) (actions i)) := by
  have hpopulated : Populated (endpoints.rows.map Endpoint.id) (states 0) := by
    rw [hstart]
    exact populated_start events endpoints
  refine ⟨fun e => ?_, fun hfin => ?_⟩
  · have hle := encard_attempts_le hw hrun hpopulated hadds e
    rwa [List.length_map] at hle
  · have hspins := finite_spins hw hrun hpopulated hadds hfin
    exact ⟨hspins, Transition.exists_forall_not_of_finite hspins⟩

/-- The states of a worker that does nothing but passes over one endpoint. -/
def refusedStates : Nat → State
  | 0 => staggeredStart
  | i + 1 => (processOnceAsync refusingWorld twoTries [olderEndpoint] (refusedStates i)).2

theorem refusedStates_endpoints (i : Nat) : (refusedStates i).ctx.Clean ∧
    (refusedStates i).db.endpoints = staggeredStart.db.endpoints := by
  induction i with
  | zero => exact ⟨⟨rfl, rfl⟩, rfl⟩
  | succ i ih =>
    have hw : refusingWorld.Healthy := fun _ => rfl
    exact ⟨(processOnceAsync_spec hw _ _ ih.1).2, (endpoints_pass hw ih.1).trans ih.2⟩

theorem refusedStates_endless :
    Transition.Endless (step refusingWorld twoTries) refusedStates fun _ => .pass [olderEndpoint] := by
  intro i
  apply step_pass_eq_some_iff.mpr
  refine ⟨?_, rfl⟩
  rw [activeEndpoints, (refusedStates_endpoints i).2]
  exact List.Perm.refl _

theorem quiesces_refused :
    (∀ e, {i | Attempts refusingWorld twoTries e (refusedStates i) (.pass [olderEndpoint])}.encard ≤
        (1 * (attemptLimit twoTries - 1) + 1 : Nat)) ∧
      {i | Spins refusingWorld twoTries (refusedStates i) (.pass [olderEndpoint])}.Finite ∧
        ∃ n, ∀ i, n ≤ i → ¬ Spins refusingWorld twoTries (refusedStates i) (.pass [olderEndpoint]) := by
  have hrun := quiesces (w := refusingWorld) (fun _ => rfl) twoTries _ (.single olderEndpoint)
    refusedStates _ rfl refusedStates_endless fun _ => trivial
  exact ⟨hrun.1, hrun.2 (by simp)⟩

end WebhookInbox.Worker
