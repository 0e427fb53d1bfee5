import WebhookInbox.Worker.Retries

/-!
# The order of the endpoints

The endpoints query has no `OrderBy`, so a pass may visit the endpoints of an event in any
order. The clock stands still here and the outcome of a request is that of its pair and
try (`World.Fixed`), so that the order is all that differs between two passes.

The rows do not depend on the order (`addedRows_perm`): a visit reads and writes its own
pair. The status does, since the last due visit of the event has the last word
(`status_pass_concat`). `orderIndependent_iff` is the exact condition: the due pairs of
each event of the batch agree on the status.
-/

namespace WebhookInbox.Worker

/-- The clock stands at `now`, and which request of the run it is changes no outcome. -/
structure World.Fixed (w : World) (now : Time) : Prop where
  clock : ∀ n, w.clock n = now
  http : ∀ eventId endpointId tryNumber n,
    w.http eventId endpointId tryNumber n = w.http eventId endpointId tryNumber 0

/-- The status that the pair's next try gives the event. -/
def pairStatus (w : World) (opts : DeliveryOptions) (db : Database) (eventId endpointId : Guid) :
    EventStatus :=
  let tryNumber := nextTryNumber db eventId endpointId
  resultStatus opts (w.http eventId endpointId tryNumber 0) tryNumber

def withoutId (a : DeliveryAttempt) : DeliveryAttempt := { a with id := 0 }

/-- The row of the pair's next try, without its id. -/
def pairRow (w : World) (opts : DeliveryOptions) (now : Time) (db : Database)
    (eventId endpointId : Guid) : DeliveryAttempt :=
  let tryNumber := nextTryNumber db eventId endpointId
  attemptRow opts eventId endpointId tryNumber (w.http eventId endpointId tryNumber 0) 0 now now

/-- The rows that were added between two states, without their ids. -/
def addedRows (s s' : State) : List DeliveryAttempt :=
  (s'.db.attempts.rows.drop s.db.attempts.rows.length).map withoutId

/-- The same status for every event, and the same added rows. -/
structure SameOutcome (s s₁ s₂ : State) : Prop where
  statuses : ∀ ev ∈ s.db.events.rows, statusOf s₁.db ev.id = statusOf s₂.db ev.id
  rows : (addedRows s s₁).Perm (addedRows s s₂)

def OrderIndependent (w : World) (opts : DeliveryOptions) (s : State) : Prop :=
  ∀ endpoints₁ endpoints₂ : List Endpoint,
    endpoints₁.Perm (activeEndpoints s.db) → endpoints₂.Perm (activeEndpoints s.db) →
      SameOutcome s (processOnceAsync w opts endpoints₁ s).2 (processOnceAsync w opts endpoints₂ s).2

/-- The due pairs of each event of the batch agree on the status. -/
def UniformBatch (w : World) (opts : DeliveryOptions) (now : Time) (db : Database) : Prop :=
  ∀ ev ∈ (candidates? opts db).getD [], ∀ ep ∈ activeEndpoints db, ∀ ep' ∈ activeEndpoints db,
    isDue db ev.id ep.id now = true → isDue db ev.id ep'.id now = true →
      pairStatus w opts db ev.id ep.id = pairStatus w opts db ev.id ep'.id

/-- What a visit writes to the status of an event, read off the state before the pass. -/
def pairWrite (w : World) (opts : DeliveryOptions) (now : Time) (db : Database) (eventId : Guid)
    (v : Event × Endpoint) : Option EventStatus :=
  if v.1.id = eventId ∧ isDue db v.1.id v.2.id now = true then
    some (pairStatus w opts db v.1.id v.2.id)
  else none

/-- The row of the pair if it is due, read off the state before the pass. -/
def pairRows? (w : World) (opts : DeliveryOptions) (now : Time) (db : Database)
    (v : Event × Endpoint) : List DeliveryAttempt :=
  if isDue db v.1.id v.2.id now then [pairRow w opts now db v.1.id v.2.id] else []

section Fixed

variable {w : World} {opts : DeliveryOptions} {now : Time} {endpoints : List Endpoint} {s : State}
variable (hw : w.Healthy) (hfix : w.Fixed now) (hctx : s.ctx.Clean)
variable (hperm : endpoints.Perm (activeEndpoints s.db))
include hw hfix hctx hperm

theorem dueAt_fixed {x : State × (Event × Endpoint)} (hx : x ∈ passTrace w opts endpoints s) :
    dueAt w x.1 x.2 = isDue s.db x.2.1.id x.2.2.id now := by
  rw [dueAt, hfix.clock]
  exact isDue_congr (lastAttempt_passTrace hw hctx hperm hx)

theorem passStatuses_fixed (eventId : Guid) :
    passStatuses w opts endpoints s eventId =
      (passVisits opts endpoints s).filterMap (pairWrite w opts now s.db eventId) := by
  apply FoldTrace.writes_eq_filterMap
  intro x hx
  have hstatus : visitStatus w opts x.1 x.2 = pairStatus w opts s.db x.2.1.id x.2.2.id := by
    simp only [visitStatus, pairStatus, nextTryNumber_passTrace hw hctx hperm hx, nextOutcome,
      hfix.http _ _ _ x.1.tries.length]
  rw [statusWrite, pairWrite, dueAt_fixed hw hfix hctx hperm hx, hstatus]

/-- The rows a pass adds, up to their ids, are those of the due pairs. -/
theorem addedRows_fixed :
    addedRows s (processOnceAsync w opts endpoints s).2 =
      (passVisits opts endpoints s).flatMap (pairRows? w opts now s.db) := by
  obtain ⟨rows, hrows, heq⟩ := rows_pass opts endpoints hw hctx
  have hvisit : ∀ x ∈ passTrace w opts endpoints s, ∀ l, VisitRows w opts x.1 x.2 l →
      l.map withoutId = pairRows? w opts now s.db x.2 := by
    intro x hx l hl
    rw [VisitRows, dueAt_fixed hw hfix hctx hperm hx] at hl
    unfold pairRows?
    split at hl
    · rename_i hdue
      obtain ⟨a, ⟨r, -, rfl⟩, rfl⟩ := hl
      rw [if_pos hdue, List.map_singleton, pairRow, nextTryNumber_passTrace hw hctx hperm hx, nextOutcome,
        hfix.http, hfix.clock, hfix.clock]
      rfl
    · rename_i hdue
      rw [hl, if_neg hdue, List.map_nil]
  rw [addedRows, heq, List.drop_left, List.map_flatten, FoldTrace.map_eq_of_forall₂ hrows hvisit,
    passTrace, List.flatMap_def, ← FoldTrace.trace_map_snd (f := deliver w opts) (passStart endpoints s)
      (passVisits opts endpoints s), List.map_map, FoldTrace.trace_map_snd]
  rfl

end Fixed

/-! ## The rows -/

theorem passVisits_perm {opts : DeliveryOptions} {s : State} {endpoints₁ endpoints₂ : List Endpoint}
    (h : endpoints₁.Perm endpoints₂) :
    (passVisits opts endpoints₁ s).Perm (passVisits opts endpoints₂ s) :=
  List.Perm.product_left _ (h.map _)

/-- The added rows never depend on the order. -/
theorem addedRows_perm {w : World} (hw : w.Healthy) {now : Time} (hfix : w.Fixed now)
    {opts : DeliveryOptions} {s : State} (hctx : s.ctx.Clean) {endpoints₁ endpoints₂ : List Endpoint}
    (h₁ : endpoints₁.Perm (activeEndpoints s.db)) (h₂ : endpoints₂.Perm (activeEndpoints s.db)) :
    (addedRows s (processOnceAsync w opts endpoints₁ s).2).Perm
      (addedRows s (processOnceAsync w opts endpoints₂ s).2) := by
  rw [addedRows_fixed hw hfix hctx h₁, addedRows_fixed hw hfix hctx h₂]
  exact (passVisits_perm (h₁.trans h₂.symm)).flatMap_right _

/-! ## The status -/

/-- In a product over events with distinct ids, the visits of one event are a block. -/
theorem filterMap_pairWrite_product {w : World} {opts : DeliveryOptions} {now : Time} {db : Database}
    {events : List Event} (hnd : (events.map Event.id).Nodup) {ev : Event} (hev : ev ∈ events)
    (endpoints : List Endpoint) :
    (events.product endpoints).filterMap (pairWrite w opts now db ev.id) =
      endpoints.filterMap fun ep => pairWrite w opts now db ev.id (ev, ep) := by
  have hother : ∀ e : Event, e.id ≠ ev.id →
      (endpoints.map fun ep => (e, ep)).filterMap (pairWrite w opts now db ev.id) = [] := by
    intro e hne
    rw [List.filterMap_eq_nil_iff]
    intro v hv
    obtain ⟨ep, -, rfl⟩ := List.mem_map.mp hv
    simp [pairWrite, hne]
  have hnone : ∀ es : List Event, ev.id ∉ es.map Event.id →
      (es.product endpoints).filterMap (pairWrite w opts now db ev.id) = [] := by
    intro es hes
    induction es with
    | nil => rfl
    | cons e es ih =>
      rw [List.map_cons, List.mem_cons, not_or] at hes
      show ((endpoints.map fun ep => (e, ep)) ++ es.product endpoints).filterMap _ = []
      rw [List.filterMap_append, hother e (Ne.symm hes.1), ih hes.2, List.append_nil]
  induction events with
  | nil => cases hev
  | cons e es ih =>
    rw [List.map_cons, List.nodup_cons] at hnd
    show ((endpoints.map fun ep => (e, ep)) ++ es.product endpoints).filterMap _ = _
    rw [List.filterMap_append]
    rcases List.mem_cons.mp hev with rfl | hev
    · rw [hnone es hnd.1, List.append_nil, List.filterMap_map]
      rfl
    · have hne : e.id ≠ ev.id := by
        intro he
        exact hnd.1 (he ▸ List.mem_map_of_mem hev)
      rw [hother e hne, List.nil_append, ih hnd.2 hev]

/-- The due pair that is visited last sets the status of its event. -/
theorem status_pass_concat {w : World} (hw : w.Healthy) {now : Time} (hfix : w.Fixed now)
    {opts : DeliveryOptions} {s : State} (hctx : s.ctx.Clean) {endpoints : List Endpoint} {ep : Endpoint}
    (hperm : (endpoints ++ [ep]).Perm (activeEndpoints s.db)) {ev : Event}
    (hev : ev ∈ (candidates? opts s.db).getD []) (hdue : isDue s.db ev.id ep.id now = true) :
    statusOf (processOnceAsync w opts (endpoints ++ [ep]) s).2.db ev.id =
      pairStatus w opts s.db ev.id ep.id := by
  have hlast : pairWrite w opts now s.db ev.id (ev, materialise s.ctx ep) =
      some (pairStatus w opts s.db ev.id ep.id) := by
    simp [pairWrite, ids_materialise, hdue]
  rw [status_pass _ _ hw hctx (mem_candidates hev).1, passStatuses_fixed hw hfix hctx hperm, passVisits,
    filterMap_pairWrite_product (candidates_ids_nodup opts s.db) hev, List.map_append,
    List.filterMap_append]
  simp [hlast]

/-- A status the pass writes to the event is that of a due pair with an active endpoint. -/
theorem exists_pair_of_write {w : World} {opts : DeliveryOptions} {now : Time} {s : State}
    {endpoints : List Endpoint} (hperm : endpoints.Perm (activeEndpoints s.db)) {ev : Event}
    {status : EventStatus}
    (h : status ∈ (passVisits opts endpoints s).filterMap (pairWrite w opts now s.db ev.id)) :
    ∃ e ∈ (candidates? opts s.db).getD [], e.id = ev.id ∧
      ∃ ep ∈ activeEndpoints s.db, isDue s.db e.id ep.id now = true ∧
        pairStatus w opts s.db e.id ep.id = status := by
  obtain ⟨⟨e, p⟩, hv, hwrite⟩ := List.mem_filterMap.mp h
  obtain ⟨he, hp⟩ := List.pair_mem_product.mp hv
  obtain ⟨ep, hep, rfl⟩ := List.mem_map.mp hp
  unfold pairWrite at hwrite
  split at hwrite
  · rename_i hdue
    rw [ids_materialise] at hdue hwrite
    exact ⟨e, he, hdue.1, ep, hperm.mem_iff.mp hep, hdue.2, Option.some.inj hwrite⟩
  · cases hwrite

/-- **Endpoint order.** From any state with nothing pending, the pass has the same outcome
for every order of the active endpoints exactly when the due pairs of each event of the
batch agree on the status. -/
theorem orderIndependent_iff {w : World} (hw : w.Healthy) {now : Time} (hfix : w.Fixed now)
    (opts : DeliveryOptions) {s : State} (hctx : s.ctx.Clean) :
    OrderIndependent w opts s ↔ UniformBatch w opts now s.db := by
  constructor
  · intro h ev hev ep hep ep' hep' hdue hdue'
    have hlast : ∀ e ∈ activeEndpoints s.db,
        ((activeEndpoints s.db).erase e ++ [e]).Perm (activeEndpoints s.db) := by
      intro e he
      exact (List.perm_append_singleton e _).trans (List.perm_cons_erase he).symm
    have hsame := (h _ _ (hlast ep hep) (hlast ep' hep')).statuses ev (mem_candidates hev).1
    rwa [status_pass_concat hw hfix hctx (hlast ep hep) hev hdue,
      status_pass_concat hw hfix hctx (hlast ep' hep') hev hdue'] at hsame
  · intro h endpoints₁ endpoints₂ h₁ h₂
    refine ⟨fun ev hev => ?_, addedRows_perm hw hfix hctx h₁ h₂⟩
    rw [status_pass _ _ hw hctx hev, status_pass _ _ hw hctx hev, passStatuses_fixed hw hfix hctx h₁,
      passStatuses_fixed hw hfix hctx h₂]
    rw [FoldTrace.getLast?_eq_of_perm ((passVisits_perm (h₁.trans h₂.symm)).filterMap _)]
    intro a ha b hb
    obtain ⟨e, he, hid, ep, hep, hdue, rfl⟩ := exists_pair_of_write h₁ ha
    obtain ⟨e', -, hid', ep', hep', hdue', rfl⟩ := exists_pair_of_write h₁ hb
    rw [hid'.trans hid.symm] at hdue' ⊢
    exact h e he ep hep ep' hep' hdue hdue'

theorem splitWorld_fixed : splitWorld.Fixed 0 := ⟨fun _ => rfl, fun _ _ _ _ => rfl⟩

theorem orderIndependent_split :
    OrderIndependent splitWorld {} splitStart ↔ UniformBatch splitWorld {} 0 splitStart.db :=
  orderIndependent_iff (fun _ => rfl) splitWorld_fixed {} ⟨rfl, rfl⟩

/-- In one order the event ends as `Dispatched`, in the other as `Failed`. -/
theorem order_matters : ¬ OrderIndependent splitWorld {} splitStart := by
  intro h
  have hsame := (h [failingEndpoint, workingEndpoint] [workingEndpoint, failingEndpoint] (by decide) (by decide)).statuses
    { id := 7, source := "test".toList, receivedAt := 0 } List.mem_cons_self
  revert hsame
  decide

end WebhookInbox.Worker
