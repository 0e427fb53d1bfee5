import WebhookInbox.Library.FoldTrace
import WebhookInbox.Worker.Delivery

/-!
# A pass without a fault

When no save fails by itself and nothing is pending, a pass is a fold of `deliver` over
the pairs it visits (`processOnceAsync_db`). The pairs have distinct keys
(`passVisits_keys_nodup`), a visit changes no attempt of another pair
(`lastAttempt_deliver_of_ne`), and every due visit of an event writes its status over the
one before. So the status after the pass is that of the event's last due visit
(`status_pass`), while every pair keeps its own attempt (`lastAttempt_pass_of_due`,
`lastAttempt_pass_of_not_due`).
-/

namespace WebhookInbox.Worker

/-- The status of an event. -/
def statusOf (db : Database) (eventId : Guid) : EventStatus :=
  (db.events.find? eventId).elim .new Event.status

def visitKey (v : Event × Endpoint) : Guid × Guid := (v.1.id, v.2.id)

/-- The state after the visit of one pair. -/
def deliver (w : World) (opts : DeliveryOptions) (s : State) (v : Event × Endpoint) : State :=
  (processPair w opts v.1 v.2 s).2

/-- The pair is due when its visit reads the clock. -/
def dueAt (w : World) (s : State) (v : Event × Endpoint) : Bool :=
  isDue s.db v.1.id v.2.id (w.clock s.reads)

/-- The status the visit gives its event when the pair is due. -/
def visitStatus (w : World) (opts : DeliveryOptions) (s : State) (v : Event × Endpoint) :
    EventStatus :=
  let tryNumber := nextTryNumber s.db v.1.id v.2.id
  resultStatus opts (nextOutcome w s v.1.id v.2.id tryNumber) tryNumber

/-- The status a visit writes to an event, if it writes one. -/
def statusWrite (w : World) (opts : DeliveryOptions) (eventId : Guid) (s : State)
    (v : Event × Endpoint) : Option EventStatus :=
  if v.1.id = eventId ∧ dueAt w s v = true then some (visitStatus w opts s v) else none

/-- The row a due visit adds. Its times are clock reads made during the visit. -/
def IsVisitRow (w : World) (opts : DeliveryOptions) (s : State) (v : Event × Endpoint)
    (a : DeliveryAttempt) : Prop :=
  let tryNumber := nextTryNumber s.db v.1.id v.2.id
  ∃ r, s.reads ≤ r ∧ a = attemptRow opts v.1.id v.2.id tryNumber
    (nextOutcome w s v.1.id v.2.id tryNumber) (w.newGuid s.guids) (w.clock r) (w.clock (r + 1))

/-- The rows a visit adds: one when the pair is due, and none otherwise. -/
def VisitRows (w : World) (opts : DeliveryOptions) (s : State) (v : Event × Endpoint)
    (rows : List DeliveryAttempt) : Prop :=
  if dueAt w s v then ∃ a, IsVisitRow w opts s v a ∧ rows = [a] else rows = []

/-! ## One visit -/

section Visit

variable {w : World} {opts : DeliveryOptions} {s : State} {v : Event × Endpoint}

theorem deliver_not_due (hdue : dueAt w s v = false) :
    (deliver w opts s v).db = s.db ∧ (deliver w opts s v).ctx = s.ctx := by
  obtain ⟨r, -, heq⟩ := processPair_skipped opts hdue
  rw [deliver, heq]
  exact ⟨rfl, rfl⟩

variable (opts) in
theorem deliver_due (hw : w.Healthy) (hctx : s.ctx.Clean) (hdue : dueAt w s v = true) :
    Delivered w opts v.1.id v.2.id s (deliver w opts s v) :=
  (processPair_delivered hw _ hctx hdue).2

theorem deliver_clean (hw : w.Healthy) (hctx : s.ctx.Clean) : (deliver w opts s v).ctx.Clean := by
  cases hdue : dueAt w s v with
  | false => rw [(deliver_not_due hdue).2]; exact hctx
  | true => exact (deliver_due opts hw hctx hdue).clean

theorem processPair_ne_threw (hw : w.Healthy) (hctx : s.ctx.Clean) :
    (processPair w opts v.1 v.2 s).1 ≠ .threw := by
  cases hdue : dueAt w s v with
  | false =>
    obtain ⟨r, -, heq⟩ := processPair_skipped opts hdue
    rw [heq]
    exact PairEnd.noConfusion
  | true =>
    rw [(processPair_delivered hw _ hctx hdue).1]
    cases nextOutcome w s v.1.id v.2.id (nextTryNumber s.db v.1.id v.2.id) <;>
      exact PairEnd.noConfusion

theorem Delivered.pairRows_of_ne {s' : State} {eventId endpointId e p : Guid}
    (h : Delivered w opts eventId endpointId s s') (hne : (eventId, endpointId) ≠ (e, p)) :
    pairRows s'.db e p = pairRows s.db e p := by
  obtain ⟨r, -, hrows⟩ := h.row
  have hkey : ¬ (eventId = e ∧ endpointId = p) := fun hk => hne (by rw [hk.1, hk.2])
  simp [pairRows, hrows, attemptRow, hkey]

theorem Delivered.lastAttempt_self {s' : State} {eventId endpointId : Guid}
    (h : Delivered w opts eventId endpointId s s') :
    ∃ a, lastAttempt s'.db eventId endpointId = some a ∧
      a.tryNumber = nextTryNumber s.db eventId endpointId ∧
      a.success = (nextOutcome w s eventId endpointId
        (nextTryNumber s.db eventId endpointId)).succeeded := by
  obtain ⟨r, -, hrows⟩ := h.row
  exact ⟨_, lastAttempt_commit hrows rfl, rfl, rfl⟩

theorem lastAttempt_deliver_of_ne (hw : w.Healthy) (hctx : s.ctx.Clean) {k : Guid × Guid}
    (hne : visitKey v ≠ k) :
    lastAttempt (deliver w opts s v).db k.1 k.2 = lastAttempt s.db k.1 k.2 := by
  cases hdue : dueAt w s v with
  | false => rw [(deliver_not_due hdue).1]
  | true => exact lastAttempt_congr ((deliver_due opts hw hctx hdue).pairRows_of_ne hne)

theorem deliver_keyed (hw : w.Healthy) (opts : DeliveryOptions) :
    FoldTrace.KeyedFold (deliver w opts) (fun s => s.ctx.Clean) visitKey
      (fun s k => lastAttempt s.db k.1 k.2) where
  keep _ _ h := deliver_clean hw h
  frame _ _ _ h hne := lastAttempt_deliver_of_ne hw h hne

theorem events_deliver (hw : w.Healthy) (hctx : s.ctx.Clean) :
    (deliver w opts s v).db.events =
      if dueAt w s v then writeStatus s.db.events (v.1.id, visitStatus w opts s v)
      else s.db.events := by
  cases hdue : dueAt w s v with
  | false => rw [(deliver_not_due hdue).1]; rfl
  | true => exact (deliver_due opts hw hctx hdue).events

theorem rows_deliver (hw : w.Healthy) (hctx : s.ctx.Clean) :
    ∃ rows, VisitRows w opts s v rows ∧
      (deliver w opts s v).db.attempts.rows = s.db.attempts.rows ++ rows := by
  unfold VisitRows
  cases hdue : dueAt w s v with
  | false =>
    refine ⟨[], by simp, ?_⟩
    rw [(deliver_not_due hdue).1, List.append_nil]
  | true =>
    obtain ⟨r, hr, hrows⟩ := (deliver_due opts hw hctx hdue).row
    exact ⟨_, by rw [if_pos rfl]; exact ⟨_, ⟨r, hr, rfl⟩, rfl⟩, hrows⟩

end Visit

theorem ids_writeStatus (events : Table Event Guid Event.id) (change : Guid × EventStatus) :
    (writeStatus events change).rows.map Event.id = events.rows.map Event.id := by
  rw [writeStatus]
  exact Table.map_modify events change.1 _ fun _ => rfl

/-- The invariant of the visits: nothing is pending, and the events are the given ones. -/
structure Settled (ids : List Guid) (s : State) : Prop where
  clean : s.ctx.Clean
  ids : s.db.events.rows.map Event.id = ids

section Fold

variable {w : World} {opts : DeliveryOptions} {ids : List Guid}

theorem Settled.deliver (hw : w.Healthy) (s : State) (v : Event × Endpoint) (h : Settled ids s) :
    Settled ids (deliver w opts s v) := by
  refine ⟨deliver_clean hw h.clean, ?_⟩
  rw [events_deliver hw h.clean, ← h.ids]
  split
  · exact ids_writeStatus _ _
  · rfl

theorem find?_isSome_of_ids {s : State} {e : Guid} (h : Settled ids s) (he : e ∈ ids) :
    ∃ ev, s.db.events.find? e = some ev := by
  rw [← h.ids] at he
  obtain ⟨ev, hev, rfl⟩ := List.mem_map.mp he
  exact ⟨ev, (Table.find?_eq_some_iff _).mpr ⟨hev, rfl⟩⟩

/-- A visit writes the status of its event only, and only when its pair is due. -/
theorem statusOf_deliver (hw : w.Healthy) {e : Guid} (he : e ∈ ids) (s : State)
    (v : Event × Endpoint) (h : Settled ids s) :
    statusOf (Worker.deliver w opts s v).db e =
      (statusWrite w opts e s v).getD (statusOf s.db e) := by
  obtain ⟨ev, hev⟩ := find?_isSome_of_ids h he
  unfold statusOf statusWrite
  rw [events_deliver hw h.clean]
  cases hdue : dueAt w s v with
  | false => simp
  | true =>
    simp only [if_true, writeStatus, Table.find?_modify, hev, and_true]
    by_cases hid : v.1.id = e
    · simp [hid]
    · simp [hid, Ne.symm hid]

end Fold

/-! ## The pass -/

/-- The pairs a pass visits, in the order of the loops. -/
def passVisits (opts : DeliveryOptions) (endpoints : List Endpoint) (s : State) :
    List (Event × Endpoint) :=
  ((candidates? opts s.db).getD []).product (endpoints.map (materialise s.ctx))

/-- The state in which the loops start. -/
def passStart (endpoints : List Endpoint) (s : State) : State :=
  { s with ctx := track s.ctx endpoints }

section Loops

variable (w : World) (opts : DeliveryOptions)

/-- The loops go on from the visit, or end there. -/
theorem processPairs_cons_cases (v : Event × Endpoint) (pairs : List (Event × Endpoint)) (n : Nat)
    (s : State) :
    (processPairs w opts (v :: pairs) n s).2 = (processPair w opts v.1 v.2 s).2 ∨
      ∃ m, (processPairs w opts (v :: pairs) n s).2 =
        (processPairs w opts pairs m (processPair w opts v.1 v.2 s).2).2 := by
  rw [processPairs]
  cases processPair w opts v.1 v.2 s with
  | mk result s' =>
    cases result with
    | skipped => exact Or.inr ⟨n, rfl⟩
    | processed => exact Or.inr ⟨n + 1, rfl⟩
    | caught => exact Or.inr ⟨n, rfl⟩
    | threw => exact Or.inl rfl

/-- What relates the states before and after every visit, also relates those of the loops. -/
theorem processPairs_rel {R : State → State → Prop} (hrefl : ∀ s, R s s)
    (htrans : ∀ {s₁ s₂ s₃}, R s₁ s₂ → R s₂ s₃ → R s₁ s₃)
    (hvisit : ∀ (v : Event × Endpoint) s, R s (processPair w opts v.1 v.2 s).2)
    (pairs : List (Event × Endpoint)) (n : Nat) (s : State) : R s (processPairs w opts pairs n s).2 := by
  induction pairs generalizing n s with
  | nil => exact hrefl s
  | cons v pairs ih =>
    rcases processPairs_cons_cases w opts v pairs n s with heq | ⟨m, heq⟩
    · rw [heq]
      exact hvisit v s
    · rw [heq]
      exact htrans (hvisit v s) (ih m _)

end Loops

theorem processPairs_eq_foldl {w : World} (hw : w.Healthy) (opts : DeliveryOptions)
    (pairs : List (Event × Endpoint)) (n : Nat) {s : State} (hctx : s.ctx.Clean) :
    (processPairs w opts pairs n s).2 = pairs.foldl (deliver w opts) s := by
  induction pairs generalizing n s with
  | nil => rfl
  | cons v pairs ih =>
    have hne : (processPair w opts v.1 v.2 s).1 ≠ .threw := processPair_ne_threw hw hctx
    have hclean : (deliver w opts s v).ctx.Clean := deliver_clean hw hctx
    unfold deliver at hclean
    rw [List.foldl_cons, processPairs]
    cases hres : processPair w opts v.1 v.2 s with
    | mk result s' =>
      rw [hres] at hne hclean
      have hdel : deliver w opts s v = s' := by rw [deliver, hres]
      rw [hdel]
      cases result with
      | skipped => exact ih n hclean
      | processed => exact ih (n + 1) hclean
      | caught => exact ih n hclean
      | threw => exact absurd rfl hne

theorem track_clean {ctx : DbContext} (rows : List Endpoint) (h : ctx.Clean) : (track ctx rows).Clean :=
  ⟨h.added, h.statuses⟩

theorem passStart_clean (endpoints : List Endpoint) {s : State} (hctx : s.ctx.Clean) :
    (passStart endpoints s).ctx.Clean := track_clean endpoints hctx

/-- A pass does nothing, or it runs the loops. -/
theorem processOnceAsync_cases (w : World) (opts : DeliveryOptions) (endpoints : List Endpoint)
    (s : State) :
    (passVisits opts endpoints s = [] ∧ (processOnceAsync w opts endpoints s).2 = s) ∨
      (processOnceAsync w opts endpoints s).2 =
        (processPairs w opts (passVisits opts endpoints s) 0 (passStart endpoints s)).2 := by
  unfold processOnceAsync passVisits
  cases hc : candidates? opts s.db with
  | none => exact Or.inl ⟨rfl, rfl⟩
  | some candidates =>
    cases candidates with
    | nil => exact Or.inl ⟨rfl, rfl⟩
    | cons e es =>
      dsimp only
      split
      · rename_i hempty
        rw [List.isEmpty_iff.mp hempty]
        exact Or.inl ⟨by simp [List.product], by simp [track]⟩
      · exact Or.inr rfl

theorem processOnceAsync_spec {w : World} (hw : w.Healthy) (opts : DeliveryOptions)
    (endpoints : List Endpoint) {s : State} (hctx : s.ctx.Clean) :
    (processOnceAsync w opts endpoints s).2.db =
        ((passVisits opts endpoints s).foldl (deliver w opts) (passStart endpoints s)).db ∧
      (processOnceAsync w opts endpoints s).2.ctx.Clean := by
  have hstart := passStart_clean endpoints hctx
  rcases processOnceAsync_cases w opts endpoints s with ⟨hempty, heq⟩ | heq
  · rw [heq, hempty]
    exact ⟨rfl, hctx⟩
  · rw [heq, processPairs_eq_foldl hw opts _ 0 hstart]
    exact ⟨rfl, FoldTrace.foldl_invariant (deliver_keyed hw opts).keep _ hstart⟩

theorem ids_materialise (ctx : DbContext) (row : Endpoint) : (materialise ctx row).id = row.id := by
  unfold materialise
  cases h : ctx.endpoints.find? fun e => decide (e.id = row.id) with
  | none => rfl
  | some e => simpa using List.find?_some h

theorem candidates_ids_nodup (opts : DeliveryOptions) (db : Database) :
    (((candidates? opts db).getD []).map Event.id).Nodup := by
  unfold candidates?
  split
  · exact List.nodup_nil
  · have hfilter : ((db.events.rows.filter isCandidate).map Event.id).Nodup :=
      db.events.nodup.sublist (List.filter_sublist.map Event.id)
    have horder := ((Linq.orderBy_perm Event.id (db.events.rows.filter isCandidate)).map
      Event.id).nodup_iff.mpr hfilter
    exact horder.sublist ((Linq.take_sublist _ _).map Event.id)

theorem mem_candidates {opts : DeliveryOptions} {db : Database} {ev : Event}
    (h : ev ∈ (candidates? opts db).getD []) : ev ∈ db.events.rows ∧ isCandidate ev = true := by
  unfold candidates? at h
  split at h
  · cases h
  · have := (Linq.take_sublist _ _).subset h
    rwa [Linq.mem_orderBy, List.mem_filter] at this

theorem passVisits_keys_nodup (opts : DeliveryOptions) {endpoints : List Endpoint} {s : State}
    (hperm : endpoints.Perm (activeEndpoints s.db)) :
    ((passVisits opts endpoints s).map visitKey).Nodup := by
  have hcand := candidates_ids_nodup opts s.db
  have hends : ((endpoints.map (materialise s.ctx)).map Endpoint.id).Nodup := by
    have hids : (endpoints.map (materialise s.ctx)).map Endpoint.id = endpoints.map Endpoint.id := by
      rw [List.map_map]
      exact List.map_congr_left fun row _ => ids_materialise s.ctx row
    rw [hids, (hperm.map Endpoint.id).nodup_iff]
    exact s.db.endpoints.nodup.sublist (List.filter_sublist.map Endpoint.id)
  apply List.Nodup.map_on
  · rintro ⟨ev, ep⟩ h₁ ⟨ev', ep'⟩ h₂ hkey
    obtain ⟨hev, hep⟩ := List.pair_mem_product.mp h₁
    obtain ⟨hev', hep'⟩ := List.pair_mem_product.mp h₂
    simp only [visitKey, Prod.mk.injEq] at hkey
    rw [List.inj_on_of_nodup_map hcand hev hev' hkey.1,
      List.inj_on_of_nodup_map hends hep hep' hkey.2]
  · exact (List.Nodup.of_map _ hcand).product (List.Nodup.of_map _ hends)

/-- The visits of a pass with the states they start in. -/
def passTrace (w : World) (opts : DeliveryOptions) (endpoints : List Endpoint) (s : State) :
    List (State × (Event × Endpoint)) :=
  FoldTrace.trace (deliver w opts) (passStart endpoints s) (passVisits opts endpoints s)

/-- The statuses the pass writes to an event, in order. -/
def passStatuses (w : World) (opts : DeliveryOptions) (endpoints : List Endpoint) (s : State)
    (eventId : Guid) : List EventStatus :=
  FoldTrace.writes (deliver w opts) (statusWrite w opts eventId) (passStart endpoints s)
    (passVisits opts endpoints s)

section Pass

variable {w : World} {opts : DeliveryOptions} {endpoints : List Endpoint} {s : State}

theorem mem_passStatuses {eventId : Guid} {status : EventStatus} :
    status ∈ passStatuses w opts endpoints s eventId ↔
      ∃ x ∈ passTrace w opts endpoints s, x.2.1.id = eventId ∧ dueAt w x.1 x.2 = true ∧
        visitStatus w opts x.1 x.2 = status := by
  simp only [passStatuses, FoldTrace.writes, List.mem_filterMap, statusWrite, passTrace]
  constructor
  · rintro ⟨x, hx, hw⟩
    split at hw
    · rename_i h
      exact ⟨x, hx, h.1, h.2, Option.some.inj hw⟩
    · cases hw
  · rintro ⟨x, hx, hid, hdue, hst⟩
    exact ⟨x, hx, by rw [if_pos ⟨hid, hdue⟩, hst]⟩

theorem passTrace_clean (hw : w.Healthy) (hctx : s.ctx.Clean) :
    ∀ x ∈ passTrace w opts endpoints s, x.1.ctx.Clean :=
  FoldTrace.trace_invariant (deliver_keyed hw opts).keep (passStart_clean endpoints hctx)

theorem ids_pass (hw : w.Healthy) (hctx : s.ctx.Clean) :
    (processOnceAsync w opts endpoints s).2.db.events.rows.map Event.id =
      s.db.events.rows.map Event.id := by
  rw [(processOnceAsync_spec hw opts endpoints hctx).1]
  exact (FoldTrace.foldl_invariant (Settled.deliver hw) _
    (⟨passStart_clean endpoints hctx, rfl⟩ : Settled (s.db.events.rows.map Event.id)
      (passStart endpoints s))).ids

variable (opts endpoints) in
/-- The rows the pass adds, visit by visit. -/
theorem rows_pass (hw : w.Healthy) (hctx : s.ctx.Clean) :
    ∃ rows, List.Forall₂ (fun x l => VisitRows w opts x.1 x.2 l) (passTrace w opts endpoints s) rows ∧
      (processOnceAsync w opts endpoints s).2.db.attempts.rows = s.db.attempts.rows ++ rows.flatten := by
  rw [(processOnceAsync_spec hw opts endpoints hctx).1]
  exact FoldTrace.log_foldl (fun s : State => s.db.attempts.rows)
    (deliver_keyed hw opts).keep (fun _ _ h => rows_deliver hw h) _ (passStart_clean endpoints hctx)

/-- A row after the pass was there before, or a due visit added it. -/
theorem mem_rows_pass (hw : w.Healthy) (hctx : s.ctx.Clean) {a : DeliveryAttempt}
    (ha : a ∈ (processOnceAsync w opts endpoints s).2.db.attempts.rows) :
    a ∈ s.db.attempts.rows ∨
      ∃ x ∈ passTrace w opts endpoints s, dueAt w x.1 x.2 = true ∧ IsVisitRow w opts x.1 x.2 a := by
  obtain ⟨rows, hrows, heq⟩ := rows_pass opts endpoints hw hctx
  rw [heq, List.mem_append] at ha
  refine ha.imp_right fun ha => ?_
  obtain ⟨l, hl, hal⟩ := List.mem_flatten.mp ha
  obtain ⟨x, hx, hvisit⟩ := FoldTrace.exists_left_of_forall₂ hrows hl
  unfold VisitRows at hvisit
  cases hdue : dueAt w x.1 x.2 with
  | false =>
    simp only [hdue, Bool.false_eq_true, if_false] at hvisit
    rw [hvisit] at hal
    cases hal
  | true =>
    simp only [hdue, if_true] at hvisit
    obtain ⟨b, hb, rfl⟩ := hvisit
    exact ⟨x, hx, hdue, (List.mem_singleton.mp hal) ▸ hb⟩

theorem exists_row_of_due (hw : w.Healthy) (hctx : s.ctx.Clean) {x : State × (Event × Endpoint)}
    (hx : x ∈ passTrace w opts endpoints s) (hdue : dueAt w x.1 x.2 = true) :
    ∃ a ∈ (processOnceAsync w opts endpoints s).2.db.attempts.rows, IsVisitRow w opts x.1 x.2 a := by
  obtain ⟨rows, hrows, heq⟩ := rows_pass opts endpoints hw hctx
  obtain ⟨l, hl, hvisit⟩ := FoldTrace.exists_right_of_forall₂ hrows hx
  simp only [VisitRows, hdue, if_true] at hvisit
  obtain ⟨a, ha, rfl⟩ := hvisit
  refine ⟨a, ?_, ha⟩
  rw [heq]
  exact List.mem_append_right _ (List.mem_flatten.mpr ⟨[a], hl, List.mem_singleton_self a⟩)

variable (opts endpoints) in
/-- The status after the pass is the one written last. -/
theorem status_pass (hw : w.Healthy) (hctx : s.ctx.Clean) {ev : Event} (hev : ev ∈ s.db.events.rows) :
    statusOf (processOnceAsync w opts endpoints s).2.db ev.id =
      (passStatuses w opts endpoints s ev.id).getLast?.getD (statusOf s.db ev.id) := by
  rw [(processOnceAsync_spec hw opts endpoints hctx).1]
  exact FoldTrace.cell_foldl (fun s : State => statusOf s.db ev.id)
    (Settled.deliver hw) (statusOf_deliver hw (List.mem_map_of_mem hev)) _
    (⟨passStart_clean endpoints hctx, rfl⟩ : Settled (s.db.events.rows.map Event.id)
      (passStart endpoints s))

variable (hw : w.Healthy) (hctx : s.ctx.Clean) (hperm : endpoints.Perm (activeEndpoints s.db))
include hw hctx hperm

/-- A visit finds its pair as the pass found it. -/
theorem lastAttempt_passTrace {x : State × (Event × Endpoint)} (hx : x ∈ passTrace w opts endpoints s) :
    lastAttempt x.1.db x.2.1.id x.2.2.id = lastAttempt s.db x.2.1.id x.2.2.id := by
  have hget := (deliver_keyed hw opts).get_trace (passStart_clean endpoints hctx)
    (passVisits_keys_nodup opts hperm) hx
  exact hget

theorem nextTryNumber_passTrace {x : State × (Event × Endpoint)}
    (hx : x ∈ passTrace w opts endpoints s) :
    nextTryNumber x.1.db x.2.1.id x.2.2.id = nextTryNumber s.db x.2.1.id x.2.2.id :=
  nextTryNumber_congr (lastAttempt_passTrace hw hctx hperm hx)

/-- A pair that was visited when due has the attempt of that visit as its newest. -/
theorem lastAttempt_pass_of_due {x : State × (Event × Endpoint)}
    (hx : x ∈ passTrace w opts endpoints s) (hdue : dueAt w x.1 x.2 = true) :
    ∃ a, lastAttempt (processOnceAsync w opts endpoints s).2.db x.2.1.id x.2.2.id = some a ∧
      a.tryNumber = nextTryNumber x.1.db x.2.1.id x.2.2.id ∧
      a.success = (nextOutcome w x.1 x.2.1.id x.2.2.id
        (nextTryNumber x.1.db x.2.1.id x.2.2.id)).succeeded := by
  have hget := (deliver_keyed hw opts).get_foldl_of_trace (passStart_clean endpoints hctx)
    (passVisits_keys_nodup opts hperm) hx
  obtain ⟨a, ha, htry, hsucc⟩ :=
    (deliver_due opts hw (passTrace_clean hw hctx x hx) hdue).lastAttempt_self
  rw [(processOnceAsync_spec hw opts endpoints hctx).1]
  exact ⟨a, hget.trans ha, htry, hsucc⟩

/-- A pair that was not visited, or not when due, has its attempts as before. -/
theorem lastAttempt_pass_of_not_due {k : Guid × Guid}
    (hk : ∀ x ∈ passTrace w opts endpoints s, visitKey x.2 = k → dueAt w x.1 x.2 = false) :
    lastAttempt (processOnceAsync w opts endpoints s).2.db k.1 k.2 = lastAttempt s.db k.1 k.2 := by
  have hstart := passStart_clean endpoints hctx
  rw [(processOnceAsync_spec hw opts endpoints hctx).1]
  by_cases hmem : k ∈ (passVisits opts endpoints s).map visitKey
  · obtain ⟨v, hv, rfl⟩ := List.mem_map.mp hmem
    obtain ⟨s', hx⟩ := FoldTrace.exists_mem_trace (f := deliver w opts)
      (s := passStart endpoints s) hv
    have hget := (deliver_keyed hw opts).get_foldl_of_trace hstart
      (passVisits_keys_nodup opts hperm) hx
    have hsame : (deliver w opts s' v).db = s'.db := (deliver_not_due (hk _ hx rfl)).1
    refine hget.trans ?_
    rw [hsame]
    exact lastAttempt_passTrace hw hctx hperm hx
  · exact (deliver_keyed hw opts).get_foldl_of_not_mem hstart hmem

end Pass

/-! ## Actions of a run -/

/-- A fresh worker on a database without attempts. -/
def State.start (events : Table Event Guid Event.id) (endpoints : Table Endpoint Guid Endpoint.id) :
    State where
  db := { events, endpoints, attempts := ∅ }

section Step

variable {w : World} {opts : DeliveryOptions} {s s' : State}

theorem step_pass_eq_some_iff {endpoints : List Endpoint} :
    step w opts s (.pass endpoints) = some s' ↔
      endpoints.Perm (activeEndpoints s.db) ∧ (processOnceAsync w opts endpoints s).2 = s' := by
  show (if endpoints.Perm (activeEndpoints s.db) then some (processOnceAsync w opts endpoints s).2
    else none) = some s' ↔ _
  split
  · rename_i h
    simp [h]
  · rename_i h
    simp [h]

/-- The insert of another event changes no status. -/
theorem statusOf_insert {db : Database} {events : Table Event Guid Event.id} {ev : Event} {e : Guid}
    (he : e ∈ db.events.rows.map Event.id) (hrows : events.rows = db.events.rows ++ [ev]) :
    statusOf { db with events } e = statusOf db e := by
  obtain ⟨old, hold, hid⟩ := List.mem_map.mp he
  have hfind : events.find? e = db.events.find? e := by
    rw [(Table.find?_eq_some_iff _).mpr ⟨hold, hid⟩, Table.find?_eq_some_iff, hrows]
    exact ⟨List.mem_append_left _ hold, hid⟩
  rw [statusOf, statusOf, hfind]

theorem statusOf_of_not_mem {db : Database} {e : Guid} (h : e ∉ db.events.rows.map Event.id) :
    statusOf db e = .new := by
  cases hfind : db.events.find? e with
  | none => rw [statusOf, hfind]; rfl
  | some ev =>
    obtain ⟨hev, rfl⟩ := (Table.find?_eq_some_iff _).mp hfind
    exact absurd (List.mem_map_of_mem hev) h

/-- Only a pass touches the attempts, the change set and the log. -/
theorem step_other {a : Action} (ha : ∀ endpoints, a ≠ .pass endpoints)
    (h : step w opts s a = some s') :
    s'.db.attempts = s.db.attempts ∧ s'.ctx = s.ctx ∧ s'.log = s.log := by
  cases a with
  | pass endpoints => exact absurd rfl (ha endpoints)
  | insertEvent e =>
    obtain ⟨events, -, rfl⟩ := Option.map_eq_some_iff.mp h
    exact ⟨rfl, rfl, rfl⟩
  | saveEndpoint ep =>
    cases h
    exact ⟨rfl, rfl, rfl⟩

theorem step_clean (hw : w.Healthy) (hctx : s.ctx.Clean) {a : Action}
    (h : step w opts s a = some s') : s'.ctx.Clean := by
  cases a with
  | pass endpoints =>
    obtain ⟨-, rfl⟩ := step_pass_eq_some_iff.mp h
    exact (processOnceAsync_spec hw opts endpoints hctx).2
  | insertEvent e => exact (step_other (fun _ => Action.noConfusion) h).2.1 ▸ hctx
  | saveEndpoint ep => exact (step_other (fun _ => Action.noConfusion) h).2.1 ▸ hctx

end Step

end WebhookInbox.Worker
