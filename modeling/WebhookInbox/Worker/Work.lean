import WebhookInbox.Worker.Log
import WebhookInbox.Worker.Quiescence

/-!
# The work of one pass

At a clock value, the due pairs are read off the database: an event of the batch and an
active endpoint whose newest attempt lets the pair be tried. A pass in which the clock stands
still adds one row for each of them and nothing else (`exactWork_pass`): a visit changes no
attempt of another pair, so every visit finds its pair as the pass found it, and the rows
that have been added in between change neither what is due nor the next try number. The
source computes that number in 32 bits, where it is one above the number of attempts as
long as the pair has room for one more (`nextTryInt32_eq`), and only as long
(`ExactWork.room`).
-/

namespace WebhookInbox.Worker

/-- A pair of an event of the batch and an active endpoint that is due. -/
def IsDuePair (opts : DeliveryOptions) (db : Database) (now : Time) (k : Guid × Guid) : Prop :=
  ∃ ev ∈ (candidates? opts db).getD [], ∃ ep ∈ activeEndpoints db,
    k = (ev.id, ep.id) ∧ isDue db ev.id ep.id now = true

/-- One above the greatest number of the rows. -/
def IsNextTry (rows : List DeliveryAttempt) (n : Int) : Prop :=
  (∀ a ∈ rows, a.tryNumber < n) ∧ (rows = [] ∧ n = 1 ∨ ∃ a ∈ rows, n = a.tryNumber + 1)

/-- The number of the pair's next try as the source computes it, in 32 bits. -/
def nextTryInt32 (db : Database) (eventId endpointId : Guid) : Int32 :=
  (lastAttempt db eventId endpointId).elim 1 fun last => Int32.ofInt last.tryNumber + 1

/-- The attempts of every pair are numbered from one on without a gap. -/
def TriesNumbered (db : Database) : Prop := ∀ e ep, Numbered (pairRows db e ep)

/-- A 32-bit number is left for the next try of every due pair. -/
def HasRoom (opts : DeliveryOptions) (db : Database) (now : Time) : Prop :=
  ∀ k, IsDuePair opts db now k → (pairRows db k.1 k.2).length < 2147483647

def DeliveryAttempt.pair (a : DeliveryAttempt) : Guid × Guid := (a.eventId, a.endpointId)

/-- An event without its status. -/
def bare (ev : Event) : Event := { ev with status := .new }

/-- The added rows are one for each due pair, numbered next. The rows that were there stay,
and the statuses that change are those of events with a due pair. -/
structure ExactWork (opts : DeliveryOptions) (now : Time) (db db' : Database)
    (added : List DeliveryAttempt) : Prop where
  rows : db'.attempts.rows = db.attempts.rows ++ added
  once : (added.map DeliveryAttempt.pair).Nodup
  due : ∀ k, k ∈ added.map DeliveryAttempt.pair ↔ IsDuePair opts db now k
  numbered : ∀ a ∈ added, IsNextTry (pairRows db a.eventId a.endpointId) a.tryNumber
  computed : ∀ a ∈ added, a.tryNumber = (nextTryInt32 db a.eventId a.endpointId).toInt
  events : db'.events.rows.map bare = db.events.rows.map bare
  statuses : ∀ ev ∈ db.events.rows,
    (∀ endpointId, ¬ IsDuePair opts db now (ev.id, endpointId)) → ev ∈ db'.events.rows
  endpoints : db'.endpoints = db.endpoints

theorem isNextTry_nextTryNumber (db : Database) (eventId endpointId : Guid) :
    IsNextTry (pairRows db eventId endpointId) (nextTryNumber db eventId endpointId) := by
  refine ⟨fun a ha => nextTry_fresh ha, ?_⟩
  cases hlast : lastAttempt db eventId endpointId with
  | none => exact Or.inl ⟨lastAttempt_eq_none_iff.mp hlast, by rw [nextTryNumber, hlast]; rfl⟩
  | some last =>
    exact Or.inr ⟨last, (lastAttempt_eq_some_iff.mp hlast).1, by rw [nextTryNumber, hlast]; rfl⟩

theorem triesNumbered_start (events : Table Event Guid Event.id)
    (endpoints : Table Endpoint Guid Endpoint.id) : TriesNumbered (State.start events endpoints).db :=
  fun _ _ => List.Perm.of_eq rfl

theorem hasRoom_start (opts : DeliveryOptions) (events : Table Event Guid Event.id)
    (endpoints : Table Endpoint Guid Endpoint.id) (now : Time) :
    HasRoom opts (State.start events endpoints).db now := by
  intro _ _
  show 0 < 2147483647
  omega

/-- In a numbered log the 32-bit sum is the number of attempts and one. -/
theorem nextTryInt32_eq {db : Database} {eventId endpointId : Guid}
    (h : Numbered (pairRows db eventId endpointId))
    (hroom : (pairRows db eventId endpointId).length < 2147483647) :
    (nextTryInt32 db eventId endpointId).toInt = (pairRows db eventId endpointId).length + 1 := by
  have hnext := nextTryNumber_eq_length h
  unfold nextTryNumber at hnext
  unfold nextTryInt32
  cases hlast : lastAttempt db eventId endpointId with
  | none =>
    rw [lastAttempt_eq_none_iff.mp hlast]
    rfl
  | some last =>
    rw [hlast, Option.elim_some] at hnext
    have htry : last.tryNumber = (pairRows db eventId endpointId).length := by omega
    have hone : (1 : Int32).toInt = 1 := rfl
    have hfits : (Int32.ofInt last.tryNumber).toInt = last.tryNumber := by
      rw [Int32.toInt_ofInt, Int32.size]
      exact Int.bmod_eq_of_le (by omega) (by omega)
    rw [Option.elim_some, Int32.toInt_add, hfits, hone, htry]
    exact Int.bmod_eq_of_le (by omega) (by omega)

/-- The work is exact only where the due pairs have room. -/
theorem ExactWork.room {opts : DeliveryOptions} {now : Time} {db db' : Database}
    {added : List DeliveryAttempt} (h : ExactWork opts now db db' added) (hlog : TriesNumbered db) :
    HasRoom opts db now := by
  intro k hk
  obtain ⟨a, ha, rfl⟩ := List.mem_map.mp ((h.due k).mpr hk)
  show (pairRows db a.eventId a.endpointId).length < 2147483647
  by_cases hempty : pairRows db a.eventId a.endpointId = []
  · rw [hempty, List.length_nil]
    omega
  · obtain ⟨last, hlast, htry⟩ := (hlog a.eventId a.endpointId).exists_last hempty
    have habove := (h.numbered a ha).1 last hlast
    have hbound := Int32.toInt_lt (nextTryInt32 db a.eventId a.endpointId)
    rw [h.computed a ha, htry] at habove
    omega

theorem bare_writeStatus (events : Table Event Guid Event.id) (change : Guid × EventStatus) :
    (writeStatus events change).rows.map bare = events.rows.map bare := by
  rw [writeStatus]
  exact Table.map_modify events change.1 _ fun _ => rfl

/-- A row that differs at most in its status is the same row when the status is the same. -/
theorem mem_of_statusOf {db db' : Database} (hbare : db'.events.rows.map bare = db.events.rows.map bare)
    {ev : Event} (hev : ev ∈ db.events.rows) (hstatus : statusOf db' ev.id = statusOf db ev.id) :
    ev ∈ db'.events.rows := by
  have hmem : bare ev ∈ db'.events.rows.map bare := by
    rw [hbare]
    exact List.mem_map_of_mem hev
  obtain ⟨ev', hev', heq⟩ := List.mem_map.mp hmem
  have hid : (bare ev').id = (bare ev).id := congrArg Event.id heq
  change ev'.id = ev.id at hid
  rw [← hid, statusOf_eq hev', hid, statusOf_eq hev] at hstatus
  have hsame : ev' = ev := by
    obtain ⟨id, source, receivedAt, headers, payload, signatureStatus, status⟩ := ev
    obtain ⟨id', source', receivedAt', headers', payload', signatureStatus', status'⟩ := ev'
    simp only [bare, Event.mk.injEq] at heq hstatus ⊢
    exact ⟨heq.1, heq.2.1, heq.2.2.1, heq.2.2.2.1, heq.2.2.2.2.1, heq.2.2.2.2.2.1, hstatus⟩
  exact hsame ▸ hev'

section Pass

variable {w : World} {opts : DeliveryOptions} {endpoints : List Endpoint} {s : State}

/-! ## What the pass returns -/

variable (opts) in
/-- The loops return the count they start with and one for each added row with a response. -/
theorem processPairs_returned (hw : w.Healthy) (pairs : List (Event × Endpoint)) (n : Nat)
    (hctx : s.ctx.Clean) :
    ∃ added, (processPairs w opts pairs n s).2.db.attempts.rows = s.db.attempts.rows ++ added ∧
      (processPairs w opts pairs n s).1 =
        .returned (n + added.countP fun a => a.responseCode.isSome) := by
  induction pairs generalizing n s with
  | nil => exact ⟨[], (List.append_nil _).symm, rfl⟩
  | cons v pairs ih =>
    rw [processPairs]
    have hclean : (deliver w opts s v).ctx.Clean := deliver_clean hw hctx
    unfold deliver at hclean
    cases hdue : dueAt w s v with
    | false =>
      obtain ⟨r, -, heq⟩ := processPair_skipped opts hdue
      rw [heq] at hclean ⊢
      exact ih n hclean
    | true =>
      obtain ⟨hend, hdel⟩ := processPair_delivered hw opts hctx hdue
      obtain ⟨r, -, hrows⟩ := hdel.row
      generalize nextOutcome w s v.1.id v.2.id _ = outcome at hend hrows
      cases hres : processPair w opts v.1 v.2 s with
      | mk result s' =>
        rw [hres] at hclean hend hrows
        dsimp only at hend hrows
        rw [hend]
        generalize hrow : attemptRow opts v.1.id v.2.id _ outcome _ _ _ = row at hrows
        have hcons : ∀ {rows added : List DeliveryAttempt}, rows = s'.db.attempts.rows ++ added →
            rows = s.db.attempts.rows ++ row :: added := by
          intro rows added h
          rw [h, hrows, List.append_assoc]
          rfl
        cases outcome with
        | response statusCode body =>
          obtain ⟨added, hadded, hcount⟩ := ih (n + 1) hclean
          have hcode : row.responseCode.isSome = true := by rw [← hrow]; rfl
          refine ⟨row :: added, hcons hadded, hcount.trans ?_⟩
          rw [List.countP_cons_of_pos (p := fun a : DeliveryAttempt => a.responseCode.isSome) hcode]
          congr 1
          omega
        | exception typeName =>
          obtain ⟨added, hadded, hcount⟩ := ih n hclean
          have hcode : ¬ row.responseCode.isSome = true := by rw [← hrow]; exact Bool.false_ne_true
          refine ⟨row :: added, hcons hadded, hcount.trans ?_⟩
          rw [List.countP_cons_of_neg (p := fun a : DeliveryAttempt => a.responseCode.isSome) hcode]

/-- The pass throws when the database refuses the batch, and else it runs the loops. -/
theorem processOnceAsync_end (w : World) (opts : DeliveryOptions) (endpoints : List Endpoint)
    (s : State) :
    (processOnceAsync w opts endpoints s).1 = if opts.batchSize < 0 then .threw
      else (processPairs w opts (passVisits opts endpoints s) 0 (passStart endpoints s)).1 := by
  unfold processOnceAsync passVisits
  by_cases hbatch : opts.batchSize < 0
  · rw [if_pos hbatch, candidates?, if_pos hbatch]
  · rw [if_neg hbatch]
    generalize hc : candidates? opts s.db = found
    cases found with
    | none =>
      rw [candidates?, if_neg hbatch] at hc
      cases hc
    | some candidates =>
      cases candidates with
      | nil => rfl
      | cons e es =>
        dsimp only
        split
        · rename_i hempty
          have hpairs : (e :: es).product ([] : List Endpoint) = [] := List.product_nil _
          rw [List.isEmpty_iff.mp hempty, List.map_nil, Option.getD_some, hpairs]
          rfl
        · rfl

/-! ## The rows of the pass -/

variable (hw : w.Healthy) (hctx : s.ctx.Clean)
include hw hctx

variable (opts endpoints) in
theorem bare_pass : (processOnceAsync w opts endpoints s).2.db.events.rows.map bare =
    s.db.events.rows.map bare := by
  have hfold := FoldTrace.foldl_invariant (f := deliver w opts)
    (I := fun s' => s'.ctx.Clean ∧ s'.db.events.rows.map bare = s.db.events.rows.map bare)
    (fun s' v h => by
      refine ⟨deliver_clean hw h.1, ?_⟩
      rw [events_deliver hw h.1]
      split
      · rw [bare_writeStatus, h.2]
      · exact h.2)
    (passVisits opts endpoints s) ⟨passStart_clean endpoints hctx, rfl⟩
  rw [(processOnceAsync_spec hw opts endpoints hctx).1]
  exact hfold.2

variable (hperm : endpoints.Perm (activeEndpoints s.db)) {now : Time} (hnow : ∀ n, w.clock n = now)
include hperm hnow

/-- With a clock that stands still, a visit is due when its pair is due as the pass begins. -/
theorem dueAt_passTrace {x : State × (Event × Endpoint)} (hx : x ∈ passTrace w opts endpoints s) :
    dueAt w x.1 x.2 = isDue s.db x.2.1.id x.2.2.id now := by
  unfold dueAt
  rw [hnow]
  exact isDue_congr (lastAttempt_passTrace hw hctx hperm hx)

omit hw hctx hnow in
/-- The due pairs are the keys of the visits whose pair is due. -/
theorem mem_due_visits_iff {k : Guid × Guid} :
    k ∈ ((passVisits opts endpoints s).filter fun v => isDue s.db v.1.id v.2.id now).map visitKey ↔
      IsDuePair opts s.db now k := by
  rw [List.mem_map]
  constructor
  · rintro ⟨v, hv, rfl⟩
    obtain ⟨hmem, hdue⟩ := List.mem_filter.mp hv
    obtain ⟨hev, row, hrow, heq⟩ := mem_passVisits hmem
    have hid : v.2.id = row.id := by rw [heq, ids_materialise]
    rw [hid] at hdue
    exact ⟨v.1, hev, row, hperm.mem_iff.mp hrow, by rw [visitKey, hid], hdue⟩
  · rintro ⟨ev, hev, ep, hep, rfl, hdue⟩
    have hid : (materialise s.ctx ep).id = ep.id := ids_materialise s.ctx ep
    refine ⟨(ev, materialise s.ctx ep), List.mem_filter.mpr ⟨?_, ?_⟩, ?_⟩
    · exact List.pair_mem_product.mpr ⟨hev, List.mem_map_of_mem (hperm.mem_iff.mpr hep)⟩
    · dsimp only
      rw [hid]
      exact hdue
    · rw [visitKey, hid]

/-- The pairs of the added rows, in the order of the visits. -/
theorem pairs_of_rows_pass {rows : List (List DeliveryAttempt)}
    (hrows : List.Forall₂ (fun x l => VisitRows w opts x.1 x.2 l) (passTrace w opts endpoints s) rows) :
    rows.flatten.map DeliveryAttempt.pair =
      ((passVisits opts endpoints s).filter fun v => isDue s.db v.1.id v.2.id now).map visitKey := by
  have hkeys := FoldTrace.map_flatten_of_forall₂ (g := DeliveryAttempt.pair)
    (k := fun x : State × (Event × Endpoint) => visitKey x.2)
    (p := fun x => isDue s.db x.2.1.id x.2.2.id now) hrows
    (fun x hx l hl => by
      unfold VisitRows at hl
      rw [dueAt_passTrace hw hctx hperm hnow hx] at hl
      split at hl
      · rename_i hdue
        obtain ⟨a, ⟨r, -, rfl⟩, rfl⟩ := hl
        rw [if_pos hdue]
        rfl
      · rename_i hdue
        rw [if_neg hdue, hl]
        rfl)
  have hsnd : (passTrace w opts endpoints s).map Prod.snd = passVisits opts endpoints s :=
    FoldTrace.trace_map_snd _ _
  rw [hkeys, ← hsnd, List.filter_map, List.map_map]
  rfl

omit hnow in
/-- An added row has the number that the pair's next try had as the pass began. -/
theorem numbered_of_rows_pass {rows : List (List DeliveryAttempt)}
    (hrows : List.Forall₂ (fun x l => VisitRows w opts x.1 x.2 l) (passTrace w opts endpoints s) rows)
    {a : DeliveryAttempt} (ha : a ∈ rows.flatten) :
    a.tryNumber = nextTryNumber s.db a.eventId a.endpointId := by
  obtain ⟨l, hl, hal⟩ := List.mem_flatten.mp ha
  obtain ⟨x, hx, hvisit⟩ := FoldTrace.exists_left_of_forall₂ hrows hl
  unfold VisitRows at hvisit
  split at hvisit
  · obtain ⟨b, ⟨r, -, rfl⟩, rfl⟩ := hvisit
    rw [List.mem_singleton.mp hal]
    exact nextTryNumber_passTrace hw hctx hperm hx
  · rw [hvisit] at hal
    cases hal

/-- An event without a due pair gets no status. -/
theorem statusOf_pass_of_no_due {ev : Event} (hev : ev ∈ s.db.events.rows)
    (hnone : ∀ endpointId, ¬ IsDuePair opts s.db now (ev.id, endpointId)) :
    statusOf (processOnceAsync w opts endpoints s).2.db ev.id = statusOf s.db ev.id := by
  have hempty : passStatuses w opts endpoints s ev.id = [] := by
    apply List.eq_nil_iff_forall_not_mem.mpr
    intro status hmem
    obtain ⟨x, hx, hid, hdue, -⟩ := mem_passStatuses.mp hmem
    rw [dueAt_passTrace hw hctx hperm hnow hx] at hdue
    apply hnone x.2.2.id
    apply (mem_due_visits_iff hperm).mp
    refine List.mem_map.mpr ⟨x.2, List.mem_filter.mpr ⟨FoldTrace.item_mem hx, hdue⟩, ?_⟩
    rw [visitKey, hid]
  rw [status_pass opts endpoints hw hctx hev, hempty]
  rfl

end Pass

/-- **One pass does exactly the due work** on a numbered log. It returns the number of its rows with
a response, unless the database refuses a negative batch. -/
theorem exactWork_pass {w : World} (hw : w.Healthy) {now : Time} (hnow : ∀ n, w.clock n = now)
    (opts : DeliveryOptions) {endpoints : List Endpoint} {s : State} (hlog : TriesNumbered s.db)
    (hroom : HasRoom opts s.db now) (hctx : s.ctx.Clean) (hperm : endpoints.Perm (activeEndpoints s.db)) :
    ∃ added, ExactWork opts now s.db (processOnceAsync w opts endpoints s).2.db added ∧
      (processOnceAsync w opts endpoints s).1 = if opts.batchSize < 0 then .threw
        else .returned (added.countP fun a => a.responseCode.isSome) := by
  obtain ⟨rows, hrows, heq⟩ := rows_pass opts endpoints hw hctx
  have hpairs := pairs_of_rows_pass hw hctx hperm hnow hrows
  have hbare := bare_pass opts endpoints hw hctx
  refine ⟨rows.flatten, ⟨heq, ?_, fun k => ?_, fun a ha => ?_, fun a ha => ?_, hbare, fun ev hev hnone => ?_,
    endpoints_pass hw hctx⟩, ?_⟩
  · rw [hpairs]
    exact (passVisits_keys_nodup opts hperm).sublist (List.filter_sublist.map visitKey)
  · rw [hpairs]
    exact mem_due_visits_iff hperm
  · rw [numbered_of_rows_pass hw hctx hperm hrows ha]
    exact isNextTry_nextTryNumber s.db a.eventId a.endpointId
  · have hdue : IsDuePair opts s.db now (DeliveryAttempt.pair a) := by
      rw [← mem_due_visits_iff hperm, ← hpairs]
      exact List.mem_map_of_mem ha
    have hnumbered := hlog a.eventId a.endpointId
    rw [numbered_of_rows_pass hw hctx hperm hrows ha, nextTryInt32_eq hnumbered (hroom _ hdue)]
    exact nextTryNumber_eq_length hnumbered
  · exact mem_of_statusOf hbare hev (statusOf_pass_of_no_due hw hctx hperm hnow hev hnone)
  · have hstart := passStart_clean endpoints hctx
    obtain ⟨added, hadded, hcount⟩ := processPairs_returned opts hw (passVisits opts endpoints s) 0 hstart
    rw [processPairs_eq_foldl hw opts _ 0 hstart,
      ← (processOnceAsync_spec hw opts endpoints hctx).1, heq] at hadded
    rw [processOnceAsync_end, hcount, Nat.zero_add, List.append_cancel_left hadded]

theorem exactWork_pass_split :
    ∃ added, ExactWork {} 0 splitStart.db
        (processOnceAsync splitWorld {} [failingEndpoint, workingEndpoint] splitStart).2.db added ∧
      (processOnceAsync splitWorld {} [failingEndpoint, workingEndpoint] splitStart).1 =
        .returned (added.countP fun a => a.responseCode.isSome) :=
  exactWork_pass (fun _ => rfl) (fun _ => rfl) {} (triesNumbered_start _ _) (hasRoom_start {} _ _ 0)
    ⟨rfl, rfl⟩ (by decide)

/-! ## A pair that has used up the numbers -/

/-- The failed tries of event 7 at the first endpoint. -/
def failedTry (i : Nat) : DeliveryAttempt where
  id := 100 + i
  eventId := 7
  endpointId := 1
  tryNumber := i + 1
  sentAt := 0
  responseCode := some 500
  responseBody := some []
  success := false
  nextAttemptAt := some 0

theorem failedTries_nodup (n : Nat) :
    (((List.range n).map failedTry).map DeliveryAttempt.key).Nodup := by
  rw [List.map_map]
  refine List.nodup_range.map fun i j hij => ?_
  simpa [failedTry, DeliveryAttempt.key] using hij

/-- The pair has failed `n` times. -/
def triedDatabase (n : Nat) : Database :=
  { splitStart.db with attempts := ⟨(List.range n).map failedTry, failedTries_nodup n⟩ }

theorem pairRows_triedDatabase (n : Nat) (e ep : Guid) :
    pairRows (triedDatabase n) e ep = if e = 7 ∧ ep = 1 then (List.range n).map failedTry else [] := by
  split
  · rename_i hpair
    obtain ⟨rfl, rfl⟩ := hpair
    simp [pairRows, triedDatabase, failedTry]
  · rename_i hother
    rw [pairRows, List.filter_eq_nil_iff]
    intro a ha hkey
    obtain ⟨i, -, rfl⟩ := List.mem_map.mp ha
    rw [decide_eq_true_eq] at hkey
    exact hother ⟨hkey.1.symm, hkey.2.symm⟩

theorem triesNumbered_triedDatabase (n : Nat) : TriesNumbered (triedDatabase n) := by
  intro e ep
  rw [pairRows_triedDatabase]
  apply List.Perm.of_eq
  split
  · rw [List.map_map, List.length_map, List.length_range]
    rfl
  · rfl

theorem isDuePair_triedDatabase (n : Nat) : IsDuePair {} (triedDatabase n) 0 (7, 1) := by
  refine ⟨{ id := 7, source := "test".toList, receivedAt := 0 }, List.mem_singleton_self _,
    failingEndpoint, List.mem_cons_self, rfl, ?_⟩
  change isDue (triedDatabase n) 7 1 0 = true
  cases hlast : lastAttempt (triedDatabase n) 7 1 with
  | none =>
    rw [isDue, hlast]
    rfl
  | some last =>
    have hmem := (lastAttempt_eq_some_iff.mp hlast).1
    rw [pairRows_triedDatabase, if_pos ⟨rfl, rfl⟩] at hmem
    obtain ⟨i, -, rfl⟩ := List.mem_map.mp hmem
    rw [isDue, hlast]
    rfl

/-- A negative batch size makes the pass throw: it returns no count. And no work is exact for a due
pair that has had 2147483647 attempts, whose next number wraps around. -/
theorem exactWork_pass_refused :
    (splitWorld.Healthy ∧ (∀ n, splitWorld.clock n = 0) ∧ TriesNumbered splitStart.db ∧
      splitStart.ctx.Clean ∧
      [failingEndpoint, workingEndpoint].Perm (activeEndpoints splitStart.db) ∧
      ¬ ∃ n, (processOnceAsync splitWorld { batchSize := -1 } [failingEndpoint, workingEndpoint]
        splitStart).1 = .returned n) ∧
    TriesNumbered (triedDatabase 2147483647) ∧
      ∀ db' added, ¬ ExactWork {} 0 (triedDatabase 2147483647) db' added := by
  refine ⟨⟨fun _ => rfl, fun _ => rfl, triesNumbered_start _ _, ⟨rfl, rfl⟩, by decide, ?_⟩,
    triesNumbered_triedDatabase _, fun db' added h => ?_⟩
  · rintro ⟨n, h⟩
    cases h
  · have hroom := h.room (triesNumbered_triedDatabase _) (7, 1) (isDuePair_triedDatabase _)
    rw [pairRows_triedDatabase, if_pos ⟨rfl, rfl⟩, List.length_map, List.length_range] at hroom
    omega

end WebhookInbox.Worker
