import WebhookInbox.Library.Simulation
import WebhookInbox.Worker.Agreement
import WebhookInbox.Worker.Quiescence

/-!
# The retry automaton

What the worker is for, with one endpoint: an event is new, has failed some times with
tries left, is dispatched by its first success, or is a dead letter after its last
failure. `RetryState` is that automaton, without a database. `follows_automaton` says that
the automaton follows every run of the worker, event by event: a pass leaves it where it
is or takes one of its steps, and after every pass the status of the event and the
outcomes of its attempts are those of the automaton's state.
-/

namespace WebhookInbox.Worker

/-! ## The automaton -/

/-- The states of an event that is given `limit` attempts. -/
inductive RetryState (limit : Nat) where
  | new
  | failed (failures : Nat) (hpos : 1 ≤ failures) (hlt : failures < limit)
  | dispatched (failures : Nat)
  | deadLetter

namespace RetryState

variable {limit : Nat}

/-- The state after this many failures. -/
def afterFailure (limit failures : Nat) (hpos : 1 ≤ failures) : RetryState limit :=
  if hlt : failures < limit then .failed failures hpos hlt else .deadLetter

/-- One attempt, with its success. A dispatched event and a dead letter have none. -/
def next : RetryState limit → Bool → Option (RetryState limit)
  | .new, true => some (.dispatched 0)
  | .new, false => some (afterFailure limit 1 le_rfl)
  | .failed failures _ _, true => some (.dispatched failures)
  | .failed failures _ _, false => some (afterFailure limit (failures + 1) (Nat.le_add_left 1 failures))
  | .dispatched _, _ => none
  | .deadLetter, _ => none

def status : RetryState limit → EventStatus
  | .new => .new
  | .failed _ _ _ => .failed
  | .dispatched _ => .dispatched
  | .deadLetter => .deadLetter

/-- The success flags of the attempts made so far. -/
def successes : RetryState limit → List Bool
  | .new => []
  | .failed failures _ _ => List.replicate failures false
  | .dispatched failures => List.replicate failures false ++ [true]
  | .deadLetter => List.replicate limit false

/-- The number of failures of an event that waits for an attempt. -/
def failures? : RetryState limit → Option Nat
  | .new => some 0
  | .failed failures _ _ => some failures
  | .dispatched _ => none
  | .deadLetter => none

theorem failures?_isSome_iff (q : RetryState limit) :
    q.failures?.isSome ↔ q.status = .new ∨ q.status = .failed := by
  cases q <;> simp [failures?, status]

/-- Where the status is final, the automaton has no step left. -/
theorem next_eq_none {q : RetryState limit} (h : q.status = .dispatched ∨ q.status = .deadLetter)
    (b : Bool) : q.next b = none := by
  cases q with
  | new => rcases h with h | h <;> cases h
  | failed => rcases h with h | h <;> cases h
  | dispatched => rfl
  | deadLetter => rfl

theorem successes_of_failures? {q : RetryState limit} {k : Nat} (h : q.failures? = some k) :
    q.successes = List.replicate k false := by
  cases q with
  | new => cases h; rfl
  | failed => cases h; rfl
  | dispatched => cases h
  | deadLetter => cases h

theorem failures?_lt {q : RetryState limit} {k : Nat} (hlimit : 1 ≤ limit) (h : q.failures? = some k) :
    k < limit := by
  cases q with
  | new => cases h; exact hlimit
  | failed failures hpos hlt => cases h; exact hlt
  | dispatched => cases h
  | deadLetter => cases h

theorem next_true {q : RetryState limit} {k : Nat} (h : q.failures? = some k) :
    q.next true = some (.dispatched k) := by
  cases q with
  | new => cases h; rfl
  | failed => cases h; rfl
  | dispatched => cases h
  | deadLetter => cases h

theorem next_false {q : RetryState limit} {k : Nat} (h : q.failures? = some k) :
    q.next false = some (afterFailure limit (k + 1) (Nat.le_add_left 1 k)) := by
  cases q with
  | new => cases h; rfl
  | failed => cases h; rfl
  | dispatched => cases h
  | deadLetter => cases h

theorem status_afterFailure {k : Nat} (hpos : 1 ≤ k) :
    (afterFailure limit k hpos).status = if k < limit then .failed else .deadLetter := by
  unfold afterFailure
  split
  · rfl
  · rfl

/-- The failure that closes the event is number `limit`. -/
theorem successes_afterFailure {k : Nat} (hpos : 1 ≤ k) (hle : k ≤ limit) :
    (afterFailure limit k hpos).successes = List.replicate k false := by
  unfold afterFailure
  split
  · rfl
  · have heq : limit = k := by omega
    rw [heq]
    rfl

end RetryState

/-! ## The automaton and the stored rows -/

/-- The event has the status and the outcomes of the automaton's state. -/
structure Represents {limit : Nat} (db : Database) (eventId : Guid) (q : RetryState limit) : Prop where
  status : statusOf db eventId = q.status
  attempts : (eventRows db eventId).map DeliveryAttempt.success = q.successes

theorem one_le_attemptLimit (opts : DeliveryOptions) : 1 ≤ attemptLimit opts := by
  unfold attemptLimit
  omega

/-- The automaton and the stopping rule close an event at the same failure. -/
theorem failureStatus_eq (opts : DeliveryOptions) (k : Nat) :
    failureStatus opts (k + 1) = if k + 1 < attemptLimit opts then .failed else .deadLetter := by
  have hiff := isExhausted_iff opts (k + 1)
  unfold failureStatus attemptLimit
  by_cases hlt : k + 1 < (max 1 (attemptCap opts)).toNat
  · have hopen : isExhausted opts (k + 1) = false := by
      rw [isExhausted_eq_false_iff]
      omega
    rw [hopen, if_pos hlt]
    rfl
  · have hclosed : isExhausted opts (k + 1) = true := by
      rw [hiff]
      omega
    rw [hclosed, if_neg hlt]
    rfl

/-- One attempt of the worker is one step of the automaton. -/
theorem exists_next {opts : DeliveryOptions} {q : RetryState (attemptLimit opts)} {k : Nat}
    (hk : q.failures? = some k) (outcome : HttpOutcome) :
    ∃ q', q.next outcome.succeeded = some q' ∧ q'.status = resultStatus opts outcome (k + 1) ∧
      q'.successes = q.successes ++ [outcome.succeeded] := by
  rw [RetryState.successes_of_failures? hk]
  unfold resultStatus
  cases outcome.succeeded with
  | true => exact ⟨_, RetryState.next_true hk, rfl, rfl⟩
  | false =>
    have hlt := RetryState.failures?_lt (one_le_attemptLimit opts) hk
    refine ⟨_, RetryState.next_false hk, ?_, ?_⟩
    · rw [RetryState.status_afterFailure, failureStatus_eq]
      rfl
    · rw [RetryState.successes_afterFailure _ (by omega), List.replicate_succ']

/-! ## A pass over one endpoint -/

theorem nextTryNumber_congr_event {db db' : Database} {e : Guid} (h : eventRows db e = eventRows db' e)
    (endpointId : Guid) : nextTryNumber db e endpointId = nextTryNumber db' e endpointId := by
  have hpair : ∀ db : Database,
      pairRows db e endpointId = (eventRows db e).filter fun a => a.endpointId = endpointId := by
    intro db
    unfold pairRows eventRows
    rw [List.filter_filter]
    apply List.filter_congr
    intro a _
    rw [Bool.decide_and, Bool.and_comm]
  apply nextTryNumber_congr
  apply lastAttempt_congr
  rw [hpair, hpair, h]

section Visit

variable {w : World} (hw : w.Healthy) {opts : DeliveryOptions} {s : State} {v : Event × Endpoint}
variable (hctx : s.ctx.Clean)
include hw hctx

/-- A visit touches its own event only. -/
theorem event_deliver_of_ne {e : Guid} (hne : v.1.id ≠ e) :
    statusOf (deliver w opts s v).db e = statusOf s.db e ∧
      eventRows (deliver w opts s v).db e = eventRows s.db e := by
  cases hdue : dueAt w s v with
  | false =>
    rw [(deliver_not_due hdue).1]
    exact ⟨rfl, rfl⟩
  | true =>
    have hdel := deliver_due opts hw hctx hdue
    obtain ⟨r, -, hrows⟩ := hdel.row
    constructor
    · rw [statusOf, hdel.events, writeStatus, Table.find?_modify, if_neg (Ne.symm hne)]
      rfl
    · simp [eventRows, hrows, attemptRow, hne]

/-- A due visit is one attempt of its event. -/
theorem event_deliver_due (hdue : dueAt w s v = true)
    (hstored : v.1.id ∈ s.db.events.rows.map Event.id) {n : Int}
    (hn : nextTryNumber s.db v.1.id v.2.id = n) :
    ∃ outcome, statusOf (deliver w opts s v).db v.1.id = resultStatus opts outcome n ∧
      (eventRows (deliver w opts s v).db v.1.id).map DeliveryAttempt.success =
        (eventRows s.db v.1.id).map DeliveryAttempt.success ++ [outcome.succeeded] ∧
      nextTryNumber (deliver w opts s v).db v.1.id v.2.id = n + 1 := by
  have hdel := deliver_due opts hw hctx hdue
  obtain ⟨r, -, hrows⟩ := hdel.row
  obtain ⟨a, hlast, htry, -⟩ := hdel.lastAttempt_self
  rw [hn] at hrows htry
  refine ⟨nextOutcome w s v.1.id v.2.id n, ?_, ?_, ?_⟩
  · rw [statusOf, hdel.events, elim_status_writeStatus hstored, if_pos rfl, hn]
  · simp [eventRows, hrows, attemptRow]
  · rw [nextTryNumber, hlast, Option.elim_some, htry]

end Visit

theorem deliver_keyed_event {w : World} (hw : w.Healthy) (opts : DeliveryOptions) :
    FoldTrace.KeyedFold (deliver w opts) (fun s => s.ctx.Clean) (fun v => v.1.id)
      (fun s e => (statusOf s.db e, eventRows s.db e)) where
  keep _ _ h := deliver_clean hw h
  frame _ _ _ h hne := by
    obtain ⟨hstatus, hrows⟩ := event_deliver_of_ne hw h hne
    rw [hstatus, hrows]

/-- With one endpoint a pass visits an event at most once. -/
theorem passVisits_events_nodup (opts : DeliveryOptions) {endpoints : List Endpoint} {s : State}
    (hperm : endpoints.Perm (activeEndpoints s.db)) {p : Guid} (hone : ∀ ep ∈ endpoints, ep.id = p) :
    ((passVisits opts endpoints s).map fun v => v.1.id).Nodup := by
  have hkeys := passVisits_keys_nodup opts hperm
  have hid : ∀ v ∈ passVisits opts endpoints s, v.2.id = p := by
    intro v hv
    obtain ⟨-, row, hrow, heq⟩ := mem_passVisits hv
    rw [heq, ids_materialise]
    exact hone row hrow
  apply List.Nodup.map_on
  · intro v hv u hu hevent
    apply List.inj_on_of_nodup_map hkeys hv hu
    rw [visitKey, visitKey, hevent, hid v hv, hid u hu]
  · exact List.Nodup.of_map _ hkeys

/-! ## Runs -/

/-- The automaton's state is that of the event, and the next try has the next number. -/
structure Follows {limit : Nat} (p e : Guid) (s : State) (q : RetryState limit) : Prop where
  populated : Populated [p] s
  represents : Represents s.db e q
  next : nextTryNumber s.db e p = q.successes.length + 1

theorem statusOf_insert_new {db : Database} {events : Table Event Guid Event.id} {ev : Event}
    (hnew : ev.status = .new) (hrows : events.rows = db.events.rows ++ [ev]) (e : Guid) :
    statusOf { db with events } e = statusOf db e := by
  by_cases hmem : e ∈ db.events.rows.map Event.id
  · exact statusOf_insert hmem hrows
  · rw [statusOf_of_not_mem hmem]
    by_cases hid : ev.id = e
    · have hev : ev ∈ events.rows := by
        rw [hrows]
        exact List.mem_append_right _ (List.mem_singleton_self ev)
      rw [statusOf, (Table.find?_eq_some_iff _).mpr ⟨hev, hid⟩]
      exact hnew
    · apply statusOf_of_not_mem
      simp only [hrows, List.map_append, List.mem_append, List.map_singleton, List.mem_singleton]
      exact not_or.mpr ⟨hmem, Ne.symm hid⟩

/-- A row is written for the one endpoint only, and an event is inserted as new. -/
def OneEndpoint (p : Guid) : Action → Prop
  | .pass _ => True
  | .insertEvent ev => ev.status = .new
  | .saveEndpoint ep => ep.id = p

section Run

variable {w : World} (hw : w.Healthy) {opts : DeliveryOptions} {p e : Guid} {s s' : State}
variable {q : RetryState (attemptLimit opts)}

theorem Follows.congr (h : Follows p e s q) (hpopulated : Populated [p] s')
    (hstatus : statusOf s'.db e = statusOf s.db e) (hrows : eventRows s'.db e = eventRows s.db e) :
    Follows p e s' q := by
  refine ⟨hpopulated, ⟨hstatus.trans h.represents.status, ?_⟩, ?_⟩
  · rw [hrows]
    exact h.represents.attempts
  · rw [nextTryNumber_congr_event hrows]
    exact h.next

include hw

theorem follows_pass {endpoints : List Endpoint} (hperm : endpoints.Perm (activeEndpoints s.db))
    (h : Follows p e s q) :
    ∃ q', (q' = q ∨ ∃ b, q.next b = some q') ∧ Follows p e (processOnceAsync w opts endpoints s).2 q' := by
  have hctx := h.populated.clean
  have hstart := passStart_clean endpoints hctx
  have hpopulated := populated_pass opts hw hperm h.populated
  have hone : ∀ ep ∈ endpoints, ep.id = p := by
    intro ep hep
    have hmem := List.mem_map_of_mem (f := Endpoint.id) (List.mem_filter.mp (hperm.mem_iff.mp hep)).1
    rw [h.populated.stored] at hmem
    exact List.mem_singleton.mp hmem
  have hnodup := passVisits_events_nodup opts hperm hone
  have hkeyed := deliver_keyed_event hw opts
  have hdb := (processOnceAsync_spec hw opts endpoints hctx).1
  by_cases hmem : e ∈ (passVisits opts endpoints s).map fun v => v.1.id
  · obtain ⟨v, hv, rfl⟩ := List.mem_map.mp hmem
    obtain ⟨s₁, hx⟩ := FoldTrace.exists_mem_trace (f := deliver w opts) (s := passStart endpoints s) hv
    obtain ⟨hstatus, hrows⟩ := Prod.mk.inj (hkeyed.get_trace hstart hnodup hx)
    obtain ⟨hstatus', hrows'⟩ := Prod.mk.inj (hkeyed.get_foldl_of_trace hstart hnodup hx)
    rw [← hdb] at hstatus' hrows'
    cases hdue : dueAt w s₁ v with
    | false =>
      rw [(deliver_not_due hdue).1] at hstatus' hrows'
      exact ⟨q, Or.inl rfl, h.congr hpopulated (hstatus'.trans hstatus) (hrows'.trans hrows)⟩
    | true =>
      have hvid : v.2.id = p := by
        obtain ⟨-, row, hrow, heq⟩ := mem_passVisits hv
        rw [heq, ids_materialise]
        exact hone row hrow
      obtain ⟨hev, hcand⟩ := mem_candidates (mem_passVisits hv).1
      have hopen : q.failures?.isSome := by
        rw [RetryState.failures?_isSome_iff, ← h.represents.status, statusOf_eq hev]
        simpa [isCandidate] using hcand
      obtain ⟨k, hk⟩ := Option.isSome_iff_exists.mp hopen
      have hlength : q.successes.length = k := by
        rw [RetryState.successes_of_failures? hk, List.length_replicate]
      have hn : nextTryNumber s₁.db v.1.id v.2.id = (k : Int) + 1 := by
        rw [nextTryNumber_congr_event hrows, hvid]
        exact h.next.trans (by rw [hlength])
      have hstored : v.1.id ∈ s₁.db.events.rows.map Event.id := by
        have hsettled := FoldTrace.trace_invariant (Settled.deliver hw)
          (⟨hstart, rfl⟩ : Settled (s.db.events.rows.map Event.id) (passStart endpoints s)) _ hx
        rw [hsettled.ids]
        exact List.mem_map_of_mem hev
      have hclean := passTrace_clean hw hctx _ hx
      obtain ⟨outcome, hout, hflags, hnext⟩ := event_deliver_due hw hclean hdue hstored hn
      obtain ⟨q', hstep, hq, hsuccesses⟩ := exists_next hk outcome
      refine ⟨q', Or.inr ⟨_, hstep⟩, hpopulated, ⟨?_, ?_⟩, ?_⟩
      · rw [hstatus', hout, hq]
      · rw [hrows', hflags, hrows, hsuccesses]
        exact congrArg (· ++ [outcome.succeeded]) h.represents.attempts
      · rw [nextTryNumber_congr_event hrows', ← hvid, hnext, hsuccesses, List.length_append, hlength]
        rfl
  · obtain ⟨hstatus, hrows⟩ := Prod.mk.inj (hkeyed.get_foldl_of_not_mem hstart hmem)
    rw [← hdb] at hstatus hrows
    exact ⟨q, Or.inl rfl, h.congr hpopulated hstatus hrows⟩

theorem follows_step {a : Action} (h : Follows p e s q) (hone : OneEndpoint p a)
    (hstep : step w opts s a = some s') :
    ∃ q', (q' = q ∨ ∃ b, q.next b = some q') ∧ Follows p e s' q' := by
  cases a with
  | pass endpoints =>
    obtain ⟨hperm, rfl⟩ := step_pass_eq_some_iff.mp hstep
    exact follows_pass hw hperm h
  | insertEvent ev =>
    have hpopulated := populated_step hw h.populated (a := .insertEvent ev) trivial hstep
    obtain ⟨events, hevents, rfl⟩ := Option.map_eq_some_iff.mp hstep
    have hstatus := statusOf_insert_new hone (Table.insertAll?_eq_some_iff.mp hevents) e
    exact ⟨q, Or.inl rfl, h.congr hpopulated hstatus rfl⟩
  | saveEndpoint ep =>
    have hpopulated := populated_step hw h.populated (a := .saveEndpoint ep)
      (List.mem_singleton.mpr hone) hstep
    cases hstep
    exact ⟨q, Or.inl rfl, h.congr hpopulated rfl rfl⟩

/-- The attempts of an event are only ever added to. -/
theorem eventRows_prefix_run (opts : DeliveryOptions) {actions : List Action} (hctx : s.ctx.Clean)
    (hrun : Transition.run (step w opts) s actions = some s') :
    eventRows s.db e <+: eventRows s'.db e := by
  have hkeep := Transition.invariant
    (I := fun s₁ => s₁.ctx.Clean ∧ eventRows s.db e <+: eventRows s₁.db e) ?_
    ⟨hctx, List.prefix_refl _⟩ hrun
  · exact hkeep.2
  · intro s₁ a s₂ ⟨hclean, hprefix⟩ hstep
    refine ⟨step_clean hw hclean hstep, hprefix.trans ?_⟩
    cases a with
    | pass endpoints =>
      obtain ⟨-, rfl⟩ := step_pass_eq_some_iff.mp hstep
      obtain ⟨rows, -, heq⟩ := rows_pass opts endpoints hw hclean
      unfold eventRows
      rw [heq]
      exact (List.prefix_append _ _).filter _
    | insertEvent ev =>
      have hattempts := (step_other (fun _ => Action.noConfusion) hstep).1
      rw [eventRows, eventRows, hattempts]
    | saveEndpoint ep =>
      have hattempts := (step_other (fun _ => Action.noConfusion) hstep).1
      rw [eventRows, eventRows, hattempts]

end Run

/-- **The worker refines the retry automaton.** With one endpoint, the automaton follows
every run for every event, and nothing is added to an event whose status is final. -/
theorem follows_automaton {w : World} (hw : w.Healthy) (opts : DeliveryOptions)
    (events : Table Event Guid Event.id) (hnew : ∀ ev ∈ events.rows, ev.status = .new) (ep : Endpoint)
    (before after : List Action) (hone : ∀ a ∈ before ++ after, OneEndpoint ep.id a) (e : Guid) :
    Transition.Simulates (step w opts) RetryState.next (fun s q => Represents s.db e q)
        (.start events (.single ep)) (.new : RetryState (attemptLimit opts)) (before ++ after) ∧
      ∀ s s', Transition.run (step w opts) (.start events (.single ep)) before = some s →
        Transition.run (step w opts) s after = some s' →
        statusOf s.db e = .dispatched ∨ statusOf s.db e = .deadLetter →
        eventRows s'.db e = eventRows s.db e ∧ statusOf s'.db e = statusOf s.db e := by
  have hstatus : statusOf (State.start events (.single ep)).db e = .new := by
    by_cases hmem : e ∈ events.rows.map Event.id
    · obtain ⟨ev, hev, rfl⟩ := List.mem_map.mp hmem
      exact (statusOf_eq hev).trans (hnew ev hev)
    · exact statusOf_of_not_mem hmem
  have hstart : Follows ep.id e (State.start events (.single ep))
      (.new : RetryState (attemptLimit opts)) := by
    refine ⟨populated_start events (.single ep), ⟨hstatus, rfl⟩, ?_⟩
    have hnone : lastAttempt (State.start events (.single ep)).db e ep.id = none :=
      lastAttempt_eq_none_iff.mpr rfl
    rw [nextTryNumber, hnone]
    rfl
  have hfollow := Transition.simulates (R := fun s (q : RetryState (attemptLimit opts)) =>
    Represents s.db e q) (fun _ _ h => h.represents)
    (fun _ _ _ _ h hgood hstep => follows_step hw h hgood hstep) hone hstart
  refine ⟨hfollow, fun s s' hbefore hafter hfinal => ?_⟩
  obtain ⟨q, hq⟩ := hfollow.rest hbefore
  rw [hq.head.status] at hfinal
  have hlast := hq.last_of_final (RetryState.next_eq_none hfinal) hafter
  have hclean : s.ctx.Clean := Transition.invariant (I := fun s => s.ctx.Clean)
    (fun _ _ _ h hstep => step_clean hw h hstep) ⟨rfl, rfl⟩ hbefore
  have hlength := congrArg List.length (hlast.attempts.trans hq.head.attempts.symm)
  rw [List.length_map, List.length_map] at hlength
  refine ⟨?_, hlast.status.trans hq.head.status.symm⟩
  exact ((eventRows_prefix_run hw opts hclean hafter).eq_of_length hlength.symm).symm

theorem follows_automaton_refused :
    Transition.Simulates (step refusingWorld twoTries) RetryState.next (fun s q => Represents s.db 7 q)
        staggeredStart (.new : RetryState (attemptLimit twoTries))
        ([.pass [olderEndpoint], .pass [olderEndpoint]] ++ [.pass [olderEndpoint]]) ∧
      ∀ s s', Transition.run (step refusingWorld twoTries) staggeredStart
          [.pass [olderEndpoint], .pass [olderEndpoint]] = some s →
        Transition.run (step refusingWorld twoTries) s [.pass [olderEndpoint]] = some s' →
        statusOf s.db 7 = .dispatched ∨ statusOf s.db 7 = .deadLetter →
        eventRows s'.db 7 = eventRows s.db 7 ∧ statusOf s'.db 7 = statusOf s.db 7 := by
  refine follows_automaton (fun _ => rfl) twoTries _ ?_ olderEndpoint _ _ ?_ 7
  · intro ev hev
    rw [List.mem_singleton.mp hev]
  · intro a ha
    have hpass : a = .pass [olderEndpoint] := by simpa using ha
    rw [hpass]
    trivial

end WebhookInbox.Worker
