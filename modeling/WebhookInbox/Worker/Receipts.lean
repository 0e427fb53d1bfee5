import WebhookInbox.Worker.Cluster

/-!
# Every attempt records a try

The log may miss tries: a process can end between a request and its save, and a second worker
can lose the race for the row. It never holds an attempt that no worker made. The row of an
attempt is built from the outcome of a try of the same event, endpoint and number, or from the
exception of the save that came after such a try. A try may end before its request is sent, and
then its row has no response code: a row with one belongs to a request that was sent and got
that code (`receipts_run`). Nothing is assumed about the saves, the clock or the turns of the
workers.
-/

namespace WebhookInbox.Worker

/-- What the row of a try may be built from: the outcome of the `i`-th try, or the exception of
the save after it. -/
def Answers (w : World) (i : Nat) (p : Post) (outcome : HttpOutcome) : Prop :=
  outcome = w.http p.eventId p.endpointId p.tryNumber i ∨
    outcome = .exception "DbUpdateException".toList

/-- The row records one of the tries. -/
def Reports (w : World) (opts : DeliveryOptions) (tries : List Post) (a : DeliveryAttempt) : Prop :=
  ∃ (i : Nat) (p : Post) (outcome : HttpOutcome) (id : Guid) (sentAt now : Time),
    tries[i]? = some p ∧ Answers w i p outcome ∧
      a = attemptRow opts p.eventId p.endpointId p.tryNumber outcome id sentAt now

theorem getElem?_of_prefix {tries tries' : List Post} (hgrows : tries <+: tries') {i : Nat} {p : Post}
    (h : tries[i]? = some p) : tries'[i]? = some p := by
  obtain ⟨hlt, rfl⟩ := List.getElem?_eq_some_iff.mp h
  exact List.prefix_iff_getElem?.mp hgrows i hlt

section Reports

variable {w : World} {opts : DeliveryOptions} {tries tries' : List Post} {a : DeliveryAttempt}

theorem Reports.mono (h : Reports w opts tries a) (hgrows : tries <+: tries') :
    Reports w opts tries' a := by
  obtain ⟨i, p, outcome, id, sentAt, now, hi, hrest⟩ := h
  exact ⟨i, p, outcome, id, sentAt, now, getElem?_of_prefix hgrows hi, hrest⟩

theorem Reports.key_mem (h : Reports w opts tries a) : a.key ∈ tries.map Post.key := by
  obtain ⟨i, p, outcome, id, sentAt, now, hi, -, rfl⟩ := h
  exact List.mem_map.mpr ⟨p, List.mem_of_getElem? hi, rfl⟩

/-- A row with a response code records the reply to the last transmission of a request. -/
theorem Reports.replied (h : Reports w opts tries a) {statusCode : Nat}
    (hcode : a.responseCode = some statusCode) :
    ∃ i p body, tries[i]? = some p ∧ p.key = a.key ∧
      (w.exchange p.eventId p.endpointId p.tryNumber i).replies.getLast? =
        some (.result statusCode body) := by
  obtain ⟨i, p, outcome, id, sentAt, now, hi, hanswers, rfl⟩ := h
  cases outcome with
  | response code body =>
    cases hcode
    rcases hanswers with hout | hout
    · exact ⟨i, p, body, hi, rfl, (w.exchange _ _ _ i).read _ _ hout.symm⟩
    · cases hout
  | exception typeName => cases hcode

/-- A row that says the delivery succeeded has the code that says so. -/
theorem Reports.succeeded (h : Reports w opts tries a) (hs : a.success = true) :
    ∃ statusCode, a.responseCode = some statusCode ∧ isSuccessStatusCode statusCode = true := by
  obtain ⟨i, p, outcome, id, sentAt, now, -, -, rfl⟩ := h
  cases outcome with
  | response code body => exact ⟨code, rfl, hs⟩
  | exception typeName => cases hs

end Reports

/-- The rows that wait for a save record a try, and so does the outcome that the next save is
about. -/
structure Receipted (w : World) (opts : DeliveryOptions) (p : Process) : Prop where
  added : ∀ a ∈ p.state.ctx.added, Reports w opts p.state.tries a
  record : ∀ l v n outcome, p.phase.record? = some (l, v, n, outcome) →
    ∃ i : Nat, p.state.tries[i]? = some (request v n) ∧ Answers w i (request v n) outcome

/-- Tries and attempts are only added, the attempts with a try of their own. -/
structure Reported (w : World) (opts : DeliveryOptions) (s s' : State) : Prop where
  tries : s.tries <+: s'.tries
  rows : ∀ a ∈ s'.db.attempts.rows, a ∈ s.db.attempts.rows ∨ Reports w opts s'.tries a

section Moved

variable {w : World} {opts : DeliveryOptions} {p p' : Process} {m : Move}

/-- A process with the same change set and no outcome to record. -/
theorem Receipted.mono (h : Receipted w opts p) (hgrows : p.state.tries <+: p'.state.tries)
    (hadded : p'.state.ctx.added = p.state.ctx.added)
    (hrecord : ∀ x, p'.phase.record? = some x → p.phase.record? = some x) : Receipted w opts p' := by
  refine ⟨fun a ha => ?_, fun l v n outcome hphase => ?_⟩
  · rw [hadded] at ha
    exact (h.added a ha).mono hgrows
  · obtain ⟨i, hi, hanswers⟩ := h.record l v n outcome (hrecord _ hphase)
    exact ⟨i, getElem?_of_prefix hgrows hi, hanswers⟩

theorem Receipted.batch (h : Receipted w opts p) {l : Loop} {v : Event × Endpoint} {n : Int}
    {outcome : HttpOutcome} (hphase : p.phase.record? = some (l, v, n, outcome)) :
    ∀ a ∈ p.state.ctx.added ++ [visitRow w opts v n outcome p.state],
      Reports w opts p.state.tries a := by
  intro a ha
  rw [List.mem_append, List.mem_singleton] at ha
  rcases ha with ha | rfl
  · exact h.added a ha
  · obtain ⟨i, hi, hanswers⟩ := h.record l v n outcome hphase
    exact ⟨i, request v n, outcome, _, _, _, hi, hanswers, rfl⟩

theorem Moved.tries_prefix (h : Moved w opts p m p') : p.state.tries <+: p'.state.tries := by
  rcases h.tries with hsame | ⟨l, v, n, -, htries, -⟩
  · rw [hsame]
  · rw [htries]
    exact List.prefix_append _ _

theorem Moved.reported (h : Moved w opts p m p') (hp : Receipted w opts p) :
    Reported w opts p.state p'.state := by
  have hgrows := h.tries_prefix
  refine ⟨hgrows, fun a ha => ?_⟩
  cases h with
  | rested _ s' _ hdb => exact Or.inl (hdb ▸ ha)
  | recorded l l' v n outcome s' hphase hsame hend =>
    cases hend with
    | committed _ hrows =>
      rw [hrows, List.mem_append] at ha
      rcases ha with ha | ha
      · exact Or.inl ha
      · exact Or.inr ((hp.batch hphase a ha).mono hgrows)
  | thrown l v n outcome s' phase hphase hthrown hend =>
    cases hend with
    | rejected _ hdb => exact Or.inl (hdb ▸ ha)
  | _ => exact Or.inl ha

theorem Moved.receipted (h : Moved w opts p m p') (hp : Receipted w opts p) : Receipted w opts p' := by
  have hgrows := h.tries_prefix
  cases h with
  | rested _ s' _ _ hadded => exact hp.mono hgrows hadded fun _ hx => by cases hx
  | queried | loaded | skipped | due => exact hp.mono hgrows rfl fun _ hx => by cases hx
  | sent l v n hphase =>
    refine ⟨fun a ha => (hp.added a ha).mono hgrows, fun l' u k outcome hx => ?_⟩
    cases hx
    refine ⟨p.state.tries.length, ?_, Or.inl rfl⟩
    rw [State.tries_append (State.calls_emit _ _ _), List.map_singleton, List.getElem?_concat_length]
  | recorded l l' v n outcome s' hphase hsame hend =>
    cases hend with
    | committed _ _ _ _ hadded =>
      refine ⟨fun a ha => ?_, fun _ _ _ _ hx => by cases hx⟩
      rw [hadded] at ha
      cases ha
  | thrown l v n outcome s' phase hphase hthrown hend =>
    refine ⟨fun a ha => ?_, fun l' u k outcome' hx => ?_⟩
    · cases hend with
      | rejected _ _ hadded =>
        rw [hadded] at ha
        exact (hp.batch hphase a ha).mono hgrows
    · rcases hthrown with rfl | rfl
      · -- the catch block records the exception of the save
        cases hx
        obtain ⟨i, hi, -⟩ := hp.record l v n outcome hphase
        exact ⟨i, getElem?_of_prefix hgrows hi, Or.inr rfl⟩
      · cases hx

end Moved

/-! ## Runs -/

variable {ι : Type} [DecidableEq ι]

/-- A request of the row's try was sent, and its last transmission got this response. -/
def GotResponse (w : World) (s : State) (a : DeliveryAttempt) (statusCode : Nat) : Prop :=
  ∃ i p body, s.tries[i]? = some p ∧ p ∈ s.posts ∧ p.key = a.key ∧
    (w.exchange p.eventId p.endpointId p.tryNumber i).replies.getLast? = some (.result statusCode body)

structure Accountable (w : World) (opts : DeliveryOptions) (c : Workers ι) : Prop where
  rows : ∀ a ∈ c.shared.db.attempts.rows, Reports w opts c.shared.tries a
  free : Cluster.Free (fun s m => Receipted w opts (m.process s)) (fun _ _ => True) c
  replied : SentAsReplied w c.shared

section Run

variable {w : World} {opts : DeliveryOptions} {c c' : Workers ι}

theorem Accountable.advance (h : Accountable w opts c) {i : ι} {p' : Process}
    (hreported : Reported w opts c.shared p'.state) (hp : Receipted w opts p')
    (hreplied : SentAsReplied w p'.state) : Accountable w opts (c.advance i p') := by
  refine ⟨fun a ha => ?_, h.free.put (fun _ _ _ => trivial) hp ?_ fun _ _ => trivial, hreplied⟩
  · rcases hreported.rows a ha with hold | hnew
    · exact (h.rows a hold).mono hreported.tries
    · exact hnew
  · intro m _ hm
    exact hm.mono hreported.tries rfl fun _ hx => hx

omit [DecidableEq ι] in
theorem Accountable.share (h : Accountable w opts c) {s : State}
    (hattempts : s.db.attempts = c.shared.db.attempts) (hlog : s.log = c.shared.log) :
    Accountable w opts { c with shared := s } := by
  have htries : s.tries = c.shared.tries := State.tries_congr (State.calls_congr hlog)
  refine ⟨?_, h.free.share fun m hm => hm.mono ?_ rfl fun _ hx => hx, fun i p sends hi => ?_⟩
  · rw [hattempts, htries]
    exact h.rows
  · show c.shared.tries <+: s.tries
    rw [htries]
  · rw [State.calls_congr hlog] at hi
    exact h.replied i p sends hi

theorem accountable_step {a : ClusterAction ι} (h : Accountable w opts c)
    (hstep : clusterStep w opts c a = some c') : Accountable w opts c' := by
  cases a with
  | move i m =>
    obtain ⟨p', hmove, rfl⟩ := Option.map_eq_some_iff.mp hstep
    have hmoved := moved_of_move hmove
    have hreported := hmoved.reported (h.free.each i)
    exact h.advance ⟨hreported.tries, hreported.rows⟩ (hmoved.receipted (h.free.each i))
      (hmoved.sentAsReplied h.replied)
  | restart i =>
    cases hstep
    apply h.advance
    · exact ⟨List.prefix_rfl, fun _ ha => Or.inl ha⟩
    · exact ⟨fun a ha => (by cases ha), fun _ _ _ _ hx => by cases hx⟩
    · exact h.replied
  | insertEvent e =>
    obtain ⟨events, -, rfl⟩ := Option.map_eq_some_iff.mp hstep
    exact h.share rfl rfl
  | saveEndpoint ep =>
    cases hstep
    exact h.share rfl rfl
  | writeStatus eventId status =>
    cases hstep
    exact h.share rfl rfl

omit [DecidableEq ι] in
theorem accountable_start (db : Database) (hempty : db.attempts.rows = []) :
    Accountable w opts (Workers.start ι db) := by
  have hnone : (Workers.start ι db).shared.db.attempts.rows = [] := hempty
  refine ⟨?_, ⟨fun i => ⟨fun a ha => ?_, fun _ _ _ _ hx => ?_⟩, fun _ _ _ => trivial⟩,
    fun i p sends hi => ?_⟩
  · rw [hnone]
    exact fun _ ha => by cases ha
  · cases ha
  · cases hx
  · simp [State.calls, Workers.start] at hi

theorem accountable_run {db : Database} (hempty : db.attempts.rows = [])
    {actions : List (ClusterAction ι)}
    (hrun : Transition.run (clusterStep w opts) (Workers.start ι db) actions = some c') :
    Accountable w opts c' :=
  Transition.invariant (I := Accountable w opts) (fun _ _ _ h hstep => accountable_step h hstep)
    (accountable_start db hempty) hrun

omit [DecidableEq ι] in
theorem Accountable.gotResponse (h : Accountable w opts c) {a : DeliveryAttempt}
    (ha : a ∈ c.shared.db.attempts.rows) {statusCode : Nat} (hcode : a.responseCode = some statusCode) :
    GotResponse w c.shared a statusCode := by
  obtain ⟨i, p, body, hi, hkey, hlast⟩ := (h.rows a ha).replied hcode
  refine ⟨i, p, body, hi, ?_, hkey, hlast⟩
  rw [State.tries, List.getElem?_map, Option.map_eq_some_iff] at hi
  obtain ⟨⟨q, sends⟩, hcall, rfl⟩ := hi
  refine State.mem_posts.mpr ⟨sends, List.mem_of_getElem? hcall, ?_⟩
  rintro rfl
  -- a request that was not sent has no reply
  rw [List.eq_nil_of_length_eq_zero (h.replied i q 0 hcall).symm] at hlast
  cases hlast

end Run

/-- **Every attempt records a try.** Whatever the interleaving of the workers, wherever their
processes end and whichever saves fail, each committed attempt records a try of its own event,
endpoint and number, so there are never more attempts than tries. An attempt with a response
code, as a successful one is, belongs to a request that was sent and got that code. -/
theorem receipts_run (w : World) (opts : DeliveryOptions) (db : Database)
    (hempty : db.attempts.rows = []) (actions : List (ClusterAction ι)) {c' : Workers ι}
    (hrun : Transition.run (clusterStep w opts) (Workers.start ι db) actions = some c') :
    (∀ a ∈ c'.shared.db.attempts.rows, Reports w opts c'.shared.tries a ∧
        (∀ statusCode, a.responseCode = some statusCode → GotResponse w c'.shared a statusCode) ∧
        (a.success = true → ∃ statusCode, a.responseCode = some statusCode ∧
          isSuccessStatusCode statusCode = true)) ∧
      c'.shared.db.attempts.rows.length ≤ c'.shared.tries.length := by
  have hend := accountable_run hempty hrun
  refine ⟨fun a ha => ⟨hend.rows a ha, fun _ hcode => hend.gotResponse ha hcode,
    (hend.rows a ha).succeeded⟩, ?_⟩
  have hkeys : c'.shared.db.attempts.rows.map DeliveryAttempt.key ⊆ c'.shared.tries.map Post.key := by
    intro k hk
    obtain ⟨a, ha, rfl⟩ := List.mem_map.mp hk
    exact (hend.rows a ha).key_mem
  have hle := (c'.shared.db.attempts.nodup.subperm hkeys).length_le
  rwa [List.length_map, List.length_map] at hle

theorem receipts_run_overlap :
    ∃ c', Transition.run (clusterStep splitWorld {}) (Workers.start Bool sharedDatabase)
        overlapActions = some c' ∧
      (∀ a ∈ c'.shared.db.attempts.rows, Reports splitWorld {} c'.shared.tries a ∧
        (∀ statusCode, a.responseCode = some statusCode → GotResponse splitWorld c'.shared a statusCode) ∧
        (a.success = true → ∃ statusCode, a.responseCode = some statusCode ∧
          isSuccessStatusCode statusCode = true)) ∧
      c'.shared.db.attempts.rows.length ≤ c'.shared.tries.length := by
  have hrun := (Option.some_get overlapRun_isSome).symm
  exact ⟨_, hrun, receipts_run splitWorld {} sharedDatabase rfl overlapActions hrun⟩

end WebhookInbox.Worker
