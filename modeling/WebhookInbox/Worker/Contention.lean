import WebhookInbox.Library.NumberedLog
import WebhookInbox.Worker.Backoff
import WebhookInbox.Worker.Cluster
import WebhookInbox.Worker.Work

/-!
# Workers that overlap

Two workers may find the same pair due and send the same try twice. What they write is
nevertheless in order: the unique index takes one row of each try, and a row that is still new
when its save comes goes after the attempts its worker has seen. So the attempts of every pair
are well formed, and each is sent no earlier than the deadline stored with the one before and
the delay of the list after it, for any number of workers, in every interleaving of their
steps, when processes end anywhere and saves fail for any reason (`contendedLog_run`). The
workers share one clock, and it never goes back.
-/

namespace WebhookInbox.Worker

/-! ## The order of two attempts -/

/-- The attempt failed, and at this time its pair may be tried again. -/
structure Overdue (a : DeliveryAttempt) (now : Time) : Prop where
  failed : a.success = false
  sentAt : a.sentAt ≤ now
  deadline : ∀ t, a.nextAttemptAt = some t → t ≤ now

def SentAfter (a b : DeliveryAttempt) : Prop := Overdue a b.sentAt

theorem Overdue.mono {a : DeliveryAttempt} {now now' : Time} (h : Overdue a now) (hle : now ≤ now') :
    Overdue a now' :=
  ⟨h.failed, Int.le_trans h.sentAt hle, fun t ht => Int.le_trans (h.deadline t ht) hle⟩

instance isTrans_sentAfter : IsTrans DeliveryAttempt SentAfter where
  trans _ _ _ hab hbc := hab.mono hbc.sentAt

/-- The attempts of every pair are numbered from one on, and each follows the one before. -/
abbrev ContiguousTries (rows : List DeliveryAttempt) : Prop :=
  NumberedLog.Contiguous DeliveryAttempt.pair DeliveryAttempt.tryNumber SentAfter rows

theorem entries_pair (db : Database) (e ep : Guid) :
    NumberedLog.entries DeliveryAttempt.pair (e, ep) db.attempts.rows = pairRows db e ep := by
  simp [NumberedLog.entries, pairRows, DeliveryAttempt.pair]

theorem wellFormed_of_chained {rows : List DeliveryAttempt}
    (h : NumberedLog.Chained DeliveryAttempt.tryNumber SentAfter rows) : WellFormed rows := by
  refine ⟨h.nums, ?_, ?_⟩
  · intro a ha hs b hb hne
    rcases lt_trichotomy a.tryNumber b.tryNumber with hlt | heq | hgt
    · rw [(h.rel_of_lt ha hb hlt).failed] at hs
      cases hs
    · exact absurd (h.eq_of_num_eq hb ha heq.symm) hne
    · exact ⟨(h.rel_of_lt hb ha hgt).failed, hgt⟩
  · intro a ha b hb hle
    rcases hle.lt_or_eq with hlt | heq
    · exact (h.rel_of_lt ha hb hlt).sentAt
    · rw [h.eq_of_num_eq ha hb heq]

/-- No attempt is sent before a deadline that an earlier attempt of its pair has stored. -/
def KeepsDeadlines (db : Database) : Prop :=
  ∀ a ∈ db.attempts.rows, ∀ b ∈ db.attempts.rows, a.eventId = b.eventId → a.endpointId = b.endpointId →
    a.tryNumber < b.tryNumber → ∀ deadline, a.nextAttemptAt = some deadline → deadline ≤ b.sentAt

/-- Of two attempts of a pair, the later one is sent after the earlier one is overdue. -/
theorem sentAfter_of_lt {rows : List DeliveryAttempt} (h : ContiguousTries rows) {a b : DeliveryAttempt}
    (ha : a ∈ rows) (hb : b ∈ rows) (hevent : a.eventId = b.eventId)
    (hendpoint : a.endpointId = b.endpointId) (hlt : a.tryNumber < b.tryNumber) : SentAfter a b := by
  have hpair : DeliveryAttempt.pair a = DeliveryAttempt.pair b := by
    rw [DeliveryAttempt.pair, DeliveryAttempt.pair, hevent, hendpoint]
  apply (h (DeliveryAttempt.pair b)).rel_of_lt
  · exact NumberedLog.mem_entries.mpr ⟨ha, hpair⟩
  · exact NumberedLog.mem_entries.mpr ⟨hb, rfl⟩
  · exact hlt

theorem keepsDeadlines_of_contiguous {db : Database} (h : ContiguousTries db.attempts.rows) :
    KeepsDeadlines db := by
  intro a ha b hb hevent hendpoint hlt deadline hnext
  exact (sentAfter_of_lt h ha hb hevent hendpoint hlt).deadline deadline hnext

theorem respectsBackoff_of_contiguous {opts : DeliveryOptions} {db : Database}
    (h : ContiguousTries db.attempts.rows) (hscheduled : ∀ a ∈ db.attempts.rows, Scheduled opts a) :
    RespectsBackoff opts db := by
  intro k hk delay hdelay a ha b hb hevent hendpoint hatry hbtry
  have hsentAfter := sentAfter_of_lt h ha hb hevent hendpoint (by omega)
  obtain ⟨deadline, hnext, hle⟩ := hscheduled a ha hsentAfter.failed k hk hatry delay hdelay
  exact ⟨hsentAfter.failed, Int.le_trans hle (hsentAfter.deadline deadline hnext)⟩

/-! ## What the workers share and what each of them knows -/

/-- The committed attempts. -/
structure SharedLog (w : World) (opts : DeliveryOptions) (s : State) : Prop where
  contiguous : ContiguousTries s.db.attempts.rows
  sent : ∀ a ∈ s.db.attempts.rows, a.sentAt ≤ w.clock s.reads
  scheduled : ∀ a ∈ s.db.attempts.rows, Scheduled opts a

/-- The try is a first one, or it comes after an attempt that is overdue. -/
def Foreseen (w : World) (s : State) (v : Event × Endpoint) (n : Int) : Prop :=
  n = 1 ∨ ∃ a ∈ s.db.attempts.rows, DeliveryAttempt.pair a = visitKey v ∧ a.tryNumber + 1 = n ∧
    Overdue a (w.clock s.reads)

/-- A row that waits for a save. -/
structure Waiting (w : World) (opts : DeliveryOptions) (s : State) (a : DeliveryAttempt) : Prop where
  proposed : NumberedLog.Proposed DeliveryAttempt.pair DeliveryAttempt.tryNumber SentAfter
    s.db.attempts.rows a
  sent : a.sentAt ≤ w.clock s.reads
  scheduled : Scheduled opts a

structure Prudent (w : World) (opts : DeliveryOptions) (p : Process) : Prop where
  added : ∀ a ∈ p.state.ctx.added, Waiting w opts p.state a
  visit : ∀ v n, p.phase.visit? = some (v, n) → Foreseen w p.state v n

/-- Attempts are only added, and the clock is only read on. -/
structure Grows (s s' : State) : Prop where
  rows : s.db.attempts.rows ⊆ s'.db.attempts.rows
  reads : s.reads ≤ s'.reads

section Growth

variable {w : World} (hclock : w.ClockAdvances) {opts : DeliveryOptions} {s s' : State}
include hclock

theorem Foreseen.mono {v : Event × Endpoint} {n : Int} (h : Foreseen w s v n) (hgrows : Grows s s') :
    Foreseen w s' v n := by
  rcases h with hone | ⟨a, ha, hpair, htry, hdue⟩
  · exact Or.inl hone
  · exact Or.inr ⟨a, hgrows.rows ha, hpair, htry, hdue.mono (hclock _ _ hgrows.reads)⟩

theorem Waiting.mono {a : DeliveryAttempt} (h : Waiting w opts s a) (hgrows : Grows s s') :
    Waiting w opts s' a :=
  ⟨h.proposed.mono hgrows.rows, Int.le_trans h.sent (hclock _ _ hgrows.reads), h.scheduled⟩

/-- A process with the same change set and visit as before. -/
theorem Prudent.mono {p p' : Process} (h : Prudent w opts p) (hgrows : Grows p.state p'.state)
    (hadded : p'.state.ctx.added = p.state.ctx.added)
    (hvisit : ∀ x, p'.phase.visit? = some x → p.phase.visit? = some x) : Prudent w opts p' := by
  refine ⟨fun a ha => ?_, fun v n hv => ?_⟩
  · rw [hadded] at ha
    exact (h.added a ha).mono hclock hgrows
  · exact (h.visit v n (hvisit _ hv)).mono hclock hgrows

/-- The log is as it was. -/
theorem SharedLog.congr (h : SharedLog w opts s) (hattempts : s'.db.attempts = s.db.attempts)
    (hreads : s.reads ≤ s'.reads) : SharedLog w opts s' := by
  refine ⟨?_, ?_, ?_⟩
  · rw [hattempts]
    exact h.contiguous
  · rw [hattempts]
    exact fun a ha => Int.le_trans (h.sent a ha) (hclock _ _ hreads)
  · rw [hattempts]
    exact h.scheduled

/-- The row of a visit may wait for its save. -/
theorem Foreseen.waiting {v : Event × Endpoint} {n : Int} (h : Foreseen w s v n) (outcome : HttpOutcome) :
    Waiting w opts s (visitRow w opts v n outcome s) := by
  refine ⟨?_, le_rfl, scheduled_attemptRow hclock opts v.1.id v.2.id n outcome _ s.reads⟩
  rcases h with hone | ⟨a, ha, hpair, htry, hdue⟩
  · exact Or.inl hone
  · exact Or.inr ⟨a, ha, hpair, htry, hdue⟩

omit hclock in
/-- A pair that is found due has a newest attempt that is overdue, or none. -/
theorem SharedLog.foreseen (h : SharedLog w opts s) {v : Event × Endpoint}
    (hdue : dueAt w s v = true) : Foreseen w s v (nextTryNumber s.db v.1.id v.2.id) := by
  cases hlast : lastAttempt s.db v.1.id v.2.id with
  | none =>
    left
    rw [nextTryNumber, hlast]
    rfl
  | some last =>
    right
    obtain ⟨hmem, hevent, hendpoint⟩ := mem_pairRows.mp (lastAttempt_eq_some_iff.mp hlast).1
    obtain ⟨hfailed, hpassed⟩ := deadline_le_of_isDue hdue hlast
    refine ⟨last, hmem, ?_, ?_, hfailed, h.sent last hmem, hpassed⟩
    · rw [DeliveryAttempt.pair, visitKey, hevent, hendpoint]
    · rw [nextTryNumber, hlast]
      rfl

/-- **A commit** of waiting rows, whoever else has committed since they were made. -/
theorem SharedLog.commit (h : SharedLog w opts s) {batch : List DeliveryAttempt}
    (hbatch : ∀ a ∈ batch, Waiting w opts s a)
    (hrows : s'.db.attempts.rows = s.db.attempts.rows ++ batch) (hreads : s.reads ≤ s'.reads) :
    SharedLog w opts s' := by
  have hlater := hclock _ _ hreads
  refine ⟨?_, fun a ha => ?_, fun a ha => ?_⟩
  · have hnodup : ((s.db.attempts.rows ++ batch).map fun a => (DeliveryAttempt.pair a, a.tryNumber)).Nodup := by
      rw [← hrows]
      apply List.Nodup.of_map fun k => (k.1.1, k.1.2, k.2)
      rw [List.map_map]
      exact s'.db.attempts.nodup
    rw [hrows]
    exact h.contiguous.append_batch (fun a ha => (hbatch a ha).proposed) hnodup
  · rw [hrows, List.mem_append] at ha
    rcases ha with ha | ha
    · exact Int.le_trans (h.sent a ha) hlater
    · exact Int.le_trans (hbatch a ha).sent hlater
  · rw [hrows, List.mem_append] at ha
    rcases ha with ha | ha
    · exact h.scheduled a ha
    · exact (hbatch a ha).scheduled

end Growth

/-! ## One move -/

section Moved

variable {w : World} {opts : DeliveryOptions} {p p' : Process} {m : Move}

theorem Moved.grows (h : Moved w opts p m p') : Grows p.state p'.state := by
  have hreads := h.reads_le
  refine ⟨?_, hreads⟩
  cases h with
  | rested _ s' _ hdb => rw [hdb]; exact List.Subset.refl _
  | recorded _ _ _ _ _ _ _ _ hend =>
    cases hend with
    | committed _ hrows =>
      rw [hrows]
      exact List.subset_append_left _ _
  | thrown _ _ _ _ _ _ _ _ hend =>
    cases hend with
    | rejected _ hdb => rw [hdb]; exact List.Subset.refl _
  | _ => exact List.Subset.refl _

variable (hclock : w.ClockAdvances)
include hclock

/-- What the save of a visit commits or leaves waiting. -/
theorem Prudent.batch (hp : Prudent w opts p) {l : Loop} {v : Event × Endpoint} {n : Int}
    {outcome : HttpOutcome} (hphase : p.phase.record? = some (l, v, n, outcome)) :
    ∀ a ∈ p.state.ctx.added ++ [visitRow w opts v n outcome p.state], Waiting w opts p.state a := by
  intro a ha
  rw [List.mem_append, List.mem_singleton] at ha
  rcases ha with ha | rfl
  · exact hp.added a ha
  · exact (hp.visit v n (Phase.of_record? hphase).2.2.2).waiting hclock outcome

theorem Moved.sharedLog (h : Moved w opts p m p') (hlog : SharedLog w opts p.state)
    (hp : Prudent w opts p) : SharedLog w opts p'.state := by
  have hreads := h.reads_le
  cases h with
  | rested _ s' _ hdb => exact hlog.congr hclock (by rw [hdb]) hreads
  | recorded l l' v n outcome s' hphase hsame hend =>
    cases hend with
    | committed _ hrows => exact hlog.commit hclock (hp.batch hclock hphase) hrows hreads
  | thrown l v n outcome s' phase hphase hthrown hend =>
    cases hend with
    | rejected _ hdb => exact hlog.congr hclock (by rw [hdb]) hreads
  | _ => exact hlog.congr hclock rfl hreads

theorem Moved.prudent (h : Moved w opts p m p') (hlog : SharedLog w opts p.state)
    (hp : Prudent w opts p) : Prudent w opts p' := by
  have hgrows := h.grows
  cases h with
  | rested _ s' _ _ hadded => exact hp.mono hclock hgrows hadded fun _ hv => by cases hv
  | queried | loaded | skipped => exact hp.mono hclock hgrows rfl fun _ hv => by cases hv
  | due l v rest r hphase hrest hdue =>
    refine ⟨fun a ha => (hp.added a ha).mono hclock hgrows, fun u n hv => ?_⟩
    cases hv
    exact (hlog.foreseen hdue).mono hclock hgrows
  | sent l v n hphase =>
    apply hp.mono hclock hgrows rfl
    intro x hx
    rw [hphase]
    exact hx
  | recorded l l' v n outcome s' hphase hsame hend =>
    cases hend with
    | committed _ _ _ _ hadded =>
      refine ⟨fun a ha => ?_, fun _ _ hv => by cases hv⟩
      rw [hadded] at ha
      cases ha
  | thrown l v n outcome s' phase hphase hthrown hend =>
    refine ⟨fun a ha => ?_, fun u k hv => ?_⟩
    · cases hend with
      | rejected _ _ hadded =>
        rw [hadded] at ha
        exact (hp.batch hclock hphase a ha).mono hclock hgrows
    · rcases hthrown with rfl | rfl
      · cases hv
        exact (hp.visit v n (Phase.of_record? hphase).2.2.2).mono hclock hgrows
      · cases hv

end Moved

/-! ## Runs -/

variable {ι : Type} [DecidableEq ι]

structure Contended (w : World) (opts : DeliveryOptions) (c : Workers ι) : Prop where
  log : SharedLog w opts c.shared
  free : Cluster.Free (fun s m => Prudent w opts (m.process s)) (fun _ _ => True) c

section Run

variable {w : World} (hclock : w.ClockAdvances) {opts : DeliveryOptions} {c c' : Workers ι}
include hclock

/-- The step of one worker leaves to the others what they know. -/
theorem Contended.advance (h : Contended w opts c) {i : ι} {p' : Process}
    (hlog : SharedLog w opts p'.state) (hp : Prudent w opts p') (hgrows : Grows c.shared p'.state) :
    Contended w opts (c.advance i p') := by
  refine ⟨hlog, h.free.put (fun _ _ _ => trivial) hp ?_ fun _ _ => trivial⟩
  intro m _ hm
  exact hm.mono hclock ⟨hgrows.rows, hgrows.reads⟩ rfl fun _ hx => hx

omit [DecidableEq ι] in
/-- Writes of others touch no attempt. -/
theorem Contended.share (h : Contended w opts c) {s : State}
    (hattempts : s.db.attempts = c.shared.db.attempts) (hreads : s.reads = c.shared.reads) :
    Contended w opts { c with shared := s } := by
  refine ⟨h.log.congr hclock hattempts hreads.ge, h.free.share fun m hm => ?_⟩
  refine hm.mono hclock ⟨?_, hreads.ge⟩ rfl fun _ hx => hx
  show c.shared.db.attempts.rows ⊆ s.db.attempts.rows
  rw [hattempts]
  exact List.Subset.refl _

theorem contended_step {a : ClusterAction ι} (h : Contended w opts c)
    (hstep : clusterStep w opts c a = some c') : Contended w opts c' := by
  cases a with
  | move i m =>
    obtain ⟨p', hmove, rfl⟩ := Option.map_eq_some_iff.mp hstep
    have hmoved := moved_of_move hmove
    have hlog : SharedLog w opts ((c.members i).process c.shared).state :=
      ⟨h.log.contiguous, h.log.sent, h.log.scheduled⟩
    have hp := h.free.each i
    have hgrows := hmoved.grows
    exact h.advance hclock (hmoved.sharedLog hclock hlog hp) (hmoved.prudent hclock hlog hp)
      ⟨hgrows.rows, hgrows.reads⟩
  | restart i =>
    cases hstep
    apply h.advance hclock
    · exact ⟨h.log.contiguous, h.log.sent, h.log.scheduled⟩
    · exact ⟨fun a ha => (by cases ha), fun _ _ hv => by cases hv⟩
    · exact ⟨List.Subset.refl _, le_rfl⟩
  | insertEvent e =>
    obtain ⟨events, -, rfl⟩ := Option.map_eq_some_iff.mp hstep
    exact h.share hclock rfl rfl
  | saveEndpoint ep =>
    cases hstep
    exact h.share hclock rfl rfl
  | writeStatus eventId status =>
    cases hstep
    exact h.share hclock rfl rfl

omit hclock [DecidableEq ι] in
theorem contended_start (db : Database) (hempty : db.attempts.rows = []) :
    Contended w opts (Workers.start ι db) := by
  have hnone : (Workers.start ι db).shared.db.attempts.rows = [] := hempty
  refine ⟨⟨?_, ?_, ?_⟩, ⟨fun i => ⟨fun a ha => ?_, fun _ _ hv => ?_⟩, fun _ _ _ => trivial⟩⟩
  · rw [hnone]
    exact NumberedLog.Contiguous.nil
  · rw [hnone]
    exact fun _ ha => by cases ha
  · rw [hnone]
    exact fun _ ha => by cases ha
  · cases ha
  · cases hv

theorem contended_run {db : Database} (hempty : db.attempts.rows = []) {actions : List (ClusterAction ι)}
    (hrun : Transition.run (clusterStep w opts) (Workers.start ι db) actions = some c') :
    Contended w opts c' :=
  Transition.invariant (I := Contended w opts) (fun _ _ _ h hstep => contended_step hclock h hstep)
    (contended_start db hempty) hrun

omit hclock [DecidableEq ι] in
theorem Contended.wellFormed (h : Contended w opts c) (e ep : Guid) :
    WellFormed (pairRows c.shared.db e ep) := by
  rw [← entries_pair]
  exact wellFormed_of_chained (h.log.contiguous (e, ep))

end Run

/-- **The attempt log under contention.** Whatever the interleaving of the workers, wherever
their processes end and whichever saves fail, the attempts of every pair are well formed, and
keep the stored deadlines and the delays of the list. -/
theorem contendedLog_run {w : World} (hclock : w.ClockAdvances) (opts : DeliveryOptions) (db : Database)
    (hempty : db.attempts.rows = []) (actions : List (ClusterAction ι)) {c' : Workers ι}
    (hrun : Transition.run (clusterStep w opts) (Workers.start ι db) actions = some c') :
    (∀ e ep, WellFormed (pairRows c'.shared.db e ep)) ∧ KeepsDeadlines c'.shared.db ∧
      RespectsBackoff opts c'.shared.db := by
  have hend := contended_run hclock hempty hrun
  exact ⟨hend.wellFormed, keepsDeadlines_of_contiguous hend.log.contiguous,
    respectsBackoff_of_contiguous hend.log.contiguous hend.log.scheduled⟩

theorem contendedLog_run_overlap :
    (∀ e ep, WellFormed (pairRows ((Transition.run (clusterStep splitWorld {})
        (Workers.start Bool sharedDatabase) overlapActions).get overlapRun_isSome).shared.db e ep)) ∧
      KeepsDeadlines ((Transition.run (clusterStep splitWorld {})
        (Workers.start Bool sharedDatabase) overlapActions).get overlapRun_isSome).shared.db ∧
      RespectsBackoff {} ((Transition.run (clusterStep splitWorld {})
        (Workers.start Bool sharedDatabase) overlapActions).get overlapRun_isSome).shared.db :=
  contendedLog_run (fun _ _ _ => Int.le_refl _) {} sharedDatabase rfl overlapActions
    (Option.some_get overlapRun_isSome).symm

end WebhookInbox.Worker
