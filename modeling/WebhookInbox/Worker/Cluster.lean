import Mathlib.Data.Fintype.Basic
import WebhookInbox.Library.Interleaving
import WebhookInbox.Worker.Log
import WebhookInbox.Worker.Requests

/-!
# Several workers on one database

Each worker is the process of before, with a change set and a phase of its own; the
database, the effects and the positions in the world's streams are shared. Nothing is
claimed before a request: what keeps two workers from the same try is that neither is in
the visit of a pair when the other finds the pair due (`Apart`). Then every try is made
once, its request is sent again by the inline retry only, and its row is there or on its way
(`sentOnce_run`).

A save writes no status that the worker's own copy of the event already has. The model
writes it, and has `writeStatus`, by which any status can come back at any time: its runs
include those of the code.
-/

namespace WebhookInbox.Worker

variable {ι : Type} [DecidableEq ι]

/-- What a worker process does not share. -/
structure Member where
  ctx : DbContext := {}
  phase : Phase := .idle

/-- The process of a member. The change set of the shared state is not used. -/
def Member.process (m : Member) (shared : State) : Process where
  state := { shared with ctx := m.ctx }
  phase := m.phase

abbrev Workers (ι : Type) := Cluster ι State Member

/-- Fresh workers on a database. -/
def Workers.start (ι : Type) (db : Database) : Workers ι where
  shared := { db }
  members _ := {}

inductive ClusterAction (ι : Type) where
  | move (i : ι) (m : Move)
  | restart (i : ι)
  | insertEvent (e : Event)
  | saveEndpoint (ep : Endpoint)
  | writeStatus (eventId : Guid) (status : EventStatus)

/-- The process of one member takes the place it had. -/
def Workers.advance (c : Workers ι) (i : ι) (p : Process) : Workers ι :=
  c.put i p.state { ctx := p.state.ctx, phase := p.phase }

def clusterStep (w : World) (opts : DeliveryOptions) (c : Workers ι) :
    ClusterAction ι → Option (Workers ι)
  | .move i m => (((c.members i).process c.shared).move w opts m).map (Workers.advance c i)
  | .restart i => some (Workers.advance c i ((c.members i).process c.shared).restart)
  | .insertEvent e =>
    (c.shared.db.events.insertAll? [e]).map fun events =>
      { c with shared := { c.shared with db := { c.shared.db with events } } }
  | .saveEndpoint ep =>
    some { c with shared := { c.shared with
      db := { c.shared.db with endpoints := c.shared.db.endpoints.upsert ep } } }
  | .writeStatus eventId status =>
    some { c with shared := { c.shared with
      db := { c.shared.db with events := Worker.writeStatus c.shared.db.events (eventId, status) } } }

/-- The pair whose attempt state is queried next. -/
def Phase.next? : Phase → Option (Event × Endpoint)
  | .checking l => l.rest.head?
  | _ => none

/-- A pair is found due by no worker while another one is in its visit, and no process is
ended between a request and the end of its save. -/
def Apart (w : World) (c : Workers ι) : ClusterAction ι → Prop
  | .move i _ => ∀ v ∈ (c.members i).phase.next?, dueAt w c.shared v = true →
      ∀ j, j ≠ i → ∀ x ∈ (c.members j).phase.visit?, visitKey x.1 ≠ visitKey v
  | .restart i => (c.members i).phase.record?.isNone = true
  | .insertEvent _ => True
  | .saveEndpoint _ => True
  | .writeStatus _ _ => True

/-- A worker has not saved the row of this outcome yet. -/
def AwaitsSave (c : Workers ι) (p : Post) (outcome : HttpOutcome) : Prop :=
  ∃ j l v, (c.members j).phase = .recording l v p.tryNumber outcome ∧
    visitKey v = (p.eventId, p.endpointId)

/-- The `i`-th try has a row of its own with its outcome, or its worker has not saved that
row yet. -/
def Accounted (w : World) (c : Workers ι) (i : Nat) (p : Post) : Prop :=
  let outcome := w.http p.eventId p.endpointId p.tryNumber i
  (∃ a ∈ c.shared.db.attempts.rows, a.key = p.key ∧ a.success = outcome.succeeded) ∨
    AwaitsSave c p outcome

/-- The `i`-th try has been sent as often as it has replies. -/
def SentAsReplied (w : World) (s : State) : Prop :=
  ∀ (i : Nat) p sends, s.calls[i]? = some (p, sends) →
    sends = (w.exchange p.eventId p.endpointId p.tryNumber i).replies.length

/-- No try is made twice, and every try is accounted for. -/
structure TriedOnce (w : World) (c : Workers ι) : Prop where
  once : (c.shared.tries.map Post.key).Nodup
  accounted : ∀ i p, c.shared.tries[i]? = some p → Accounted w c i p
  replied : SentAsReplied w c.shared

section Moved

variable {w : World} {opts : DeliveryOptions} {p p' : Process} {m : Move}

/-- A visit begins with a pair that is found due, or it has begun before. -/
theorem Moved.visit (h : Moved w opts p m p') {x : (Event × Endpoint) × Int}
    (hx : p'.phase.visit? = some x) :
    p.phase.visit? = some x ∨ (p.phase.next? = some x.1 ∧ dueAt w p.state x.1 = true) := by
  cases h with
  | rested | queried | loaded | skipped => cases hx
  | due l v rest r hphase hrest hdue =>
    cases hx
    refine Or.inr ⟨?_, hdue⟩
    rw [hphase, Phase.next?, hrest]
    rfl
  | sent l v n hphase =>
    rw [hphase]
    exact Or.inl hx
  | recorded => cases hx
  | thrown l v n outcome s' phase hphase hthrown =>
    rcases hthrown with rfl | rfl
    · rw [(Phase.of_record? hphase).2.2.2]
      exact Or.inl hx
    · cases hx

/-- A move tries nothing, or the pair of its visit. -/
theorem Moved.calls (h : Moved w opts p m p') : p'.state.calls = p.state.calls ∨
    ∃ l v n, p.phase = .sending l v n ∧
      p'.state.calls = p.state.calls ++ [(request v n, w.sends v.1.id v.2.id n p.state.tries.length)] ∧
      p'.phase = .recording l v n (w.http v.1.id v.2.id n p.state.tries.length) := by
  cases h with
  | rested _ _ _ _ _ _ hlog => exact Or.inl (State.calls_congr hlog)
  | queried | loaded | skipped | due => exact Or.inl rfl
  | sent l v n hphase => exact Or.inr ⟨l, v, n, hphase, State.calls_emit _ _ _, rfl⟩
  | recorded _ _ _ _ _ _ _ _ hend => exact Or.inl hend.calls
  | thrown _ _ _ _ _ _ _ _ hend => exact Or.inl hend.calls

theorem Moved.tries (h : Moved w opts p m p') : p'.state.tries = p.state.tries ∨
    ∃ l v n, p.phase = .sending l v n ∧ p'.state.tries = p.state.tries ++ [request v n] ∧
      p'.phase = .recording l v n (w.http v.1.id v.2.id n p.state.tries.length) := by
  rcases h.calls with hsame | ⟨l, v, n, hphase, hcalls, hphase'⟩
  · exact Or.inl (State.tries_congr hsame)
  · exact Or.inr ⟨l, v, n, hphase, State.tries_append hcalls, hphase'⟩

theorem Moved.sentAsReplied (h : Moved w opts p m p') (hp : SentAsReplied w p.state) :
    SentAsReplied w p'.state := by
  intro i q sends hi
  rcases h.calls with hsame | ⟨l, v, n, -, hcalls, -⟩
  · rw [hsame] at hi
    exact hp i q sends hi
  · rw [hcalls, List.getElem?_append] at hi
    split at hi
    · exact hp i q sends hi
    · rename_i hlen
      obtain ⟨hlt, heq⟩ := List.getElem?_eq_some_iff.mp hi
      rw [List.length_singleton] at hlt
      have hlast : i = p.state.tries.length := by
        rw [State.tries, List.length_map]
        omega
      rw [List.getElem_singleton] at heq
      cases heq
      rw [hlast]
      rfl

variable (hp : Steady w p) (hfailed : p.phase.saveFailed = false)
include hp hfailed

/-- What a move adds to the attempts is the row of its visit, and a save adds it or fails. -/
theorem Moved.attempts (h : Moved w opts p m p') :
    (p'.state.db.attempts.rows = p.state.db.attempts.rows ∧
        (p.phase.record? = none ∨ p'.phase.saveFailed = true)) ∨
      ∃ l v n outcome, p.phase = .recording l v n outcome ∧ p'.state.db.attempts.rows =
        p.state.db.attempts.rows ++ [visitRow w opts v n outcome p.state] := by
  cases h with
  | rested _ _ hvisit hdb => exact Or.inl ⟨by rw [hdb], Or.inl (Phase.record?_of_visit? hvisit)⟩
  | queried _ hvisit => exact Or.inl ⟨rfl, Or.inl (Phase.record?_of_visit? hvisit)⟩
  | loaded _ _ hphase => exact Or.inl ⟨rfl, Or.inl (by rw [hphase]; rfl)⟩
  | skipped _ _ _ _ hphase => exact Or.inl ⟨rfl, Or.inl (by rw [hphase]; rfl)⟩
  | due _ _ _ _ hphase => exact Or.inl ⟨rfl, Or.inl (by rw [hphase]; rfl)⟩
  | sent _ _ _ hphase => exact Or.inl ⟨rfl, Or.inl (by rw [hphase]; rfl)⟩
  | recorded l l' v n outcome s' hphase hsame hend =>
    refine Or.inr ⟨l, v, n, outcome, Phase.recording_of_record? hphase hfailed, ?_⟩
    exact (hp.committed hfailed hend).1
  | thrown l v n outcome s' phase hphase hthrown hend =>
    refine Or.inl ⟨?_, Or.inr ?_⟩
    · cases hend with
      | rejected _ hdb => rw [hdb]
    · rcases hthrown with rfl | rfl
      · rfl
      · rfl

/-- A save that does not fail adds the row of its visit. -/
theorem Moved.row_of_recording (h : Moved w opts p m p') (hsaved : p'.phase.saveFailed = false)
    {l : Loop} {v : Event × Endpoint} {n : Int} {outcome : HttpOutcome}
    (hphase : p.phase = .recording l v n outcome) : p'.state.db.attempts.rows =
      p.state.db.attempts.rows ++ [visitRow w opts v n outcome p.state] := by
  rcases h.attempts hp hfailed with ⟨-, hnone | hthrown⟩ | ⟨l', v', n', outcome', hphase', hrows⟩
  · rw [hphase] at hnone
    cases hnone
  · rw [hsaved] at hthrown
    cases hthrown
  · rw [hphase] at hphase'
    cases hphase'
    exact hrows

end Moved

/-! ## Runs -/

/-- A member is steady, and no save of its pass has failed. -/
structure Working (w : World) (shared : State) (m : Member) : Prop where
  steady : Steady w (m.process shared)
  saved : m.phase.saveFailed = false

/-- Two members are not in the visit of one pair. -/
def VisitsApart (m m' : Member) : Prop :=
  ∀ x y, m.phase.visit? = some x → m'.phase.visit? = some y → visitKey x.1 ≠ visitKey y.1

structure Orderly (w : World) (c : Workers ι) : Prop where
  free : Cluster.Free (Working w) VisitsApart c
  sent : TriedOnce w c

section Run

variable {w : World} {opts : DeliveryOptions} {c c' : Workers ι}

/-- What a member relies on: the newest attempt of its own pair, and the saves so far. -/
theorem Working.congr {s s' : State} {m : Member} (h : Working w s m)
    (houtside : ∀ i : Nat, s'.saves[i]? = some false → w.saveFails i = true)
    (hlast : ∀ x, m.phase.visit? = some x →
      lastAttempt s'.db x.1.1.id x.1.2.id = lastAttempt s.db x.1.1.id x.1.2.id) : Working w s' m := by
  refine ⟨⟨h.steady.clean, fun v n hv => ?_, houtside⟩, h.saved⟩
  have hsame := hlast (v, n) hv
  obtain ⟨hn, hfail⟩ := h.steady.visit v n hv
  refine ⟨hn.trans (nextTryNumber_congr hsame).symm, fun last hl => hfail last ?_⟩
  exact hsame.symm.trans hl

/-- A request stays accounted for when a process moves. -/
theorem Accounted.advance {i : ι} {p' : Process} {m : Move}
    (hmoved : Moved w opts ((c.members i).process c.shared) m p')
    (hworking : Working w c.shared (c.members i)) (hsaved : p'.phase.saveFailed = false)
    {k : Nat} {q : Post} (h : Accounted w c k q) : Accounted w (c.advance i p') k q := by
  have hrows := hmoved.attempts hworking.steady hworking.saved
  rcases h with ⟨a, ha, hkey, hsucc⟩ | ⟨j, l, v, hj, hv⟩
  · refine Or.inl ⟨a, ?_, hkey, hsucc⟩
    rcases hrows with ⟨hsame, -⟩ | ⟨l, v, n, outcome, -, hadd⟩
    · exact hsame ▸ ha
    · exact hadd ▸ List.mem_append_left _ ha
  · by_cases hij : j = i
    · -- the worker that sent the request moves on: its save commits the row
      subst hij
      left
      have hkey : (v.1.id, v.2.id, q.tryNumber) = q.key := by
        simp only [visitKey, Prod.mk.injEq] at hv
        rw [Post.key, hv.1, hv.2]
      have hrow := hmoved.row_of_recording hworking.steady hworking.saved hsaved hj
      refine ⟨_, hrow ▸ List.mem_append_right _ (List.mem_singleton_self _), ?_, rfl⟩
      exact hkey
    · refine Or.inr ⟨j, l, v, ?_, hv⟩
      rw [Workers.advance, Cluster.members_put_of_ne hij]
      exact hj

omit [DecidableEq ι] in
/-- Writes of others touch neither the attempts nor the effects. -/
theorem Orderly.share (h : Orderly w c) {s : State} (hattempts : s.db.attempts = c.shared.db.attempts)
    (hlog : s.log = c.shared.log) : Orderly w { c with shared := s } := by
  have htries : s.tries = c.shared.tries := State.tries_congr (State.calls_congr hlog)
  have hsaves : s.saves = c.shared.saves := by rw [State.saves, State.saves, hlog]
  refine ⟨h.free.share fun m hm => hm.congr ?_ fun x _ => ?_, ?_, fun k q hq => ?_, ?_⟩
  · rw [hsaves]
    exact hm.steady.outside
  · apply lastAttempt_congr
    rw [pairRows, pairRows, hattempts]
  · rw [htries]
    exact h.sent.once
  · rcases h.sent.accounted k q (htries ▸ hq) with ⟨a, ha, hrow⟩ | hrecording
    · exact Or.inl ⟨a, hattempts ▸ ha, hrow⟩
    · exact Or.inr hrecording
  · intro k q sends hq
    rw [State.calls_congr hlog] at hq
    exact h.sent.replied k q sends hq

end Run

/-! ## What is sent -/

instance decidableApart [Fintype ι] (w : World) (c : Workers ι) (a : ClusterAction ι) :
    Decidable (Apart w c a) :=
  match a with
  | .move i _ => inferInstanceAs (Decidable (∀ v ∈ (c.members i).phase.next?,
      dueAt w c.shared v = true → ∀ j, j ≠ i → ∀ x ∈ (c.members j).phase.visit?, visitKey x.1 ≠ visitKey v))
  | .restart i => inferInstanceAs (Decidable ((c.members i).phase.record?.isNone = true))
  | .insertEvent _ => isTrue trivial
  | .saveEndpoint _ => isTrue trivial
  | .writeStatus _ _ => isTrue trivial

/-- One event for the endpoint that answers 200. -/
def sharedDatabase : Database :=
  (State.start (.single { id := 7, source := "test".toList, receivedAt := 0 }) (.single workingEndpoint)).db

/-- A worker comes to the due check of the one pair. -/
def approach (i : Bool) : List (ClusterAction Bool) :=
  [.move i .queryCandidates, .move i (.queryEndpoints [workingEndpoint])]

/-- The second worker checks the pair before the first one has saved. -/
def overlapActions : List (ClusterAction Bool) :=
  approach true ++ approach false ++
    [.move true .next, .move false .next, .move true .next, .move false .next, .move true .next]

theorem overlapRun_isSome : (Transition.run (clusterStep splitWorld {})
    (Workers.start Bool sharedDatabase) overlapActions).isSome := by
  decide

end WebhookInbox.Worker
