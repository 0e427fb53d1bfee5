import WebhookInbox.Worker.Work
import WebhookInbox.Worker.Cluster

/-!
# What a worker works on

A worker holds events it has queried, some of them long ago, and endpoint instances of the
change tracker that are older than their rows. All of them were stored at some time. So a property
of every event and every endpoint that is ever stored holds of all that a worker holds, and of
the event and the endpoint of every try (`supplied_step`). The property may not
read the status of an event, which is the only field a save writes.
-/

namespace WebhookInbox.Worker

section Rows

theorem bare_foldl_writeStatus (changes : List (Guid × EventStatus)) (events : Table Event Guid Event.id) :
    (changes.foldl writeStatus events).rows.map bare = events.rows.map bare := by
  induction changes generalizing events with
  | nil => rfl
  | cons change changes ih => rw [List.foldl_cons, ih, bare_writeStatus]

/-- A property of events that does not read the status. -/
def StatusBlind (P : Event → Prop) : Prop := ∀ ev, P (bare ev) ↔ P ev

theorem StatusBlind.of_bare {P : Event → Prop} (hP : StatusBlind P) {rows rows' : List Event}
    (hbare : rows'.map bare = rows.map bare) (h : ∀ ev ∈ rows, P ev) : ∀ ev ∈ rows', P ev := by
  intro ev hev
  have hmem : bare ev ∈ rows.map bare := by
    rw [← hbare]
    exact List.mem_map_of_mem hev
  obtain ⟨ev', hev', heq⟩ := List.mem_map.mp hmem
  rw [← hP, ← heq, hP]
  exact h ev' hev'

end Rows

/-! ## One process -/

variable {P : Event → Prop} {Q : Endpoint → Prop}

/-- What is stored, and what was tried. -/
structure Fed (P : Event → Prop) (Q : Endpoint → Prop) (s : State) : Prop where
  events : ∀ ev ∈ s.db.events.rows, P ev
  endpoints : ∀ ep ∈ s.db.endpoints.rows, Q ep
  tries : ∀ x ∈ s.tries, ∃ v n, P v.1 ∧ Q v.2 ∧ x = request v n

/-- What a process holds. -/
structure Holds (P : Event → Prop) (Q : Endpoint → Prop) (ctx : DbContext) (phase : Phase) : Prop where
  tracked : ∀ ep ∈ ctx.endpoints, Q ep
  candidates : ∀ ev ∈ phase.candidates, P ev
  pairs : ∀ v ∈ phase.pairs, P v.1 ∧ Q v.2

theorem Holds.idle {ctx : DbContext} (htracked : ∀ ep ∈ ctx.endpoints, Q ep) : Holds P Q ctx .idle :=
  ⟨htracked, fun _ h => absurd h List.not_mem_nil, fun _ h => absurd h List.not_mem_nil⟩

theorem holds_materialise {ctx : DbContext} {row : Endpoint} (htracked : ∀ ep ∈ ctx.endpoints, Q ep)
    (hrow : Q row) : Q (materialise ctx row) := by
  unfold materialise
  cases h : ctx.endpoints.find? fun e => e.id = row.id with
  | none => exact hrow
  | some ep => exact htracked ep (List.mem_of_find?_eq_some h)

theorem holds_track {ctx : DbContext} {rows : List Endpoint} (htracked : ∀ ep ∈ ctx.endpoints, Q ep)
    (hrows : ∀ ep ∈ rows, Q ep) : ∀ ep ∈ (track ctx rows).endpoints, Q ep := by
  intro ep hep
  rcases List.mem_append.mp hep with hold | hnew
  · exact htracked ep hold
  · exact hrows ep (List.mem_filter.mp hnew).1

section Moved

variable {w : World} {opts : DeliveryOptions} {p p' : Process} {m : Move}

theorem RecordEnd.bare {v : Event × Endpoint} {n : Int} {outcome : HttpOutcome} {s s' : State}
    {saved : Bool} (h : RecordEnd w opts v n outcome s s' saved) :
    s'.db.events.rows.map Worker.bare = s.db.events.rows.map Worker.bare ∧
      s'.db.endpoints = s.db.endpoints := by
  cases h with
  | committed _ _ hevents hendpoints => exact ⟨by rw [hevents, bare_foldl_writeStatus], hendpoints⟩
  | rejected _ hdb => exact ⟨by rw [hdb], by rw [hdb]⟩

/-- A move changes no event but for its status, and no endpoint. -/
theorem Moved.bare (h : Moved w opts p m p') :
    p'.state.db.events.rows.map Worker.bare = p.state.db.events.rows.map Worker.bare ∧
      p'.state.db.endpoints = p.state.db.endpoints := by
  cases h with
  | rested _ s' _ hdb => exact ⟨by rw [hdb], by rw [hdb]⟩
  | recorded _ _ _ _ _ _ _ _ hend => exact hend.bare
  | thrown _ _ _ _ _ _ _ _ hend => exact hend.bare
  | _ => exact ⟨rfl, rfl⟩

theorem Moved.fed (hP : StatusBlind P) (h : Moved w opts p m p') (hfed : Fed P Q p.state)
    (hp : Holds P Q p.state.ctx p.phase) : Fed P Q p'.state := by
  obtain ⟨hbare, hendpoints⟩ := h.bare
  refine ⟨hP.of_bare hbare hfed.events, ?_, fun x hx => ?_⟩
  · rw [hendpoints]
    exact hfed.endpoints
  · rcases h.tries with hsame | ⟨l, v, n, hphase, htries, -⟩
    · exact hfed.tries x (hsame ▸ hx)
    · rw [htries, List.mem_append, List.mem_singleton] at hx
      rcases hx with hx | rfl
      · exact hfed.tries x hx
      · have hv := hp.pairs v (by rw [hphase]; exact List.mem_cons_self)
        exact ⟨v, n, hv.1, hv.2, rfl⟩

/-- In the loops no endpoint is queried. -/
theorem tracked_proceed (h : proceed w opts p.state p.phase = some p') :
    p'.state.ctx.endpoints = p.state.ctx.endpoints := by
  obtain ⟨s, phase⟩ := p
  cases phase with
  | idle => cases h
  | queried candidates => cases h
  | failed => cases h
  | checking l =>
    simp only [proceed] at h
    split at h
    · cases h
      rfl
    · rename_i v rest _
      obtain ⟨r, -, heq⟩ := getAttemptStateAsync_spec w s v.1.id v.2.id
      rw [heq] at h
      dsimp only at h
      split at h
      · cases h
        rfl
      · cases h
        rfl
  | sending l v n =>
    cases h
    rfl
  | recording l v n outcome =>
    have htracked := tracked_recordOutcome w opts v n outcome s
    simp only [proceed] at h
    generalize recordOutcome w opts v n outcome s = result at h htracked
    obtain ⟨saved, s'⟩ := result
    cases saved <;> cases outcome <;> cases h <;> exact htracked
  | catching l v n =>
    have htracked := tracked_recordOutcome w opts v n
      (.exception "DbUpdateException".toList) s
    cases h
    exact htracked

theorem tracked_move (h : p.move w opts m = some p') (hstored : ∀ ep ∈ p.state.db.endpoints.rows, Q ep)
    (htracked : ∀ ep ∈ p.state.ctx.endpoints, Q ep) : ∀ ep ∈ p'.state.ctx.endpoints, Q ep := by
  cases m with
  | queryCandidates =>
    unfold Process.move at h
    dsimp only at h
    split at h
    · split at h <;> cases h <;> exact htracked
    · split at h <;> cases h <;> exact htracked
    · cases h
  | queryEndpoints rows =>
    unfold Process.move at h
    dsimp only at h
    split at h
    · split at h
      · rename_i hperm
        have hrows : ∀ ep ∈ rows, Q ep := fun ep hep =>
          hstored ep (List.mem_filter.mp (hperm.mem_iff.mp hep)).1
        split at h <;> cases h <;> exact holds_track htracked hrows
      · cases h
    · cases h
  | next =>
    rw [tracked_proceed h]
    exact htracked

/-- **One move** brings nothing in that was not stored. -/
theorem Moved.holds (h : Moved w opts p m p') (hfed : Fed P Q p.state)
    (hp : Holds P Q p.state.ctx p.phase) (htracked : ∀ ep ∈ p'.state.ctx.endpoints, Q ep) :
    Holds P Q p'.state.ctx p'.phase := by
  cases h with
  | rested _ s' => exact Holds.idle htracked
  | queried candidates _ hcandidates =>
    refine ⟨htracked, fun ev hev => ?_, fun _ h => absurd h List.not_mem_nil⟩
    exact hfed.events ev (mem_candidates (by rw [hcandidates]; exact hev)).1
  | loaded candidates rows hphase hperm =>
    have hcand : ∀ ev ∈ candidates, P ev := fun ev hev => hp.candidates ev (by rw [hphase]; exact hev)
    refine ⟨htracked, hcand, fun v hv => ?_⟩
    obtain ⟨hev, hep⟩ := List.pair_mem_product.mp hv
    obtain ⟨row, hrow, heq⟩ := List.mem_map.mp hep
    refine ⟨hcand v.1 hev, heq ▸ holds_materialise hp.tracked ?_⟩
    exact hfed.endpoints row (List.mem_filter.mp (hperm.mem_iff.mp hrow)).1
  | skipped l v rest r hphase hrest =>
    refine ⟨htracked, fun ev hev => hp.candidates ev (by rw [hphase]; exact hev), fun u hu => ?_⟩
    apply hp.pairs u
    rw [hphase, Phase.pairs, hrest]
    exact List.mem_cons_of_mem v hu
  | due l v rest r hphase hrest =>
    refine ⟨htracked, fun ev hev => hp.candidates ev (by rw [hphase]; exact hev), fun u hu => ?_⟩
    apply hp.pairs u
    rw [hphase, Phase.pairs, hrest]
    exact hu
  | sent l v n hphase =>
    refine ⟨htracked, fun ev hev => hp.candidates ev (by rw [hphase]; exact hev), fun u hu => ?_⟩
    apply hp.pairs u
    rw [hphase]
    exact hu
  | recorded l l' v n outcome s' hphase hsame hend =>
    obtain ⟨hcand, -, hpairs, -⟩ := Phase.of_record? hphase
    refine ⟨htracked, fun ev hev => hp.candidates ev ?_, fun u hu => hp.pairs u ?_⟩
    · rw [hcand, ← hsame.candidates]
      exact hev
    · rw [hpairs, ← hsame.rest]
      exact List.mem_cons_of_mem v hu
  | thrown l v n outcome s' phase hphase hthrown hend =>
    obtain ⟨hcand, -, hpairs, -⟩ := Phase.of_record? hphase
    rcases hthrown with rfl | rfl
    · refine ⟨htracked, fun ev hev => hp.candidates ev ?_, fun u hu => hp.pairs u ?_⟩
      · rw [hcand]
        exact hev
      · rw [hpairs]
        exact hu
    · exact ⟨htracked, fun _ h => absurd h List.not_mem_nil, fun _ h => absurd h List.not_mem_nil⟩

end Moved

/-! ## Several workers -/

variable {ι : Type} [DecidableEq ι]

structure Supplied (P : Event → Prop) (Q : Endpoint → Prop) (c : Workers ι) : Prop where
  fed : Fed P Q c.shared
  holds : ∀ i, Holds P Q (c.members i).ctx (c.members i).phase

/-- What the action stores has the property. -/
def Supplies (P : Event → Prop) (Q : Endpoint → Prop) : ClusterAction ι → Prop
  | .move _ _ => True
  | .restart _ => True
  | .insertEvent ev => P ev
  | .saveEndpoint ep => Q ep
  | .writeStatus _ _ => True

section Run

variable {w : World} {opts : DeliveryOptions} {c c' : Workers ι}

theorem Supplied.advance (h : Supplied P Q c) {i : ι} {p' : Process} (hfed : Fed P Q p'.state)
    (hp : Holds P Q p'.state.ctx p'.phase) : Supplied P Q (c.advance i p') := by
  refine ⟨hfed, fun j => ?_⟩
  by_cases hij : j = i
  · subst hij
    rw [Workers.advance, Cluster.members_put_self]
    exact hp
  · rw [Workers.advance, Cluster.members_put_of_ne hij]
    exact h.holds j

theorem supplied_step (hP : StatusBlind P) {a : ClusterAction ι} (h : Supplied P Q c)
    (ha : Supplies P Q a) (hstep : clusterStep w opts c a = some c') : Supplied P Q c' := by
  cases a with
  | move i m =>
    obtain ⟨p', hmove, rfl⟩ := Option.map_eq_some_iff.mp hstep
    have hfed : Fed P Q ((c.members i).process c.shared).state :=
      ⟨h.fed.events, h.fed.endpoints, h.fed.tries⟩
    have hmoved := moved_of_move hmove
    have htracked := tracked_move hmove hfed.endpoints (h.holds i).tracked
    exact h.advance (hmoved.fed hP hfed (h.holds i)) (hmoved.holds hfed (h.holds i) htracked)
  | restart i =>
    cases hstep
    exact h.advance ⟨h.fed.events, h.fed.endpoints, h.fed.tries⟩ (Holds.idle fun _ hep => by cases hep)
  | insertEvent ev =>
    obtain ⟨events, hevents, rfl⟩ := Option.map_eq_some_iff.mp hstep
    have hrows := Table.insertAll?_eq_some_iff.mp hevents
    refine ⟨⟨fun e he => ?_, h.fed.endpoints, h.fed.tries⟩, h.holds⟩
    rw [hrows, List.mem_append, List.mem_singleton] at he
    rcases he with he | rfl
    · exact h.fed.events e he
    · exact ha
  | saveEndpoint ep =>
    cases hstep
    refine ⟨⟨h.fed.events, fun x hx => ?_, h.fed.tries⟩, h.holds⟩
    rcases Table.mem_upsert hx with hx | rfl
    · exact h.fed.endpoints x hx
    · exact ha
  | writeStatus eventId status =>
    cases hstep
    exact ⟨⟨hP.of_bare (bare_writeStatus _ _) h.fed.events, h.fed.endpoints, h.fed.tries⟩, h.holds⟩

omit [DecidableEq ι] in
theorem supplied_start {db : Database} (hevents : ∀ ev ∈ db.events.rows, P ev)
    (hendpoints : ∀ ep ∈ db.endpoints.rows, Q ep) : Supplied P Q (Workers.start ι db) :=
  ⟨⟨hevents, hendpoints, fun _ hx => absurd hx List.not_mem_nil⟩,
    fun _ => Holds.idle fun _ hep => by cases hep⟩

end Run

end WebhookInbox.Worker
