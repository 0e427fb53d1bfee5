import WebhookInbox.Worker.Requests

/-!
# The endpoints a pass sends to

`DeliveryProcessor` and its context live as long as the process, and a tracking query
answers with the instance it has materialised before. So the endpoints query filters on
the stored `IsActive`, while the `Url` of a request is the one that the process read when
it first loaded the row. The run is recorded here with the rows its queries return, and
`sendsAsStored_run_iff` says from that history when the requests go where the database
says: when the first row read of every endpoint that is sent to still has its stored `Url`.
-/

namespace WebhookInbox.Worker

/-- The request goes to an endpoint that is stored as active, at the `Url` stored for it. -/
def SentAsStored (db : Database) (p : Post) : Prop :=
  ∃ row ∈ db.endpoints.rows, row.id = p.endpointId ∧ row.isActive = true ∧ p.url = row.url

/-- Every request that a pass sends is sent as stored when the pass queried the endpoints. -/
def SendsAsStored (w : World) (opts : DeliveryOptions) (s : State) : Action → Prop
  | .pass endpoints =>
    ∀ p ∈ (processOnceAsync w opts endpoints s).2.posts.drop s.posts.length, SentAsStored s.db p
  | .insertEvent _ => True
  | .saveEndpoint _ => True

/-! ## What the process has read -/

/-- The endpoint rows that the action reads. A pass without candidates queries none. -/
def endpointReads (opts : DeliveryOptions) (s : State) : Action → List Endpoint
  | .pass endpoints => if ((candidates? opts s.db).getD []).isEmpty then [] else endpoints
  | .insertEvent _ => []
  | .saveEndpoint _ => []

/-- A run, with the endpoint rows that the process has read, oldest first. -/
abbrev readingStep (w : World) (opts : DeliveryOptions) :
    State × List Endpoint → Action → Option (State × List Endpoint) :=
  Transition.recording (step w opts) (endpointReads opts)

/-- The endpoint still has the `Url` it had when the process first read its row. -/
def UrlKept (reads : List Endpoint) (db : Database) (endpointId : Guid) : Prop :=
  ∀ first, (reads.find? fun row => row.id = endpointId) = some first →
    ∀ row ∈ db.endpoints.rows, row.id = endpointId → first.url = row.url

/-- The pair is due and the request of its try reaches the wire. -/
def SendsAt (w : World) (s : State) (v : Event × Endpoint) : Prop :=
  dueAt w s v = true ∧ nextSends w s v.1.id v.2.id (nextTryNumber s.db v.1.id v.2.id) ≠ 0

/-- The condition on an action: every endpoint that a pass sends to has kept its `Url`. -/
def UrlsKept (w : World) (opts : DeliveryOptions) (x : State × List Endpoint) : Action → Prop
  | .pass endpoints =>
    Transition.Along (visitStep w opts)
      (fun s v => SendsAt w s v →
        UrlKept (x.2 ++ endpointReads opts x.1 (.pass endpoints)) x.1.db v.2.id)
      (passStart endpoints x.1) (passVisits opts endpoints x.1)
  | .insertEvent _ => True
  | .saveEndpoint _ => True

/-- The change tracker answers for every row as the history of the reads does. -/
def Mirrors (x : State × List Endpoint) : Prop :=
  ∀ endpointId : Guid, (x.1.ctx.endpoints.find? fun e => e.id = endpointId) =
    x.2.find? fun e => e.id = endpointId

/-- A query adds the rows that were not tracked before. -/
theorem find?_track (ctx : DbContext) (rows : List Endpoint) (endpointId : Guid) :
    ((track ctx rows).endpoints.find? fun e => e.id = endpointId) =
      (ctx.endpoints ++ rows).find? fun e => e.id = endpointId := by
  rw [track, List.find?_append, List.find?_append]
  cases htracked : ctx.endpoints.find? fun e => decide (e.id = endpointId) with
  | some e => rfl
  | none =>
    rw [Option.none_or, Option.none_or, List.find?_filter]
    congr 1
    funext e
    by_cases hid : e.id = endpointId
    · simp [hid, htracked]
    · simp [hid]

theorem find?_of_ids_nodup {rows : List Endpoint} (hnd : (rows.map Endpoint.id).Nodup) {row : Endpoint}
    (hrow : row ∈ rows) : (rows.find? fun e => e.id = row.id) = some row := by
  cases hfind : rows.find? fun e => decide (e.id = row.id) with
  | none => simpa using List.find?_eq_none.mp hfind row hrow
  | some e =>
    have hid : e.id = row.id := by simpa using List.find?_some hfind
    rw [List.inj_on_of_nodup_map hnd (List.mem_of_find?_eq_some hfind) hrow hid]

section Pass

variable {w : World} {opts : DeliveryOptions} {endpoints : List Endpoint} {x : State × List Endpoint}

theorem endpointReads_of_visit {s : State} {v : Event × Endpoint}
    (hv : v ∈ passVisits opts endpoints s) : endpointReads opts s (.pass endpoints) = endpoints := by
  have hne := List.ne_nil_of_mem (mem_passVisits hv).1
  rw [endpointReads, if_neg (by simpa using hne)]

/-- A pass leaves the tracker as its endpoints query does. -/
theorem tracked_pass (w : World) (opts : DeliveryOptions) (endpoints : List Endpoint) (s : State) :
    (processOnceAsync w opts endpoints s).2.ctx.endpoints =
      (track s.ctx (endpointReads opts s (.pass endpoints))).endpoints := by
  unfold processOnceAsync endpointReads
  cases hc : candidates? opts s.db with
  | none => simp [track]
  | some candidates =>
    cases candidates with
    | nil => simp [track]
    | cons ev evs =>
      simp only [Option.getD_some, List.isEmpty_cons, Bool.false_eq_true, if_false]
      split
      · rfl
      · rw [tracked_processPairs]

theorem mirrors_step {x' : State × List Endpoint} {a : Action} (hx : Mirrors x)
    (hstep : readingStep w opts x a = some x') : Mirrors x' := by
  obtain ⟨hstep, hreads⟩ := Transition.recording_eq_some_iff.mp hstep
  intro endpointId
  cases a with
  | pass eps =>
    obtain ⟨-, heq⟩ := step_pass_eq_some_iff.mp hstep
    rw [← heq, hreads, tracked_pass, find?_track, List.find?_append, List.find?_append, hx endpointId]
  | insertEvent e =>
    rw [hreads, endpointReads, List.append_nil, (step_other (fun _ => Action.noConfusion) hstep).2.1]
    exact hx endpointId
  | saveEndpoint ep =>
    rw [hreads, endpointReads, List.append_nil, (step_other (fun _ => Action.noConfusion) hstep).2.1]
    exact hx endpointId

variable (hperm : endpoints.Perm (activeEndpoints x.1.db))
include hperm

/-- The instance that a pass visits is the row the process read first. -/
theorem firstRead_visit (hx : Mirrors x) {v : Event × Endpoint}
    (hv : v ∈ passVisits opts endpoints x.1) :
    ((x.2 ++ endpointReads opts x.1 (.pass endpoints)).find? fun row => row.id = v.2.id) = some v.2 := by
  obtain ⟨-, row, hrow, hmat⟩ := mem_passVisits hv
  have hnd : (endpoints.map Endpoint.id).Nodup := by
    rw [(hperm.map Endpoint.id).nodup_iff]
    exact x.1.db.endpoints.nodup.sublist (List.filter_sublist.map Endpoint.id)
  have hid : v.2.id = row.id := by rw [hmat, ids_materialise]
  rw [endpointReads_of_visit hv, List.find?_append, hid, ← hx row.id, hmat, materialise]
  cases htracked : x.1.ctx.endpoints.find? fun e => decide (e.id = row.id) with
  | some e => rfl
  | none => rw [Option.none_or, find?_of_ids_nodup hnd hrow, Option.getD_none]

/-- The row of a visited instance is stored as active, so only its `Url` is in question. -/
theorem sentAsStored_request (hx : Mirrors x) {v : Event × Endpoint}
    (hv : v ∈ passVisits opts endpoints x.1) (n : Int) :
    SentAsStored x.1.db (request v n) ↔
      UrlKept (x.2 ++ endpointReads opts x.1 (.pass endpoints)) x.1.db v.2.id := by
  obtain ⟨-, row₀, hrow₀, hmat⟩ := mem_passVisits hv
  obtain ⟨hstored, hactive⟩ := List.mem_filter.mp (hperm.mem_iff.mp hrow₀)
  have hid : row₀.id = v.2.id := by rw [hmat, ids_materialise]
  have hfirst := firstRead_visit hperm hx hv
  constructor
  · rintro ⟨row, hrow, hrowid, -, hurl⟩ first hread row' hrow' hid'
    obtain rfl : row = row' := x.1.db.endpoints.eq_of_key_eq hrow hrow' (hrowid.trans hid'.symm)
    obtain rfl : v.2 = first := Option.some.inj (hfirst.symm.trans hread)
    exact hurl
  · intro hkept
    exact ⟨row₀, hstored, hid, hactive, hkept v.2 hfirst row₀ hstored hid⟩

/-- **One pass.** -/
theorem sendsAsStored_pass_iff (hx : Mirrors x) :
    SendsAsStored w opts x.1 (.pass endpoints) ↔ UrlsKept w opts x (.pass endpoints) := by
  obtain ⟨more, hmore, hiff⟩ := calls_processOnceAsync w opts
    (fun call => call.2 ≠ 0 → SentAsStored x.1.db call.1) endpoints x.1
  have hposts : SendsAsStored w opts x.1 (.pass endpoints) ↔
      ∀ call ∈ more, call.2 ≠ 0 → SentAsStored x.1.db call.1 := by
    rw [SendsAsStored, State.posts_append hmore, List.drop_left]
    constructor
    · intro h call hcall hsent
      exact h call.1 (List.mem_flatMap.mpr ⟨call, hcall, List.mem_replicate.mpr ⟨hsent, rfl⟩⟩)
    · intro h p hp
      obtain ⟨call, hcall, hp⟩ := List.mem_flatMap.mp hp
      obtain ⟨hsent, rfl⟩ := List.mem_replicate.mp hp
      exact h call hcall hsent
  rw [hposts, hiff]
  apply Transition.along_congr
  intro v hv s
  rw [SendsAt, and_imp]
  exact imp_congr_right fun _ => imp_congr_right fun _ => sentAsStored_request hperm hx hv _

end Pass

/-- **Deliveries use the endpoints as stored**, in every pass of a run, exactly when every
endpoint that is sent to has the `Url` with which the process first read it. -/
theorem sendsAsStored_run_iff (w : World) (opts : DeliveryOptions) (db : Database)
    (actions : List Action) {x' : State × List Endpoint}
    (hrun : Transition.run (readingStep w opts) ({ db }, []) actions = some x') :
    Transition.Along (readingStep w opts) (fun x a => SendsAsStored w opts x.1 a) ({ db }, []) actions ↔
      Transition.Along (readingStep w opts) (UrlsKept w opts) ({ db }, []) actions := by
  apply Transition.along_congr_of_invariant (I := Mirrors) _ _ (fun _ => rfl) hrun
  · intro x a x₁ hx hstep
    exact mirrors_step hx hstep
  · intro x a x₁ hx hstep
    obtain ⟨hstep, -⟩ := Transition.recording_eq_some_iff.mp hstep
    cases a with
    | pass endpoints => exact sendsAsStored_pass_iff (step_pass_eq_some_iff.mp hstep).1 hx
    | insertEvent e => exact Iff.rfl
    | saveEndpoint ep => exact Iff.rfl

/-! ## An endpoint that moves -/

def movedEndpoint : Endpoint := { failingEndpoint with url := "https://new.example/hook".toList }

def movedStart : State :=
  .start (.single { id := 7, source := "test".toList, receivedAt := 0 }) (.single failingEndpoint)

/-- The `Url` is edited between two passes, and a second event arrives. -/
def movedActions : List Action :=
  [.pass [failingEndpoint], .saveEndpoint movedEndpoint,
    .insertEvent { id := 8, source := "test".toList, receivedAt := 0 }, .pass [movedEndpoint]]

theorem movedRun_isSome :
    (Transition.run (readingStep splitWorld {}) ({ db := movedStart.db }, []) movedActions).isSome := by
  decide

theorem sendsAsStored_run_moved :
    Transition.Along (readingStep splitWorld {}) (fun x a => SendsAsStored splitWorld {} x.1 a)
        ({ db := movedStart.db }, []) movedActions ↔
      Transition.Along (readingStep splitWorld {}) (UrlsKept splitWorld {})
        ({ db := movedStart.db }, []) movedActions :=
  sendsAsStored_run_iff splitWorld {} movedStart.db movedActions (Option.some_get movedRun_isSome).symm

theorem movedPasses_isSome :
    (Transition.run (step splitWorld {}) { db := movedStart.db } (movedActions.take 3)).isSome := by
  decide

/-- The second pass sends the new event to the old `Url`. -/
theorem sends_to_old_url :
    ∃ s, Transition.run (step splitWorld {}) { db := movedStart.db } (movedActions.take 3) = some s ∧
      [movedEndpoint].Perm (activeEndpoints s.db) ∧
      ¬ SendsAsStored splitWorld {} s (.pass [movedEndpoint]) := by
  refine ⟨_, (Option.some_get movedPasses_isSome).symm, by decide, fun h => ?_⟩
  obtain ⟨row, hrow, -, -, hurl⟩ := h
    { eventId := 8, endpointId := 1, tryNumber := 1, url := failingEndpoint.url, payload := [] } (by decide)
  revert row
  decide

end WebhookInbox.Worker
