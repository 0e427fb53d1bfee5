import WebhookInbox.Api.Received
import WebhookInbox.Library.Interleaving
import WebhookInbox.LoadTest.Requests

/-!
# Replayed requests

The workers of one load generator share `_replayPayloadCache`. `GetOrAdd` looks a key up, builds a
payload when the key is free, and adds it unless another worker has added one in between; each worker
goes on with the payload that was kept. The inbox serves the replayed requests and those of other
clients in any order. All requests with one replay key carry one payload under one reservation key, and
different replay keys never share a reservation key, so the id a replay is answered with is the id of
an event with its own payload (`replays_run`).

The source of a request is written into its URI as it stands. What the route takes from that URI is
the same text for a plain path segment only, so the sources are plain here.
-/

namespace WebhookInbox.LoadTest

open Api NetString

/-! ## Keys -/

def replayKey (source : RuntimeSource) (i : Fin 5) : Text := source.source ++ ':' :: replayKeys i

/-- The key under which the inbox reserves a replay. -/
def reservationKey (source : RuntimeSource) (i : Fin 5) : Text :=
  namespaced source.source (replayKey source i)

/-- Texts that end in the same way after the last separator. -/
theorem eq_of_append_cons_eq {α : Type} {x : α} {a a' d d' : List α} (hd : x ∉ d) (hd' : x ∉ d')
    (h : a ++ x :: d = a' ++ x :: d') : a = a' ∧ d = d' := by
  rcases List.append_eq_append_iff.mp h with ⟨rest, ha, hrest⟩ | ⟨rest, ha, hrest⟩
  · cases rest with
    | nil =>
      rw [List.append_nil] at ha
      exact ⟨ha.symm, (List.cons.inj hrest).2⟩
    | cons c rest =>
      have htail := (List.cons.inj hrest).2
      exact absurd (htail ▸ List.mem_append_right rest List.mem_cons_self) hd
  · cases rest with
    | nil =>
      rw [List.append_nil] at ha
      exact ⟨ha, (List.cons.inj hrest).2.symm⟩
    | cons c rest =>
      have htail := (List.cons.inj hrest).2
      exact absurd (htail ▸ List.mem_append_right rest List.mem_cons_self) hd'

theorem separator_not_mem_replayKeys : ∀ i, ':' ∉ replayKeys i := by decide

theorem replayKeys_injective : ∀ i j, replayKeys i = replayKeys j → i = j := by decide

/-- **Different replay keys have different reservation keys**, although the separator may occur in a
source. -/
theorem reservationKey_inj {source source' : RuntimeSource} {i j : Fin 5}
    (h : reservationKey source i = reservationKey source' j) :
    source.source = source'.source ∧ i = j := by
  unfold reservationKey namespaced replayKey at h
  rw [List.append_assoc, List.append_assoc] at h
  have htwice := List.append_cancel_left h
  rw [← List.cons_append, ← List.append_assoc, ← List.cons_append, ← List.append_assoc] at htwice
  obtain ⟨hsources, hkeys⟩ := eq_of_append_cons_eq (separator_not_mem_replayKeys i)
    (separator_not_mem_replayKeys j) htwice
  have hlength := congrArg List.length hsources
  simp only [List.length_append, List.length_cons] at hlength
  exact ⟨(List.append_inj hsources (by omega)).1, replayKeys_injective i j hkeys⟩

/-! ## Requests -/

/-- ASCII letters, digits, hyphens and underscores. -/
def isPlainSegment (text : Text) : Bool :=
  !text.isEmpty && text.all fun c => c.isAlphanum || c == '-' || c == '_'

/-- How a URI reaches the inbox. -/
structure Routing where
  /-- The route value `source` of `/api/inbox/` with this text behind it, if that reaches the route. -/
  routeValue : Text → Option Text
  /-- A plain segment is neither escaped nor decoded. -/
  routeValue_plain : ∀ text, isPlainSegment text = true → routeValue text = some text

section Build

variable (p : Platform) (f : Formats)

/-- `BuildRequest` after its payload. -/
def requestData (source : RuntimeSource) (scenario : LoadTestScenarioKind) (draws : Draws)
    (payload : BuiltPayload) : Option RequestData :=
  (providerHeaders p f source scenario draws payload).map fun headers =>
    { payloadText := payload.text
      payloadBytes := Utf8.encode payload.text
      contentType := payload.contentType
      idempotencyKey := payload.idempotencyKey
      headers := ("Accept".toList, "application/json".toList) :: headers }

theorem buildRequest_eq (cache : ReplayPayloadCache) (source : RuntimeSource)
    (scenario : LoadTestScenarioKind) (draws : Draws) :
    buildRequest p f cache source scenario draws =
      (requestData p f source scenario draws (buildPayload p f cache source scenario draws).1).map
        fun r => (r, (buildPayload p f cache source scenario draws).2) := by
  unfold buildRequest requestData
  rw [Option.map_map]
  rfl

/-- A replay as the inbox receives it. -/
def replayRequest (routing : Routing) (source : RuntimeSource) (draws : Draws) (text : Text) :
    Option InboxRequest :=
  (routing.routeValue source.source).bind fun value =>
    (requestData p f source .replay draws
      { text := text, idempotencyKey := some (replayKey source draws.replayKey) }).map fun r =>
        { source := value, http := r.toHttpRequest }

end Build

theorem not_blank_replayKey (source : RuntimeSource) (i : Fin 5) :
    isNullOrWhiteSpace (some (replayKey source i)) = false := by
  simp [isNullOrWhiteSpace, replayKey, isWhiteSpace]

theorem replayRequest_spec {srv : Server} {f : Formats} {routing : Routing} {source : RuntimeSource}
    {draws : Draws} {text : Text} {req : InboxRequest} (hplain : isPlainSegment source.source = true)
    (h : replayRequest srv.platform f routing source draws text = some req) :
    inboxKey srv req = reservationKey source draws.replayKey ∧ req.http.body = Utf8.encode text := by
  unfold replayRequest at h
  rw [routing.routeValue_plain _ hplain, Option.bind_some] at h
  obtain ⟨r, hr, rfl⟩ := Option.map_eq_some_iff.mp h
  obtain ⟨headers, -, rfl⟩ := Option.map_eq_some_iff.mp hr
  refine ⟨?_, rfl⟩
  have hblank := not_blank_replayKey source draws.replayKey
  have hdiffers : equalsIgnoreCase srv.platform "Content-Type".toList "Idempotency-Key".toList = false := by
    rw [equalsIgnoreCase_of_ascii (by simp) (by simp)]
    decide
  have hself : equalsIgnoreCase srv.platform "Idempotency-Key".toList "Idempotency-Key".toList = true :=
    equalsIgnoreCase_refl _
  unfold inboxKey reservationKey resolve
  rw [nonBlankHeader_eq_some_iff.mpr ⟨?_, hblank⟩]
  simp only [tryGetHeader, RequestData.toHttpRequest, hblank, Bool.false_eq_true, if_false, List.find?_cons,
    hdiffers, List.cons_append, hself, Option.map_some, join_singleton, Option.getD_some]

/-! ## The workers and the inbox -/

/-- A replay that the inbox has received, and what it came to. -/
structure Replay where
  source : RuntimeSource
  draws : Draws
  tentativeId : Guid
  req : InboxRequest
  outcome : Outcome

def Replay.reservationKey (r : Replay) : Text := LoadTest.reservationKey r.source r.draws.replayKey

/-- Where a worker is with its replay: before it, with a payload that is to be added to the cache, or
with the payload of its request. -/
inductive ReplayPhase where
  | idle
  | adding (source : RuntimeSource) (draws : Draws) (text : Text)
  | built (source : RuntimeSource) (draws : Draws) (text : Text)

def ReplayPhase.source? : ReplayPhase → Option RuntimeSource
  | .idle => none
  | .adding source _ _ => some source
  | .built source _ _ => some source

structure ReplayTest where
  cache : ReplayPayloadCache := fun _ => none
  inbox : Ingestion.State := {}
  /-- The replays in the order in which the inbox has received them. -/
  sent : List Replay := []

abbrev Replays (ι : Type) := Cluster ι ReplayTest ReplayPhase

inductive ReplayAction (ι : Type) where
  | lookUp (i : ι) (source : RuntimeSource) (draws : Draws)
  | add (i : ι)
  | send (i : ι) (times : Clocks) (tentativeId : Guid)
  /-- The request does not reach the inbox. -/
  | giveUp (i : ι)
  /-- A request of another client, or the end of a save. -/
  | other (a : Ingestion.Action)

/-- `TryAdd`, with the value that is kept. -/
def tryAdd (cache : ReplayPayloadCache) (key text : Text) : Text × ReplayPayloadCache :=
  match cache key with
  | some existing => (existing, cache)
  | none => (text, Function.update cache key (some text))

namespace Replays

variable {ι : Type} [DecidableEq ι]

def start (ι : Type) : Replays ι where
  shared := {}
  members _ := .idle

def step (srv : Server) (f : Formats) (routing : Routing) (c : Replays ι) : ReplayAction ι → Option (Replays ι)
  | .lookUp i source draws =>
    match c.members i with
    | .idle =>
      match c.shared.cache (replayKey source draws.replayKey) with
      | some text => some (c.put i c.shared (.built source draws text))
      | none => some (c.put i c.shared (.adding source draws
          (buildValidPayload srv.platform f source draws (replayKey source draws.replayKey))))
    | _ => none
  | .add i =>
    match c.members i with
    | .adding source draws text =>
      let (text, cache) := tryAdd c.shared.cache (replayKey source draws.replayKey) text
      some (c.put i { c.shared with cache } (.built source draws text))
    | _ => none
  | .send i times tentativeId =>
    match c.members i with
    | .built source draws text =>
      (replayRequest srv.platform f routing source draws text).bind fun req =>
        (Ingestion.step srv c.shared.inbox (.post times tentativeId req)).map fun inbox =>
          let outcome := (postInbox srv times tentativeId c.shared.inbox.store req).1
          let sent := c.shared.sent ++ [⟨source, draws, tentativeId, req, outcome⟩]
          c.put i { c.shared with inbox, sent } .idle
    | _ => none
  | .giveUp i => some (c.put i c.shared .idle)
  | .other a =>
    (Ingestion.step srv c.shared.inbox a).map fun inbox => { c with shared := { c.shared with inbox } }

end Replays

section Alone

variable {ι : Type} [DecidableEq ι] {srv : Server} {f : Formats} {routing : Routing}

theorem replayRequest_eq (cache : ReplayPayloadCache) (source : RuntimeSource) (draws : Draws) :
    replayRequest srv.platform f routing source draws
        (buildPayload srv.platform f cache source .replay draws).1.text =
      (routing.routeValue source.source).bind fun value =>
        (buildRequest srv.platform f cache source .replay draws).map fun x =>
          { source := value, http := x.1.toHttpRequest } := by
  have hpayload : (buildPayload srv.platform f cache source .replay draws).1 =
      { text := (buildPayload srv.platform f cache source .replay draws).1.text
        idempotencyKey := some (replayKey source draws.replayKey) } := by
    unfold buildPayload
    dsimp only
    split <;> rfl
  rw [replayRequest, ← hpayload]
  congr 1
  funext value
  rw [buildRequest_eq, Option.map_map]
  rfl

/-- A worker that no other one interrupts builds the payload and the request of `buildRequest`. -/
theorem Replays.run_alone {c : Replays ι} {i : ι} (hidle : c.members i = .idle) (source : RuntimeSource)
    (draws : Draws) :
    let built := buildPayload srv.platform f c.shared.cache source .replay draws
    ∃ n c', Transition.run (Replays.step srv f routing) c (.lookUp i source draws :: List.replicate n (.add i)) =
        some c' ∧ c'.members i = .built source draws built.1.text ∧ c'.shared.cache = built.2 := by
  intro built
  cases hfound : c.shared.cache (replayKey source draws.replayKey) with
  | some text =>
    have hbuilt : built = ({ text := text, idempotencyKey := some (replayKey source draws.replayKey) },
        c.shared.cache) := by
      unfold built buildPayload
      dsimp only
      rw [← replayKey, hfound]
    refine ⟨0, c.put i c.shared (.built source draws text), ?_, ?_, ?_⟩
    · simp [Transition.run, Replays.step, hidle, hfound]
    · rw [hbuilt, Cluster.members_put_self]
    · rw [hbuilt, Cluster.shared_put]
  | none =>
    let text := buildValidPayload srv.platform f source draws (replayKey source draws.replayKey)
    have hbuilt : built = ({ text := text, idempotencyKey := some (replayKey source draws.replayKey) },
        Function.update c.shared.cache (replayKey source draws.replayKey) (some text)) := by
      unfold built buildPayload
      dsimp only
      rw [← replayKey, hfound]
    refine ⟨1, (c.put i c.shared (.adding source draws text)).put i
      { c.shared with cache := Function.update c.shared.cache (replayKey source draws.replayKey) (some text) }
      (.built source draws text), ?_, ?_, ?_⟩
    · simp [Transition.run, Replays.step, hidle, hfound, tryAdd, text]
    · rw [hbuilt, Cluster.members_put_self]
    · rw [hbuilt, Cluster.shared_put]

end Alone

/-- Another client leaves the keys of the replays alone. -/
def LeavesReplays {ι : Type} (srv : Server) : ReplayAction ι → Prop
  | .other (.post _ _ req) => ∀ source i, inboxKey srv req ≠ reservationKey source i
  | _ => True

/-- The source of the replay is a plain path segment. -/
def UsesPlainSource {ι : Type} : ReplayAction ι → Prop
  | .lookUp _ source _ => isPlainSegment source.source = true
  | _ => True

/-- The id that a 2xx answer to the replay has, or will have when its save commits. -/
def Replay.eventId? (r : Replay) : Option Guid :=
  match r.outcome with
  | .saving entity => some entity.id
  | .replied (.duplicate id) => some id
  | _ => none

/-- The replay has reserved its key. -/
def Replay.isNew (r : Replay) : Bool :=
  match r.outcome with
  | .saving _ => true
  | _ => false

/-- What the inbox makes of the replays. -/
structure ReplaysAgree (srv : Server) (s : ReplayTest) : Prop where
  keys : ∀ a ∈ s.sent, ∀ b ∈ s.sent, inboxKey srv a.req = inboxKey srv b.req ↔
    a.source.source = b.source.source ∧ a.draws.replayKey = b.draws.replayKey
  bodies : ∀ a ∈ s.sent, ∀ b ∈ s.sent, inboxKey srv a.req = inboxKey srv b.req →
    a.req.http.body = b.req.http.body
  /-- A duplicate is told the id of an earlier replay of its key. -/
  duplicates : ∀ before b after id, s.sent = before ++ b :: after → b.outcome = .replied (.duplicate id) →
    ∃ a ∈ before, a.isNew = true ∧ a.tentativeId = id ∧ inboxKey srv a.req = inboxKey srv b.req
  /-- The event that a replay is told of has its payload. -/
  events : ∀ b ∈ s.sent, ∀ id, b.eventId? = some id →
    ∀ ev ∈ s.inbox.events.rows ++ s.inbox.inFlight, ev.id = id → ev.payload = b.req.http.body

/-! ## The payloads -/

theorem tryAdd_self (cache : ReplayPayloadCache) (key text : Text) :
    (tryAdd cache key text).2 key = some (tryAdd cache key text).1 := by
  cases hkey : cache key with
  | some existing => simp [tryAdd, hkey]
  | none => simp [tryAdd, hkey]

/-- What is in the cache stays there. -/
theorem tryAdd_of_some {cache : ReplayPayloadCache} {key' text' : Text} (h : cache key' = some text')
    (key text : Text) : (tryAdd cache key text).2 key' = some text' := by
  cases hkey : cache key with
  | some existing => simpa [tryAdd, hkey] using h
  | none =>
    have hne : key' ≠ key := by
      rintro rfl
      rw [h] at hkey
      cases hkey
    simpa [tryAdd, hkey, Function.update_of_ne hne] using h

section Step

variable {ι : Type} {srv : Server} {f : Formats} {routing : Routing} {c c' : Replays ι} {a : ReplayAction ι}

/-- The replays are those of plain sources and carry the payloads of the cache. -/
structure Cached (srv : Server) (c : Replays ι) : Prop where
  plain : ∀ i source, (c.members i).source? = some source → isPlainSegment source.source = true
  built : ∀ i source draws text, c.members i = .built source draws text →
    c.shared.cache (replayKey source draws.replayKey) = some text
  keys : ∀ r ∈ c.shared.sent, inboxKey srv r.req = r.reservationKey
  bodies : ∀ r ∈ c.shared.sent, ∃ text,
    c.shared.cache (replayKey r.source r.draws.replayKey) = some text ∧ r.req.http.body = Utf8.encode text

variable [DecidableEq ι]

theorem Cached.put (h : Cached srv c) {i : ι} {s : ReplayTest} {phase : ReplayPhase}
    (hplain : ∀ source, phase.source? = some source → isPlainSegment source.source = true)
    (hcache : ∀ key text, c.shared.cache key = some text → s.cache key = some text)
    (hphase : ∀ source draws text, phase = .built source draws text →
      s.cache (replayKey source draws.replayKey) = some text)
    (hsent : ∀ r ∈ s.sent, r ∈ c.shared.sent ∨ (inboxKey srv r.req = r.reservationKey ∧ ∃ text,
      s.cache (replayKey r.source r.draws.replayKey) = some text ∧ r.req.http.body = Utf8.encode text)) :
    Cached srv (c.put i s phase) := by
  refine ⟨fun j source hj => ?_, fun j source draws text hj => ?_, fun r hr => ?_, fun r hr => ?_⟩
  · by_cases hij : j = i
    · rw [hij, Cluster.members_put_self] at hj
      exact hplain source hj
    · rw [Cluster.members_put_of_ne hij] at hj
      exact h.plain j source hj
  · rcases Interleaving.update_cases hj with ⟨-, hself⟩ | ⟨-, hold⟩
    · exact hphase source draws text hself
    · exact hcache _ _ (h.built j source draws text hold)
  · rcases hsent r hr with hold | ⟨hkey, -⟩
    · exact h.keys r hold
    · exact hkey
  · rcases hsent r hr with hold | ⟨-, hbody⟩
    · obtain ⟨text, htext, hbody⟩ := h.bodies r hold
      exact ⟨text, hcache _ _ htext, hbody⟩
    · exact hbody

theorem cached_step (h : Cached srv c) (hplain : UsesPlainSource a)
    (hstep : Replays.step srv f routing c a = some c') : Cached srv c' := by
  cases a with
  | lookUp i source draws =>
    have hlooked : ∀ source', some source = some source' → isPlainSegment source'.source = true := by
      rintro source' ⟨⟩
      exact hplain
    simp only [Replays.step] at hstep
    split at hstep
    · split at hstep
      · rename_i text hfound
        cases hstep
        refine h.put hlooked (fun _ _ hkey => hkey) (fun source' draws' text' heq => ?_) fun _ hr => Or.inl hr
        cases heq
        exact hfound
      · cases hstep
        exact h.put hlooked (fun _ _ hkey => hkey) (fun _ _ _ heq => by cases heq) fun _ hr => Or.inl hr
    · cases hstep
  | add i =>
    simp only [Replays.step] at hstep
    split at hstep
    · rename_i source draws text hphase
      cases hstep
      have hadding := h.plain i source (by rw [hphase]; rfl)
      refine h.put (fun source' heq => ?_) (fun _ _ hkey => ?_) (fun source' draws' text' heq => ?_)
        fun _ hr => Or.inl hr
      · cases heq
        exact hadding
      · exact tryAdd_of_some hkey _ _
      · cases heq
        exact tryAdd_self ..
    · cases hstep
  | send i times tentativeId =>
    simp only [Replays.step] at hstep
    split at hstep
    · rename_i source draws text hphase
      obtain ⟨req, hreq, hpost⟩ := Option.bind_eq_some_iff.mp hstep
      obtain ⟨inbox, -, rfl⟩ := Option.map_eq_some_iff.mp hpost
      obtain ⟨hkey, hbody⟩ := replayRequest_spec (h.plain i source (by rw [hphase]; rfl)) hreq
      refine h.put (fun _ heq => by cases heq) (fun _ _ hkey => hkey) (fun _ _ _ heq => by cases heq)
        fun r hr => ?_
      rcases List.mem_append.mp hr with hr | hr
      · exact Or.inl hr
      · obtain rfl := List.mem_singleton.mp hr
        exact Or.inr ⟨hkey, text, h.built i source draws text hphase, hbody⟩
    · cases hstep
  | giveUp i =>
    cases hstep
    exact h.put (fun _ heq => by cases heq) (fun _ _ hkey => hkey) (fun _ _ _ heq => by cases heq)
      fun _ hr => Or.inl hr
  | other b =>
    obtain ⟨inbox, -, rfl⟩ := Option.map_eq_some_iff.mp hstep
    exact ⟨h.plain, h.built, h.keys, h.bodies⟩

end Step

/-! ## The answers -/

/-- A duplicate is told the id of an earlier replay of its key. -/
def ToldEarlier (srv : Server) (sent : List Replay) : Prop :=
  ∀ before b after id, sent = before ++ b :: after → b.outcome = .replied (.duplicate id) →
    ∃ a ∈ before, a.isNew = true ∧ a.tentativeId = id ∧ inboxKey srv a.req = inboxKey srv b.req

/-- What the inbox keeps of the replays. -/
structure Answered (srv : Server) (inbox : Ingestion.State) (sent : List Replay) : Prop where
  drawn : Ingestion.Drawn inbox
  ids : ∀ r ∈ sent, r.tentativeId ∈ inbox.drawn
  created : ∀ r ∈ sent, ∀ entity, r.outcome = .saving entity → entity.id = r.tentativeId
  held : ∀ source i r, inbox.store (reservationKey source i) = some r →
    ∃ a ∈ sent, a.isNew = true ∧ a.tentativeId = r.id ∧ inboxKey srv a.req = reservationKey source i
  told : ToldEarlier srv sent
  payloads : ∀ a ∈ sent, ∀ ev ∈ inbox.events.rows ++ inbox.inFlight, ev.id = a.tentativeId →
    ev.payload = a.req.http.body

section Answer

variable {srv : Server} {inbox inbox' : Ingestion.State} {sent : List Replay}

theorem ToldEarlier.concat (h : ToldEarlier srv sent) {r : Replay}
    (hr : ∀ id, r.outcome = .replied (.duplicate id) →
      ∃ a ∈ sent, a.isNew = true ∧ a.tentativeId = id ∧ inboxKey srv a.req = inboxKey srv r.req) :
    ToldEarlier srv (sent ++ [r]) := by
  intro before b after id hsplit hb
  rcases List.eq_nil_or_concat after with rfl | ⟨after, z, rfl⟩
  · obtain ⟨rfl, hlast⟩ := List.append_inj' hsplit rfl
    cases hlast
    exact hr id hb
  · rw [List.concat_eq_append, ← List.cons_append, ← List.append_assoc] at hsplit
    exact h before b after id (List.append_inj' hsplit rfl).1 hb

/-- The rows of an id that was drawn before are those that were there. -/
theorem mem_of_posted {times : Clocks} {tentativeId : Guid} {req : InboxRequest}
    (hevents : inbox'.events = inbox.events)
    (hposted : Ingestion.Posted srv times tentativeId req inbox inbox') {ev : Event}
    (hev : ev ∈ inbox'.events.rows ++ inbox'.inFlight) :
    ev ∈ inbox.events.rows ++ inbox.inFlight ∨ ev = buildEvent srv times.receivedAt tentativeId req := by
  rw [hevents] at hev
  cases hposted with
  | unchanged _ hinFlight =>
    rw [hinFlight] at hev
    exact Or.inl hev
  | reserved _ _ _ _ hinFlight =>
    rw [hinFlight, List.mem_append, List.mem_cons] at hev
    rcases hev with hev | rfl | hev
    · exact Or.inl (List.mem_append_left _ hev)
    · exact Or.inr rfl
    · exact Or.inl (List.mem_append_right _ hev)

theorem id_mem_of_row (h : Ingestion.Drawn inbox) {ev : Event}
    (hev : ev ∈ inbox.events.rows ++ inbox.inFlight) : ev.id ∈ inbox.drawn := by
  rcases List.mem_append.mp hev with hev | hev
  · exact h.committed ev.id ⟨ev, hev, rfl⟩
  · exact h.inFlight ev.id ⟨ev, hev, rfl⟩

/-- **A request of another client.** -/
theorem Answered.other (h : Answered srv inbox sent) {times : Clocks} {tentativeId : Guid}
    {req : InboxRequest}
    (hother : ∀ source i, inboxKey srv req ≠ reservationKey source i)
    (hstep : Ingestion.step srv inbox (.post times tentativeId req) = some inbox') :
    Answered srv inbox' sent := by
  obtain ⟨hnew, hdrawn, hevents, hposted⟩ := Ingestion.posted_of_step hstep
  refine ⟨Ingestion.drawn_step h.drawn hstep, fun r hr => ?_, h.created, fun source i r hr => ?_, h.told,
    fun a ha ev hev hid => ?_⟩
  · rw [hdrawn]
    exact List.mem_cons_of_mem _ (h.ids r hr)
  · cases hposted with
    | unchanged hstore => exact h.held source i r (hstore ▸ hr)
    | reserved _ _ _ hstore =>
      rw [hstore, Function.update_of_ne (hother source i).symm] at hr
      exact h.held source i r hr
  · rcases mem_of_posted hevents hposted hev with hold | rfl
    · exact h.payloads a ha ev hold hid
    · change tentativeId = a.tentativeId at hid
      exact absurd (hid ▸ h.ids a ha) hnew

/-- **A replay** that the inbox receives. -/
theorem Answered.replay (h : Answered srv inbox sent) {times : Clocks} {r : Replay}
    (hkey : inboxKey srv r.req = r.reservationKey)
    (houtcome : r.outcome = (postInbox srv times r.tentativeId inbox.store r.req).1)
    (hstep : Ingestion.step srv inbox (.post times r.tentativeId r.req) = some inbox') :
    Answered srv inbox' (sent ++ [r]) := by
  obtain ⟨hnew, hdrawn, hevents, hposted⟩ := Ingestion.posted_of_step hstep
  refine ⟨Ingestion.drawn_step h.drawn hstep, fun a ha => ?_, fun a ha => ?_, fun source i x hx => ?_,
    h.told.concat fun id hid => ?_, fun a ha ev hev hid => ?_⟩
  · rw [hdrawn]
    rcases List.mem_append.mp ha with ha | ha
    · exact List.mem_cons_of_mem _ (h.ids a ha)
    · rw [List.mem_singleton.mp ha]
      exact List.mem_cons_self
  · rcases List.mem_append.mp ha with ha | ha
    · exact h.created a ha
    · obtain rfl := List.mem_singleton.mp ha
      intro entity hentity
      rw [houtcome] at hentity
      rw [Ingestion.eq_buildEvent_of_saving hentity]
      rfl
  · have hold : inbox.store (reservationKey source i) = some x →
        ∃ a ∈ sent ++ [r], a.isNew = true ∧ a.tentativeId = x.id ∧
          inboxKey srv a.req = reservationKey source i := by
      intro hx
      obtain ⟨a, ha, hrest⟩ := h.held source i x hx
      exact ⟨a, List.mem_append_left _ ha, hrest⟩
    cases hposted with
    | unchanged hstore => exact hold (hstore ▸ hx)
    | reserved _ _ hsaving hstore =>
      rw [hstore] at hx
      rcases Interleaving.update_cases hx with ⟨heq, hself⟩ | ⟨-, hx⟩
      · cases hself
        refine ⟨r, List.mem_append_right _ (List.mem_singleton_self r), ?_, rfl, heq.symm⟩
        simp only [Replay.isNew, houtcome, hsaving]
      · exact hold hx
  · rw [houtcome] at hid
    obtain ⟨x, hx, rfl⟩ := Ingestion.mem_of_liveReservation (Ingestion.live_of_duplicate hid)
    rw [hkey] at hx
    rw [hkey]
    exact h.held _ _ x hx
  · rcases mem_of_posted hevents hposted hev with hold | rfl
    · rcases List.mem_append.mp ha with ha | ha
      · exact h.payloads a ha ev hold hid
      · obtain rfl := List.mem_singleton.mp ha
        exact absurd (hid ▸ id_mem_of_row h.drawn hold) hnew
    · change r.tentativeId = a.tentativeId at hid
      rcases List.mem_append.mp ha with ha | ha
      · exact absurd (hid ▸ h.ids a ha) hnew
      · obtain rfl := List.mem_singleton.mp ha
        rfl

/-- **The end of a save.** -/
theorem Answered.save (h : Answered srv inbox sent) {id : Guid} {result : Ingestion.SaveResult}
    (hstep : Ingestion.step srv inbox (.save id result) = some inbox') : Answered srv inbox' sent := by
  obtain ⟨hdrawn, hstore, hinFlight, hevents⟩ := Ingestion.saved_of_step hstep
  refine ⟨Ingestion.drawn_step h.drawn hstep, fun r hr => ?_, h.created, fun source i r hr => ?_, h.told,
    fun a ha ev hev hid => h.payloads a ha ev ?_ hid⟩
  · rw [hdrawn]
    exact h.ids r hr
  · exact h.held source i r (hstore ▸ hr)
  · rcases List.mem_append.mp hev with hev | hev
    · rcases hevents ev hev with hev | hev
      · exact List.mem_append_left _ hev
      · exact List.mem_append_right _ hev
    · exact List.mem_append_right _ (hinFlight hev)

end Answer

/-! ## Runs -/

section Run

variable {ι : Type} [DecidableEq ι] {srv : Server} {f : Formats} {routing : Routing}
variable {c c' : Replays ι} {a : ReplayAction ι}

theorem answered_step (hcached : Cached srv c) (h : Answered srv c.shared.inbox c.shared.sent)
    (hleaves : LeavesReplays srv a) (hstep : Replays.step srv f routing c a = some c') :
    Answered srv c'.shared.inbox c'.shared.sent := by
  cases a with
  | lookUp i source draws =>
    simp only [Replays.step] at hstep
    split at hstep
    · split at hstep
      · cases hstep
        exact h
      · cases hstep
        exact h
    · cases hstep
  | add i =>
    simp only [Replays.step] at hstep
    split at hstep
    · cases hstep
      exact h
    · cases hstep
  | send i times tentativeId =>
    simp only [Replays.step] at hstep
    split at hstep
    · rename_i source draws text hphase
      obtain ⟨req, hreq, hpost⟩ := Option.bind_eq_some_iff.mp hstep
      obtain ⟨inbox, hinbox, rfl⟩ := Option.map_eq_some_iff.mp hpost
      have hplain := hcached.plain i source (by rw [hphase]; rfl)
      exact h.replay (r := ⟨source, draws, tentativeId, req, _⟩) (replayRequest_spec hplain hreq).1 rfl hinbox
    · cases hstep
  | giveUp i =>
    cases hstep
    exact h
  | other b =>
    obtain ⟨inbox, hinbox, rfl⟩ := Option.map_eq_some_iff.mp hstep
    cases b with
    | post times tentativeId req => exact h.other hleaves hinbox
    | save id result => exact h.save hinbox

end Run

/-- **One payload under one key.** Whatever the interleaving of the workers and of the other clients,
the replays of one key are one delivery to the inbox, and every replay is told the id of an event with
its own payload. -/
theorem replays_run {ι : Type} [DecidableEq ι] (srv : Server) (f : Formats) (routing : Routing)
    (actions : List (ReplayAction ι)) {c' : Replays ι}
    (hrun : Transition.run (Replays.step srv f routing) (Replays.start ι) actions = some c')
    (hplain : ∀ a ∈ actions, UsesPlainSource a) (hleaves : ∀ a ∈ actions, LeavesReplays srv a) :
    ReplaysAgree srv c'.shared := by
  have hstart : Cached srv (Replays.start ι) ∧ Answered srv (Replays.start ι).shared.inbox [] :=
    ⟨⟨fun _ _ h => (by cases h), fun _ _ _ _ h => (by cases h), fun _ h => (by cases h), fun _ h => (by cases h)⟩,
      Ingestion.drawn_start, fun _ h => (by cases h), fun _ h => (by cases h), fun _ _ _ h => (by cases h),
      fun before _ _ _ h => (by cases before <;> cases h), fun _ h => by cases h⟩
  have halong : Transition.Along (Replays.step srv f routing)
      (fun _ a => UsesPlainSource a ∧ LeavesReplays srv a) (Replays.start ι) actions :=
    Transition.along_of_forall (fun a ha _ => ⟨hplain a ha, hleaves a ha⟩) _
  obtain ⟨hcached, hanswered⟩ := halong.invariant
    (I := fun c => Cached srv c ∧ Answered srv c.shared.inbox c.shared.sent)
    (fun _ _ _ h hgood hstep => ⟨cached_step h.1 hgood.1 hstep, answered_step h.1 h.2 hgood.2 hstep⟩)
    hstart hrun
  have hkeys : ∀ a ∈ c'.shared.sent, ∀ b ∈ c'.shared.sent, inboxKey srv a.req = inboxKey srv b.req ↔
      a.source.source = b.source.source ∧ a.draws.replayKey = b.draws.replayKey := by
    intro a ha b hb
    rw [hcached.keys a ha, hcached.keys b hb]
    refine ⟨reservationKey_inj, fun ⟨hsource, hkey⟩ => ?_⟩
    unfold Replay.reservationKey reservationKey replayKey
    rw [hsource, hkey]
  have hbodies : ∀ a ∈ c'.shared.sent, ∀ b ∈ c'.shared.sent, inboxKey srv a.req = inboxKey srv b.req →
      a.req.http.body = b.req.http.body := by
    intro a ha b hb hsame
    obtain ⟨hsource, hkey⟩ := (hkeys a ha b hb).mp hsame
    obtain ⟨text, htext, hbody⟩ := hcached.bodies a ha
    obtain ⟨text', htext', hbody'⟩ := hcached.bodies b hb
    rw [replayKey, hsource, hkey, ← replayKey, htext'] at htext
    cases htext
    rw [hbody, hbody']
  refine ⟨hkeys, hbodies, hanswered.told, fun b hb id hid ev hev heq => ?_⟩
  unfold Replay.eventId? at hid
  split at hid
  · rename_i entity hsaving
    cases hid
    exact hanswered.payloads b hb ev hev (heq.trans (hanswered.created b hb entity hsaving))
  · rename_i id' hduplicate
    cases hid
    obtain ⟨before, after, hsplit⟩ := List.append_of_mem hb
    obtain ⟨a, ha, -, hold, hsame⟩ := hanswered.told before b after id hsplit hduplicate
    have ha' : a ∈ c'.shared.sent := by
      rw [hsplit]
      exact List.mem_append_left _ ha
    rw [← hbodies a ha' b hb hsame]
    exact hanswered.payloads a ha' ev hev (heq.trans hold.symm)
  · cases hid

/-! ## Two workers at once -/

mutual

/-- The text of a value without white space, where no string has a character to escape. -/
def compactText : JsonElement → Text
  | .null => "null".toList
  | .boolean value => (if value then "true" else "false").toList
  | .number raw => raw
  | .string value => '"' :: value ++ ['"']
  | .array items => '[' :: (compactItems items).drop 1 ++ [']']
  | .object members => '\x7b' :: (compactMembers members).drop 1 ++ ['\x7d']

/-- Every item behind a comma. -/
def compactItems : List JsonElement → Text
  | [] => []
  | item :: items => ',' :: compactText item ++ compactItems items

def compactMembers : List (Text × JsonElement) → Text
  | [] => []
  | (name, value) :: members => ',' :: '"' :: name ++ '"' :: ':' :: compactText value ++ compactMembers members

end

/-- The formats on Guids below 16 and at the Unix epoch. -/
def compactFormats : Formats where
  serialize := compactText
  formatGuidN id := List.replicate 31 '0' ++ [(Hex.digit id).toLower]
  formatRoundTrip _ := "1970-01-01T00:00:00.0000000+00:00".toList

/-- Every text is its own route value. -/
def verbatim : Routing := ⟨some, fun _ _ => rfl⟩

/-- A Stripe source without a secret. -/
def unsignedSource : RuntimeSource where
  source := "shop".toList
  provider := "stripe".toList
  secret := none
  canSign := false
  toleranceSeconds := 300
  canSign_eq := rfl

/-- The draws of a replay of the last key, with the Guid of its payload. -/
def lastReplay (guid : Guid) : Draws := ⟨Fin.last 4, 0, guid, 0, 0, 0, 0, 0, 0⟩

/-- Both workers miss the cache; the payload of the second one is kept, and the first one is sent first. -/
def racingActions : List (ReplayAction Bool) :=
  [.lookUp false unsignedSource (lastReplay 1), .lookUp true unsignedSource (lastReplay 2), .add true,
    .add false, .send false ⟨0, 0, 0⟩ 1, .other (.save 1 (.committed true)), .send true ⟨1, 1, 1⟩ 2]

theorem racingRun_isSome : (Transition.run (Replays.step openServer compactFormats verbatim)
    (Replays.start Bool) racingActions).isSome := by
  decide

theorem replays_run_racing : ReplaysAgree openServer ((Transition.run
    (Replays.step openServer compactFormats verbatim) (Replays.start Bool) racingActions).get
      racingRun_isSome).shared :=
  replays_run openServer compactFormats verbatim racingActions (Option.some_get racingRun_isSome).symm
    (by simp [racingActions, UsesPlainSource, unsignedSource, isPlainSegment])
    (by simp [racingActions, LeavesReplays])

end WebhookInbox.LoadTest
