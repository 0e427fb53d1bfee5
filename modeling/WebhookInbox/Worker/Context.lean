import WebhookInbox.Worker.Client

/-!
# The worker's state and its change set

A worker process holds the context `AppDbContext` for as long as it lives: attempt rows
that were added and event statuses that were set wait there until a `SaveChangesAsync`
commits them in one transaction. A save that fails commits nothing and keeps what was
waiting, so the next save sends it again.

`World` is everything a run takes from outside: the clock, the Guids, what comes of the
requests and the saves that fail on their own. The clock and the other streams are read
by position, so two reads of one pass may differ. A save may fail for any reason outside
the unique index, a body that the text column does not take among them.
-/

namespace WebhookInbox.Worker

structure World where
  clock : Nat → Time
  newGuid : Nat → Guid
  /-- What comes of the `n`-th try, for the event, the endpoint and its number. -/
  exchange : Guid → Guid → Int → Nat → Exchange
  /-- Whether the `n`-th `SaveChangesAsync` fails for a reason outside the unique index. -/
  saveFails : Nat → Bool

/-- The outcome of the `n`-th try. -/
def World.http (w : World) (eventId endpointId : Guid) (tryNumber : Int) (n : Nat) : HttpOutcome :=
  (w.exchange eventId endpointId tryNumber n).outcome

/-- How often the request of the `n`-th try is put on the wire. -/
def World.sends (w : World) (eventId endpointId : Guid) (tryNumber : Int) (n : Nat) : Nat :=
  (w.exchange eventId endpointId tryNumber n).replies.length

/-- The request of a try; the try number is not part of the request. -/
structure Post where
  eventId : Guid
  endpointId : Guid
  tryNumber : Int
  url : Text
  payload : Bytes
  deriving DecidableEq, Repr

/-- The label of the deliveries counter. -/
inductive DeliveryResult where
  | success
  | failed
  | deadletter
  deriving DecidableEq, Repr

/-- What a run does to the outside, in order. -/
inductive Effect where
  /-- A try: its request, and how often the client sends it. -/
  | post (p : Post) (sends : Nat)
  | save (committed : Bool)
  | deliveryDuration
  | deliveriesTotal (result : DeliveryResult)
  deriving DecidableEq, Repr

/-- The change tracker: added rows, statuses set on tracked events, and the endpoint
instances that earlier queries have materialised. -/
structure DbContext where
  added : List DeliveryAttempt := []
  statuses : List (Guid × EventStatus) := []
  endpoints : List Endpoint := []

structure State where
  db : Database
  ctx : DbContext := {}
  log : List Effect := []
  reads : Nat := 0
  guids : Nat := 0

namespace State

/-- The tries: the request of each, and how often it was sent. -/
def calls (s : State) : List (Post × Nat) :=
  s.log.filterMap fun e => match e with
    | .post p sends => some (p, sends)
    | _ => none

/-- The requests of the tries, whether they were sent or not. -/
def tries (s : State) : List Post := s.calls.map Prod.fst

/-- The requests that were sent, one for each transmission. -/
def posts (s : State) : List Post := s.calls.flatMap fun call => List.replicate call.2 call.1

def saves (s : State) : List Bool :=
  s.log.filterMap fun e => match e with
    | .save committed => some committed
    | _ => none

/-- The tries whose request was answered and the answer read. -/
def answers (s : State) : Nat := s.log.count .deliveryDuration

/-- The labels added to the deliveries counter. -/
def deliveries (s : State) : List DeliveryResult :=
  s.log.filterMap fun e => match e with
    | .deliveriesTotal result => some result
    | _ => none

theorem calls_congr {s s' : State} (h : s'.log = s.log) : s'.calls = s.calls := by
  rw [calls, calls, h]

theorem tries_congr {s s' : State} (h : s'.calls = s.calls) : s'.tries = s.tries := by
  rw [tries, tries, h]

theorem tries_append {s s' : State} {more : List (Post × Nat)} (h : s'.calls = s.calls ++ more) :
    s'.tries = s.tries ++ more.map Prod.fst := by
  rw [tries, tries, h, List.map_append]

theorem posts_append {s s' : State} {more : List (Post × Nat)} (h : s'.calls = s.calls ++ more) :
    s'.posts = s.posts ++ more.flatMap fun call => List.replicate call.2 call.1 := by
  rw [posts, posts, h, List.flatMap_append]

/-- What was sent was tried. -/
theorem mem_posts {s : State} {p : Post} :
    p ∈ s.posts ↔ ∃ sends, (p, sends) ∈ s.calls ∧ sends ≠ 0 := by
  rw [posts, List.mem_flatMap]
  constructor
  · rintro ⟨⟨q, sends⟩, hmem, hp⟩
    obtain ⟨hne, rfl⟩ := List.mem_replicate.mp hp
    exact ⟨sends, hmem, hne⟩
  · rintro ⟨sends, hmem, hne⟩
    exact ⟨(p, sends), hmem, List.mem_replicate.mpr ⟨hne, rfl⟩⟩

theorem mem_tries_of_mem_posts {s : State} {p : Post} (h : p ∈ s.posts) : p ∈ s.tries := by
  obtain ⟨sends, hmem, -⟩ := mem_posts.mp h
  exact List.mem_map.mpr ⟨(p, sends), hmem, rfl⟩

def emit (s : State) (e : Effect) : State := { s with log := s.log ++ [e] }

theorem calls_emit (s : State) (p : Post) (sends : Nat) :
    (s.emit (.post p sends)).calls = s.calls ++ [(p, sends)] := by
  simp [calls, emit]

/-- `_clock.UtcNow`. -/
def utcNow (w : World) (s : State) : Time × State :=
  (w.clock s.reads, { s with reads := s.reads + 1 })

/-- `Guid.NewGuid()`. -/
def newGuid (w : World) (s : State) : Guid × State :=
  (w.newGuid s.guids, { s with guids := s.guids + 1 })

/-- `_db.DeliveryAttempts.Add(row)`. -/
def add (s : State) (row : DeliveryAttempt) : State :=
  { s with ctx := { s.ctx with added := s.ctx.added ++ [row] } }

/-- `ev.Status = status` on the tracked event. -/
def setStatus (s : State) (eventId : Guid) (status : EventStatus) : State :=
  { s with ctx := { s.ctx with statuses := s.ctx.statuses ++ [(eventId, status)] } }

end State

/-- The update of one event row. -/
def writeStatus (events : Table Event Guid Event.id) (change : Guid × EventStatus) :
    Table Event Guid Event.id :=
  events.modify change.1 (fun e => { e with status := change.2 }) fun _ => rfl

/-- `SaveChangesAsync`: the change set is committed whole, or not at all when the save
fails by itself (the connection is lost, or a column refuses a text) or a row repeats a key
of the unique index. -/
def saveChangesAsync (w : World) (s : State) : Bool × State :=
  if w.saveFails s.saves.length then (false, s.emit (.save false))
  else
    match s.db.attempts.insertAll? s.ctx.added with
    | none => (false, s.emit (.save false))
    | some attempts =>
      (true,
        { s.emit (.save true) with
          db := { s.db with attempts, events := s.ctx.statuses.foldl writeStatus s.db.events }
          ctx := { s.ctx with added := [], statuses := [] } })

end WebhookInbox.Worker
