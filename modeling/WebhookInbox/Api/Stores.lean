import Mathlib.Algebra.Order.Group.Int
import WebhookInbox.Api.InMemory
import WebhookInbox.Api.Redis
import WebhookInbox.Library.Service

/-!
# The two stores, one call at a time

`RedisIdempotencyStore` and `InMemoryIdempotencyStore` as whole calls on all keys, the first
on a server that has dropped what has expired, the second on a dictionary that keeps it. Both
answer every sequence of calls like `reserve` (`stores_agree`), which keeps under a key
the reservation that was made last and compares its age with its TTL. A call that runs alone on
the stores of the interleavings is such a call (`Redis.run_alone`, `InMemory.run_alone`).
-/

namespace WebhookInbox.Api

/-- One call and the clock value at which it is made. -/
structure ReserveCall where
  now : Time
  key : Text
  newEventId : Guid
  /-- In ticks. -/
  ttl : Int
  ttl_pos : 0 < ttl

/-! ## The reference -/

/-- A reservation, when it was made and for how long. -/
structure Held where
  id : Guid
  since : Time
  ttl : Int

/-- The key is free when nothing is reserved under it or the age of the reservation has
reached its TTL. -/
def reserve (held : Text → Option Held) (c : ReserveCall) : (Bool × Guid) × (Text → Option Held) :=
  match (held c.key).filter fun h => decide (c.now - h.since < h.ttl) with
  | some h => ((false, h.id), held)
  | none =>
    ((true, c.newEventId), Function.update held c.key (some ⟨c.newEventId, c.now, c.ttl⟩))

/-! ## The stores -/

/-- `existing` is `default` when the key is missing, which has expired like any entry whose
deadline is not after `now`. -/
def InMemory.tryReserveAsync (map : ReservationStore) (c : ReserveCall) :
    (Bool × Guid) × ReservationStore :=
  match (map c.key).filter fun existing => decide (c.now < existing.expireAt) with
  | some existing => ((false, existing.id), map)
  | none =>
    ((true, c.newEventId), Function.update map c.key (some ⟨c.newEventId, c.now + c.ttl⟩))

namespace Redis

/-- The values under the keys, with their deadlines. -/
abbrev Server := Text → Option (Text × Time)

/-- The keys that exist at a clock value. -/
def Server.at (server : Server) (now : Time) : Server :=
  fun key => (server key).filter fun v => decide (now < v.2)

/-- The three commands of a call, all at its clock value. -/
def tryReserveAsync (p : Platform) (server : Server) (c : ReserveCall) : (Bool × Guid) × Server :=
  let server := server.at c.now
  let value := (p.formatGuid c.newEventId, c.now + c.ttl)
  match server c.key with
  | none => ((true, c.newEventId), Function.update server c.key (some value))
  | some existing =>
    match p.tryParseGuid existing.1 with
    | some existingId => ((false, existingId), server)
    | none => ((true, c.newEventId), Function.update server c.key (some value))

end Redis

/-! ## Equal answers -/

theorem age_lt_iff {now since : Time} {ttl : Int} : now - since < ttl ↔ now < since + ttl :=
  ⟨Int.lt_add_of_sub_left_lt, Int.sub_left_lt_of_lt_add⟩

/-- The dictionary holds every reservation, with its deadline. -/
def InMemory.Represents (_ : Time) (map : ReservationStore) (held : Text → Option Held) : Prop :=
  ∀ key, map key = (held key).map fun h => ⟨h.id, h.since + h.ttl⟩

/-- The server holds the reservations, in text, but for those that expired before. -/
structure Redis.Represents (p : Platform) (last : Time) (server : Redis.Server)
    (held : Text → Option Held) : Prop where
  value : ∀ key h, held key = some h → server key = some (p.formatGuid h.id, h.since + h.ttl) ∨
    (server key = none ∧ h.since + h.ttl ≤ last)
  free : ∀ key, held key = none → server key = none
  parses : ∀ key h, held key = some h → p.tryParseGuid (p.formatGuid h.id) = some h.id

theorem InMemory.serve {k : Time} {map : ReservationStore} {held : Text → Option Held}
    (h : InMemory.Represents k map held) (c : ReserveCall) :
    (InMemory.tryReserveAsync map c).1 = (reserve held c).1 ∧
      InMemory.Represents c.now (InMemory.tryReserveAsync map c).2 (reserve held c).2 := by
  have hnew : InMemory.Represents c.now
      (Function.update map c.key (some ⟨c.newEventId, c.now + c.ttl⟩))
      (Function.update held c.key (some ⟨c.newEventId, c.now, c.ttl⟩)) := by
    intro key
    by_cases hkey : key = c.key
    · subst hkey
      rw [Function.update_self, Function.update_self]
      rfl
    · rw [Function.update_of_ne hkey, Function.update_of_ne hkey]
      exact h key
  unfold InMemory.tryReserveAsync reserve
  rw [h c.key]
  cases held c.key with
  | none => exact ⟨rfl, hnew⟩
  | some r =>
    simp only [Option.map_some, Option.filter_some, age_lt_iff]
    by_cases hlive : c.now < r.since + r.ttl
    · simp only [hlive, decide_true, if_true]
      exact ⟨trivial, h⟩
    · simp only [hlive, decide_false, Bool.false_eq_true, if_false]
      exact ⟨trivial, hnew⟩

/-- What a server still holds at a later clock value. -/
theorem Redis.Represents.at {p : Platform} {last : Time} {server : Redis.Server}
    {held : Text → Option Held} (h : Redis.Represents p last server held) {now : Time} (hle : last ≤ now) :
    Redis.Represents p now (server.at now) held := by
  refine ⟨fun key r hr => ?_, fun key hnone => ?_, h.parses⟩
  · rcases h.value key r hr with hvalue | ⟨hnone, hexpired⟩
    · by_cases hlive : now < r.since + r.ttl
      · left
        rw [Redis.Server.at, hvalue]
        simp [hlive]
      · right
        have hexpired := Int.not_lt.mp hlive
        refine ⟨?_, hexpired⟩
        rw [Redis.Server.at, hvalue]
        simp [hexpired]
    · right
      refine ⟨?_, Int.le_trans hexpired hle⟩
      rw [Redis.Server.at, hnone]
      rfl
  · rw [Redis.Server.at, h.free key hnone]
    rfl

theorem Redis.serve {p : Platform} {k : Time} {server : Redis.Server} {held : Text → Option Held}
    (h : Redis.Represents p k server held) (c : ReserveCall) (hle : k ≤ c.now)
    (hparse : p.tryParseGuid (p.formatGuid c.newEventId) = some c.newEventId) :
    (Redis.tryReserveAsync p server c).1 = (reserve held c).1 ∧
      Redis.Represents p c.now (Redis.tryReserveAsync p server c).2 (reserve held c).2 := by
  have hnow := h.at hle
  have hnew : Redis.Represents p c.now
      (Function.update (server.at c.now) c.key (some (p.formatGuid c.newEventId, c.now + c.ttl)))
      (Function.update held c.key (some ⟨c.newEventId, c.now, c.ttl⟩)) := by
    refine ⟨fun key r hr => ?_, fun key hnone => ?_, fun key r hr => ?_⟩
    · rcases Interleaving.update_cases hr with ⟨rfl, hnew⟩ | ⟨hkey, hold⟩
      · cases hnew
        exact Or.inl (Function.update_self ..)
      · rw [Function.update_of_ne hkey]
        exact hnow.value key r hold
    · rcases Interleaving.update_cases hnone with ⟨-, hnew⟩ | ⟨hkey, hold⟩
      · cases hnew
      · rw [Function.update_of_ne hkey]
        exact hnow.free key hold
    · rcases Interleaving.update_cases hr with ⟨-, hnew⟩ | ⟨-, hold⟩
      · cases hnew
        exact hparse
      · exact hnow.parses key r hold
  unfold Redis.tryReserveAsync reserve
  dsimp only
  cases hheld : held c.key with
  | none =>
    rw [hnow.free c.key hheld]
    exact ⟨rfl, hnew⟩
  | some r =>
    simp only [Option.filter_some, age_lt_iff]
    by_cases hlive : c.now < r.since + r.ttl
    · have hvalue : server.at c.now c.key = some (p.formatGuid r.id, r.since + r.ttl) := by
        rcases hnow.value c.key r hheld with hvalue | ⟨-, hexpired⟩
        · exact hvalue
        · exact absurd hlive (Int.not_lt.mpr hexpired)
      simp only [hvalue, h.parses c.key r hheld, hlive, decide_true, if_true]
      exact ⟨trivial, hnow⟩
    · have hnone : server.at c.now c.key = none := by
        rcases hnow.value c.key r hheld with hvalue | ⟨hnone, -⟩
        · have hfilter := (Option.filter_eq_some_iff.mp hvalue).2
          simp [hlive] at hfilter
        · exact hnone
      simp only [hnone, hlive, decide_false, Bool.false_eq_true, if_false]
      exact ⟨trivial, hnew⟩

/-- **The stores are interchangeable.** Every sequence of calls in the order of the clock gets
the answers of the reference from either store. -/
theorem stores_agree (p : Platform) (calls : List ReserveCall)
    (horder : Service.InOrder ReserveCall.now calls)
    (hguid : ∀ c ∈ calls, p.tryParseGuid (p.formatGuid c.newEventId) = some c.newEventId) :
    Service.answers (Redis.tryReserveAsync p) (fun _ => none) calls =
        Service.answers reserve (fun _ => none) calls ∧
      Service.answers InMemory.tryReserveAsync (fun _ => none) calls =
        Service.answers reserve (fun _ => none) calls := by
  constructor
  · apply Service.answers_eq (R := Redis.Represents p) _ horder
    · intro k
      exact ⟨fun _ _ h => (by cases h), fun _ _ => rfl, fun _ _ h => by cases h⟩
    · intro c hc k server held h hle
      exact Redis.serve h c hle (hguid c hc)
  · apply Service.answers_eq (R := InMemory.Represents) _ horder
    · intro k key
      rfl
    · intro c _ k map held h _
      exact InMemory.serve h c

/-- Three calls on one key: the second comes within the TTL of the first, the third at its end. -/
def threeCalls : List ReserveCall :=
  [⟨0, "idem:shop:a".toList, 1, 100, Redis.hundred_pos⟩,
    ⟨50, "idem:shop:a".toList, 2, 100, Redis.hundred_pos⟩,
    ⟨100, "idem:shop:a".toList, 3, 50, by decide⟩]

theorem stores_agree_three :
    Service.answers (Redis.tryReserveAsync Redis.asciiPlatform) (fun _ => none) threeCalls =
        Service.answers reserve (fun _ => none) threeCalls ∧
      Service.answers InMemory.tryReserveAsync (fun _ => none) threeCalls =
        Service.answers reserve (fun _ => none) threeCalls :=
  stores_agree Redis.asciiPlatform threeCalls (by unfold Service.InOrder; decide) (by decide)

example : Service.answers reserve (fun _ => none) threeCalls = [(true, 1), (false, 1), (true, 3)] := by
  decide

/-! ## A call alone -/

/-- Operation by operation, a call that no other one interrupts is the whole call. -/
theorem InMemory.run_alone {calls : Nat → InMemory.Call} {s : InMemory.State} {c : Nat}
    (hphase : s.phase c = .utcNow) {map : ReservationStore} {key : Text} (hkey : map key = s.entry) :
    let call : ReserveCall := ⟨s.now, key, (calls c).newEventId, (calls c).ttl, (calls c).ttl_pos⟩
    ∃ n s', Transition.run (InMemory.step calls) s (List.replicate n (.operation c)) = some s' ∧
      (s'.phase c).answer (calls c) = some (InMemory.tryReserveAsync map call).1 ∧
      s'.entry = (InMemory.tryReserveAsync map call).2 key := by
  intro call
  have hcall : map call.key = s.entry := hkey
  unfold InMemory.tryReserveAsync
  rw [hcall]
  have hread : InMemory.step calls s (.operation c) =
      some { s with phase := Function.update s.phase c (.tryGetValue s.now) } := by
    simp [InMemory.step, InMemory.operation, hphase]
  generalize hs₁ : { s with phase := Function.update s.phase c (.tryGetValue s.now) } = s₁ at hread
  have hphase₁ : s₁.phase c = .tryGetValue s.now := by rw [← hs₁]; exact Function.update_self ..
  have hentry₁ : s₁.entry = s.entry := by rw [← hs₁]
  cases hfilter : s.entry.filter fun existing => decide (s.now < existing.expireAt) with
  | some existing =>
    have hfound : InMemory.step calls s₁ (.operation c) =
        some { s₁ with phase := Function.update s₁.phase c (.existing existing.id) } := by
      simp [InMemory.step, InMemory.operation, hphase₁, hentry₁, hfilter]
    refine ⟨2, _, Transition.run_cons.mpr ⟨s₁, hread, Transition.run_cons.mpr ⟨_, hfound, rfl⟩⟩, ?_, ?_⟩
    · simp [InMemory.Phase.answer]
    · exact hentry₁.trans hkey.symm
  | none =>
    have hmissed : InMemory.step calls s₁ (.operation c) =
        some { s₁ with phase := Function.update s₁.phase c (.assign s.now) } := by
      simp [InMemory.step, InMemory.operation, hphase₁, hentry₁, hfilter]
    generalize hs₂ : { s₁ with phase := Function.update s₁.phase c (.assign s.now) } = s₂ at hmissed
    have hphase₂ : s₂.phase c = .assign s.now := by rw [← hs₂]; exact Function.update_self ..
    have hassign : InMemory.step calls s₂ (.operation c) =
        some
          { s₂ with
            entry := some ⟨(calls c).newEventId, s.now + (calls c).ttl⟩
            phase := Function.update s₂.phase c (.created s.now (s.now + (calls c).ttl)) } := by
      simp [InMemory.step, InMemory.operation, hphase₂]
    refine ⟨3, _, Transition.run_cons.mpr ⟨s₁, hread, Transition.run_cons.mpr ⟨s₂, hmissed,
      Transition.run_cons.mpr ⟨_, hassign, rfl⟩⟩⟩, ?_, ?_⟩
    · simp [InMemory.Phase.answer, call]
    · show _ = Function.update map key _ key
      rw [Function.update_self]

/-- Command by command, a call that finds nothing but an unexpired value is the whole call. -/
theorem Redis.run_alone (p : Platform) {calls : Nat → Redis.Call} {s : Redis.State} {c : Nat}
    (hphase : s.phase c = .setNotExists) (hlive : ∀ e, s.entry = some e → s.now < e.deadline)
    {server : Redis.Server} {key : Text} (hkey : server key = s.entry.map fun e => (e.value, e.deadline)) :
    let call : ReserveCall := ⟨s.now, key, (calls c).newEventId, (calls c).ttl, (calls c).ttl_pos⟩
    ∃ n s', Transition.run (Redis.step p calls) s (List.replicate n (.command c)) = some s' ∧
      (s'.phase c).answer (calls c) = some (Redis.tryReserveAsync p server call).1 ∧
      (Redis.tryReserveAsync p server call).2 key = s'.entry.map fun e => (e.value, e.deadline) := by
  intro call
  have hat : (server.at call.now) call.key = s.entry.map fun e => (e.value, e.deadline) := by
    show (server key).filter _ = _
    rw [hkey]
    cases hentry : s.entry with
    | none => rfl
    | some e => simp [call, hlive e hentry]
  unfold Redis.tryReserveAsync
  dsimp only
  rw [hat]
  cases hentry : s.entry with
  | none =>
    have hset : Redis.step p calls s (.command c) = some (Redis.write p calls s c) := by
      simp [Redis.step, Redis.command, hphase, hentry]
    refine ⟨1, _, Transition.run_cons.mpr ⟨_, hset, rfl⟩, ?_, ?_⟩
    · simp [Redis.write, Redis.Phase.answer, call]
    · exact Function.update_self ..
  | some e =>
    have hset : Redis.step p calls s (.command c) =
        some { s with phase := Function.update s.phase c .get } := by
      simp [Redis.step, Redis.command, hphase, hentry]
    generalize hs₁ : { s with phase := Function.update s.phase c .get } = s₁ at hset
    have hphase₁ : s₁.phase c = .get := by rw [← hs₁]; exact Function.update_self ..
    have hentry₁ : s₁.entry = some e := by rw [← hs₁]; exact hentry
    have hnow₁ : s₁.now = s.now := by rw [← hs₁]
    cases hparse : p.tryParseGuid e.value with
    | some existingId =>
      have hget : Redis.step p calls s₁ (.command c) =
          some { s₁ with phase := Function.update s₁.phase c (.existing existingId) } := by
        simp [Redis.step, Redis.command, hphase₁, hentry₁, hparse]
      refine ⟨2, _, Transition.run_cons.mpr ⟨s₁, hset, Transition.run_cons.mpr ⟨_, hget, rfl⟩⟩, ?_, ?_⟩
      · simp [Redis.Phase.answer, hparse]
      · simp only [Option.map_some, hparse, hentry₁]
        exact hat.trans (by rw [hentry]; rfl)
    | none =>
      have hget : Redis.step p calls s₁ (.command c) =
          some { s₁ with phase := Function.update s₁.phase c .overwrite } := by
        simp [Redis.step, Redis.command, hphase₁, hentry₁, hparse]
      generalize hs₂ : { s₁ with phase := Function.update s₁.phase c .overwrite } = s₂ at hget
      have hphase₂ : s₂.phase c = .overwrite := by rw [← hs₂]; exact Function.update_self ..
      have hnow₂ : s₂.now = s.now := by rw [← hs₂]; exact hnow₁
      have hoverwrite : Redis.step p calls s₂ (.command c) = some (Redis.write p calls s₂ c) := by
        simp [Redis.step, Redis.command, hphase₂]
      refine ⟨3, _, Transition.run_cons.mpr ⟨s₁, hset, Transition.run_cons.mpr ⟨s₂, hget,
        Transition.run_cons.mpr ⟨_, hoverwrite, rfl⟩⟩⟩, ?_, ?_⟩
      · simp [Redis.write, Redis.Phase.answer, hparse, call]
      · simp only [Option.map_some, hparse, Redis.write, hnow₂]
        exact Function.update_self ..

end WebhookInbox.Api
