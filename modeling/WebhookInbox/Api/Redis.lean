import WebhookInbox.Api.Http
import WebhookInbox.Library.Interleaving
import WebhookInbox.Library.Transition

/-!
# `RedisIdempotencyStore`, command by command

`TryReserveAsync` is up to three commands: `SET NX`, `GET` and a plain `SET`. Here any
number of calls on one key run at once, one command of one call at a time, while the clock
moves and the key may vanish once its TTL has elapsed.

Two calls that both create overlap when each wrote before the other's value had expired.
The plain `SET` is the only command that can cause it: `SET NX` writes over nothing, and
every earlier value has expired by then. `separated_iff` is the exact condition, that no
plain `SET` finds an unexpired value of a call.
-/

namespace WebhookInbox.Api.Redis

/-- The arguments of one call. -/
structure Call where
  newEventId : Guid
  /-- In ticks. -/
  ttl : Int
  ttl_pos : 0 < ttl

/-- The value under the key; `writer` is the call that wrote it, if one of these did. -/
structure Entry where
  value : Text
  deadline : Time
  writer : Option Nat

/-- How far a call is. The three ways to go on are named by the command that is next. -/
inductive Phase where
  | setNotExists
  | get
  | overwrite
  /-- Returned `(true, newEventId)`, after a write at this time with this deadline. -/
  | created (writtenAt deadline : Time)
  /-- Returned `(false, existingId)`. -/
  | existing (existingId : Guid)

/-- What a call has returned. -/
def Phase.answer (call : Call) : Phase → Option (Bool × Guid)
  | .created _ _ => some (true, call.newEventId)
  | .existing existingId => some (false, existingId)
  | _ => none

structure State where
  now : Time
  entry : Option Entry
  phase : Nat → Phase

inductive Action where
  | tick (ticks : Nat)
  | expire
  | command (call : Nat)

variable (p : Platform) (calls : Nat → Call)

/-- The write of `SET NX` on a free key and of the plain `SET`, after which the call returns. -/
def write (s : State) (c : Nat) : State where
  now := s.now
  entry := some
    { value := p.formatGuid (calls c).newEventId
      deadline := s.now + (calls c).ttl
      writer := some c }
  phase := Function.update s.phase c (.created s.now (s.now + (calls c).ttl))

def command (s : State) (c : Nat) : Option State :=
  match s.phase c with
  | .setNotExists =>
    match s.entry with
    | none => some (write p calls s c)
    | some _ => some { s with phase := Function.update s.phase c .get }
  | .get =>
    match s.entry.bind fun e => p.tryParseGuid e.value with
    | some existingId => some { s with phase := Function.update s.phase c (.existing existingId) }
    | none => some { s with phase := Function.update s.phase c .overwrite }
  | .overwrite => some (write p calls s c)
  | .created _ _ => none
  | .existing _ => none

/-- The key may vanish once its TTL has elapsed. -/
def step (s : State) : Action → Option State
  | .tick ticks => some { s with now := s.now + ticks }
  | .expire =>
    match s.entry with
    | some e => if e.deadline ≤ s.now then some { s with entry := none } else none
    | none => none
  | .command c => command p calls s c

/-- Every call is about to start; the key is free or holds a value of someone else. -/
def State.start (now : Time) (entry : Option (Text × Time)) : State where
  now := now
  entry := entry.map fun e => { value := e.1, deadline := e.2, writer := none }
  phase _ := .setNotExists

/-- Of two calls that both created, the value of one had expired when the other wrote. -/
def Separated (s : State) : Prop :=
  ∀ c c', c ≠ c' → ∀ t d t' d', s.phase c = .created t d → s.phase c' = .created t' d' → d ≤ t' ∨ d' ≤ t

/-- A plain `SET` finds no unexpired value that a call has written. -/
def OverwritesNoReservation (s : State) : Action → Prop
  | .command c =>
    match s.phase c with
    | .overwrite => ∀ e, s.entry = some e → e.writer.isSome = true → e.deadline ≤ s.now
    | _ => True
  | _ => True

/-! ## What one step does -/

variable {p calls}

/-- The four kinds of step. A step of a call that does not write leaves the clock and the key,
and the call has not created before or after it. -/
inductive Stepped (p : Platform) (calls : Nat → Call) (s : State) : Action → State → Prop
  | tick (ticks : Nat) : Stepped p calls s (.tick ticks) { s with now := s.now + ticks }
  | expire (e : Entry) (he : s.entry = some e) (hd : e.deadline ≤ s.now) :
      Stepped p calls s .expire { s with entry := none }
  | write (c : Nat) (h : (s.phase c = .setNotExists ∧ s.entry = none) ∨ s.phase c = .overwrite) :
      Stepped p calls s (.command c) (write p calls s c)
  | read (c : Nat) (phase : Phase) (hphase : ∀ t d, phase ≠ .created t d)
      (hbefore : (s.phase c = .setNotExists ∧ s.entry ≠ none) ∨ s.phase c = .get) :
      Stepped p calls s (.command c) { s with phase := Function.update s.phase c phase }

theorem stepped_of_step {s s' : State} {a : Action} (h : step p calls s a = some s') :
    Stepped p calls s a s' := by
  cases a with
  | tick ticks =>
    cases h
    exact .tick ticks
  | expire =>
    unfold step at h
    cases he : s.entry with
    | none =>
      rw [he] at h
      cases h
    | some e =>
      rw [he] at h
      dsimp only at h
      split at h
      · cases h
        exact .expire e he (by assumption)
      · cases h
  | command c =>
    change command p calls s c = some s' at h
    unfold command at h
    cases hc : s.phase c with
    | setNotExists =>
      rw [hc] at h
      dsimp only at h
      split at h
      · rename_i he
        cases h
        exact .write c (Or.inl ⟨hc, he⟩)
      · rename_i he
        cases h
        exact .read c .get (by simp) (Or.inl ⟨hc, by simp [he]⟩)
    | get =>
      rw [hc] at h
      dsimp only at h
      split at h
      · cases h
        exact .read c _ (by simp) (Or.inr hc)
      · cases h
        exact .read c _ (by simp) (Or.inr hc)
    | overwrite =>
      rw [hc] at h
      cases h
      exact .write c (Or.inr hc)
    | created t d =>
      rw [hc] at h
      cases h
    | existing id =>
      rw [hc] at h
      cases h

/-- A call that has created keeps its write. -/
theorem created_step {s s' : State} {a : Action} (h : step p calls s a = some s') {c : Nat} {t d : Time}
    (hc : s.phase c = .created t d) : s'.phase c = .created t d := by
  cases stepped_of_step h with
  | tick => exact hc
  | expire => exact hc
  | write c' hc' =>
    have hne : c ≠ c' := by
      rintro rfl
      rw [hc] at hc'
      simp at hc'
    show Function.update s.phase c' _ c = _
    rw [Function.update_of_ne hne, hc]
  | read c' phase _ hc' =>
    have hne : c ≠ c' := by
      rintro rfl
      rw [hc] at hc'
      simp at hc'
    show Function.update s.phase c' _ c = _
    rw [Function.update_of_ne hne, hc]

/-! ## The invariant -/

/-- Every value that a call has written is the one under the key, or has expired. -/
structure Inv (s : State) : Prop where
  separated : Separated s
  written : ∀ c t d, s.phase c = .created t d → t ≤ s.now
  held : ∀ c t d, s.phase c = .created t d →
    d ≤ s.now ∨ ∃ e, s.entry = some e ∧ e.writer.isSome = true ∧ e.deadline = d
  owner : ∀ e, s.entry = some e → e.writer.isSome = true → ∃ c t, s.phase c = .created t e.deadline

/-- A write keeps the invariant when every value a call has written has expired. -/
theorem Inv.write {s : State} (h : Inv s) (c : Nat)
    (hexpired : ∀ c t d, s.phase c = .created t d → d ≤ s.now) : Inv (write p calls s c) := by
  refine ⟨?_, ?_, ?_, ?_⟩
  · apply Interleaving.WindowsApart.insert h.separated hexpired
    intro c' t d hc'
    rcases Interleaving.update_cases hc' with ⟨rfl, heq⟩ | ⟨-, hold⟩
    · cases heq
      exact Or.inl ⟨rfl, rfl⟩
    · exact Or.inr hold
  · intro c' t d hc'
    rcases Interleaving.update_cases hc' with ⟨rfl, heq⟩ | ⟨-, hc'⟩
    · cases heq
      exact Int.le_refl s.now
    · exact h.written c' t d hc'
  · intro c' t d hc'
    rcases Interleaving.update_cases hc' with ⟨rfl, heq⟩ | ⟨-, hc'⟩
    · cases heq
      exact Or.inr ⟨_, rfl, rfl, rfl⟩
    · exact Or.inl (hexpired c' t d hc')
  · intro e he _
    cases he
    exact ⟨c, s.now, Function.update_self ..⟩

theorem inv_step {s s' : State} {a : Action} (h : Inv s) (hgood : OverwritesNoReservation s a)
    (hstep : step p calls s a = some s') : Inv s' := by
  cases stepped_of_step hstep with
  | tick ticks =>
    have hnow : s.now ≤ s.now + (ticks : Int) := Int.le_add_of_nonneg_right (Int.natCast_nonneg ticks)
    refine ⟨h.separated, fun c t d hc => Int.le_trans (h.written c t d hc) hnow, fun c t d hc => ?_, h.owner⟩
    exact (h.held c t d hc).imp_left fun hd => Int.le_trans hd hnow
  | expire e he hd =>
    refine ⟨h.separated, h.written, fun c t d hc => Or.inl ?_, fun _ he' => by cases he'⟩
    rcases h.held c t d hc with hd' | ⟨e', he', -, rfl⟩
    · exact hd'
    · rw [he] at he'
      cases he'
      exact hd
  | write c hc =>
    apply h.write
    intro c' t d hc'
    rcases h.held c' t d hc' with hd | ⟨e, he, hw, rfl⟩
    · exact hd
    · rcases hc with ⟨-, hnone⟩ | hover
      · rw [hnone] at he
        cases he
      · simp only [OverwritesNoReservation, hover] at hgood
        exact hgood e he hw
  | read c phase hphase hbefore =>
    have hsame : ∀ c' t d, Function.update s.phase c phase c' = .created t d → s.phase c' = .created t d := by
      intro c' t d hc'
      rcases Interleaving.update_cases hc' with ⟨-, heq⟩ | ⟨-, hc'⟩
      · exact absurd heq (hphase t d)
      · exact hc'
    refine ⟨Interleaving.WindowsApart.mono h.separated hsame,
      fun c' t d hc' => h.written c' t d (hsame c' t d hc'),
      fun c' t d hc' => h.held c' t d (hsame c' t d hc'), fun e he hw => ?_⟩
    obtain ⟨c', t, hc'⟩ := h.owner e he hw
    exact ⟨c', t, created_step hstep hc'⟩

/-- A plain `SET` over an unexpired value of a call makes two calls overlap. -/
theorem overlap_of_overwrite {s s' : State} {a : Action} (h : Inv s)
    (hbad : ¬ OverwritesNoReservation s a) (hstep : step p calls s a = some s') : ¬ Separated s' := by
  cases a with
  | tick => exact absurd trivial hbad
  | expire => exact absurd trivial hbad
  | command c =>
    cases hc : s.phase c with
    | overwrite =>
      simp only [OverwritesNoReservation, hc, not_forall] at hbad
      obtain ⟨e, he, hw, hlive⟩ := hbad
      obtain ⟨c', t, hc'⟩ := h.owner e he hw
      have hne : c ≠ c' := by
        rintro rfl
        rw [hc] at hc'
        cases hc'
      have hnew : s'.phase c = .created s.now (s.now + (calls c).ttl) := by
        change command p calls s c = some s' at hstep
        unfold command at hstep
        rw [hc] at hstep
        cases hstep
        exact Function.update_self ..
      have hold := created_step hstep hc'
      have hwritten := h.written c' t e.deadline hc'
      have hlater : s.now < s.now + (calls c).ttl := Int.lt_add_of_pos_right s.now (calls c).ttl_pos
      intro hsep
      rcases hsep c c' hne _ _ _ _ hnew hold with hle | hle
      · exact absurd (Int.le_trans hle hwritten) (Int.not_le.mpr hlater)
      · exact hlive hle
    | setNotExists => exact absurd (by simp [OverwritesNoReservation, hc]) hbad
    | get => exact absurd (by simp [OverwritesNoReservation, hc]) hbad
    | created t d => exact absurd (by simp [OverwritesNoReservation, hc]) hbad
    | existing id => exact absurd (by simp [OverwritesNoReservation, hc]) hbad

theorem inv_start (now : Time) (entry : Option (Text × Time)) : Inv (.start now entry) := by
  refine ⟨fun _ _ _ _ _ _ _ h => Phase.noConfusion h, fun _ _ _ h => Phase.noConfusion h,
    fun _ _ _ h => Phase.noConfusion h, fun e he hw => ?_⟩
  obtain ⟨x, -, rfl⟩ := Option.map_eq_some_iff.mp he
  cases hw

/-- **One reservation per window.** In every interleaving of any number of calls on the key,
no two calls that create overlap exactly when no plain `SET` finds an unexpired value that
a call has written. -/
theorem separated_iff (p : Platform) (calls : Nat → Call) (now : Time) (entry : Option (Text × Time))
    (actions : List Action) {s' : State}
    (hrun : Transition.run (step p calls) (.start now entry) actions = some s') :
    Separated s' ↔
      Transition.Along (step p calls) OverwritesNoReservation (.start now entry) actions := by
  have hexact : Transition.Along (step p calls) OverwritesNoReservation (.start now entry) actions ↔
      ¬ ¬ Separated s' := by
    have hkeep : ∀ s a s₁, ¬ Separated s → step p calls s a = some s₁ → ¬ Separated s₁ := by
      intro s a s₁ hbad hstep hsep
      exact hbad (Interleaving.WindowsApart.mono hsep fun _ _ _ hc => created_step hstep hc)
    exact Transition.along_iff_not_bad (fun s a s₁ h hgood hstep => inv_step h hgood hstep)
      (fun s a s₁ h hbad hstep => overlap_of_overwrite h hbad hstep) hkeep
      (fun s h hbad => hbad h.separated) (inv_start now entry) hrun
  rw [hexact, not_not]

theorem hundred_pos : (0 : Int) < 100 := by
  decide

/-- Calls with a TTL of a hundred ticks. -/
def hundredTicks (c : Nat) : Call := ⟨c + 1, 100, hundred_pos⟩

def asciiPlatform : Platform := Platform.ascii (tableDigest []) fun _ => tableDigest []

/-- Call 0 finds the key of call 2, which then expires; call 1 takes the free key, and call 0
writes over it. -/
def overlappingActions : List Action :=
  [.command 2, .command 0, .tick 100, .expire, .command 0, .command 1, .command 0]

theorem overlappingRun_isSome :
    (Transition.run (step asciiPlatform hundredTicks) (.start 0 none) overlappingActions).isSome := by
  decide

theorem separated_overlapping :
    Separated ((Transition.run (step asciiPlatform hundredTicks) (.start 0 none) overlappingActions).get
        overlappingRun_isSome) ↔
      Transition.Along (step asciiPlatform hundredTicks) OverwritesNoReservation (.start 0 none)
        overlappingActions :=
  separated_iff asciiPlatform hundredTicks 0 none overlappingActions
    (Option.some_get overlappingRun_isSome).symm

/-- Calls 0 and 1 both create at time 100, each with a TTL of a hundred ticks. -/
theorem two_reservations :
    ∃ s', Transition.run (step asciiPlatform hundredTicks) (.start 0 none) overlappingActions = some s' ∧
      s'.phase 0 = .created 100 200 ∧ s'.phase 1 = .created 100 200 ∧ ¬ Separated s' := by
  have h₀ : ((Transition.run (step asciiPlatform hundredTicks) (.start 0 none) overlappingActions).get
      overlappingRun_isSome).phase 0 = .created 100 200 := by
    rfl
  have h₁ : ((Transition.run (step asciiPlatform hundredTicks) (.start 0 none) overlappingActions).get
      overlappingRun_isSome).phase 1 = .created 100 200 := by
    rfl
  refine ⟨_, (Option.some_get overlappingRun_isSome).symm, h₀, h₁, fun hsep => ?_⟩
  rcases hsep 0 1 (by decide) _ _ _ _ h₀ h₁ with hle | hle <;> exact absurd hle (by decide)

end WebhookInbox.Api.Redis
