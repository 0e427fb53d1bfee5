import WebhookInbox.Api.Idempotency
import WebhookInbox.Library.Interleaving
import WebhookInbox.Library.Transition

/-!
# `InMemoryIdempotencyStore`, operation by operation

`TryReserveAsync` reads the clock, looks the key up, and assigns to it when it has found no
unexpired entry. Here any number of calls on one key run at once, one operation of one call
at a time, while the clock moves.

Nothing holds the key between the lookup and the assignment, so an assignment may replace
an entry that came in between. As long as none replaces an entry that is unexpired for its
call, every entry has expired for the next call that creates (`Inv`). A call that assigns
in time and does replace such an entry overlaps with the call that wrote it
(`overlap_of_overwrite`); an entry that is assigned after its own deadline overlaps with
nothing, but leaves the key open for the next call.
-/

namespace WebhookInbox.Api.InMemory

/-- The arguments of one call. -/
structure Call where
  newEventId : Guid
  /-- In ticks. -/
  ttl : Int
  ttl_pos : 0 < ttl

/-- How far a call is; `now` is what it has read from the clock. -/
inductive Phase where
  | utcNow
  | tryGetValue (now : Time)
  | assign (now : Time)
  /-- Returned `(true, newEventId)`, after it wrote an entry with this deadline. -/
  | created (now expireAt : Time)
  /-- Returned `(false, existing.Id)`. -/
  | existing (id : Guid)

/-- What a call has returned. -/
def Phase.answer (call : Call) : Phase → Option (Bool × Guid)
  | .created _ _ => some (true, call.newEventId)
  | .existing id => some (false, id)
  | _ => none

/-- The dictionary at the key, and the calls. -/
structure State where
  now : Time
  entry : Option Reservation := none
  phase : Nat → Phase := fun _ => .utcNow

inductive Action where
  | tick (ticks : Nat)
  | operation (call : Nat)

variable (calls : Nat → Call)

/-- The next operation of a call. `existing` is `default` when the key is missing, which has
expired like any entry whose deadline is not after `now`. -/
def operation (s : State) (c : Nat) : Option State :=
  match s.phase c with
  | .utcNow => some { s with phase := Function.update s.phase c (.tryGetValue s.now) }
  | .tryGetValue now =>
    match s.entry.filter fun existing => decide (now < existing.expireAt) with
    | some existing => some { s with phase := Function.update s.phase c (.existing existing.id) }
    | none => some { s with phase := Function.update s.phase c (.assign now) }
  | .assign now =>
    some
      { s with
        entry := some ⟨(calls c).newEventId, now + (calls c).ttl⟩
        phase := Function.update s.phase c (.created now (now + (calls c).ttl)) }
  | .created _ _ => none
  | .existing _ => none

def step (s : State) : Action → Option State
  | .tick ticks => some { s with now := s.now + ticks }
  | .operation c => operation calls s c

/-- Of two calls that both created, the entry of one had expired when the other read the clock. -/
def Separated (s : State) : Prop :=
  ∀ c c', c ≠ c' → ∀ t d t' d', s.phase c = .created t d → s.phase c' = .created t' d' → d ≤ t' ∨ d' ≤ t

/-- A call that did not create returned the Id of one that did. -/
def Answered (s : State) : Prop :=
  ∀ c id, s.phase c = .existing id → ∃ c' t d, s.phase c' = .created t d ∧ (calls c').newEventId = id

/-- An assignment replaces no entry that is unexpired at the clock value its call has read. -/
def OverwritesNoReservation (s : State) : Action → Prop
  | .operation c =>
    match s.phase c with
    | .assign now => ∀ e, s.entry = some e → e.expireAt ≤ now
    | _ => True
  | .tick _ => True

/-- An assignment comes before the deadline of its own entry. -/
def AssignsInTime (s : State) : Action → Prop
  | .operation c =>
    match s.phase c with
    | .assign now => s.now < now + (calls c).ttl
    | _ => True
  | .tick _ => True

/-! ## What one step does -/

/-- The clock value that a call goes on with. -/
def Phase.readAt : Phase → Option Time
  | .tryGetValue now => some now
  | .assign now => some now
  | .created now _ => some now
  | _ => none

variable {calls}

/-- The clock moves, a call assigns, or a call goes on without a write. -/
inductive Stepped (calls : Nat → Call) (s : State) : Action → State → Prop
  | tick (ticks : Nat) : Stepped calls s (.tick ticks) { s with now := s.now + ticks }
  | assign (c : Nat) (now : Time) (hbefore : s.phase c = .assign now) :
      Stepped calls s (.operation c)
        { s with
          entry := some ⟨(calls c).newEventId, now + (calls c).ttl⟩
          phase := Function.update s.phase c (.created now (now + (calls c).ttl)) }
  | read (c : Nat) (phase : Phase) (hbefore : ∀ t d, s.phase c ≠ .created t d)
      (hphase : ∀ t d, phase ≠ .created t d) (hnot : ∀ t, s.phase c ≠ .assign t)
      (hread : ∀ t, phase.readAt = some t → t = s.now ∨ (s.phase c).readAt = some t)
      (hfound : ∀ id, phase = .existing id → ∃ e, s.entry = some e ∧ e.id = id) :
      Stepped calls s (.operation c) { s with phase := Function.update s.phase c phase }

theorem stepped_of_step {s s' : State} {a : Action} (h : step calls s a = some s') :
    Stepped calls s a s' := by
  cases a with
  | tick ticks =>
    cases h
    exact .tick ticks
  | operation c =>
    change operation calls s c = some s' at h
    unfold operation at h
    cases hc : s.phase c with
    | utcNow =>
      rw [hc] at h
      cases h
      refine .read c _ (by simp [hc]) (by simp) (by simp [hc]) (fun t ht => Or.inl ?_) (by simp)
      exact (Option.some.inj ht).symm
    | tryGetValue now =>
      rw [hc] at h
      dsimp only at h
      split at h
      · rename_i existing hfilter
        cases h
        have hentry := (Option.filter_eq_some_iff.mp hfilter).1
        refine .read c _ (by simp [hc]) (by simp) (by simp [hc]) (by simp [Phase.readAt]) ?_
        intro id hid
        cases hid
        exact ⟨existing, hentry, rfl⟩
      · cases h
        refine .read c _ (by simp [hc]) (by simp) (by simp [hc]) (fun t ht => Or.inr ?_) (by simp)
        rw [hc]
        exact ht
    | assign now =>
      rw [hc] at h
      cases h
      exact .assign c now hc
    | created t d =>
      rw [hc] at h
      cases h
    | existing id =>
      rw [hc] at h
      cases h

/-- A call that has created keeps what it has read and written. -/
theorem created_step {s s' : State} {a : Action} (h : step calls s a = some s') {c : Nat} {t d : Time}
    (hc : s.phase c = .created t d) : s'.phase c = .created t d := by
  cases stepped_of_step h with
  | tick => exact hc
  | assign c' now hbefore =>
    have hne : c ≠ c' := by
      rintro rfl
      rw [hc] at hbefore
      cases hbefore
    show Function.update s.phase c' _ c = _
    rw [Function.update_of_ne hne, hc]
  | read c' phase hbefore =>
    have hne : c ≠ c' := by
      rintro rfl
      exact hbefore t d hc
    show Function.update s.phase c' _ c = _
    rw [Function.update_of_ne hne, hc]

/-! ## Every run -/

/-- Clock values have been read, deadlines are those of the calls, the entry is that of a call
that created, and a call that did not create returned the Id of one that did. -/
structure Sound (calls : Nat → Call) (s : State) : Prop where
  read : ∀ c t, (s.phase c).readAt = some t → t ≤ s.now
  deadline : ∀ c t d, s.phase c = .created t d → d = t + (calls c).ttl
  owner : ∀ e, s.entry = some e →
    ∃ c t, s.phase c = .created t e.expireAt ∧ (calls c).newEventId = e.id
  answered : Answered calls s

theorem sound_start (calls : Nat → Call) (now : Time) : Sound calls { now } :=
  ⟨fun _ _ h => (by cases h), fun _ _ _ h => (by cases h), fun _ h => (by cases h),
    fun _ _ h => (by cases h)⟩

theorem sound_step {s s' : State} {a : Action} (h : Sound calls s) (hstep : step calls s a = some s') :
    Sound calls s' := by
  have hkeep : ∀ id, (∃ c t d, s.phase c = .created t d ∧ (calls c).newEventId = id) →
      ∃ c t d, s'.phase c = .created t d ∧ (calls c).newEventId = id := by
    rintro id ⟨c, t, d, hc, hid⟩
    exact ⟨c, t, d, created_step hstep hc, hid⟩
  cases stepped_of_step hstep with
  | tick ticks =>
    refine ⟨fun c t ht => ?_, h.deadline, h.owner, h.answered⟩
    exact Int.le_trans (h.read c t ht) (Int.le_add_of_nonneg_right (Int.natCast_nonneg ticks))
  | assign c now hbefore =>
    have hself := Function.update_self c (Phase.created now (now + (calls c).ttl)) s.phase
    refine ⟨fun c' t ht => ?_, fun c' t d hc' => ?_, fun e he => ?_, fun c' id hc' => hkeep id ?_⟩
    · dsimp only at ht
      generalize hx : Function.update s.phase c _ c' = phase at ht
      rcases Interleaving.update_cases hx with ⟨rfl, rfl⟩ | ⟨-, rfl⟩
      · cases ht
        exact h.read c' now (by rw [hbefore]; rfl)
      · exact h.read c' t ht
    · rcases Interleaving.update_cases hc' with ⟨rfl, hphase⟩ | ⟨-, hphase⟩
      · cases hphase
        rfl
      · exact h.deadline c' t d hphase
    · cases he
      exact ⟨c, now, hself, rfl⟩
    · rcases Interleaving.update_cases hc' with ⟨-, hphase⟩ | ⟨-, hphase⟩
      · cases hphase
      · exact h.answered c' id hphase
  | read c phase hbefore hphase hnot hread hfound =>
    refine ⟨fun c' t ht => ?_, fun c' t d hc' => ?_, fun e he => ?_, fun c' id hc' => hkeep id ?_⟩
    · dsimp only at ht
      generalize hx : Function.update s.phase c phase c' = phase' at ht
      rcases Interleaving.update_cases hx with ⟨rfl, rfl⟩ | ⟨-, rfl⟩
      · rcases hread t ht with rfl | hold
        · exact Int.le_refl _
        · exact h.read c' t hold
      · exact h.read c' t ht
    · rcases Interleaving.update_cases hc' with ⟨rfl, hnew⟩ | ⟨-, hold⟩
      · exact absurd hnew (hphase t d)
      · exact h.deadline c' t d hold
    · obtain ⟨c', t, hc', hid⟩ := h.owner e he
      exact ⟨c', t, created_step hstep hc', hid⟩
    · rcases Interleaving.update_cases hc' with ⟨-, hnew⟩ | ⟨-, hold⟩
      · obtain ⟨e, he, hid⟩ := hfound id hnew
        obtain ⟨c', t, hc', hcall⟩ := h.owner e he
        exact ⟨c', t, e.expireAt, hc', hcall.trans hid⟩
      · exact h.answered c' id hold

/-! ## Runs that replace no reservation -/

/-- No entry that was written outlasts the one that is there. -/
structure Inv (calls : Nat → Call) (s : State) : Prop where
  sound : Sound calls s
  separated : Separated s
  covered : ∀ c t d, s.phase c = .created t d → ∃ e, s.entry = some e ∧ d ≤ e.expireAt

theorem inv_start (calls : Nat → Call) (now : Time) : Inv calls { now } :=
  ⟨sound_start calls now, fun _ _ _ _ _ _ _ h => (by cases h), fun _ _ _ h => (by cases h)⟩

theorem inv_step {s s' : State} {a : Action} (h : Inv calls s) (hgood : OverwritesNoReservation s a)
    (hstep : step calls s a = some s') : Inv calls s' := by
  have hsound := sound_step h.sound hstep
  cases stepped_of_step hstep with
  | tick ticks => exact ⟨hsound, h.separated, h.covered⟩
  | assign c now hbefore =>
    simp only [OverwritesNoReservation, hbefore] at hgood
    have hexpired : ∀ c' t d, s.phase c' = .created t d → d ≤ now := by
      intro c' t d hc'
      obtain ⟨e, he, hle⟩ := h.covered c' t d hc'
      exact Int.le_trans hle (hgood e he)
    refine ⟨hsound, ?_, fun c' t d hc' => ⟨_, rfl, ?_⟩⟩
    · apply Interleaving.WindowsApart.insert h.separated hexpired
      intro c' t d hc'
      rcases Interleaving.update_cases hc' with ⟨rfl, hnew⟩ | ⟨-, hold⟩
      · cases hnew
        exact Or.inl ⟨rfl, rfl⟩
      · exact Or.inr hold
    · rcases Interleaving.update_cases hc' with ⟨-, hnew⟩ | ⟨-, hold⟩
      · cases hnew
        exact Int.le_refl _
      · exact Int.le_trans (hexpired c' t d hold) (Int.le_add_of_nonneg_right (Int.le_of_lt (calls c).ttl_pos))
  | read c phase hbefore hphase =>
    have hold : ∀ c' t d, Function.update s.phase c phase c' = .created t d → s.phase c' = .created t d := by
      intro c' t d hc'
      rcases Interleaving.update_cases hc' with ⟨-, hnew⟩ | ⟨-, hold⟩
      · exact absurd hnew (hphase t d)
      · exact hold
    exact ⟨hsound, Interleaving.WindowsApart.mono h.separated hold,
      fun c' t d hc' => h.covered c' t d (hold c' t d hc')⟩

/-- An assignment that is in time and replaces an unexpired entry makes two calls overlap. -/
theorem overlap_of_overwrite {s s' : State} {a : Action} (h : Inv calls s) (htime : AssignsInTime calls s a)
    (hbad : ¬ OverwritesNoReservation s a) (hstep : step calls s a = some s') : ¬ Separated s' := by
  have hkeep := fun c t d => created_step hstep (c := c) (t := t) (d := d)
  cases stepped_of_step hstep with
  | tick => exact absurd trivial hbad
  | read c phase hbefore hphase hnot =>
    exact absurd (by simp [OverwritesNoReservation]) hbad
  | assign c now hbefore =>
    simp only [OverwritesNoReservation, hbefore, not_forall] at hbad
    simp only [AssignsInTime, hbefore] at htime
    obtain ⟨e, he, hlive⟩ := hbad
    obtain ⟨c', t, hc', -⟩ := h.sound.owner e he
    have hne : c ≠ c' := by
      rintro rfl
      rw [hbefore] at hc'
      cases hc'
    have hread : t ≤ s.now := h.sound.read c' t (by rw [hc']; rfl)
    have hnew := Function.update_self c (Phase.created now (now + (calls c).ttl)) s.phase
    intro hsep
    rcases hsep c c' hne _ _ _ _ hnew (hkeep c' t _ hc') with hle | hle
    · exact absurd (Int.le_trans hle hread) (Int.not_le.mpr htime)
    · exact hlive hle

/-- **One reservation per window.** In every interleaving of any number of calls on the key, a
call that does not create returns the Id of one that does. No two calls that create overlap as
long as no assignment replaces an entry that is unexpired for its call; and when every
assignment comes before the deadline of its own entry, they overlap as soon as one does. -/
theorem oneReservation_run (calls : Nat → Call) (now : Time) (actions : List Action) {s' : State}
    (hrun : Transition.run (step calls) { now } actions = some s') :
    Answered calls s' ∧
      (Transition.Along (step calls) OverwritesNoReservation { now } actions → Separated s') ∧
      (Transition.Along (step calls) (AssignsInTime calls) { now } actions →
        (Separated s' ↔ Transition.Along (step calls) OverwritesNoReservation { now } actions)) := by
  have hsound := Transition.invariant (fun _ _ _ h hstep => sound_step h hstep)
    (sound_start calls now) hrun
  refine ⟨hsound.answered, fun hgood => ?_, fun htime => ?_⟩
  · exact (hgood.invariant (fun _ _ _ h hg hstep => inv_step h hg hstep) (inv_start calls now) hrun).separated
  · have hkeep : ∀ s a s₁, ¬ Separated s → step calls s a = some s₁ → ¬ Separated s₁ := by
      intro s a s₁ hbad hstep hsep
      exact hbad (Interleaving.WindowsApart.mono hsep fun _ _ _ hc => created_step hstep hc)
    have hexact : Transition.Along (step calls) OverwritesNoReservation { now } actions ↔
        ¬ ¬ Separated s' := Transition.along_iff_not_bad_of_along htime
      (fun _ _ _ h hg hstep => inv_step h hg hstep)
      (fun _ _ _ h ht hbad hstep => overlap_of_overwrite h ht hbad hstep) hkeep
      (fun _ h hbad => hbad h.separated) (inv_start calls now) hrun
    rw [hexact, not_not]

/-! ## Two calls at once -/

/-- Calls with a TTL of a hundred ticks. -/
def hundredTicks (c : Nat) : Call := ⟨c + 1, 100, by decide⟩

/-- Call 1 reads the clock before call 0 assigns, and looks the key up after it. A third call comes
after the deadline and creates again. -/
def overlappingActions : List Action :=
  [.operation 0, .operation 1, .operation 0, .operation 0, .operation 1, .tick 100, .operation 2,
    .operation 2, .operation 2]

theorem overlappingRun_isSome :
    (Transition.run (step hundredTicks) { now := 0 } overlappingActions).isSome := by
  decide

theorem overlappingRun_overwritesNone :
    Transition.Along (step hundredTicks) OverwritesNoReservation { now := 0 } overlappingActions := by
  simp [overlappingActions, Transition.Along, OverwritesNoReservation, step, operation, hundredTicks,
    Option.filter]

theorem oneReservation_run_overlapping :
    let s := (Transition.run (step hundredTicks) { now := 0 } overlappingActions).get overlappingRun_isSome
    Answered hundredTicks s ∧ Separated s := by
  obtain ⟨hanswered, hseparated, -⟩ := oneReservation_run hundredTicks 0 overlappingActions
    (Option.some_get overlappingRun_isSome).symm
  exact ⟨hanswered, hseparated overlappingRun_overwritesNone⟩

/-- Both calls look the key up before either assigns to it. -/
def racingActions : List Action :=
  [.operation 0, .operation 1, .operation 0, .operation 1, .operation 0, .operation 1]

theorem racingRun_isSome :
    (Transition.run (step hundredTicks) { now := 0 } racingActions).isSome := by
  decide

/-- Calls 0 and 1 both create at time 0, each with a TTL of a hundred ticks. -/
theorem two_created :
    ∃ s', Transition.run (step hundredTicks) { now := 0 } racingActions = some s' ∧
      s'.phase 0 = .created 0 100 ∧ s'.phase 1 = .created 0 100 ∧ ¬ Separated s' := by
  have h₀ : ((Transition.run (step hundredTicks) { now := 0 } racingActions).get
      racingRun_isSome).phase 0 = .created 0 100 := by
    rfl
  have h₁ : ((Transition.run (step hundredTicks) { now := 0 } racingActions).get
      racingRun_isSome).phase 1 = .created 0 100 := by
    rfl
  refine ⟨_, (Option.some_get racingRun_isSome).symm, h₀, h₁, fun hsep => ?_⟩
  rcases hsep 0 1 (by decide) _ _ _ _ h₀ h₁ with hle | hle
  · exact absurd hle (by decide)
  · exact absurd hle (by decide)

end WebhookInbox.Api.InMemory
