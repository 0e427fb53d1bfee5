import Mathlib.Logic.Basic
import Mathlib.Tactic.Common

/-!
# Runs of a partial step function

A system is a function `step : σ → α → Option σ`: `none` says that the action cannot
be taken in that state. A run is a list of actions, taken in order.

`Along step good s as` says that every step of the run meets a condition on the state
before it, and `Always step P s as` that every state of the run satisfies `P`. Two
rules relate them:

* `along_iff_not_bad`: when good steps keep an invariant, bad steps reach a bad state
  and bad states stay bad, the condition holds along a run exactly when the run does
  not end in a bad state;
* `always_iff_along`: when, from a state with `P`, a step leads to `P` exactly when it
  is good, `P` holds in every state of a run exactly when every step is good.

`recording step out` is the system that also keeps what its steps put out.
-/

namespace Transition

variable {σ α : Type*} {step : σ → α → Option σ} {good : σ → α → Prop}

/-- The actions of the list, in order. -/
def run (step : σ → α → Option σ) : σ → List α → Option σ
  | s, [] => some s
  | s, a :: as => (step s a).bind fun s' => run step s' as

/-- Every step of the run meets `good`. A run that is stuck has no further step. -/
def Along (step : σ → α → Option σ) (good : σ → α → Prop) : σ → List α → Prop
  | _, [] => True
  | s, a :: as => good s a ∧ ∀ s', step s a = some s' → Along step good s' as

instance decidableAlong [∀ s a, Decidable (good s a)] :
    ∀ (s : σ) (as : List α), Decidable (Along step good s as)
  | _, [] => isTrue trivial
  | s, a :: as =>
    match h : step s a with
    | none => decidable_of_iff (good s a) ⟨fun hg => ⟨hg, fun _ hs => by rw [h] at hs; cases hs⟩, And.left⟩
    | some s' =>
      have := decidableAlong s' as
      decidable_of_iff (good s a ∧ Along step good s' as)
        ⟨fun hg => ⟨hg.1, fun _ hs => by rw [h] at hs; cases hs; exact hg.2⟩,
          fun hg => ⟨hg.1, hg.2 s' h⟩⟩

/-- Every state of the run, the first one included, satisfies `P`. -/
def Always (step : σ → α → Option σ) (P : σ → Prop) : σ → List α → Prop
  | s, [] => P s
  | s, a :: as => P s ∧ ∀ s', step s a = some s' → Always step P s' as

theorem run_cons {s s'' : σ} {a : α} {as : List α} :
    run step s (a :: as) = some s'' ↔ ∃ s', step s a = some s' ∧ run step s' as = some s'' := by
  simp [run, Option.bind_eq_some_iff]

theorem run_append {s s'' : σ} {as bs : List α} :
    run step s (as ++ bs) = some s'' ↔ ∃ s', run step s as = some s' ∧ run step s' bs = some s'' := by
  induction as generalizing s with
  | nil => simp [run]
  | cons a as ih =>
    rw [List.cons_append, run_cons]
    constructor
    · rintro ⟨s₁, h₁, hrest⟩
      obtain ⟨s', hs', hlast⟩ := ih.mp hrest
      exact ⟨s', run_cons.mpr ⟨s₁, h₁, hs'⟩, hlast⟩
    · rintro ⟨s', hs', hlast⟩
      obtain ⟨s₁, h₁, hrest⟩ := run_cons.mp hs'
      exact ⟨s₁, h₁, ih.mpr ⟨s', hrest, hlast⟩⟩

/-- **Invariant rule.** What the steps meeting `good` preserve holds at the end of every
run whose steps all meet it. -/
theorem Along.invariant {I : σ → Prop} {as : List α} {s s' : σ}
    (hstep : ∀ s a s', I s → good s a → step s a = some s' → I s')
    (hgood : Along step good s as) (hI : I s) (hrun : run step s as = some s') : I s' := by
  induction as generalizing s with
  | nil =>
    cases hrun
    exact hI
  | cons a as ih =>
    obtain ⟨s₁, h₁, hrest⟩ := run_cons.mp hrun
    exact ih (hgood.2 s₁ h₁) (hstep s a s₁ hI hgood.1 h₁) hrest

/-- The invariant rule for what every step preserves. -/
theorem invariant {I : σ → Prop} {as : List α} {s s' : σ}
    (hstep : ∀ s a s', I s → step s a = some s' → I s')
    (hI : I s) (hrun : run step s as = some s') : I s' := by
  induction as generalizing s with
  | nil =>
    cases hrun
    exact hI
  | cons a as ih =>
    obtain ⟨s₁, h₁, hrest⟩ := run_cons.mp hrun
    exact ih (hstep s a s₁ hI h₁) hrest

/-- Conditions that agree on the actions of the list hold along the same runs. -/
theorem along_congr {good' : σ → α → Prop} {as : List α} {s : σ}
    (h : ∀ a ∈ as, ∀ s, good s a ↔ good' s a) : Along step good s as ↔ Along step good' s as := by
  induction as generalizing s with
  | nil => exact Iff.rfl
  | cons a as ih =>
    apply and_congr (h a List.mem_cons_self s)
    apply forall_congr'
    intro s'
    exact imp_congr_right fun _ => ih fun b hb => h b (List.mem_cons_of_mem a hb)

/-- Conditions that agree on the steps that are taken under an invariant hold along the same
runs. -/
theorem along_congr_of_invariant {good' : σ → α → Prop} {I : σ → Prop} {as : List α} {s s' : σ}
    (hI : ∀ s a s', I s → step s a = some s' → I s')
    (h : ∀ s a s', I s → step s a = some s' → (good s a ↔ good' s a)) (h₀ : I s)
    (hrun : run step s as = some s') : Along step good s as ↔ Along step good' s as := by
  induction as generalizing s with
  | nil => exact Iff.rfl
  | cons a as ih =>
    obtain ⟨s₁, h₁, hrest⟩ := run_cons.mp hrun
    have hI₁ : I s₁ := hI s a s₁ h₀ h₁
    apply and_congr (h s a s₁ h₀ h₁)
    constructor
    · intro hall s₂ h₂
      obtain rfl := Option.some.inj (h₁.symm.trans h₂)
      exact (ih hI₁ hrest).mp (hall _ h₁)
    · intro hall s₂ h₂
      obtain rfl := Option.some.inj (h₁.symm.trans h₂)
      exact (ih hI₁ hrest).mpr (hall _ h₁)

/-- The exactness rule for the runs whose steps all meet `ok`: only there a step that is not
good has to lead to a bad state. -/
theorem along_iff_not_bad_of_along {ok : σ → α → Prop} {I Bad : σ → Prop} {as : List α} {s s' : σ}
    (hok : Along step ok s as)
    (hgood : ∀ s a s', I s → good s a → step s a = some s' → I s')
    (hbad : ∀ s a s', I s → ok s a → ¬ good s a → step s a = some s' → Bad s')
    (hkeep : ∀ s a s', Bad s → step s a = some s' → Bad s')
    (hsep : ∀ s, I s → ¬ Bad s)
    (hI : I s) (hrun : run step s as = some s') : Along step good s as ↔ ¬ Bad s' := by
  constructor
  · intro h
    exact hsep s' (h.invariant hgood hI hrun)
  · intro h
    induction as generalizing s with
    | nil => trivial
    | cons a as ih =>
      obtain ⟨s₁, h₁, hrest⟩ := run_cons.mp hrun
      by_cases hg : good s a
      · refine ⟨hg, fun s₂ h₂ => ?_⟩
        obtain rfl := Option.some.inj (h₁.symm.trans h₂)
        exact ih (hok.2 _ h₁) (hgood s a _ hI hg h₁) hrest
      · exact absurd (invariant hkeep (hbad s a s₁ hI hok.1 hg h₁) hrest) h

theorem along_true (s : σ) (as : List α) : Along step (fun _ _ => True) s as := by
  induction as generalizing s with
  | nil => trivial
  | cons a as ih => exact ⟨trivial, fun s' _ => ih s'⟩

theorem along_and {ok : σ → α → Prop} {s : σ} {as : List α} :
    Along step (fun s a => good s a ∧ ok s a) s as ↔ Along step good s as ∧ Along step ok s as := by
  induction as generalizing s with
  | nil => exact ⟨fun _ => ⟨trivial, trivial⟩, fun _ => trivial⟩
  | cons a as ih =>
    constructor
    · rintro ⟨⟨hgood, hok⟩, hrest⟩
      exact ⟨⟨hgood, fun s' hs' => (ih.mp (hrest s' hs')).1⟩, hok, fun s' hs' => (ih.mp (hrest s' hs')).2⟩
    · rintro ⟨⟨hgood, hgoods⟩, hok, hoks⟩
      exact ⟨⟨hgood, hok⟩, fun s' hs' => ih.mpr ⟨hgoods s' hs', hoks s' hs'⟩⟩

/-- A condition on the actions alone. -/
theorem along_of_forall {as : List α} (h : ∀ a ∈ as, ∀ s, good s a) (s : σ) : Along step good s as :=
  (along_congr fun a ha s => iff_of_true trivial (h a ha s)).mp (along_true s as)

/-- **Exactness rule.** The condition holds along a run exactly when the run does not
end in a bad state. -/
theorem along_iff_not_bad {I Bad : σ → Prop} {as : List α} {s s' : σ}
    (hgood : ∀ s a s', I s → good s a → step s a = some s' → I s')
    (hbad : ∀ s a s', I s → ¬ good s a → step s a = some s' → Bad s')
    (hkeep : ∀ s a s', Bad s → step s a = some s' → Bad s')
    (hsep : ∀ s, I s → ¬ Bad s)
    (hI : I s) (hrun : run step s as = some s') : Along step good s as ↔ ¬ Bad s' :=
  along_iff_not_bad_of_along (along_true s as) hgood (fun s a s' hs _ => hbad s a s' hs) hkeep hsep hI hrun

theorem Always.head {P : σ → Prop} {s : σ} {as : List α} (h : Always step P s as) : P s := by
  cases as with
  | nil => exact h
  | cons a as => exact h.1

theorem Always.last {P : σ → Prop} {s s' : σ} {as : List α} (h : Always step P s as)
    (hrun : run step s as = some s') : P s' := by
  induction as generalizing s with
  | nil =>
    cases hrun
    exact h
  | cons a as ih =>
    obtain ⟨s₁, h₁, hrest⟩ := run_cons.mp hrun
    exact ih (h.2 s₁ h₁) hrest

/-- What an invariant of the good steps implies holds in every state of a run of them. -/
theorem Along.always {I P : σ → Prop} {as : List α} {s : σ}
    (hstep : ∀ s a s', I s → good s a → step s a = some s' → I s') (hP : ∀ s, I s → P s)
    (hgood : Along step good s as) (hI : I s) : Always step P s as := by
  induction as generalizing s with
  | nil => exact hP s hI
  | cons a as ih =>
    exact ⟨hP s hI, fun s₁ h₁ => ih (hgood.2 s₁ h₁) (hstep s a s₁ hI hgood.1 h₁)⟩

/-- **Stepwise exactness.** If a step from a state with `P` leads to `P` exactly when it
is good, then `P` holds in every state of a run exactly when every step is good. -/
theorem always_iff_along {P I : σ → Prop} {as : List α} {s s' : σ}
    (hI : ∀ s a s', I s → step s a = some s' → I s')
    (hstep : ∀ s a s', I s → P s → step s a = some s' → (P s' ↔ good s a))
    (h₀ : I s) (hP : P s) (hrun : run step s as = some s') :
    Always step P s as ↔ Along step good s as := by
  induction as generalizing s with
  | nil => exact iff_of_true hP trivial
  | cons a as ih =>
    obtain ⟨s₁, h₁, hrest⟩ := run_cons.mp hrun
    have hI₁ : I s₁ := hI s a s₁ h₀ h₁
    have heq : ∀ s₂, step s a = some s₂ → s₂ = s₁ := fun s₂ h₂ => Option.some.inj (h₂.symm.trans h₁)
    constructor
    · rintro ⟨-, hall⟩
      have hgood : good s a := (hstep s a s₁ h₀ hP h₁).mp (hall s₁ h₁).head
      have hP₁ : P s₁ := (hstep s a s₁ h₀ hP h₁).mpr hgood
      refine ⟨hgood, fun s₂ h₂ => ?_⟩
      obtain rfl := heq s₂ h₂
      exact (ih hI₁ hP₁ hrest).mp (hall _ h₁)
    · rintro ⟨hgood, hall⟩
      have hP₁ : P s₁ := (hstep s a s₁ h₀ hP h₁).mpr hgood
      refine ⟨hP, fun s₂ h₂ => ?_⟩
      obtain rfl := heq s₂ h₂
      exact (ih hI₁ hP₁ hrest).mpr (hall _ h₁)

/-! ## Records -/

/-- The steps of the system, with a record of what each of them puts out. -/
def recording {β : Type*} (step : σ → α → Option σ) (out : σ → α → List β) (s : σ × List β) (a : α) :
    Option (σ × List β) :=
  (step s.1 a).map fun s' => (s', s.2 ++ out s.1 a)

theorem recording_eq_some_iff {β : Type*} {out : σ → α → List β} {s s' : σ × List β} {a : α} :
    recording step out s a = some s' ↔ step s.1 a = some s'.1 ∧ s'.2 = s.2 ++ out s.1 a := by
  rw [recording, Option.map_eq_some_iff]
  constructor
  · rintro ⟨s₁, hstep, rfl⟩
    exact ⟨hstep, rfl⟩
  · rintro ⟨hstep, hrecord⟩
    exact ⟨s'.1, hstep, by rw [← hrecord]⟩

theorem record_grows {β : Type*} {out : σ → α → List β} {as : List α} {s s' : σ × List β}
    (hrun : run (recording step out) s as = some s') : s.2 <+: s'.2 := by
  induction as generalizing s with
  | nil =>
    cases hrun
    exact List.prefix_rfl
  | cons a as ih =>
    obtain ⟨s₁, h₁, hrest⟩ := run_cons.mp hrun
    have hout := (recording_eq_some_iff.mp h₁).2
    exact (hout ▸ List.prefix_append s.2 _).trans (ih hrest)

theorem run_of_recording {β : Type*} {out : σ → α → List β} {as : List α} {s s' : σ × List β}
    (hrun : run (recording step out) s as = some s') : run step s.1 as = some s'.1 := by
  induction as generalizing s with
  | nil =>
    cases hrun
    rfl
  | cons a as ih =>
    obtain ⟨s₁, h₁, hrest⟩ := run_cons.mp hrun
    exact run_cons.mpr ⟨s₁.1, (recording_eq_some_iff.mp h₁).1, ih hrest⟩

/-- What an action of the run has put out is in the record. -/
theorem exists_out_subset {β : Type*} {out : σ → α → List β} {as : List α} {s s' : σ × List β}
    (hrun : run (recording step out) s as = some s') {a : α} (ha : a ∈ as) : ∃ t, out t a ⊆ s'.2 := by
  obtain ⟨before, after, rfl⟩ := List.append_of_mem ha
  obtain ⟨s₁, -, hrest⟩ := run_append.mp hrun
  obtain ⟨s₂, h₂, hlast⟩ := run_cons.mp hrest
  have hout := (recording_eq_some_iff.mp h₂).2
  refine ⟨s₁.1, fun b hb => (record_grows hlast).subset ?_⟩
  rw [hout]
  exact List.mem_append_right _ hb

/-- What holds of the whole record, and of the beginnings of a record it holds of, holds at every step. -/
theorem along_of_record {β : Type*} {out : σ → α → List β} {P : List β → Prop} {as : List α}
    {s s' : σ × List β} (hP : ∀ l l', l <+: l' → P l' → P l)
    (hrun : run (recording step out) s as = some s') (hend : P s'.2) :
    Along (recording step out) (fun s a => P (s.2 ++ out s.1 a)) s as := by
  induction as generalizing s with
  | nil => trivial
  | cons a as ih =>
    obtain ⟨s₁, h₁, hrest⟩ := run_cons.mp hrun
    have hout := (recording_eq_some_iff.mp h₁).2
    refine ⟨hP _ _ (hout ▸ record_grows hrest) hend, fun s₂ h₂ => ?_⟩
    obtain rfl := Option.some.inj (h₁.symm.trans h₂)
    exact ih hrest

end Transition
