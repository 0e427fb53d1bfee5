import WebhookInbox.Library.Transition

/-!
# Forward simulation along a run

`Simulates step next R s t as` says that an abstract machine follows the run `as` from
`s`: it starts in `t`, at every action it stays where it is or takes one step of its own,
and `R` relates the two states all along. The abstract machine follows every run whose
actions keep an invariant that implies `R` (`simulates`), and where it has no step left,
it stays for the rest of the run (`Simulates.last_of_final`).

Where the steps of one system are runs of another one, so are its runs (`exists_run`).
-/

namespace Transition

variable {σ τ α β : Type*} {step : σ → α → Option σ} {next : τ → β → Option τ} {R : σ → τ → Prop}

def Simulates (step : σ → α → Option σ) (next : τ → β → Option τ) (R : σ → τ → Prop) :
    σ → τ → List α → Prop
  | s, t, [] => R s t
  | s, t, a :: as => R s t ∧ ∀ s', step s a = some s' →
      ∃ t', (t' = t ∨ ∃ b, next t b = some t') ∧ Simulates step next R s' t' as

/-- **Simulation rule.** -/
theorem simulates {I : σ → τ → Prop} {good : α → Prop} {as : List α} {s : σ} {t : τ}
    (hR : ∀ s t, I s t → R s t)
    (hstep : ∀ s t a s', I s t → good a → step s a = some s' →
      ∃ t', (t' = t ∨ ∃ b, next t b = some t') ∧ I s' t')
    (hgood : ∀ a ∈ as, good a) (h : I s t) : Simulates step next R s t as := by
  induction as generalizing s t with
  | nil => exact hR s t h
  | cons a as ih =>
    refine ⟨hR s t h, fun s' hs' => ?_⟩
    obtain ⟨t', hmatch, h'⟩ := hstep s t a s' h (hgood a List.mem_cons_self) hs'
    exact ⟨t', hmatch, ih (fun b hb => hgood b (List.mem_cons_of_mem a hb)) h'⟩

namespace Simulates

theorem head {s : σ} {t : τ} {as : List α} (h : Simulates step next R s t as) : R s t := by
  cases as with
  | nil => exact h
  | cons a as => exact h.1

/-- The rest of a run is followed from where the machine has come to. -/
theorem rest {as bs : List α} {s s' : σ} {t : τ} (h : Simulates step next R s t (as ++ bs))
    (hrun : run step s as = some s') : ∃ t', Simulates step next R s' t' bs := by
  induction as generalizing s t with
  | nil =>
    cases hrun
    exact ⟨t, h⟩
  | cons a as ih =>
    obtain ⟨s₁, h₁, hrest⟩ := run_cons.mp hrun
    obtain ⟨t₁, -, hfollow⟩ := h.2 s₁ h₁
    exact ih hfollow hrest

/-- A machine without a step left is still there at the end. -/
theorem last_of_final {as : List α} {s s' : σ} {t : τ} (h : Simulates step next R s t as)
    (hfinal : ∀ b, next t b = none) (hrun : run step s as = some s') : R s' t := by
  induction as generalizing s with
  | nil =>
    cases hrun
    exact h
  | cons a as ih =>
    obtain ⟨s₁, h₁, hrest⟩ := run_cons.mp hrun
    obtain ⟨t₁, hmatch, hfollow⟩ := h.2 s₁ h₁
    rcases hmatch with rfl | ⟨b, hb⟩
    · exact ih hfollow hrest
    · rw [hfinal b] at hb
      cases hb

end Simulates

/-- **Projection rule.** -/
theorem exists_run (f : σ → τ)
    (hstep : ∀ s a s', step s a = some s' → ∃ bs, run next (f s) bs = some (f s'))
    {as : List α} {s s' : σ} (hrun : run step s as = some s') :
    ∃ bs, run next (f s) bs = some (f s') := by
  induction as generalizing s with
  | nil =>
    cases hrun
    exact ⟨[], rfl⟩
  | cons a as ih =>
    obtain ⟨s₁, h₁, hrest⟩ := run_cons.mp hrun
    obtain ⟨bs, hbs⟩ := hstep s a s₁ h₁
    obtain ⟨bs', hbs'⟩ := ih hrest
    exact ⟨bs ++ bs', run_append.mpr ⟨f s₁, hbs, hbs'⟩⟩

end Transition
