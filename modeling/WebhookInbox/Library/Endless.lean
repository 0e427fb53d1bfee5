import Mathlib.Data.Nat.Count
import Mathlib.Data.Set.Card
import WebhookInbox.Library.Transition

/-!
# Runs without end

A run without end is a sequence of states and a sequence of actions, each action leading
from its state to the next one. `Endless.encard_le_of_gauge` bounds how often an action of
some kind can be taken: when a gauge is raised by every such step, lowered by none and
never above `B`, there are at most `B` such steps in the whole run.
-/

namespace Transition

/-- A property that held at most `B` times up to every moment holds at most `B` times. -/
theorem encard_le_of_count_le {P : Nat → Prop} [DecidablePred P] {B : Nat}
    (h : ∀ n, Nat.count P n ≤ B) : {i | P i}.encard ≤ B := by
  by_contra hmore
  obtain ⟨t, ht, hcard⟩ := Set.exists_subset_encard_eq (Order.add_one_le_of_lt (not_le.mp hmore))
  have hfin : t.Finite := Set.finite_of_encard_eq_coe (k := B + 1) (by rw [hcard]; rfl)
  obtain ⟨n, hn⟩ := hfin.toFinset.exists_nat_subset_range
  have hsub : hfin.toFinset ⊆ (Finset.range n).filter P := by
    intro i hi
    rw [Finset.mem_filter]
    exact ⟨hn hi, ht (hfin.mem_toFinset.mp hi)⟩
  have hle := Finset.card_le_card hsub
  rw [← Nat.count_eq_card_filter_range] at hle
  have hcard' : hfin.toFinset.card = B + 1 := by
    have heq := hfin.encard_eq_coe_toFinset_card
    rw [hcard] at heq
    exact_mod_cast heq.symm
  have := h n
  omega

/-- What holds finitely often does not hold from some moment on. -/
theorem exists_forall_not_of_finite {P : Nat → Prop} (h : {i | P i}.Finite) : ∃ n, ∀ i, n ≤ i → ¬ P i := by
  obtain ⟨n, hn⟩ := h.toFinset.exists_nat_subset_range
  refine ⟨n, fun i hi hP => ?_⟩
  have hlt := Finset.mem_range.mp (hn (h.mem_toFinset.mpr hP))
  omega

/-- Up to every moment, a gauge has been raised as often as a step that raises it was taken. -/
theorem count_le_gauge {P : Nat → Prop} [DecidablePred P] (gauge : Nat → Nat)
    (hle : ∀ i, gauge i ≤ gauge (i + 1)) (hlt : ∀ i, P i → gauge i < gauge (i + 1)) (n : Nat) :
    Nat.count P n ≤ gauge n := by
  induction n with
  | zero => simp
  | succ n ih =>
    rw [Nat.count_succ]
    have hn := hle n
    split
    · rename_i hcounted
      have := hlt n hcounted
      omega
    · omega

/-- A gauge that is raised again and again passes every bound. -/
theorem exists_le_gauge {P : Nat → Prop} (hoften : ∀ n, ∃ i, n ≤ i ∧ P i) (gauge : Nat → Nat) {start : Nat}
    (hle : ∀ i, start ≤ i → gauge i ≤ gauge (i + 1))
    (hlt : ∀ i, start ≤ i → P i → gauge i < gauge (i + 1)) (m : Nat) :
    ∃ i, start ≤ i ∧ P i ∧ m ≤ gauge i := by
  induction m with
  | zero =>
    obtain ⟨i, hi, hP⟩ := hoften start
    exact ⟨i, hi, hP, Nat.zero_le _⟩
  | succ m ih =>
    obtain ⟨i, hi, hP, hm⟩ := ih
    have hmono : ∀ j, i + 1 ≤ j → gauge (i + 1) ≤ gauge j := by
      intro j hj
      induction j, hj using Nat.le_induction with
      | base => exact le_rfl
      | succ j hj ihj => exact ihj.trans (hle j (by omega))
    obtain ⟨j, hj, hPj⟩ := hoften (i + 1)
    have hraised := hlt i hi hP
    have hlater := hmono j hj
    exact ⟨j, by omega, hPj, by omega⟩

/-- What lowers a measure that is never raised happens finitely often. -/
theorem finite_of_lowers {P : Nat → Prop} (measure : Nat → Nat) (start : Nat)
    (hle : ∀ i, start ≤ i → measure (i + 1) ≤ measure i)
    (hlt : ∀ i, start ≤ i → P i → measure (i + 1) < measure i) : {i | P i}.Finite := by
  by_contra hinf
  have hoften : ∀ n, ∃ i, n ≤ i ∧ P i := by
    intro n
    by_contra hnone
    apply hinf
    exact (Set.finite_lt_nat n).subset fun i hP => not_le.mp fun hi => hnone ⟨i, hi, hP⟩
  have hbelow : ∀ i, start ≤ i → measure i ≤ measure start := by
    intro i hi
    induction i, hi using Nat.le_induction with
    | base => exact le_rfl
    | succ i hi ih => exact (hle i hi).trans ih
  obtain ⟨i, hi, -, hmany⟩ := exists_le_gauge hoften (fun i => measure start - measure i)
    (fun i hi => Nat.sub_le_sub_left (hle i hi) _)
    (fun i hi hP => by
      have hlower := hlt i hi hP
      have hstart := hbelow i hi
      omega) (measure start + 1)
  have hgauge : measure start - measure i ≤ measure start := Nat.sub_le _ _
  exact absurd (hmany.trans hgauge) (by omega)

/-- What always leads to something that happens finitely often is over at some moment. -/
theorem exists_forall_not_of_leadsTo {P Q : Nat → Prop} (hfin : {i | Q i}.Finite)
    (h : ∀ i, P i → ∃ j, i ≤ j ∧ Q j) : ∃ n, ∀ i, n ≤ i → ¬ P i := by
  obtain ⟨n, hn⟩ := exists_forall_not_of_finite hfin
  refine ⟨n, fun i hi hP => ?_⟩
  obtain ⟨j, hj, hQ⟩ := h i hP
  exact hn j (hi.trans hj) hQ

variable {σ α : Type*} {step : σ → α → Option σ} {states : Nat → σ} {actions : Nat → α}

/-- Every action leads from its state to the next one. -/
def Endless (step : σ → α → Option σ) (states : Nat → σ) (actions : Nat → α) : Prop :=
  ∀ i, step (states i) (actions i) = some (states (i + 1))

namespace Endless

variable {I : σ → Prop} {good counted : σ → α → Prop} {gauge : σ → Nat} {B : Nat}

variable (good) in
/-- What the steps meeting `good` preserve holds in every state. -/
theorem invariant (hrun : Endless step states actions) (hgood : ∀ i, good (states i) (actions i))
    (hstep : ∀ s a s', I s → good s a → step s a = some s' → I s') (hI : I (states 0)) (i : Nat) :
    I (states i) := by
  induction i with
  | zero => exact hI
  | succ i ih => exact hstep _ _ _ ih (hgood i) (hrun i)

variable (good gauge) in
/-- **Gauge rule.** -/
theorem encard_le_of_gauge (hrun : Endless step states actions)
    (hgood : ∀ i, good (states i) (actions i))
    (hkeep : ∀ s a s', I s → good s a → step s a = some s' → I s') (hI : I (states 0))
    (hle : ∀ s a s', I s → good s a → step s a = some s' → gauge s ≤ gauge s')
    (hlt : ∀ s a s', I s → good s a → counted s a → step s a = some s' → gauge s < gauge s')
    (hB : ∀ s, I s → gauge s ≤ B) : {i | counted (states i) (actions i)}.encard ≤ B := by
  classical
  have hinv := hrun.invariant good hgood hkeep hI
  apply encard_le_of_count_le
  intro n
  have hcount := count_le_gauge (P := fun i => counted (states i) (actions i))
    (fun i => gauge (states i)) (fun i => hle _ _ _ (hinv i) (hgood i) (hrun i))
    (fun i hi => hlt _ _ _ (hinv i) (hgood i) hi (hrun i)) n
  exact hcount.trans (hB _ (hinv n))

end Endless

end Transition
