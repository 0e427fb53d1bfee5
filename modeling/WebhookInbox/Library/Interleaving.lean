import Mathlib.Algebra.BigOperators.Group.Finset.Piecewise
import Mathlib.Logic.Function.Basic

/-!
# Processes over a shared state

A `Cluster` is a shared state with one local state for each process. A step of a process
replaces the shared state and its own local state. `Free I D c` says that every process
satisfies `I`, which reads the shared state, and that every two processes satisfy `D`,
which does not. It is kept by a step that restores `I` for its own process and leaves `I`
to every process that is apart from it (`Free.put`).

Processes may also hold something from a time on until another one. `WindowsApart` says that
no two of them hold it at once.
-/

/-- A value read after an update is the new one, or it was there before. -/
theorem Interleaving.update_cases {ι β : Type*} [DecidableEq ι] {f : ι → β} {i j : ι} {v x : β}
    (h : Function.update f i v j = x) : (j = i ∧ v = x) ∨ (j ≠ i ∧ f j = x) := by
  by_cases hj : j = i
  · subst hj
    rw [Function.update_self] at h
    exact Or.inl ⟨rfl, h⟩
  · rw [Function.update_of_ne hj] at h
    exact Or.inr ⟨hj, h⟩

/-! ## Windows -/

namespace Interleaving

variable {ι T : Type*} [LE T] {window window' : ι → T → T → Prop}

/-- Of two windows of different processes, one has ended when the other begins. -/
def WindowsApart (window : ι → T → T → Prop) : Prop :=
  ∀ i j, i ≠ j → ∀ t d t' d', window i t d → window j t' d' → d ≤ t' ∨ d' ≤ t

theorem WindowsApart.mono (h : WindowsApart window) (hsub : ∀ i t d, window' i t d → window i t d) :
    WindowsApart window' := by
  intro i j hne t d t' d' hi hj
  exact h i j hne t d t' d' (hsub i t d hi) (hsub j t' d' hj)

/-- A window that begins when every other one has ended. -/
theorem WindowsApart.insert {i : ι} {begins : T} (h : WindowsApart window)
    (hended : ∀ j t d, window j t d → d ≤ begins)
    (hnew : ∀ j t d, window' j t d → (j = i ∧ t = begins) ∨ window j t d) : WindowsApart window' := by
  intro j k hne t d t' d' hj hk
  rcases hnew j t d hj with ⟨rfl, rfl⟩ | hj
  · rcases hnew k t' d' hk with ⟨rfl, -⟩ | hk
    · exact absurd rfl hne
    · exact Or.inr (hended k t' d' hk)
  · rcases hnew k t' d' hk with ⟨rfl, rfl⟩ | hk
    · exact Or.inl (hended j t d hj)
    · exact h j k hne t d t' d' hj hk

end Interleaving

/-! ## Clusters -/

structure Cluster (ι S L : Type*) where
  shared : S
  members : ι → L

namespace Cluster

variable {ι S L : Type*} {I : S → L → Prop} {D : L → L → Prop} {c : Cluster ι S L}

structure Free (I : S → L → Prop) (D : L → L → Prop) (c : Cluster ι S L) : Prop where
  each : ∀ i, I c.shared (c.members i)
  apart : ∀ i j, i ≠ j → D (c.members i) (c.members j)

/-- A write of someone else. -/
theorem Free.share {s : S} (h : Free I D c) (hframe : ∀ l, I c.shared l → I s l) :
    Free I D { c with shared := s } :=
  ⟨fun i => hframe _ (h.each i), h.apart⟩

variable [DecidableEq ι]

/-- The step of one process. -/
def put (c : Cluster ι S L) (i : ι) (s : S) (l : L) : Cluster ι S L where
  shared := s
  members := Function.update c.members i l

@[simp] theorem shared_put (i : ι) (s : S) (l : L) : (c.put i s l).shared = s := rfl

@[simp] theorem members_put_self (i : ι) (s : S) (l : L) : (c.put i s l).members i = l := by
  simp [put]

@[simp] theorem members_put_of_ne {i j : ι} (h : j ≠ i) (s : S) (l : L) :
    (c.put i s l).members j = c.members j := by
  simp [put, h]

/-- The number of processes with a property. -/
def count [Fintype ι] (P : L → Bool) (c : Cluster ι S L) : ℕ := ∑ i, (P (c.members i)).toNat

/-- A step changes the number by the process that takes it. -/
theorem count_put [Fintype ι] (P : L → Bool) (c : Cluster ι S L) (i : ι) (s : S) (l : L) :
    (c.put i s l).count P + (P (c.members i)).toNat = c.count P + (P l).toNat := by
  have hupdate : (fun j => (P ((c.put i s l).members j)).toNat) =
      Function.update (fun j => (P (c.members j)).toNat) i (P l).toNat :=
    Function.comp_update (fun l => (P l).toNat) c.members i l
  rw [count, count, hupdate, Finset.sum_update_of_mem (Finset.mem_univ i), Finset.sdiff_singleton_eq_erase,
    ← Finset.add_sum_erase Finset.univ (fun j => (P (c.members j)).toNat) (Finset.mem_univ i)]
  omega

/-- **Freedom from interference.** -/
theorem Free.put {i : ι} {s : S} {l : L} (h : Free I D c) (hsymm : ∀ l l', D l l' → D l' l)
    (hself : I s l) (hframe : ∀ l', D (c.members i) l' → I c.shared l' → I s l')
    (hapart : ∀ j, j ≠ i → D l (c.members j)) : Free I D (c.put i s l) := by
  constructor
  · intro j
    by_cases hj : j = i
    · subst hj
      rw [members_put_self]
      exact hself
    · rw [members_put_of_ne hj]
      exact hframe _ (h.apart i j (Ne.symm hj)) (h.each j)
  · intro j k hjk
    by_cases hj : j = i
    · subst hj
      rw [members_put_self, members_put_of_ne (Ne.symm hjk)]
      exact hapart k (Ne.symm hjk)
    · by_cases hk : k = i
      · subst hk
        rw [members_put_self, members_put_of_ne hj]
        exact hsymm _ _ (hapart j hj)
      · rw [members_put_of_ne hj, members_put_of_ne hk]
        exact h.apart j k hjk

end Cluster
