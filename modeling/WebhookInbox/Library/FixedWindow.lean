import Mathlib.Data.List.Dedup

/-!
# Fixed-window limiters

A limiter decides, in one window, about a sequence of arrivals. Each arrival names its
partition: a key, and the permit limit for the case that it is the first one of its key,
since the first arrival of a key sets up the counter of the key. `Within` is what a
fixed window promises: of the arrivals of one key no more are admitted than the first one's
limit. `counter` is the limiter that counts, and keeps the promise (`counter_keeps`).
-/

namespace FixedWindow

variable {κ α : Type*} [DecidableEq κ]

structure Partition (κ : Type*) where
  key : κ
  permitLimit : Nat
  deriving DecidableEq, Repr

/-- The arrivals of a window in order, with the decision about each. -/
abbrev Log (κ : Type*) := List (Partition κ × Bool)

namespace Log

/-- The arrival that set up the counter of a key. -/
def opener? (log : Log κ) (key : κ) : Option (Partition κ) :=
  (log.find? fun x => x.1.key = key).map Prod.fst

/-- The number of admitted arrivals of a key. -/
def taken (log : Log κ) (key : κ) : Nat := log.countP fun x => x.1.key = key ∧ x.2 = true

def Within (log : Log κ) : Prop :=
  ∀ key first, log.opener? key = some first → log.taken key ≤ first.permitLimit

theorem taken_append (log log' : Log κ) (key : κ) :
    (log ++ log').taken key = log.taken key + log'.taken key := List.countP_append

theorem opener?_append (log log' : Log κ) (key : κ) :
    (log ++ log').opener? key = (log.opener? key).or (log'.opener? key) := by
  unfold opener?
  rw [List.find?_append]
  cases log.find? fun x => decide (x.1.key = key) <;> rfl

theorem taken_eq_zero_of_opener? {log : Log κ} {key : κ} (h : log.opener? key = none) :
    log.taken key = 0 := by
  unfold opener? at h
  rw [Option.map_eq_none_iff, List.find?_eq_none] at h
  apply List.countP_eq_zero.mpr
  intro x hx
  simp only [decide_eq_true_eq, not_and] at h ⊢
  exact fun hkey => absurd hkey (h x hx)

theorem within_nil : Within ([] : Log κ) := fun _ _ h => by cases h

end Log

/-- A limiter that keeps the promise in every window. -/
def Keeps (limiter : List (Partition κ) → List Bool) : Prop :=
  ∀ ps : List (Partition κ), Log.Within (ps.zip (limiter ps))

/-! ## The limiter that counts -/

/-- The decision about an arrival after a log. -/
def admits (log : Log κ) (p : Partition κ) : Bool :=
  decide (log.taken p.key < ((log.opener? p.key).getD p).permitLimit)

def counterFrom : Log κ → List (Partition κ) → List Bool
  | _, [] => []
  | log, p :: ps => admits log p :: counterFrom (log ++ [(p, admits log p)]) ps

def counter (ps : List (Partition κ)) : List Bool := counterFrom [] ps

/-- **One arrival.** -/
theorem within_admits {log : Log κ} (h : log.Within) (p : Partition κ) :
    Log.Within (log ++ [(p, admits log p)]) := by
  intro key first hfirst
  rw [Log.opener?_append] at hfirst
  rw [Log.taken_append]
  by_cases hkey : p.key = key
  · subst hkey
    have hone : Log.taken [(p, admits log p)] p.key = if admits log p then 1 else 0 := by
      unfold Log.taken
      rw [List.countP_singleton]
      cases admits log p <;> simp
    rw [hone]
    cases hopener : log.opener? p.key with
    | none =>
      have hzero := Log.taken_eq_zero_of_opener? hopener
      have hnew : Log.opener? [(p, admits log p)] p.key = some p := by simp [Log.opener?]
      rw [hopener, hnew] at hfirst
      cases hfirst
      rw [hzero]
      split
      · rename_i hadmits
        simp only [admits, hopener, hzero, Option.getD_none, decide_eq_true_eq] at hadmits
        omega
      · omega
    | some opener =>
      obtain rfl : opener = first := by simpa [hopener] using hfirst
      have hwithin := h p.key opener hopener
      split
      · rename_i hadmits
        simp only [admits, hopener, Option.getD_some, decide_eq_true_eq] at hadmits
        omega
      · omega
  · have hzero : Log.taken [(p, admits log p)] key = 0 := by simp [Log.taken, hkey]
    have hother : Log.opener? [(p, admits log p)] key = none := by simp [Log.opener?, hkey]
    rw [hother, Option.or_none] at hfirst
    rw [hzero]
    exact h key first hfirst

theorem counterFrom_within {log : Log κ} (h : log.Within) (ps : List (Partition κ)) :
    Log.Within (log ++ ps.zip (counterFrom log ps)) := by
  induction ps generalizing log with
  | nil =>
    rw [List.zip_nil_left, List.append_nil]
    exact h
  | cons p ps ih =>
    have hrest := ih (within_admits h p)
    rwa [List.append_assoc, List.singleton_append] at hrest

/-- **The counting limiter keeps the promise.** -/
theorem counter_keeps : Keeps (counter : List (Partition κ) → List Bool) :=
  fun ps => counterFrom_within Log.within_nil ps

/-! ## Counting by groups -/

/-- Items that fall into a few groups of bounded size are few. -/
theorem countP_le_mul_length (group : α → κ) {P : α → Bool} {B : Nat} {l : List α} (groups : List κ)
    (hgroup : ∀ a ∈ l, P a = true → group a ∈ groups)
    (hB : ∀ k ∈ groups, l.countP (fun a => P a && decide (group a = k)) ≤ B) :
    l.countP P ≤ B * groups.length := by
  induction groups generalizing P with
  | nil =>
    have hzero : l.countP P = 0 :=
      List.countP_eq_zero.mpr fun a ha hP => List.not_mem_nil (hgroup a ha hP)
    omega
  | cons k groups ih =>
    have hrest := ih (P := fun a => P a && !decide (group a = k)) ?_ ?_
    · have hsplit : l.countP P = l.countP (fun a => P a && decide (group a = k)) +
          l.countP (fun a => P a && !decide (group a = k)) := by
        have hfilter := List.countP_eq_countP_filter_add l P fun a => decide (group a = k)
        rwa [List.countP_filter, List.countP_filter] at hfilter
      have hk := hB k List.mem_cons_self
      rw [List.length_cons, Nat.mul_succ]
      omega
    · intro a ha hP
      rw [Bool.and_eq_true] at hP
      have hmem := hgroup a ha hP.1
      rcases List.mem_cons.mp hmem with heq | hmem
      · simp [heq] at hP
      · exact hmem
    · intro k' hk'
      refine Nat.le_trans (List.countP_mono_left fun a _ h => ?_) (hB k' (List.mem_cons_of_mem k hk'))
      simp only [Bool.and_eq_true] at h ⊢
      exact ⟨h.1.1, h.2⟩

end FixedWindow
