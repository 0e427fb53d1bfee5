import Mathlib.Data.List.Chain
import Mathlib.Data.List.Nodup
import Mathlib.Data.List.Range
import Mathlib.Order.Defs.Unbundled

/-!
# Numbered logs

Several writers append to one log. An entry has a key and a number, and no two entries have
the same key and number. A writer reads the log, numbers its entry one after an entry of its key
that it has seen, and appends later, when others may have appended as well.

`Proposed` is what such a writer knows of its entry; it stays true while the log grows. When the
log takes the entry because its number is still new, the entries of every key remain numbered
from one on, each related by `R` to the one before (`Contiguous.append`). Nothing is assumed
about how the writers take turns.
-/

namespace NumberedLog

variable {α κ : Type*} {num : α → ℤ} {R : α → α → Prop}

/-- Entries numbered from one on, each in relation to the next. -/
structure Chained (num : α → ℤ) (R : α → α → Prop) (entries : List α) : Prop where
  nums : entries.map num = (List.range entries.length).map fun i : ℕ => (i : ℤ) + 1
  chain : entries.IsChain R

namespace Chained

variable {entries : List α}

theorem nil : Chained num R [] := ⟨rfl, List.isChain_nil⟩

theorem num_getElem (h : Chained num R entries) {i : ℕ} (hi : i < entries.length) :
    num entries[i] = i + 1 := by
  have hget : (entries.map num)[i]? = some ((i : ℤ) + 1) := by simp [h.nums, hi]
  rw [List.getElem?_map, List.getElem?_eq_getElem hi] at hget
  exact Option.some.inj hget

theorem exists_getElem (h : Chained num R entries) {a : α} (ha : a ∈ entries) :
    ∃ i : ℕ, ∃ hi : i < entries.length, entries[i] = a ∧ num a = i + 1 := by
  obtain ⟨i, hi, rfl⟩ := List.getElem_of_mem ha
  exact ⟨i, hi, rfl, h.num_getElem hi⟩

/-- The numbers that occur. -/
theorem exists_num_iff (h : Chained num R entries) {n : ℤ} :
    (∃ a ∈ entries, num a = n) ↔ 1 ≤ n ∧ n ≤ entries.length := by
  constructor
  · rintro ⟨a, ha, rfl⟩
    obtain ⟨i, hi, -, hnum⟩ := h.exists_getElem ha
    omega
  · rintro ⟨hone, hle⟩
    have hlt : (n - 1).toNat < entries.length := by omega
    refine ⟨entries[(n - 1).toNat], List.getElem_mem hlt, ?_⟩
    rw [h.num_getElem hlt]
    omega

theorem eq_of_num_eq (h : Chained num R entries) {a b : α} (ha : a ∈ entries) (hb : b ∈ entries)
    (hnum : num a = num b) : a = b := by
  obtain ⟨i, hi, rfl, hi'⟩ := h.exists_getElem ha
  obtain ⟨j, hj, rfl, hj'⟩ := h.exists_getElem hb
  obtain rfl : i = j := by omega
  rfl

theorem num_getLast? (h : Chained num R entries) {a : α} (hlast : entries.getLast? = some a) :
    num a = entries.length := by
  have hne : entries ≠ [] := by
    rintro rfl
    cases hlast
  have hpos := List.length_pos_iff.mpr hne
  have hlt : entries.length - 1 < entries.length := by omega
  rw [List.getLast?_eq_getElem?, List.getElem?_eq_getElem hlt, Option.some.injEq] at hlast
  rw [← hlast, h.num_getElem hlt]
  omega

/-- With a transitive relation, an entry is related to every later one. -/
theorem rel_of_lt [IsTrans α R] (h : Chained num R entries) {a b : α} (ha : a ∈ entries)
    (hb : b ∈ entries) (hlt : num a < num b) : R a b := by
  obtain ⟨i, hi, rfl, hi'⟩ := h.exists_getElem ha
  obtain ⟨j, hj, rfl, hj'⟩ := h.exists_getElem hb
  exact List.pairwise_iff_getElem.mp h.chain.pairwise i j hi hj (by omega)

/-- A new last entry. -/
theorem append (h : Chained num R entries) {b : α} (hnum : num b = entries.length + 1)
    (hrel : ∀ a, entries.getLast? = some a → R a b) : Chained num R (entries ++ [b]) := by
  refine ⟨?_, ?_⟩
  · rw [List.map_append, h.nums, List.length_append, List.length_singleton, List.range_succ,
      List.map_append, List.map_singleton, List.map_singleton, hnum]
  · rw [List.isChain_append]
    refine ⟨h.chain, List.isChain_singleton b, fun a ha c hc => ?_⟩
    obtain rfl : b = c := by simpa using hc
    exact hrel a ha

end Chained

/-! ## Keys -/

variable [DecidableEq κ] {key : α → κ} {log : List α} {b : α}

/-- The entries of a key, in the order of the log. -/
def entries (key : α → κ) (k : κ) (log : List α) : List α := log.filter fun a => key a = k

theorem mem_entries {k : κ} {a : α} : a ∈ entries key k log ↔ a ∈ log ∧ key a = k := by
  simp [entries]

theorem entries_append_self : entries key (key b) (log ++ [b]) = entries key (key b) log ++ [b] := by
  simp [entries, List.filter_append]

theorem entries_append_of_ne {k : κ} (hk : key b ≠ k) : entries key k (log ++ [b]) = entries key k log := by
  simp [entries, List.filter_append, hk]

/-- The entries of every key form a chain. -/
def Contiguous (key : α → κ) (num : α → ℤ) (R : α → α → Prop) (log : List α) : Prop :=
  ∀ k, Chained num R (entries key k log)

/-- The entry is a first one, or it comes after an entry of the log. -/
def Proposed (key : α → κ) (num : α → ℤ) (R : α → α → Prop) (log : List α) (b : α) : Prop :=
  num b = 1 ∨ ∃ a ∈ log, key a = key b ∧ num a + 1 = num b ∧ R a b

omit [DecidableEq κ] in
/-- What a writer knows of its entry stays true while others append. -/
theorem Proposed.mono {log' : List α} (h : Proposed key num R log b) (hsub : log ⊆ log') :
    Proposed key num R log' b := by
  rcases h with hone | ⟨a, ha, hrest⟩
  · exact Or.inl hone
  · exact Or.inr ⟨a, hsub ha, hrest⟩

namespace Contiguous

theorem nil : Contiguous key num R [] := fun _ => Chained.nil

/-- An entry with a new number is the next one of its key. -/
theorem num_of_new (h : Contiguous key num R log) (hb : Proposed key num R log b)
    (hnew : ∀ a ∈ log, key a = key b → num a ≠ num b) :
    num b = (entries key (key b) log).length + 1 := by
  have hchain := h (key b)
  have hnone : ¬ (1 ≤ num b ∧ num b ≤ (entries key (key b) log).length) := by
    rw [← hchain.exists_num_iff]
    rintro ⟨a, ha, hnum⟩
    obtain ⟨ha, hkey⟩ := mem_entries.mp ha
    exact hnew a ha hkey hnum
  rcases hb with hone | ⟨a, ha, hkey, hnext, -⟩
  · omega
  · have hbound := hchain.exists_num_iff.mp ⟨a, mem_entries.mpr ⟨ha, hkey⟩, rfl⟩
    omega

/-- The entry it was proposed after is the last one of its key. -/
theorem rel_last (h : Contiguous key num R log) (hb : Proposed key num R log b)
    (hnew : ∀ a ∈ log, key a = key b → num a ≠ num b) {a : α}
    (hlast : (entries key (key b) log).getLast? = some a) : R a b := by
  have hchain := h (key b)
  have hnum := h.num_of_new hb hnew
  have hlength := hchain.num_getLast? hlast
  have hmem := List.mem_of_getLast? hlast
  rcases hb with hone | ⟨c, hc, hkey, hnext, hrel⟩
  · have hpos := (hchain.exists_num_iff.mp ⟨a, hmem, rfl⟩).1
    omega
  · obtain rfl : c = a := by
      apply hchain.eq_of_num_eq (mem_entries.mpr ⟨hc, hkey⟩) hmem
      omega
    exact hrel

/-- **One append.** -/
theorem append (h : Contiguous key num R log) (hb : Proposed key num R log b)
    (hnew : ∀ a ∈ log, key a = key b → num a ≠ num b) : Contiguous key num R (log ++ [b]) := by
  intro k
  by_cases hk : key b = k
  · subst hk
    rw [entries_append_self]
    exact (h (key b)).append (h.num_of_new hb hnew) fun a hlast => h.rel_last hb hnew hlast
  · rw [entries_append_of_ne hk]
    exact h k

/-- **A batch** that was proposed on the log before it and repeats no key and number. -/
theorem append_batch {batch : List α} (h : Contiguous key num R log)
    (hbatch : ∀ b ∈ batch, Proposed key num R log b)
    (hnodup : ((log ++ batch).map fun a => (key a, num a)).Nodup) :
    Contiguous key num R (log ++ batch) := by
  induction batch generalizing log with
  | nil =>
    rw [List.append_nil]
    exact h
  | cons b batch ih =>
    rw [List.append_cons] at hnodup ⊢
    apply ih
    · apply h.append (hbatch b List.mem_cons_self)
      intro a ha hkey hnum
      rw [List.map_append, List.nodup_append] at hnodup
      have hlog := hnodup.1
      rw [List.map_append, List.nodup_append] at hlog
      exact hlog.2.2 _ (List.mem_map_of_mem ha) _ (List.mem_singleton_self _) (by rw [hkey, hnum])
    · intro c hc
      exact (hbatch c (List.mem_cons_of_mem b hc)).mono (List.subset_append_left _ _)
    · exact hnodup

end Contiguous

end NumberedLog
