import Mathlib.Data.List.Nodup
import Mathlib.Data.List.Perm.Basic

/-!
# Tables with a unique key

A table is a list of rows together with the proof that no two rows have the same key, so
a violated key cannot be stored: `insertAll?` refuses the whole batch when it would
repeat a key, and `modify` takes the proof that the update keeps the key.
-/

/-- Rows with pairwise different keys. -/
structure Table (α κ : Type) (key : α → κ) where
  rows : List α
  nodup : (rows.map key).Nodup

namespace Table

variable {α κ : Type} {key : α → κ}

instance : EmptyCollection (Table α κ key) := ⟨⟨[], List.nodup_nil⟩⟩

/-- The table with one row. -/
def single (a : α) : Table α κ key := ⟨[a], List.nodup_singleton _⟩

theorem eq_of_key_eq (t : Table α κ key) {a b : α} (ha : a ∈ t.rows) (hb : b ∈ t.rows)
    (h : key a = key b) : a = b :=
  List.inj_on_of_nodup_map t.nodup ha hb h

variable [DecidableEq κ]

/-- The row under a key. -/
def find? (t : Table α κ key) (k : κ) : Option α := t.rows.find? fun a => key a = k

theorem find?_eq_some_iff (t : Table α κ key) {k : κ} {a : α} :
    t.find? k = some a ↔ a ∈ t.rows ∧ key a = k := by
  constructor
  · intro h
    exact ⟨List.mem_of_find?_eq_some h, by simpa using List.find?_some h⟩
  · rintro ⟨ha, rfl⟩
    cases h : t.find? (key a) with
    | none =>
      have := List.find?_eq_none.mp h a ha
      simp at this
    | some b =>
      have hb : key b = key a := by simpa using List.find?_some h
      rw [t.eq_of_key_eq (List.mem_of_find?_eq_some h) ha hb]

/-- The rows, in the order of their keys. -/
theorem filterMap_find?_perm (t : Table α κ key) {keys : List κ} (h : keys.Perm (t.rows.map key)) :
    (keys.filterMap t.find?).Perm t.rows := by
  have hall : (t.rows.map key).filterMap t.find? = t.rows := by
    have hfind : ∀ a ∈ t.rows, (t.find? ∘ key) a = some a :=
      fun a ha => t.find?_eq_some_iff.mpr ⟨ha, rfl⟩
    rw [List.filterMap_map, List.filterMap_congr hfind]
    exact List.filterMap_some
  have hperm := h.filterMap t.find?
  rwa [hall] at hperm

/-- All rows of the batch are added, or none when a key would repeat. -/
def insertAll? (t : Table α κ key) (batch : List α) : Option (Table α κ key) :=
  if h : ((t.rows ++ batch).map key).Nodup then some ⟨t.rows ++ batch, h⟩ else none

theorem insertAll?_eq_some_iff {t t' : Table α κ key} {batch : List α} :
    t.insertAll? batch = some t' ↔ t'.rows = t.rows ++ batch := by
  obtain ⟨rows, nodup⟩ := t'
  unfold insertAll?
  split
  · simp only [Option.some.injEq, mk.injEq]
    exact eq_comm
  · rename_i h
    simp only [reduceCtorEq, false_iff]
    rintro rfl
    exact h nodup

/-- The batch is accepted when its keys are distinct and new. -/
theorem insertAll?_isSome_iff {t : Table α κ key} {batch : List α} :
    (t.insertAll? batch).isSome ↔
      (batch.map key).Nodup ∧ ∀ b ∈ batch, ∀ a ∈ t.rows, key a ≠ key b := by
  have hnd := t.nodup
  unfold insertAll?
  split
  · rename_i h
    rw [List.map_append, List.nodup_append] at h
    simp only [Option.isSome_some, true_iff]
    refine ⟨h.2.1, fun b hb a ha => ?_⟩
    exact h.2.2 _ (List.mem_map_of_mem ha) _ (List.mem_map_of_mem hb)
  · rename_i h
    simp only [Option.isSome_none, Bool.false_eq_true, false_iff]
    rintro ⟨hb, hnew⟩
    apply h
    rw [List.map_append, List.nodup_append]
    refine ⟨hnd, hb, fun x hx y hy => ?_⟩
    obtain ⟨a, ha, rfl⟩ := List.mem_map.mp hx
    obtain ⟨b, hbm, rfl⟩ := List.mem_map.mp hy
    exact hnew b hbm a ha

omit [DecidableEq κ] in
/-- An update of some rows changes nothing that it does not write. -/
theorem map_ite_update {β : Type*} {g : α → β} {f : α → α} (hg : ∀ a, g (f a) = g a) (P : α → Prop)
    [DecidablePred P] (rows : List α) :
    (rows.map fun a => if P a then f a else a).map g = rows.map g := by
  rw [List.map_map]
  apply List.map_congr_left
  intro a _
  simp only [Function.comp_apply]
  split
  · exact hg a
  · rfl

/-- The row under a key is updated; every other row stays. -/
def modify (t : Table α κ key) (k : κ) (f : α → α) (hf : ∀ a, key (f a) = key a) :
    Table α κ key where
  rows := t.rows.map fun a => if key a = k then f a else a
  nodup := by
    rw [map_ite_update hf]
    exact t.nodup

theorem map_modify {β : Type*} {g : α → β} (t : Table α κ key) (k : κ) {f : α → α}
    (hf : ∀ a, key (f a) = key a) (hg : ∀ a, g (f a) = g a) :
    (t.modify k f hf).rows.map g = t.rows.map g :=
  map_ite_update hg (fun a => key a = k) t.rows

theorem find?_modify (t : Table α κ key) (k : κ) (f : α → α) (hf : ∀ a, key (f a) = key a) (k' : κ) :
    (t.modify k f hf).find? k' = if k' = k then (t.find? k').map f else t.find? k' := by
  have hcomp : (fun a => decide (key a = k')) ∘ (fun a => if key a = k then f a else a) =
      fun a => decide (key a = k') := by
    funext a
    simp only [Function.comp_apply]
    split <;> simp [hf]
  unfold find? modify
  rw [List.find?_map, hcomp]
  cases h : t.rows.find? fun a => decide (key a = k') with
  | none => simp
  | some a =>
    have ha : key a = k' := by simpa using List.find?_some h
    subst ha
    simp only [Option.map_some]
    split <;> rfl

/-- A row is put under its key: over the row that has it, or as a new one. -/
def upsert (t : Table α κ key) (a : α) : Table α κ key :=
  if h : key a ∈ t.rows.map key then
    { rows := t.rows.map fun b => if key b = key a then a else b
      nodup := by
        have hkey : (t.rows.map fun b => if key b = key a then a else b).map key = t.rows.map key := by
          rw [List.map_map]
          apply List.map_congr_left
          intro b _
          simp only [Function.comp_apply]
          split
          · rename_i he
            exact he.symm
          · rfl
        rw [hkey]
        exact t.nodup }
  else
    { rows := t.rows ++ [a]
      nodup := by
        rw [List.map_append, List.nodup_append]
        refine ⟨t.nodup, by simp, fun x hx y hy => ?_⟩
        rw [List.map_singleton, List.mem_singleton] at hy
        rintro rfl
        exact h (hy ▸ hx) }

/-- A row that is put over another one adds no key. -/
theorem keys_upsert (t : Table α κ key) {a : α} (h : key a ∈ t.rows.map key) :
    (t.upsert a).rows.map key = t.rows.map key := by
  rw [upsert, dif_pos h]
  dsimp only
  rw [List.map_map]
  apply List.map_congr_left
  intro b _
  rw [Function.comp_apply]
  split
  · rename_i heq
    exact heq.symm
  · rfl

/-- A row that is put over itself changes nothing. -/
theorem upsert_self (t : Table α κ key) {a : α} (h : a ∈ t.rows) : t.upsert a = t := by
  have hrows : (t.rows.map fun b => if key b = key a then a else b) = t.rows := by
    conv_rhs => rw [← List.map_id t.rows]
    apply List.map_congr_left
    intro b hb
    split
    · rename_i hkey
      exact t.eq_of_key_eq h hb hkey.symm
    · rfl
  unfold upsert
  rw [dif_pos (List.mem_map_of_mem h)]
  congr 1

theorem mem_upsert {t : Table α κ key} {a b : α} (h : b ∈ (t.upsert a).rows) : b ∈ t.rows ∨ b = a := by
  unfold upsert at h
  split at h
  · obtain ⟨c, hc, heq⟩ := List.mem_map.mp h
    split at heq
    · exact Or.inr heq.symm
    · exact Or.inl (heq ▸ hc)
  · rcases List.mem_append.mp h with hold | hnew
    · exact Or.inl hold
    · exact Or.inr (List.mem_singleton.mp hnew)

end Table
