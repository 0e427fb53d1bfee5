import Mathlib.Data.List.Sort

/-!
# Ordering a query result

`orderBy` and `orderByDescending` sort by a key and keep rows of equal keys in the order
they came, as the query operators of these names do on lists in memory.
`head?_orderByDescending_eq_some_iff` reads off the first row of a descending query whose
keys are distinct: it is the row with the greatest key.
-/

namespace Linq

variable {α κ : Type*} [LinearOrder κ] {key : α → κ} {l : List α}

def orderBy (key : α → κ) (l : List α) : List α :=
  l.insertionSort fun a b => key a ≤ key b

def orderByDescending (key : α → κ) (l : List α) : List α :=
  l.insertionSort fun a b => key b ≤ key a

/-- The rows after the first `n`; all for `n ≤ 0`. -/
def skip (n : Int) (l : List α) : List α := l.drop n.toNat

/-- The first `n` rows; none for `n ≤ 0`. -/
def take (n : Int) (l : List α) : List α := l.take n.toNat

instance total_keyLe (key : α → κ) : Std.Total fun a b : α => key a ≤ key b :=
  ⟨fun a b => le_total (key a) (key b)⟩

instance isTrans_keyLe (key : α → κ) : IsTrans α fun a b : α => key a ≤ key b :=
  ⟨fun _ _ _ => le_trans⟩

instance total_keyGe (key : α → κ) : Std.Total fun a b : α => key b ≤ key a :=
  ⟨fun a b => le_total (key b) (key a)⟩

instance isTrans_keyGe (key : α → κ) : IsTrans α fun a b : α => key b ≤ key a :=
  ⟨fun _ _ _ hab hbc => le_trans hbc hab⟩

@[simp] theorem mem_orderBy {a : α} : a ∈ orderBy key l ↔ a ∈ l :=
  List.mem_insertionSort _

theorem orderBy_perm (key : α → κ) (l : List α) : (orderBy key l).Perm l :=
  List.perm_insertionSort _ l

@[simp] theorem mem_orderByDescending {a : α} : a ∈ orderByDescending key l ↔ a ∈ l :=
  List.mem_insertionSort _

theorem orderByDescending_pairwise (key : α → κ) (l : List α) :
    (orderByDescending key l).Pairwise fun a b => key b ≤ key a :=
  List.pairwise_insertionSort _ l

theorem orderByDescending_perm (key : α → κ) (l : List α) : (orderByDescending key l).Perm l :=
  List.perm_insertionSort _ l

theorem orderByDescending_of_pairwise (h : l.Pairwise fun a b => key b ≤ key a) :
    orderByDescending key l = l :=
  h.insertionSort_eq

/-- Rows may be mapped before they are ordered or after it. -/
theorem orderByDescending_map {β : Type*} (f : β → α) (l : List β) :
    orderByDescending key (l.map f) = (orderByDescending (fun b => key (f b)) l).map f :=
  (List.map_insertionSort _ _ f l fun _ _ _ _ => Iff.rfl).symm

theorem take_sublist (n : Int) (l : List α) : (take n l).Sublist l := List.take_sublist _ l

omit [LinearOrder κ] in
theorem take_ne_nil {n : Int} (hn : 1 ≤ n) (h : l ≠ []) : take n l ≠ [] := by
  rw [take, ne_eq, List.take_eq_nil_iff]
  rintro (hzero | hnil)
  · omega
  · exact h hnil

theorem head?_orderByDescending_eq_none_iff :
    (orderByDescending key l).head? = none ↔ l = [] := by
  rw [List.head?_eq_none_iff, ← List.length_eq_zero_iff, ← List.length_eq_zero_iff]
  simp [orderByDescending]

theorem head?_orderByDescending_spec {a : α} (h : (orderByDescending key l).head? = some a) :
    a ∈ l ∧ ∀ b ∈ l, key b ≤ key a := by
  obtain ⟨rest, hrest⟩ := List.head?_eq_some_iff.mp h
  have hp := orderByDescending_pairwise key l
  rw [hrest, List.pairwise_cons] at hp
  have hmem : ∀ b, b ∈ l ↔ b ∈ a :: rest := fun b => by rw [← hrest, mem_orderByDescending]
  refine ⟨(hmem a).mpr List.mem_cons_self, fun b hb => ?_⟩
  rcases List.mem_cons.mp ((hmem b).mp hb) with rfl | hb
  · exact le_rfl
  · exact hp.1 b hb

/-- The first row of a descending query over distinct keys is the row with the greatest key. -/
theorem head?_orderByDescending_eq_some_iff (hinj : ∀ a ∈ l, ∀ b ∈ l, key a = key b → a = b)
    {a : α} : (orderByDescending key l).head? = some a ↔ a ∈ l ∧ ∀ b ∈ l, key b ≤ key a := by
  refine ⟨head?_orderByDescending_spec, fun ⟨ha, hmax⟩ => ?_⟩
  cases hb : (orderByDescending key l).head? with
  | none =>
    rw [head?_orderByDescending_eq_none_iff] at hb
    rw [hb] at ha
    cases ha
  | some b =>
    obtain ⟨hbl, hbmax⟩ := head?_orderByDescending_spec hb
    rw [hinj b hbl a ha (le_antisymm (hmax b hbl) (hbmax a ha))]

end Linq
