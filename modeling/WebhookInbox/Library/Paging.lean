import Mathlib.Data.List.Flatten
import WebhookInbox.Library.Linq

/-!
# Pages of a list that is sorted afresh

Each page is a slice of its own list: all these lists have the same elements, in descending
order of a key, and rows with equal keys may stand in any order. The first pages then have
together the elements of one such list (`pages_perm`) when no key stands on both sides of a
boundary. When one does, two lists that differ there repeat an element
(`noTieAtBoundary_of_nodup`).
-/

namespace Paging

variable {α κ : Type*} [LinearOrder κ] {key : α → κ}

def Descending (key : α → κ) (l : List α) : Prop := l.Pairwise fun a b => key b ≤ key a

def page (size : Nat) (l : List α) (k : Nat) : List α := (l.drop (k * size)).take size

/-- The first `n` pages, each of its own list. -/
def pages (size : Nat) (lists : Nat → List α) (n : Nat) : List α :=
  (List.range n).flatMap fun k => page size (lists k) k

/-- No boundary `k * size` falls between two rows with one key `t`: the keys above `t` do not
reach up to it, those from `t` on go beyond it. -/
def NoTieAtBoundary (size : Nat) (keys : List κ) : Prop :=
  ∀ t k, ¬ (keys.countP (fun a => t < a) < k * size ∧ k * size < keys.countP fun a => t ≤ a)

theorem noTieAtBoundary_congr {size : Nat} {keys keys' : List κ} (h : keys.Perm keys') :
    NoTieAtBoundary size keys ↔ NoTieAtBoundary size keys' := by
  unfold NoTieAtBoundary
  simp only [h.countP_eq]

/-- In a sorted list the rows with a key stand behind those with greater ones. -/
theorem getElem?_eq_some_iff_countP {keys : List κ} (h : keys.Pairwise fun a b => b ≤ a) (t : κ)
    (i : Nat) : keys[i]? = some t ↔
      keys.countP (fun a => t < a) ≤ i ∧ i < keys.countP fun a => t ≤ a := by
  induction h generalizing i with
  | nil => simp
  | @cons a keys ha _ ih =>
    have hnone : a ≤ t → keys.countP (fun b => t < b) = 0 := by
      intro hle
      rw [List.countP_eq_zero]
      intro b hb
      rw [decide_eq_true_eq, not_lt]
      exact (ha b hb).trans hle
    rw [List.countP_cons, List.countP_cons]
    rcases lt_trichotomy a t with hlt | rfl | hgt
    · have hnone' : keys.countP (fun b => t ≤ b) = 0 := by
        rw [List.countP_eq_zero]
        intro b hb
        rw [decide_eq_true_eq, not_le]
        exact (ha b hb).trans_lt hlt
      rw [hnone', hnone hlt.le]
      simp only [hlt.not_gt, hlt.not_ge, decide_false]
      cases i with
      | zero => simpa using hlt.ne
      | succ i =>
        have hrest := ih i
        rw [hnone'] at hrest
        rw [List.getElem?_cons_succ, hrest]
        simp
    · simp only [lt_irrefl, le_rfl, decide_true, decide_false, if_true]
      rw [hnone le_rfl]
      cases i with
      | zero => simp
      | succ i =>
        have hrest := ih i
        rw [hnone le_rfl] at hrest
        rw [List.getElem?_cons_succ, hrest]
        simp
    · simp only [hgt, hgt.le, decide_true, if_true]
      cases i with
      | zero => simpa using hgt.ne'
      | succ i =>
        rw [List.getElem?_cons_succ, ih i]
        omega

section Tie

variable {l : List α} {size : Nat} (h : Descending key l)

include h in
theorem getElem?_boundary_ne (htie : NoTieAtBoundary size (l.map key)) {k : Nat} (hk : 0 < k * size)
    {t : κ} (ht : (l.map key)[k * size]? = some t) : (l.map key)[k * size - 1]? ≠ some t := by
  intro hprev
  rw [getElem?_eq_some_iff_countP (List.pairwise_map.mpr h)] at ht hprev
  apply htie t k
  omega

include h in
theorem exists_tie (htie : ¬ NoTieAtBoundary size (l.map key)) :
    ∃ k t, 0 < k * size ∧ (l.map key)[k * size]? = some t ∧
      (l.map key)[k * size - 1]? = some t := by
  unfold NoTieAtBoundary at htie
  push Not at htie
  obtain ⟨t, k, hlow, hhigh⟩ := htie
  refine ⟨k, t, by omega, ?_, ?_⟩ <;>
    rw [getElem?_eq_some_iff_countP (List.pairwise_map.mpr h)] <;> omega

end Tie

theorem map_eq_of_perm {l l' : List α} (h : Descending key l) (h' : Descending key l')
    (hperm : l.Perm l') : l.map key = l'.map key := by
  have hkeys : (l.map key).Pairwise (fun a b => b ≤ a) := List.pairwise_map.mpr h
  have hkeys' : (l'.map key).Pairwise (fun a b => b ≤ a) := List.pairwise_map.mpr h'
  apply List.Perm.eq_of_pairwise _ hkeys hkeys' (hperm.map key)
  exact fun a b _ _ hab hba => le_antisymm hba hab

theorem Descending.key_le {l : List α} (h : Descending key l) {i j : Nat} (hij : i ≤ j)
    (hj : j < l.length) : key l[j] ≤ key l[i] := by
  rcases Nat.eq_or_lt_of_le hij with rfl | hlt
  · exact le_rfl
  · exact List.pairwise_iff_getElem.mp h i j (by omega) hj hlt

/-- A cut between different keys takes the rows whose keys are greater than the next one. -/
theorem take_eq_filter {l : List α} (h : Descending key l) {m : Nat} (hm : 0 < m) {t : κ}
    (ht : (l.map key)[m]? = some t) (hne : (l.map key)[m - 1]? ≠ some t) :
    l.take m = l.filter fun a => t < key a := by
  rw [List.getElem?_map, Option.map_eq_some_iff] at ht
  obtain ⟨a, ha, rfl⟩ := ht
  obtain ⟨hlt, rfl⟩ := List.getElem?_eq_some_iff.mp ha
  have hprev : key l[m] < key l[m - 1] := by
    apply lt_of_le_of_ne (h.key_le (by omega) hlt)
    intro heq
    apply hne
    rw [List.getElem?_map, List.getElem?_eq_getElem (by omega), Option.map_some, heq]
  have htake : (l.take m).filter (fun b => key l[m] < key b) = l.take m := by
    rw [List.filter_eq_self]
    intro b hb
    obtain ⟨i, hi, rfl⟩ := List.mem_take_iff_getElem.mp hb
    exact decide_eq_true (lt_of_lt_of_le hprev (h.key_le (by omega) (by omega)))
  have hdrop : (l.drop m).filter (fun b => key l[m] < key b) = [] := by
    rw [List.filter_eq_nil_iff]
    intro b hb
    obtain ⟨i, hi, rfl⟩ := List.mem_drop_iff_getElem.mp hb
    rw [decide_eq_true_eq, not_lt]
    exact h.key_le (by omega) (by omega)
  calc l.take m = (l.take m).filter (fun b => key l[m] < key b) ++
        (l.drop m).filter (fun b => key l[m] < key b) := by rw [htake, hdrop, List.append_nil]
    _ = l.filter (fun b => key l[m] < key b) := by rw [← List.filter_append, List.take_append_drop]

/-- Two sorted lists of the same rows have the same first rows up to such a cut. -/
theorem take_perm {l l' : List α} (h : Descending key l) (h' : Descending key l') (hperm : l.Perm l')
    {size : Nat} (htie : NoTieAtBoundary size (l.map key)) (k : Nat) :
    (l.take (k * size)).Perm (l'.take (k * size)) := by
  rcases Nat.eq_zero_or_pos (k * size) with hzero | hk
  · rw [hzero, List.take_zero, List.take_zero]
  · rcases Nat.lt_or_ge (k * size) l.length with hlt | hge
    · have hkeys := map_eq_of_perm h h' hperm
      have hkey : (l.map key)[k * size]? = some (key l[k * size]) := by
        rw [List.getElem?_map, List.getElem?_eq_getElem hlt, Option.map_some]
      have hne := getElem?_boundary_ne h htie hk hkey
      rw [take_eq_filter h hk hkey hne, take_eq_filter h' hk (hkeys ▸ hkey) (hkeys ▸ hne)]
      exact hperm.filter _
    · rw [List.take_of_length_le hge, List.take_of_length_le (hperm.length_eq ▸ hge)]
      exact hperm

theorem take_succ_page (size : Nat) (l : List α) (k : Nat) :
    l.take ((k + 1) * size) = l.take (k * size) ++ page size l k := by
  rw [page, Nat.succ_mul, List.take_add]

theorem pages_succ (size : Nat) (lists : Nat → List α) (n : Nat) :
    pages size lists (n + 1) = pages size lists n ++ page size (lists n) n := by
  rw [pages, List.range_succ, List.flatMap_append, List.flatMap_singleton]
  rfl

section Perm

variable {l : List α} {size : Nat} {lists : Nat → List α}

/-- **The first pages** are the first rows of one list. -/
theorem pages_perm_take (hl : Descending key l) (htie : NoTieAtBoundary size (l.map key))
    (hlists : ∀ k, (lists k).Perm l ∧ Descending key (lists k)) (n : Nat) :
    (pages size lists n).Perm (l.take (n * size)) := by
  induction n with
  | zero =>
    rw [Nat.zero_mul, List.take_zero]
    rfl
  | succ n ih =>
    obtain ⟨hperm, hsorted⟩ := hlists n
    have hcut := take_perm hl hsorted hperm.symm htie n
    have hcut' := take_perm hl hsorted hperm.symm htie (n + 1)
    rw [pages_succ]
    refine ((ih.trans hcut).append_right _).trans ?_
    rw [← take_succ_page]
    exact hcut'.symm

theorem pages_perm (hl : Descending key l) (htie : NoTieAtBoundary size (l.map key))
    (hlists : ∀ k, (lists k).Perm l ∧ Descending key (lists k)) {n : Nat} (hn : l.length ≤ n * size) :
    (pages size lists n).Perm l := by
  have h := pages_perm_take hl htie hlists n
  rwa [List.take_of_length_le hn] at h

end Perm

/-! ## A tie at a boundary -/

theorem mem_page {size : Nat} {l : List α} {k i : Nat} (hi : i < l.length) (hlo : k * size ≤ i)
    (hhi : i < (k + 1) * size) : l[i] ∈ page size l k := by
  rw [Nat.succ_mul] at hhi
  apply List.mem_take_iff_getElem.mpr
  refine ⟨i - k * size, by rw [List.length_drop]; omega, ?_⟩
  rw [List.getElem_drop]
  congr 1
  omega

/-- How many keys stand above `t`. -/
def above (keys : List κ) (t : κ) : Nat := keys.countP fun x => t < x

theorem above_of_perm {keys keys' : List κ} (h : keys.Perm keys') (t : κ) : above keys t = above keys' t :=
  h.countP_eq _

theorem above_mono {keys keys' : List κ} (h : keys.Sublist keys') (t : κ) : above keys t ≤ above keys' t :=
  h.countP_le

theorem above_lt_length {keys : List κ} {t : κ} (ht : t ∈ keys) : above keys t < keys.length := by
  apply lt_of_le_of_ne List.countP_le_length
  intro heq
  have hlt := List.countP_eq_length.mp heq t ht
  exact lt_irrefl t (of_decide_eq_true hlt)

/-- A page that reaches over the rows above a key shows a row with the key. -/
theorem exists_mem_page {l : List α} (h : Descending key l) {a : α} (ha : a ∈ l) {size k : Nat}
    (hlo : k * size ≤ above (l.map key) (key a)) (hhi : above (l.map key) (key a) < (k + 1) * size) :
    ∃ b ∈ page size l k, key b = key a := by
  have hkeys : (l.map key).Pairwise (fun a b => b ≤ a) := List.pairwise_map.mpr h
  obtain ⟨j, hj⟩ := List.getElem?_of_mem (List.mem_map_of_mem (f := key) ha)
  obtain ⟨hle, hlt⟩ := (getElem?_eq_some_iff_countP hkeys (key a) j).mp hj
  have hat : (l.map key)[above (l.map key) (key a)]? = some (key a) :=
    (getElem?_eq_some_iff_countP hkeys _ _).mpr ⟨le_rfl, hle.trans_lt hlt⟩
  rw [List.getElem?_map, Option.map_eq_some_iff] at hat
  obtain ⟨b, hb, hkey⟩ := hat
  obtain ⟨hlength, rfl⟩ := List.getElem?_eq_some_iff.mp hb
  exact ⟨_, mem_page hlength hlo hhi, hkey⟩

/-- Two rows with the same key can change places. -/
theorem exists_swapped {l : List α} (hl : Descending key l) {m : Nat} (hm : 0 < m) (hlt : m < l.length)
    (htie : key l[m] = key l[m - 1]) :
    ∃ l' : List α, l'.Perm l ∧ Descending key l' ∧ l'[m]? = some l[m - 1] := by
  have hsplit : l = l.take (m - 1) ++ l[m - 1] :: l[m] :: l.drop (m + 1) := by
    have hdrop : l.drop (m - 1) = l[m - 1] :: l.drop m := by
      rw [List.drop_eq_getElem_cons (by omega)]
      congr 2
      omega
    rw [← List.drop_eq_getElem_cons hlt, ← hdrop, List.take_append_drop]
  refine ⟨l.take (m - 1) ++ l[m] :: l[m - 1] :: l.drop (m + 1), ?_, ?_, ?_⟩
  · conv_rhs => rw [hsplit]
    exact (List.Perm.swap _ _ _).append_left _
  · have hmap : (l.map key).Pairwise (fun a b => b ≤ a) := List.pairwise_map.mpr hl
    have heq : (l.take (m - 1) ++ l[m] :: l[m - 1] :: l.drop (m + 1)).map key = l.map key := by
      conv_rhs => rw [hsplit]
      rw [List.map_append, List.map_append, List.map_cons, List.map_cons, List.map_cons,
        List.map_cons, htie]
    rw [← heq] at hmap
    exact List.pairwise_map.mp hmap
  · have hlen : (l.take (m - 1)).length = m - 1 := by
      rw [List.length_take]
      omega
    rw [List.getElem?_append_right (by omega), hlen]
    have hone : m - (m - 1) = 1 := by omega
    rw [hone]
    rfl

/-- **A tie at a boundary** lets two lists show one row on both sides of it. -/
theorem exists_repeated {l : List α} (hl : Descending key l) {size : Nat}
    (htie : ¬ NoTieAtBoundary size (l.map key)) :
    ∃ k, 0 < k ∧ k * size < l.length ∧ ∃ l' : List α, l'.Perm l ∧ Descending key l' ∧
      ∃ a, a ∈ page size l (k - 1) ∧ a ∈ page size l' k := by
  obtain ⟨k, t, hpos, ht, hprev⟩ := exists_tie hl htie
  have hk : 0 < k := Nat.pos_of_mul_pos_right hpos
  have hsize : 0 < size := Nat.pos_of_mul_pos_left hpos
  rw [List.getElem?_map, Option.map_eq_some_iff] at ht hprev
  obtain ⟨a, ha, rfl⟩ := ht
  obtain ⟨b, hb, hba⟩ := hprev
  obtain ⟨hlt, rfl⟩ := List.getElem?_eq_some_iff.mp ha
  obtain ⟨hlt', rfl⟩ := List.getElem?_eq_some_iff.mp hb
  obtain ⟨l', hperm, hsorted, hget⟩ := exists_swapped hl hpos hlt hba.symm
  obtain ⟨hlt'', hget⟩ := List.getElem?_eq_some_iff.mp hget
  refine ⟨k, hk, hlt, l', hperm, hsorted, l[k * size - 1], ?_, ?_⟩
  · have hsucc : k * size = (k - 1) * size + size := by
      rw [← Nat.succ_mul]
      congr 1
      omega
    apply mem_page
    · omega
    · rw [Nat.succ_mul]
      omega
  · rw [← hget]
    apply mem_page
    · exact Nat.le_refl _
    · rw [Nat.succ_mul]
      omega

/-- Pages that show a row twice have a repeated row. -/
theorem not_nodup_pages {size : Nat} {lists : Nat → List α} {j k n : Nat} (hjk : j < k) (hkn : k < n)
    {a : α} (hj : a ∈ page size (lists j) j) (hk : a ∈ page size (lists k) k) :
    ¬ (pages size lists n).Nodup := by
  intro hnodup
  have hdisjoint := (List.nodup_flatMap.mp hnodup).2
  have hpair := List.pairwise_iff_getElem.mp hdisjoint j k (by rw [List.length_range]; omega)
    (by rw [List.length_range]; omega) hjk
  rw [List.getElem_range, List.getElem_range] at hpair
  exact hpair hj hk

/-- **No tie** stands at a boundary when the pages never repeat a row. -/
theorem noTieAtBoundary_of_nodup {l : List α} (hl : Descending key l) {size n : Nat}
    (hn : l.length ≤ n * size)
    (h : ∀ lists : Nat → List α, (∀ k, (lists k).Perm l ∧ Descending key (lists k)) →
      (pages size lists n).Nodup) : NoTieAtBoundary size (l.map key) := by
  by_contra htie
  obtain ⟨k, hk, hlt, l', hperm, hsorted, a, ha, ha'⟩ := exists_repeated hl htie
  have hkn : k < n := Nat.lt_of_mul_lt_mul_right (hlt.trans_le hn)
  have hpages := h (Function.update (fun _ => l) k l') (by
    intro j
    rcases eq_or_ne j k with rfl | hj
    · rw [Function.update_self]
      exact ⟨hperm, hsorted⟩
    · rw [Function.update_of_ne hj]
      exact ⟨List.Perm.refl l, hl⟩)
  refine not_nodup_pages (Nat.sub_lt hk Nat.one_pos) hkn (a := a) ?_ ?_ hpages
  · rwa [Function.update_of_ne (by omega)]
  · rwa [Function.update_self]

end Paging
