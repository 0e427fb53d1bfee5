import Mathlib.Data.List.Nodup

/-!
# Folds over items that each touch their own key

`trace f s bs` lists the state before each step of `bs.foldl f s` with the item of that
step.

* A fold whose items have distinct keys and whose step for an item changes nothing under
  another key (`KeyedFold`): an item finds its key as the fold found it, and leaves it as
  the fold leaves it.
* A log that every step extends (`log_foldl`): the fold appends the parts of its steps.
* One cell that many items write (`cell_foldl`): the fold leaves the value of the last
  write.

The step facts may need an invariant `I` of the state, which every step keeps.
-/

namespace FoldTrace

variable {σ β κ γ : Type*} {f : σ → β → σ} {I : σ → Prop}

/-- The state before each step of the fold, with the item of the step. -/
def trace (f : σ → β → σ) : σ → List β → List (σ × β)
  | _, [] => []
  | s, b :: bs => (s, b) :: trace f (f s b) bs

@[simp] theorem trace_nil (s : σ) : trace f s [] = [] := rfl

@[simp] theorem trace_cons (s : σ) (b : β) (bs : List β) :
    trace f s (b :: bs) = (s, b) :: trace f (f s b) bs := rfl

@[simp] theorem trace_map_snd (s : σ) (bs : List β) : (trace f s bs).map Prod.snd = bs := by
  induction bs generalizing s with
  | nil => rfl
  | cons b bs ih => simp [ih]

theorem item_mem {s s' : σ} {b : β} {bs : List β} (h : (s', b) ∈ trace f s bs) : b ∈ bs := by
  have := List.mem_map_of_mem (f := Prod.snd) h
  rwa [trace_map_snd] at this

theorem exists_mem_trace {s : σ} {b : β} {bs : List β} (h : b ∈ bs) :
    ∃ s', (s', b) ∈ trace f s bs := by
  rw [← trace_map_snd (f := f) s bs] at h
  obtain ⟨⟨s', b'⟩, hmem, rfl⟩ := List.mem_map.mp h
  exact ⟨s', hmem⟩

theorem foldl_invariant_of_mem {s : σ} (bs : List β) (hI : ∀ s, ∀ b ∈ bs, I s → I (f s b)) (h : I s) :
    I (bs.foldl f s) := by
  induction bs generalizing s with
  | nil => exact h
  | cons b bs ih =>
    exact ih (fun s b' hb' => hI s b' (List.mem_cons_of_mem b hb')) (hI s b List.mem_cons_self h)

theorem foldl_invariant (hI : ∀ s b, I s → I (f s b)) {s : σ} (bs : List β) (h : I s) :
    I (bs.foldl f s) :=
  foldl_invariant_of_mem bs (fun s b _ => hI s b) h

theorem trace_invariant (hI : ∀ s b, I s → I (f s b)) {s : σ} {bs : List β} (h : I s) :
    ∀ x ∈ trace f s bs, I x.1 := by
  induction bs generalizing s with
  | nil => simp
  | cons b bs ih =>
    intro x hx
    rcases List.mem_cons.mp hx with rfl | hx
    · exact h
    · exact ih (hI s b h) x hx

theorem exists_left_of_forall₂ {R : β → γ → Prop} {l : List β} {l' : List γ}
    (h : List.Forall₂ R l l') {c : γ} (hc : c ∈ l') : ∃ b ∈ l, R b c := by
  induction h with
  | nil => cases hc
  | cons hbc _ ih =>
    rcases List.mem_cons.mp hc with rfl | hc
    · exact ⟨_, List.mem_cons_self, hbc⟩
    · obtain ⟨b, hb, hR⟩ := ih hc
      exact ⟨b, List.mem_cons_of_mem _ hb, hR⟩

theorem exists_right_of_forall₂ {R : β → γ → Prop} {l : List β} {l' : List γ}
    (h : List.Forall₂ R l l') {b : β} (hb : b ∈ l) : ∃ c ∈ l', R b c := by
  obtain ⟨c, hc, hR⟩ := exists_left_of_forall₂ (R := flip R) h.flip hb
  exact ⟨c, hc, hR⟩

theorem map_eq_of_forall₂ {δ : Type*} {R : β → γ → Prop} {l : List β} {l' : List γ} {g : β → δ}
    {g' : γ → δ} (h : List.Forall₂ R l l') (hR : ∀ b ∈ l, ∀ c, R b c → g' c = g b) :
    l'.map g' = l.map g := by
  induction h with
  | nil => rfl
  | cons hbc _ ih =>
    rw [List.map_cons, List.map_cons, hR _ List.mem_cons_self _ hbc,
      ih fun b hb => hR b (List.mem_cons_of_mem _ hb)]

/-- The keys of the parts, when a part has one item under the key of its step or none. -/
theorem map_flatten_of_forall₂ {δ : Type*} {R : β → List γ → Prop} {l : List β} {ls : List (List γ)}
    {g : γ → δ} {k : β → δ} {p : β → Bool} (h : List.Forall₂ R l ls)
    (hR : ∀ b ∈ l, ∀ c, R b c → c.map g = if p b then [k b] else []) :
    ls.flatten.map g = (l.filter p).map k := by
  induction h with
  | nil => rfl
  | @cons b c l ls hbc _ ih =>
    rw [List.flatten_cons, List.map_append, hR b List.mem_cons_self c hbc,
      ih fun b' hb' => hR b' (List.mem_cons_of_mem _ hb')]
    cases hp : p b with
    | false => rw [List.filter_cons_of_neg (by simp [hp])]; rfl
    | true => rw [List.filter_cons_of_pos hp]; rfl

/-- What the steps append to a log, step by step. -/
theorem log_foldl (log : σ → List γ) {R : σ → β → List γ → Prop} (hI : ∀ s b, I s → I (f s b))
    (hlog : ∀ s b, I s → ∃ l, R s b l ∧ log (f s b) = log s ++ l)
    {s : σ} (bs : List β) (h : I s) :
    ∃ ls, List.Forall₂ (fun x l => R x.1 x.2 l) (trace f s bs) ls ∧
      log (bs.foldl f s) = log s ++ ls.flatten := by
  induction bs generalizing s with
  | nil => exact ⟨[], .nil, by simp⟩
  | cons b bs ih =>
    obtain ⟨l, hl, heq⟩ := hlog s b h
    obtain ⟨ls, hls, hfold⟩ := ih (hI s b h)
    refine ⟨l :: ls, .cons hl hls, ?_⟩
    rw [List.foldl_cons, hfold, heq, List.flatten_cons, List.append_assoc]

/-! ## Distinct keys -/

/-- Every step keeps `I`, and changes nothing under the keys of other items. -/
structure KeyedFold (f : σ → β → σ) (I : σ → Prop) (key : β → κ) (get : σ → κ → γ) : Prop where
  keep : ∀ s b, I s → I (f s b)
  frame : ∀ s b k, I s → key b ≠ k → get (f s b) k = get s k

namespace KeyedFold

variable {key : β → κ} {get : σ → κ → γ} (hf : KeyedFold f I key get)
include hf

theorem get_foldl_of_not_mem {s : σ} {bs : List β} {k : κ} (h : I s) (hk : k ∉ bs.map key) :
    get (bs.foldl f s) k = get s k := by
  induction bs generalizing s with
  | nil => rfl
  | cons b bs ih =>
    simp only [List.map_cons, List.mem_cons, not_or] at hk
    rw [List.foldl_cons, ih (hf.keep s b h) hk.2, hf.frame s b k h (Ne.symm hk.1)]

/-- An item finds its key as the fold found it. -/
theorem get_trace {s s' : σ} {b : β} {bs : List β} (h : I s) (hnd : (bs.map key).Nodup)
    (hmem : (s', b) ∈ trace f s bs) : get s' (key b) = get s (key b) := by
  induction bs generalizing s with
  | nil => simp at hmem
  | cons a as ih =>
    obtain ⟨hna, hnd⟩ := List.nodup_cons.mp hnd
    rcases List.mem_cons.mp hmem with heq | hmem
    · cases heq
      rfl
    · have hne : key a ≠ key b := by
        intro he
        exact hna (he ▸ List.mem_map_of_mem (item_mem hmem))
      rw [ih (hf.keep s a h) hnd hmem, hf.frame s a (key b) h hne]

/-- An item leaves its key as the fold leaves it. -/
theorem get_foldl_of_trace {s s' : σ} {b : β} {bs : List β} (h : I s) (hnd : (bs.map key).Nodup)
    (hmem : (s', b) ∈ trace f s bs) : get (bs.foldl f s) (key b) = get (f s' b) (key b) := by
  induction bs generalizing s with
  | nil => simp at hmem
  | cons a as ih =>
    obtain ⟨hna, hnd⟩ := List.nodup_cons.mp hnd
    rcases List.mem_cons.mp hmem with heq | hmem
    · cases heq
      exact hf.get_foldl_of_not_mem (hf.keep _ _ h) hna
    · exact ih (hf.keep s a h) hnd hmem

end KeyedFold

/-! ## One cell, many writers -/

/-- The values written to a cell, in the order of the writes. -/
def writes (f : σ → β → σ) (write : σ → β → Option γ) (s : σ) (bs : List β) : List γ :=
  (trace f s bs).filterMap fun x => write x.1 x.2

/-- **The last writer wins.** The fold leaves in the cell what the last write put there. -/
theorem cell_foldl (cell : σ → γ) {write : σ → β → Option γ} (hI : ∀ s b, I s → I (f s b))
    (hcell : ∀ s b, I s → cell (f s b) = (write s b).getD (cell s))
    {s : σ} (bs : List β) (h : I s) :
    cell (bs.foldl f s) = (writes f write s bs).getLast?.getD (cell s) := by
  induction bs generalizing s with
  | nil => rfl
  | cons b bs ih =>
    rw [List.foldl_cons, ih (hI s b h), hcell s b h]
    unfold writes
    cases hw : write s b with
    | none => simp [hw]
    | some v =>
      simp only [trace_cons, List.filterMap_cons, hw, Option.getD_some, List.getLast?_cons]

/-- Writes that do not depend on the state are those of the items. -/
theorem writes_eq_filterMap {write : σ → β → Option γ} (w : β → Option γ) {s : σ} {bs : List β}
    (h : ∀ x ∈ trace f s bs, write x.1 x.2 = w x.2) : writes f write s bs = bs.filterMap w := by
  unfold writes
  rw [List.filterMap_congr h]
  conv_rhs => rw [← trace_map_snd (f := f) s bs, List.filterMap_map]
  rfl

/-- The last write does not depend on the order of writes that agree. -/
theorem getLast?_eq_of_perm {α : Type} {l₁ l₂ : List α} (h : l₁.Perm l₂)
    (hall : ∀ a ∈ l₁, ∀ b ∈ l₁, a = b) : l₁.getLast? = l₂.getLast? := by
  cases h₁ : l₁.getLast? with
  | none =>
    rw [List.getLast?_eq_none_iff.mp h₁] at h
    rw [h.nil_eq.symm]
    rfl
  | some a =>
    have ha : a ∈ l₁ := List.mem_of_getLast? h₁
    cases h₂ : l₂.getLast? with
    | none =>
      rw [List.getLast?_eq_none_iff.mp h₂] at h
      rw [h.eq_nil] at ha
      cases ha
    | some b => rw [hall a ha b (h.mem_iff.mpr (List.mem_of_getLast? h₂))]

end FoldTrace
