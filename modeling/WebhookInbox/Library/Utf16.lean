import Mathlib.Tactic.Common

/-!
# UTF-16

A list of code units is well formed when every surrogate stands in a pair. A prefix of a
well-formed list is well formed unless the cut goes through a pair
(`isWellFormed_take_iff`).
-/

namespace Utf16

def isHighSurrogate (u : UInt16) : Bool := 0xD800 ≤ u.toNat && u.toNat ≤ 0xDBFF

def isLowSurrogate (u : UInt16) : Bool := 0xDC00 ≤ u.toNat && u.toNat ≤ 0xDFFF

def encodeChar (c : Char) : List UInt16 :=
  if c.toNat < 0x10000 then [UInt16.ofNat c.toNat]
  else
    [UInt16.ofNat (0xD800 + (c.toNat - 0x10000) / 0x400),
      UInt16.ofNat (0xDC00 + (c.toNat - 0x10000) % 0x400)]

def encode (text : List Char) : List UInt16 := text.flatMap encodeChar

/-- The code units of some text. -/
def WellFormed (units : List UInt16) : Prop := ∃ text, encode text = units

def isWellFormed : List UInt16 → Bool
  | [] => true
  | [u] => !isHighSurrogate u && !isLowSurrogate u
  | u :: v :: units =>
    if isHighSurrogate u then isLowSurrogate v && isWellFormed units
    else !isLowSurrogate u && isWellFormed (v :: units)

theorem isHighSurrogate_iff {u : UInt16} :
    isHighSurrogate u = true ↔ 0xD800 ≤ u.toNat ∧ u.toNat ≤ 0xDBFF := by
  simp [isHighSurrogate]

theorem isLowSurrogate_iff {u : UInt16} :
    isLowSurrogate u = true ↔ 0xDC00 ≤ u.toNat ∧ u.toNat ≤ 0xDFFF := by
  simp [isLowSurrogate]

/-- A unit that is no high surrogate stands alone. -/
theorem isWellFormed_cons {u : UInt16} (hu : isHighSurrogate u = false) (units : List UInt16) :
    isWellFormed (u :: units) = (!isLowSurrogate u && isWellFormed units) := by
  cases units with
  | nil => simp [isWellFormed, hu]
  | cons v units => simp [isWellFormed, hu]

theorem isWellFormed_pair {u v : UInt16} (hu : isHighSurrogate u = true) (units : List UInt16) :
    isWellFormed (u :: v :: units) = (isLowSurrogate v && isWellFormed units) := by
  simp [isWellFormed, hu]

theorem isHighSurrogate_of_low {u : UInt16} (h : isLowSurrogate u = true) : isHighSurrogate u = false := by
  rw [← Bool.not_eq_true, isHighSurrogate_iff]
  rw [isLowSurrogate_iff] at h
  omega

/-! ## Texts -/

/-- A unit that is no surrogate is the whole of a character. -/
theorem encodeChar_of_mem {c : Char} {u : UInt16} (h : u ∈ encodeChar c) (hu : u.toNat < 0xD800) :
    encodeChar c = [u] ∧ c.toNat = u.toNat := by
  have hvalid : c.toNat < 0xD800 ∨ 0xDFFF < c.toNat ∧ c.toNat < 0x110000 := c.valid
  unfold encodeChar at h ⊢
  split
  · rename_i hsmall
    rw [if_pos hsmall, List.mem_singleton] at h
    rw [h, UInt16.toNat_ofNat']
    exact ⟨rfl, by omega⟩
  · rename_i hlarge
    rw [if_neg hlarge, List.mem_cons, List.mem_singleton] at h
    rcases h with rfl | rfl
    · rw [UInt16.toNat_ofNat'] at hu
      omega
    · rw [UInt16.toNat_ofNat'] at hu
      omega

theorem isWellFormed_encodeChar (c : Char) (units : List UInt16) :
    isWellFormed (encodeChar c ++ units) = isWellFormed units := by
  have hvalid : c.toNat < 0xD800 ∨ 0xDFFF < c.toNat ∧ c.toNat < 0x110000 := c.valid
  unfold encodeChar
  split
  · rename_i hsmall
    have hunit : (UInt16.ofNat c.toNat).toNat = c.toNat := by
      rw [UInt16.toNat_ofNat']
      omega
    have hhigh : isHighSurrogate (UInt16.ofNat c.toNat) = false := by
      rw [← Bool.not_eq_true, isHighSurrogate_iff, hunit]
      omega
    have hlow : isLowSurrogate (UInt16.ofNat c.toNat) = false := by
      rw [← Bool.not_eq_true, isLowSurrogate_iff, hunit]
      omega
    rw [List.singleton_append, isWellFormed_cons hhigh, hlow]
    rfl
  · have hhigh : isHighSurrogate (UInt16.ofNat (0xD800 + (c.toNat - 0x10000) / 0x400)) = true := by
      rw [isHighSurrogate_iff, UInt16.toNat_ofNat']
      omega
    have hlow : isLowSurrogate (UInt16.ofNat (0xDC00 + (c.toNat - 0x10000) % 0x400)) = true := by
      rw [isLowSurrogate_iff, UInt16.toNat_ofNat']
      omega
    rw [List.cons_append, List.singleton_append, isWellFormed_pair hhigh, hlow]
    rfl

theorem toNat_ofNat {n : Nat} (h : n.isValidChar) : (Char.ofNat n).toNat = n := by
  unfold Char.ofNat
  rw [dif_pos h]
  rfl

theorem encode_cons (c : Char) (text : List Char) : encode (c :: text) = encodeChar c ++ encode text := rfl

/-- A single unit that is no surrogate is a character. -/
theorem wellFormed_cons {u : UInt16} {units : List UInt16} (hhigh : isHighSurrogate u = false)
    (hlow : isLowSurrogate u = false) (h : WellFormed units) : WellFormed (u :: units) := by
  obtain ⟨text, rfl⟩ := h
  rw [← Bool.not_eq_true, isHighSurrogate_iff] at hhigh
  rw [← Bool.not_eq_true, isLowSurrogate_iff] at hlow
  have hlt := u.toNat_lt
  have hchar : (Char.ofNat u.toNat).toNat = u.toNat := toNat_ofNat (by unfold Nat.isValidChar; omega)
  refine ⟨Char.ofNat u.toNat :: text, ?_⟩
  rw [encode_cons, encodeChar, hchar, if_pos (by omega), UInt16.ofNat_toNat]
  rfl

theorem wellFormed_pair {u v : UInt16} {units : List UInt16} (hu : isHighSurrogate u = true)
    (hv : isLowSurrogate v = true) (h : WellFormed units) : WellFormed (u :: v :: units) := by
  obtain ⟨text, rfl⟩ := h
  rw [isHighSurrogate_iff] at hu
  rw [isLowSurrogate_iff] at hv
  generalize hn : 0x10000 + (u.toNat - 0xD800) * 0x400 + (v.toNat - 0xDC00) = n
  have hchar : (Char.ofNat n).toNat = n := toNat_ofNat (by unfold Nat.isValidChar; omega)
  have hfirst : 0xD800 + (n - 0x10000) / 0x400 = u.toNat := by omega
  have hsecond : 0xDC00 + (n - 0x10000) % 0x400 = v.toNat := by omega
  refine ⟨Char.ofNat n :: text, ?_⟩
  rw [encode_cons, encodeChar, hchar, if_neg (by omega), hfirst, hsecond, UInt16.ofNat_toNat,
    UInt16.ofNat_toNat]
  rfl

theorem isWellFormed_iff {units : List UInt16} : isWellFormed units = true ↔ WellFormed units := by
  constructor
  · intro h
    induction units using isWellFormed.induct with
    | case1 => exact ⟨[], rfl⟩
    | case2 u =>
      simp only [isWellFormed, Bool.and_eq_true, Bool.not_eq_true'] at h
      exact wellFormed_cons h.1 h.2 ⟨[], rfl⟩
    | case3 u v units hu ih =>
      rw [isWellFormed_pair hu, Bool.and_eq_true] at h
      exact wellFormed_pair hu h.1 (ih h.2)
    | case4 u v units hu ih =>
      rw [Bool.not_eq_true] at hu
      rw [isWellFormed_cons hu, Bool.and_eq_true, Bool.not_eq_true'] at h
      exact wellFormed_cons hu h.1 (ih h.2)
  · rintro ⟨text, rfl⟩
    induction text with
    | nil => rfl
    | cons c text ih => rw [encode_cons, isWellFormed_encodeChar, ih]

/-! ## Cutting -/

/-- **A cut** leaves a well-formed prefix unless its last unit is the first of a pair. -/
theorem isWellFormed_take_iff {units : List UInt16} (h : isWellFormed units = true) (n : Nat) :
    isWellFormed (units.take (n + 1)) = true ↔ ∀ u, units[n]? = some u → isHighSurrogate u = false := by
  induction units using isWellFormed.induct generalizing n with
  | case1 => simp [isWellFormed]
  | case2 u =>
    simp only [isWellFormed, Bool.and_eq_true, Bool.not_eq_true'] at h
    cases n with
    | zero => simp [isWellFormed, h.1, h.2]
    | succ n => simp [isWellFormed, h.1, h.2]
  | case3 u v units hu ih =>
    rw [isWellFormed_pair hu, Bool.and_eq_true] at h
    cases n with
    | zero => simp [isWellFormed, hu]
    | succ n =>
      cases n with
      | zero => simp [isWellFormed, hu, h.1, isHighSurrogate_of_low h.1]
      | succ n =>
        rw [List.take_succ_cons, List.take_succ_cons, isWellFormed_pair hu, h.1, Bool.true_and,
          List.getElem?_cons_succ, List.getElem?_cons_succ]
        exact ih h.2 n
  | case4 u v units hu ih =>
    rw [Bool.not_eq_true] at hu
    rw [isWellFormed_cons hu, Bool.and_eq_true, Bool.not_eq_true'] at h
    cases n with
    | zero => simp [isWellFormed, hu, h.1]
    | succ n =>
      rw [List.take_succ_cons, isWellFormed_cons hu, h.1, Bool.not_false, Bool.true_and,
        List.getElem?_cons_succ]
      exact ih h.2 n

end Utf16
