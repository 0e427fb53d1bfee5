import Mathlib.Tactic.Common

/-!
# Hexadecimal texts

`encode` writes every byte as two upper-case digits, and `decode?` reads digits of either
case. `decode?_eq_some_iff` says that the accepted texts of a byte string are its upper-case
text and the other spellings of the same letters.
-/

namespace Hex

/-- The upper-case digit of a value below 16. -/
def digit (n : Nat) : Char := if n < 10 then Char.ofNat (48 + n) else Char.ofNat (55 + n)

def encode (bytes : List UInt8) : List Char :=
  bytes.flatMap fun b => [digit (b.toNat / 16), digit (b.toNat % 16)]

def value? (c : Char) : Option Nat :=
  if 48 ≤ c.toNat ∧ c.toNat ≤ 57 then some (c.toNat - 48)
  else if 65 ≤ c.toNat ∧ c.toNat ≤ 70 then some (c.toNat - 55)
  else if 97 ≤ c.toNat ∧ c.toNat ≤ 102 then some (c.toNat - 87)
  else none

/-- `none` when the length is odd or a character is no digit. -/
def decode? : List Char → Option (List UInt8)
  | [] => some []
  | [_] => none
  | a :: b :: rest =>
    match value? a, value? b with
    | some x, some y => (decode? rest).map fun bytes => UInt8.ofNat (16 * x + y) :: bytes
    | _, _ => none

/-! ## Digits -/

theorem toNat_ofNat {n : Nat} (h : n.isValidChar) : (Char.ofNat n).toNat = n := by
  unfold Char.ofNat
  rw [dif_pos h]
  rfl

theorem toNat_digit {n : Nat} (h : n < 16) :
    (digit n).toNat = if n < 10 then 48 + n else 55 + n := by
  unfold digit
  split
  · exact toNat_ofNat (Or.inl (by omega))
  · exact toNat_ofNat (Or.inl (by omega))

theorem toNat_toUpper (c : Char) :
    c.toUpper.toNat = if 97 ≤ c.toNat ∧ c.toNat ≤ 122 then c.toNat - 32 else c.toNat := by
  have hiff : ('a'.val ≤ c.val ∧ c.val ≤ 'z'.val) ↔ 97 ≤ c.toNat ∧ c.toNat ≤ 122 := by
    simp only [UInt32.le_iff_toNat_le, Char.toNat]
    exact Iff.rfl
  unfold Char.toUpper
  split
  · rename_i h
    have hrange := hiff.mp h
    have hA : 'A'.val.toNat = 65 := rfl
    have ha : 'a'.val.toNat = 97 := rfl
    rw [if_pos hrange]
    simp only [Char.toNat, UInt32.toNat_add, UInt32.toNat_sub, hA, ha] at hrange ⊢
    omega
  · rename_i h
    rw [if_neg fun h' => h (hiff.mpr h')]

theorem toNat_toLower (c : Char) :
    c.toLower.toNat = if 65 ≤ c.toNat ∧ c.toNat ≤ 90 then c.toNat + 32 else c.toNat := by
  have hiff : (c.val ≥ 'A'.val ∧ c.val ≤ 'Z'.val) ↔ 65 ≤ c.toNat ∧ c.toNat ≤ 90 := by
    simp only [ge_iff_le, UInt32.le_iff_toNat_le, Char.toNat]
    exact Iff.rfl
  unfold Char.toLower
  split
  · rename_i h
    have hrange := hiff.mp h
    have hA : 'A'.val.toNat = 65 := rfl
    have ha : 'a'.val.toNat = 97 := rfl
    rw [if_pos hrange]
    simp only [Char.toNat, UInt32.toNat_add, UInt32.toNat_sub, hA, ha] at hrange ⊢
    omega
  · rename_i h
    rw [if_neg fun h' => h (hiff.mpr h')]

theorem toUpper_toLower (c : Char) : c.toLower.toUpper = c.toUpper := by
  apply Char.toNat_inj.mp
  rw [toNat_toUpper, toNat_toUpper, toNat_toLower]
  by_cases hupper : 65 ≤ c.toNat ∧ c.toNat ≤ 90
  · rw [if_pos hupper, if_pos (by omega), if_neg (by omega)]
    omega
  · rw [if_neg hupper]

theorem toLower_toUpper (c : Char) : c.toUpper.toLower = c.toLower := by
  apply Char.toNat_inj.mp
  rw [toNat_toLower, toNat_toLower, toNat_toUpper]
  by_cases hlower : 97 ≤ c.toNat ∧ c.toNat ≤ 122
  · rw [if_pos hlower, if_pos (by omega), if_neg (by omega)]
    omega
  · rw [if_neg hlower]

theorem map_toUpper_map_toLower (text : List Char) :
    (text.map Char.toLower).map Char.toUpper = text.map Char.toUpper := by
  rw [List.map_map]
  exact List.map_congr_left fun c _ => toUpper_toLower c

theorem map_toLower_map_toUpper (text : List Char) :
    (text.map Char.toUpper).map Char.toLower = text.map Char.toLower := by
  rw [List.map_map]
  exact List.map_congr_left fun c _ => toLower_toUpper c

/-- Texts agree in upper case exactly when they agree in lower case. -/
theorem map_toUpper_eq_iff {a b : List Char} :
    a.map Char.toUpper = b.map Char.toUpper ↔ a.map Char.toLower = b.map Char.toLower := by
  constructor
  · intro h
    rw [← map_toLower_map_toUpper a, h, map_toLower_map_toUpper]
  · intro h
    rw [← map_toUpper_map_toLower a, h, map_toUpper_map_toLower]

/-- The three ranges of digits. -/
theorem value?_eq_some_iff_toNat {c : Char} {n : Nat} :
    value? c = some n ↔ (48 ≤ c.toNat ∧ c.toNat ≤ 57 ∧ c.toNat = 48 + n) ∨
      (65 ≤ c.toNat ∧ c.toNat ≤ 70 ∧ c.toNat = 55 + n) ∨
      (97 ≤ c.toNat ∧ c.toNat ≤ 102 ∧ c.toNat = 87 + n) := by
  unfold value?
  split
  · rw [Option.some.injEq]
    omega
  · split
    · rw [Option.some.injEq]
      omega
    · split
      · rw [Option.some.injEq]
        omega
      · simp only [reduceCtorEq, false_iff]
        omega

/-- A character has a value exactly when its upper-case form is that value's digit. -/
theorem value?_eq_some_iff {c : Char} {n : Nat} : value? c = some n ↔ n < 16 ∧ c.toUpper = digit n := by
  rw [value?_eq_some_iff_toNat, ← Char.toNat_inj, toNat_toUpper]
  constructor
  · intro h
    have hn : n < 16 := by omega
    refine ⟨hn, ?_⟩
    rw [toNat_digit hn]
    split <;> split <;> omega
  · rintro ⟨hn, h⟩
    rw [toNat_digit hn] at h
    split at h <;> split at h <;> omega

/-! ## Texts -/

@[simp] theorem encode_nil : encode [] = [] := rfl

theorem encode_cons (b : UInt8) (bytes : List UInt8) :
    encode (b :: bytes) = digit (b.toNat / 16) :: digit (b.toNat % 16) :: encode bytes := rfl

theorem decode?_cons_of_encode {a b : Char} {rest : List Char} {c : UInt8} {bytes : List UInt8}
    (h : (a :: b :: rest).map Char.toUpper = encode (c :: bytes)) :
    value? a = some (c.toNat / 16) ∧ value? b = some (c.toNat % 16) ∧
      rest.map Char.toUpper = encode bytes := by
  have hc := c.toNat_lt
  rw [encode_cons, List.map_cons, List.map_cons, List.cons.injEq, List.cons.injEq] at h
  exact ⟨value?_eq_some_iff.mpr ⟨by omega, h.1⟩, value?_eq_some_iff.mpr ⟨by omega, h.2.1⟩, h.2.2⟩

/-- The texts that are read as a byte string are those with its upper-case text. -/
theorem decode?_eq_some_iff {text : List Char} {bytes : List UInt8} :
    decode? text = some bytes ↔ text.map Char.toUpper = encode bytes := by
  induction text using decode?.induct generalizing bytes with
  | case1 =>
    cases bytes with
    | nil => simp [decode?]
    | cons b bytes => simp [decode?, encode_cons]
  | case2 a =>
    cases bytes with
    | nil => simp [decode?]
    | cons b bytes => simp [decode?, encode_cons]
  | case3 a b rest x y hy hx ih =>
    obtain ⟨hx16, hax⟩ := value?_eq_some_iff.mp hx
    obtain ⟨hy16, hby⟩ := value?_eq_some_iff.mp hy
    simp only [decode?, hx, hy, Option.map_eq_some_iff, List.map_cons]
    constructor
    · rintro ⟨bs, hbs, rfl⟩
      have hbyte : (UInt8.ofNat (16 * x + y)).toNat = 16 * x + y := by
        rw [UInt8.toNat_ofNat']
        omega
      rw [encode_cons, hbyte, ih.mp hbs, hax, hby]
      congr 2 <;> congr 1 <;> omega
    · intro h
      cases bytes with
      | nil => cases h
      | cons c bs =>
        obtain ⟨ha, hb, hrest⟩ := decode?_cons_of_encode h
        rw [hx, Option.some.injEq] at ha
        rw [hy, Option.some.injEq] at hb
        refine ⟨bs, ih.mpr hrest, ?_⟩
        have hval : 16 * x + y = c.toNat := by omega
        rw [hval, UInt8.ofNat_toNat]
  | case4 a b rest hnone =>
    constructor
    · intro h
      cases ha : value? a with
      | none => simp [decode?, ha] at h
      | some x =>
        cases hb : value? b with
        | none => simp [decode?, hb] at h
        | some y => exact absurd hb (hnone x y ha)
    · intro h
      cases bytes with
      | nil => cases h
      | cons c bs =>
        obtain ⟨ha, hb, -⟩ := decode?_cons_of_encode h
        exact absurd hb (hnone _ _ ha)

theorem toNat_lt_of_mem_encode {c : Char} {bytes : List UInt8} (h : c ∈ encode bytes) :
    c.toNat < 71 := by
  have hdigit : ∀ n, n < 16 → (digit n).toNat < 71 := by
    intro n hn
    rw [toNat_digit hn]
    split <;> omega
  induction bytes with
  | nil => cases h
  | cons b bytes ih =>
    have hb := b.toNat_lt
    rw [encode_cons, List.mem_cons, List.mem_cons] at h
    rcases h with rfl | rfl | h
    · exact hdigit _ (by omega)
    · exact hdigit _ (by omega)
    · exact ih h

theorem exists_digit_of_mem_encode {c : Char} {bytes : List UInt8} (h : c ∈ encode bytes) :
    ∃ n < 16, c = digit n := by
  induction bytes with
  | nil => cases h
  | cons b bytes ih =>
    have hb := b.toNat_lt
    rw [encode_cons, List.mem_cons, List.mem_cons] at h
    rcases h with rfl | rfl | h
    · exact ⟨_, by omega, rfl⟩
    · exact ⟨_, by omega, rfl⟩
    · exact ih h

theorem map_toUpper_encode (bytes : List UInt8) : (encode bytes).map Char.toUpper = encode bytes := by
  have hdigit : ∀ n, n < 16 → (digit n).toUpper = digit n := by
    intro n hn
    apply Char.toNat_inj.mp
    rw [toNat_toUpper, toNat_digit hn]
    split <;> split <;> omega
  induction bytes with
  | nil => rfl
  | cons b bytes ih =>
    have hb := b.toNat_lt
    rw [encode_cons, List.map_cons, List.map_cons, ih, hdigit _ (by omega), hdigit _ (by omega)]

theorem decode?_encode (bytes : List UInt8) : decode? (encode bytes) = some bytes :=
  decode?_eq_some_iff.mpr (map_toUpper_encode bytes)

theorem encode_injective {bytes bytes' : List UInt8} (h : encode bytes = encode bytes') :
    bytes = bytes' := by
  have hdec := decode?_encode bytes
  rw [h, decode?_encode] at hdec
  exact (Option.some.inj hdec).symm

end Hex
