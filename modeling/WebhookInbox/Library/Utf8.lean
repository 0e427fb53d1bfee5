import Mathlib.Tactic.Common

/-!
# UTF-8 with replacement

`decode` reads any byte sequence: a character that is not well formed, up to the byte that
rules it out, becomes one `U+FFFD`, and reading goes on at that byte. `decode_encode` says
that nothing is lost on the bytes of a text, so `encode` is injective. Bytes of no text leave a
`U+FFFD` (`wellFormed_of_not_mem`).
-/

namespace Utf8

def replacement : Char := Char.ofNat 0xFFFD

def encode (text : List Char) : List UInt8 := text.flatMap String.utf8EncodeChar

/-- The bytes of some text. -/
def WellFormed (bytes : List UInt8) : Prop := ∃ text, encode text = bytes

/-- The bits of a character so far, and the ranges of the bytes it still needs. -/
structure Pending where
  bits : Nat
  owed : List (Nat × Nat)

/-- The range of a byte that continues a character. -/
def tail : Nat × Nat := (0x80, 0xBF)

/-- What a first byte stands for; `none` when no character starts with it. The ranges keep
out overlong forms, surrogates and values above `U+10FFFF`. -/
def lead? (n : Nat) : Option Pending :=
  if n ≤ 0x7F then some ⟨n, []⟩
  else if 0xC2 ≤ n ∧ n ≤ 0xDF then some ⟨n - 0xC0, [tail]⟩
  else if n = 0xE0 then some ⟨0, [(0xA0, 0xBF), tail]⟩
  else if n = 0xED then some ⟨0xD, [(0x80, 0x9F), tail]⟩
  else if 0xE1 ≤ n ∧ n ≤ 0xEF then some ⟨n - 0xE0, [tail, tail]⟩
  else if n = 0xF0 then some ⟨0, [(0x90, 0xBF), tail, tail]⟩
  else if n = 0xF4 then some ⟨4, [(0x80, 0x8F), tail, tail]⟩
  else if 0xF1 ≤ n ∧ n ≤ 0xF3 then some ⟨n - 0xF0, [tail, tail, tail]⟩
  else none

/-- A character is complete when it needs no more bytes. -/
def settle (p : Pending) : List Char × Option Pending :=
  if p.owed.isEmpty then ([Char.ofNat p.bits], none) else ([], some p)

def start (n : Nat) : List Char × Option Pending :=
  match lead? n with
  | some p => settle p
  | none => ([replacement], none)

/-- One byte: the characters it completes, and what is pending after it. -/
def advance : Option Pending → Nat → List Char × Option Pending
  | some ⟨bits, (lo, hi) :: owed⟩, n =>
    if lo ≤ n ∧ n ≤ hi then settle ⟨bits * 64 + (n - 0x80), owed⟩
    else (replacement :: (start n).1, (start n).2)
  | _, n => start n

def decodeFrom : Option Pending → List UInt8 → List Char
  | none, [] => []
  | some _, [] => [replacement]
  | p, b :: bytes => (advance p b.toNat).1 ++ decodeFrom (advance p b.toNat).2 bytes

def decode (bytes : List UInt8) : List Char := decodeFrom none bytes

/-! ## Reading back a text -/

theorem decodeFrom_start {n : Nat} {p : Pending} (hn : n < 256) (hlead : lead? n = some p)
    (howed : p.owed ≠ []) (bytes : List UInt8) :
    decodeFrom none (UInt8.ofNat n :: bytes) = decodeFrom (some p) bytes := by
  have hbyte : (UInt8.ofNat n).toNat = n := by
    rw [UInt8.toNat_ofNat']
    omega
  simp [decodeFrom, advance, start, hbyte, hlead, settle, howed]

theorem decodeFrom_tail {bits n : Nat} {lo hi : Nat} {owed : List (Nat × Nat)} (hn : n < 256)
    (hlo : lo ≤ n) (hhi : n ≤ hi) (howed : owed ≠ []) (bytes : List UInt8) :
    decodeFrom (some ⟨bits, (lo, hi) :: owed⟩) (UInt8.ofNat n :: bytes) =
      decodeFrom (some ⟨bits * 64 + (n - 0x80), owed⟩) bytes := by
  have hbyte : (UInt8.ofNat n).toNat = n := by
    rw [UInt8.toNat_ofNat']
    omega
  simp [decodeFrom, advance, hbyte, hlo, hhi, settle, howed]

theorem decodeFrom_last {bits n : Nat} {lo hi : Nat} {c : Char} (hn : n < 256)
    (hlo : lo ≤ n) (hhi : n ≤ hi) (hc : bits * 64 + (n - 0x80) = c.toNat) (bytes : List UInt8) :
    decodeFrom (some ⟨bits, [(lo, hi)]⟩) (UInt8.ofNat n :: bytes) = c :: decodeFrom none bytes := by
  have hbyte : (UInt8.ofNat n).toNat = n := by
    rw [UInt8.toNat_ofNat']
    omega
  simp [decodeFrom, advance, hbyte, hlo, hhi, settle, hc, Char.ofNat_toNat]

theorem lead?_two {n : Nat} (hlo : 2 ≤ n) (hhi : n ≤ 0x1F) : lead? (n + 0xC0) = some ⟨n, [tail]⟩ := by
  unfold lead?
  rw [if_neg (by omega), if_pos (by omega), Nat.add_sub_cancel]

theorem lead?_three {n m : Nat} (hn : n ≤ 0xF) (hm : m ≤ 0x3F) (hlong : n = 0 → 0x20 ≤ m)
    (hsurrogate : n = 0xD → m ≤ 0x1F) :
    ∃ lo hi, lead? (n + 0xE0) = some ⟨n, [(lo, hi), tail]⟩ ∧ lo ≤ m + 0x80 ∧ m + 0x80 ≤ hi := by
  by_cases hzero : n = 0
  · subst hzero
    exact ⟨0xA0, 0xBF, rfl, by omega, by omega⟩
  · by_cases hd : n = 0xD
    · subst hd
      exact ⟨0x80, 0x9F, rfl, by omega, by omega⟩
    · refine ⟨0x80, 0xBF, ?_, by omega, by omega⟩
      unfold lead?
      rw [if_neg (by omega), if_neg (by omega), if_neg (by omega), if_neg (by omega),
        if_pos (by omega), Nat.add_sub_cancel]
      rfl

theorem lead?_four {n m : Nat} (hn : n ≤ 4) (hm : m ≤ 0x3F) (hlong : n = 0 → 0x10 ≤ m)
    (hmax : n = 4 → m ≤ 0xF) :
    ∃ lo hi, lead? (n + 0xF0) = some ⟨n, [(lo, hi), tail, tail]⟩ ∧ lo ≤ m + 0x80 ∧ m + 0x80 ≤ hi := by
  by_cases hzero : n = 0
  · subst hzero
    exact ⟨0x90, 0xBF, rfl, by omega, by omega⟩
  · by_cases hfour : n = 4
    · subst hfour
      exact ⟨0x80, 0x8F, rfl, by omega, by omega⟩
    · refine ⟨0x80, 0xBF, ?_, by omega, by omega⟩
      unfold lead?
      rw [if_neg (by omega), if_neg (by omega), if_neg (by omega), if_neg (by omega), if_neg (by omega),
        if_neg (by omega), if_neg (by omega), if_pos (by omega), Nat.add_sub_cancel]
      rfl

/-- The bytes of one character are read as that character. -/
theorem decodeFrom_char (c : Char) (bytes : List UInt8) :
    decodeFrom none (String.utf8EncodeChar c ++ bytes) = c :: decodeFrom none bytes := by
  have hvalid : c.toNat < 0xD800 ∨ (0xDFFF < c.toNat ∧ c.toNat < 0x110000) := c.valid
  have hv : c.val.toNat = c.toNat := rfl
  simp only [String.utf8EncodeChar, hv]
  split
  · rename_i h₁
    have hbyte : (UInt8.ofNat c.toNat).toNat = c.toNat := by
      rw [UInt8.toNat_ofNat']
      omega
    simp [decodeFrom, advance, start, hbyte, lead?, h₁, settle, Char.ofNat_toNat]
  · split
    · have hlead : lead? (c.toNat / 64 % 0x20 + 0xC0) = some ⟨c.toNat / 64 % 0x20, [tail]⟩ :=
        lead?_two (by omega) (by omega)
      simp only [List.cons_append, List.nil_append]
      rw [decodeFrom_start (by omega) hlead (by simp), tail]
      exact decodeFrom_last (by omega) (by omega) (by omega) (by omega) bytes
    · split
      · obtain ⟨lo, hi, hlead, hlo, hhi⟩ := lead?_three (n := c.toNat / 4096 % 0x10)
          (m := c.toNat / 64 % 0x40) (by omega) (by omega) (by omega) (by omega)
        simp only [List.cons_append, List.nil_append]
        rw [decodeFrom_start (by omega) hlead (by simp), decodeFrom_tail (by omega) hlo hhi (by simp), tail]
        exact decodeFrom_last (by omega) (by omega) (by omega) (by omega) bytes
      · obtain ⟨lo, hi, hlead, hlo, hhi⟩ := lead?_four (n := c.toNat / 262144 % 0x08)
          (m := c.toNat / 4096 % 0x40) (by omega) (by omega) (by omega) (by omega)
        simp only [List.cons_append, List.nil_append]
        rw [decodeFrom_start (by omega) hlead (by simp), decodeFrom_tail (by omega) hlo hhi (by simp), tail,
          decodeFrom_tail (by omega) (by omega) (by omega) (by simp)]
        exact decodeFrom_last (by omega) (by omega) (by omega) (by omega) bytes

@[simp] theorem decode_encode (text : List Char) : decode (encode text) = text := by
  induction text with
  | nil => rfl
  | cons c text ih =>
    unfold decode encode at *
    rw [List.flatMap_cons, decodeFrom_char, ih]

theorem encode_injective {text text' : List Char} (h : encode text = encode text') : text = text' := by
  rw [← decode_encode text, h, decode_encode]

theorem encode_append (text text' : List Char) : encode (text ++ text') = encode text ++ encode text' :=
  List.flatMap_append

/-- Decoding and encoding again changes nothing on well-formed bytes. -/
theorem encode_decode {bytes : List UInt8} (h : WellFormed bytes) : encode (decode bytes) = bytes := by
  obtain ⟨text, rfl⟩ := h
  rw [decode_encode]

/-! ## Bytes that are replaced -/

/-- The forms of a first byte. -/
theorem lead?_cases {n : Nat} {p : Pending} (h : lead? n = some p) :
    (n ≤ 0x7F ∧ p = ⟨n, []⟩) ∨
      (0xC2 ≤ n ∧ n ≤ 0xDF ∧ p = ⟨n - 0xC0, [tail]⟩) ∨
      (∃ lo hi, 0xE0 ≤ n ∧ n ≤ 0xEF ∧ p = ⟨n - 0xE0, [(lo, hi), tail]⟩ ∧ 0x80 ≤ lo ∧ hi ≤ 0xBF ∧
        (n = 0xE0 → 0xA0 ≤ lo) ∧ (n = 0xED → hi ≤ 0x9F)) ∨
      ∃ lo hi, 0xF0 ≤ n ∧ n ≤ 0xF4 ∧ p = ⟨n - 0xF0, [(lo, hi), tail, tail]⟩ ∧ 0x80 ≤ lo ∧ hi ≤ 0xBF ∧
        (n = 0xF0 → 0x90 ≤ lo) ∧ (n = 0xF4 → hi ≤ 0x8F) := by
  unfold lead? at h
  split at h
  · rename_i hn
    obtain rfl := Option.some.inj h
    exact Or.inl ⟨hn, rfl⟩
  split at h
  · rename_i hn
    obtain rfl := Option.some.inj h
    exact Or.inr (Or.inl ⟨hn.1, hn.2, rfl⟩)
  split at h
  · rename_i hn
    obtain rfl := Option.some.inj h
    rw [hn]
    exact Or.inr (Or.inr (Or.inl ⟨0xA0, 0xBF, by omega, by omega, rfl, by omega, by omega, by omega, by omega⟩))
  split at h
  · rename_i hn
    obtain rfl := Option.some.inj h
    rw [hn]
    exact Or.inr (Or.inr (Or.inl ⟨0x80, 0x9F, by omega, by omega, rfl, by omega, by omega, by omega, by omega⟩))
  split at h
  · rename_i hn
    obtain rfl := Option.some.inj h
    exact Or.inr (Or.inr (Or.inl ⟨0x80, 0xBF, by omega, by omega, rfl, by omega, by omega, by omega, by omega⟩))
  split at h
  · rename_i hn
    obtain rfl := Option.some.inj h
    rw [hn]
    exact Or.inr (Or.inr (Or.inr ⟨0x90, 0xBF, by omega, by omega, rfl, by omega, by omega, by omega, by omega⟩))
  split at h
  · rename_i hn
    obtain rfl := Option.some.inj h
    rw [hn]
    exact Or.inr (Or.inr (Or.inr ⟨0x80, 0x8F, by omega, by omega, rfl, by omega, by omega, by omega, by omega⟩))
  split at h
  · rename_i hn
    obtain rfl := Option.some.inj h
    exact Or.inr (Or.inr (Or.inr ⟨0x80, 0xBF, by omega, by omega, rfl, by omega, by omega, by omega, by omega⟩))
  · cases h

/-- A character that is not replaced goes on with a byte in its range. -/
theorem exists_next {bits lo hi : Nat} {owed : List (Nat × Nat)} {bytes : List UInt8}
    (h : replacement ∉ decodeFrom (some ⟨bits, (lo, hi) :: owed⟩) bytes) :
    ∃ b rest, bytes = b :: rest ∧ lo ≤ b.toNat ∧ b.toNat ≤ hi ∧
      (owed ≠ [] → replacement ∉ decodeFrom (some ⟨bits * 64 + (b.toNat - 0x80), owed⟩) rest) := by
  cases bytes with
  | nil => exact absurd List.mem_cons_self h
  | cons b rest =>
    rw [decodeFrom, advance] at h
    split at h
    · rename_i hrange
      refine ⟨b, rest, rfl, hrange.1, hrange.2, ?_⟩
      intro howed
      have hsettle : settle ⟨bits * 64 + (b.toNat - 0x80), owed⟩ =
          ([], some ⟨bits * 64 + (b.toNat - 0x80), owed⟩) := by
        simp [settle, howed]
      rw [hsettle] at h
      exact h
    · exact absurd (List.mem_append_left _ List.mem_cons_self) h

theorem toNat_val_ofNat {n : Nat} (h : n < 0xD800 ∨ 0xDFFF < n ∧ n < 0x110000) :
    (Char.ofNat n).val.toNat = n := by
  unfold Char.ofNat
  rw [dif_pos h]
  rfl

theorem ofNat_eq {b : UInt8} {n : Nat} (h : n = b.toNat) : UInt8.ofNat n = b := by
  rw [h, UInt8.ofNat_toNat]

/-- The first character is there when nothing is replaced. -/
theorem exists_char {b : UInt8} {bytes : List UInt8} (h : replacement ∉ decode (b :: bytes)) :
    ∃ c rest, b :: bytes = String.utf8EncodeChar c ++ rest := by
  have hb := b.toNat_lt
  have hstart : decode (b :: bytes) = (start b.toNat).1 ++ decodeFrom (start b.toNat).2 bytes := by
    simp [decode, decodeFrom, advance]
  rw [hstart, start] at h
  cases hlead : lead? b.toNat with
  | none =>
    rw [hlead] at h
    exact absurd (List.mem_append_left _ List.mem_cons_self) h
  | some p =>
    rw [hlead] at h
    dsimp only at h
    rcases lead?_cases hlead with ⟨hn, rfl⟩ | ⟨hlo, hhi, rfl⟩ |
      ⟨lo, hi, hlo, hhi, rfl, htail, htail', hlong, hsurrogate⟩ |
      ⟨lo, hi, hlo, hhi, rfl, htail, htail', hlong, hmax⟩
    · have hc : (Char.ofNat b.toNat).val.toNat = b.toNat := toNat_val_ofNat (by omega)
      refine ⟨Char.ofNat b.toNat, bytes, ?_⟩
      rw [String.utf8EncodeChar, hc, if_pos hn, UInt8.ofNat_toNat]
      rfl
    · obtain ⟨x, rest, rfl, hx, hx', -⟩ := exists_next h
      obtain ⟨v, hv⟩ : ∃ v, v = (b.toNat - 0xC0) * 64 + (x.toNat - 0x80) := ⟨_, rfl⟩
      have hc : (Char.ofNat v).val.toNat = v := toNat_val_ofNat (by omega)
      refine ⟨Char.ofNat v, rest, ?_⟩
      rw [String.utf8EncodeChar, hc, if_neg (by omega), if_pos (by omega),
        ofNat_eq (b := b) (by omega), ofNat_eq (b := x) (by omega)]
      rfl
    · obtain ⟨x, rest, rfl, hx, hx', hnext⟩ := exists_next h
      obtain ⟨y, rest, rfl, hy, hy', -⟩ := exists_next (hnext (by simp))
      obtain ⟨v, hv⟩ : ∃ v, v = ((b.toNat - 0xE0) * 64 + (x.toNat - 0x80)) * 64 + (y.toNat - 0x80) :=
        ⟨_, rfl⟩
      have hc : (Char.ofNat v).val.toNat = v := toNat_val_ofNat (by omega)
      refine ⟨Char.ofNat v, rest, ?_⟩
      rw [String.utf8EncodeChar, hc, if_neg (by omega), if_neg (by omega), if_pos (by omega),
        ofNat_eq (b := b) (by omega), ofNat_eq (b := x) (by omega), ofNat_eq (b := y) (by omega)]
      rfl
    · obtain ⟨x, rest, rfl, hx, hx', hnext⟩ := exists_next h
      obtain ⟨y, rest, rfl, hy, hy', hnext'⟩ := exists_next (hnext (by simp))
      obtain ⟨z, rest, rfl, hz, hz', -⟩ := exists_next (hnext' (by simp))
      obtain ⟨v, hv⟩ : ∃ v, v = (((b.toNat - 0xF0) * 64 + (x.toNat - 0x80)) * 64 + (y.toNat - 0x80)) * 64 +
          (z.toNat - 0x80) := ⟨_, rfl⟩
      have hc : (Char.ofNat v).val.toNat = v := toNat_val_ofNat (by omega)
      refine ⟨Char.ofNat v, rest, ?_⟩
      rw [String.utf8EncodeChar, hc, if_neg (by omega), if_neg (by omega), if_neg (by omega),
        ofNat_eq (b := b) (by omega), ofNat_eq (b := x) (by omega), ofNat_eq (b := y) (by omega),
        ofNat_eq (b := z) (by omega)]
      rfl

/-- **Nothing is replaced** in well-formed bytes only. -/
theorem wellFormed_of_not_mem {bytes : List UInt8} (h : replacement ∉ decode bytes) : WellFormed bytes := by
  generalize hlength : bytes.length = n
  induction n using Nat.strongRecOn generalizing bytes with
  | ind n ih =>
    cases bytes with
    | nil => exact ⟨[], rfl⟩
    | cons b bytes =>
      obtain ⟨c, rest, hrest⟩ := exists_char h
      rw [hrest, decode, decodeFrom_char, List.mem_cons, not_or] at h
      have hshort : rest.length < n := by
        have hsize := c.utf8Size_pos
        rw [← hlength, hrest, List.length_append, String.length_utf8EncodeChar]
        omega
      obtain ⟨text, htext⟩ := ih rest.length hshort h.2 rfl
      exact ⟨c :: text, by rw [hrest, ← htext]; rfl⟩

end Utf8
