import WebhookInbox.Library.Hex

/-!
# Base64

`encode` writes three bytes as four symbols of the standard alphabet, and pads the last group.
-/

namespace Base64

/-- The symbol of a value below 64. -/
def symbol (n : Nat) : Char :=
  if n < 26 then Char.ofNat (65 + n)
  else if n < 52 then Char.ofNat (71 + n)
  else if n < 62 then Char.ofNat (n - 4)
  else if n = 62 then '+' else '/'

def encode : List UInt8 → List Char
  | [] => []
  | [a] => [symbol (a.toNat / 4), symbol (a.toNat % 4 * 16), '=', '=']
  | [a, b] =>
    [symbol (a.toNat / 4), symbol (a.toNat % 4 * 16 + b.toNat / 16), symbol (b.toNat % 16 * 4), '=']
  | a :: b :: c :: bytes =>
    symbol (a.toNat / 4) :: symbol (a.toNat % 4 * 16 + b.toNat / 16) ::
      symbol (b.toNat % 16 * 4 + c.toNat / 64) :: symbol (c.toNat % 64) :: encode bytes

theorem toNat_symbol {n : Nat} (h : n < 64) : (symbol n).toNat =
    if n < 26 then 65 + n else if n < 52 then 71 + n else if n < 62 then n - 4
    else if n = 62 then 43 else 47 := by
  unfold symbol
  split
  · exact Hex.toNat_ofNat (Or.inl (by omega))
  · split
    · exact Hex.toNat_ofNat (Or.inl (by omega))
    · split
      · exact Hex.toNat_ofNat (Or.inl (by omega))
      · split <;> rfl

theorem symbol_injective {n m : Nat} (hn : n < 64) (hm : m < 64) (h : symbol n = symbol m) : n = m := by
  have hnat := congrArg Char.toNat h
  rw [toNat_symbol hn, toNat_symbol hm] at hnat
  grind

theorem symbol_ne_pad {n : Nat} (hn : n < 64) : symbol n ≠ '=' := by
  intro h
  have hnat := congrArg Char.toNat h
  have hpad : '='.toNat = 61 := rfl
  rw [toNat_symbol hn, hpad] at hnat
  grind

/-- Every symbol is an ASCII character. -/
theorem toNat_lt_of_mem_encode {c : Char} {bytes : List UInt8} (h : c ∈ encode bytes) : c.toNat < 128 := by
  have hsymbol : ∀ n < 64, (symbol n).toNat < 128 := by
    intro n hn
    rw [toNat_symbol hn]
    grind
  have hpad : '='.toNat < 128 := by decide
  induction bytes using encode.induct with
  | case1 => cases h
  | case2 a =>
    have ha := a.toNat_lt
    simp only [encode, List.mem_cons, List.not_mem_nil, or_false] at h
    rcases h with rfl | rfl | rfl | rfl
    · exact hsymbol _ (by omega)
    · exact hsymbol _ (by omega)
    · exact hpad
    · exact hpad
  | case3 a b =>
    have ha := a.toNat_lt
    have hb := b.toNat_lt
    simp only [encode, List.mem_cons, List.not_mem_nil, or_false] at h
    rcases h with rfl | rfl | rfl | rfl
    · exact hsymbol _ (by omega)
    · exact hsymbol _ (by omega)
    · exact hsymbol _ (by omega)
    · exact hpad
  | case4 a b c' bytes ih =>
    have ha := a.toNat_lt
    have hb := b.toNat_lt
    have hc := c'.toNat_lt
    simp only [encode, List.mem_cons] at h
    rcases h with rfl | rfl | rfl | rfl | h
    · exact hsymbol _ (by omega)
    · exact hsymbol _ (by omega)
    · exact hsymbol _ (by omega)
    · exact hsymbol _ (by omega)
    · exact ih h

section Groups

variable {a a' : UInt8} {i j : Nat}

/-- The first byte of a group takes one symbol and two bits of the next. -/
theorem first_of_symbols (hi : i < 16) (hj : j < 16) (h : symbol (a.toNat / 4) = symbol (a'.toNat / 4))
    (h' : symbol (a.toNat % 4 * 16 + i) = symbol (a'.toNat % 4 * 16 + j)) : a = a' ∧ i = j := by
  have ha := a.toNat_lt
  have ha' := a'.toNat_lt
  have hhigh := symbol_injective (by omega) (by omega) h
  have hlow := symbol_injective (by omega) (by omega) h'
  have heq : a.toNat = a'.toNat := by omega
  exact ⟨UInt8.toNat_inj.mp heq, by omega⟩

/-- The second byte takes what is left of that symbol and four bits of the next. -/
theorem second_of_symbols (hi : i < 4) (hj : j < 4) (h : a.toNat / 16 = a'.toNat / 16)
    (h' : symbol (a.toNat % 16 * 4 + i) = symbol (a'.toNat % 16 * 4 + j)) : a = a' ∧ i = j := by
  have hlow := symbol_injective (by omega) (by omega) h'
  have heq : a.toNat = a'.toNat := by omega
  exact ⟨UInt8.toNat_inj.mp heq, by omega⟩

/-- The third byte takes the rest. -/
theorem third_of_symbols (h : a.toNat / 64 = a'.toNat / 64)
    (h' : symbol (a.toNat % 64) = symbol (a'.toNat % 64)) : a = a' := by
  have hlow := symbol_injective (by omega) (by omega) h'
  have heq : a.toNat = a'.toNat := by omega
  exact UInt8.toNat_inj.mp heq

end Groups

/-- A text is read group by group: padding tells how many bytes the last group has. -/
theorem encode_injective {bytes bytes' : List UInt8} (h : encode bytes = encode bytes') : bytes = bytes' := by
  have hsixteen : ∀ b : UInt8, b.toNat / 16 < 16 := fun b => by have := b.toNat_lt; omega
  have hfour : ∀ c : UInt8, c.toNat / 64 < 4 := fun c => by have := c.toNat_lt; omega
  have hpad : ∀ b i : Nat, i < 4 → symbol (b % 16 * 4 + i) ≠ '=' := fun b i hi => symbol_ne_pad (by omega)
  have hpad' : ∀ c : Nat, symbol (c % 64) ≠ '=' := fun c => symbol_ne_pad (by omega)
  induction bytes using encode.induct generalizing bytes' with
  | case1 =>
    rcases bytes' with _ | ⟨a', _ | ⟨b', _ | ⟨c', bytes'⟩⟩⟩
    · rfl
    all_goals cases h
  | case2 a =>
    rcases bytes' with _ | ⟨a', _ | ⟨b', _ | ⟨c', bytes'⟩⟩⟩
    · cases h
    · simp only [encode, List.cons.injEq, and_true] at h
      obtain ⟨rfl, -⟩ := first_of_symbols (i := 0) (j := 0) (by omega) (by omega) h.1 h.2
      rfl
    · simp only [encode, List.cons.injEq] at h
      exact absurd h.2.2.1.symm (hpad b'.toNat 0 (by omega))
    · simp only [encode, List.cons.injEq] at h
      exact absurd h.2.2.1.symm (hpad b'.toNat _ (hfour c'))
  | case3 a b =>
    rcases bytes' with _ | ⟨a', _ | ⟨b', _ | ⟨c', bytes'⟩⟩⟩
    · cases h
    · simp only [encode, List.cons.injEq] at h
      exact absurd h.2.2.1 (hpad b.toNat 0 (by omega))
    · simp only [encode, List.cons.injEq, and_true] at h
      obtain ⟨rfl, hb⟩ := first_of_symbols (hsixteen b) (hsixteen b') h.1 h.2.1
      obtain ⟨rfl, -⟩ := second_of_symbols (i := 0) (j := 0) (by omega) (by omega) hb h.2.2
      rfl
    · simp only [encode, List.cons.injEq] at h
      exact absurd h.2.2.2.1.symm (hpad' c'.toNat)
  | case4 a b c bytes ih =>
    rcases bytes' with _ | ⟨a', _ | ⟨b', _ | ⟨c', bytes'⟩⟩⟩
    · cases h
    · simp only [encode, List.cons.injEq] at h
      exact absurd h.2.2.1 (hpad b.toNat _ (hfour c))
    · simp only [encode, List.cons.injEq] at h
      exact absurd h.2.2.2.1 (hpad' c.toNat)
    · simp only [encode, List.cons.injEq] at h
      obtain ⟨rfl, hb⟩ := first_of_symbols (hsixteen b) (hsixteen b') h.1 h.2.1
      obtain ⟨rfl, hc⟩ := second_of_symbols (hfour c) (hfour c') hb h.2.2.1
      rw [third_of_symbols hc h.2.2.2.1, ih h.2.2.2.2]

end Base64
