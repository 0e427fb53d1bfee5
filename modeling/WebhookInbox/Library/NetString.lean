import Mathlib.Algebra.Group.Int.Defs
import Mathlib.Data.List.DropRight
import Mathlib.Data.List.TakeWhile
import Mathlib.Tactic.Common

/-!
# String operations of .NET

The operations on strings that need no culture data: white space, `Trim`, `Split`, joining,
`Replace` and the parsing of a 64-bit integer. A string is the list of its characters.
-/

namespace NetString

/-- `char.IsWhiteSpace`. -/
def isWhiteSpace (c : Char) : Bool :=
  let n := c.toNat
  (9 ≤ n && n ≤ 13) || n == 0x20 || n == 0x85 || n == 0xA0 || n == 0x1680 ||
    (0x2000 ≤ n && n ≤ 0x200A) || n == 0x2028 || n == 0x2029 || n == 0x202F || n == 0x205F ||
    n == 0x3000

/-- `string.IsNullOrWhiteSpace`; a null string is `none`. -/
def isNullOrWhiteSpace (s : Option (List Char)) : Bool := s.all fun s => s.all isWhiteSpace

def trim (s : List Char) : List Char :=
  ((s.dropWhile isWhiteSpace).reverse.dropWhile isWhiteSpace).reverse

/-- `Split` at a character with `RemoveEmptyEntries` and `TrimEntries`. -/
def splitEntries (separator : Char) (s : List Char) : List (List Char) :=
  ((s.splitOn separator).map trim).filter fun entry => !entry.isEmpty

/-- `Split(separator, 2)` when it gives two parts. -/
def splitPair (separator : Char) (s : List Char) : Option (List Char × List Char) :=
  if separator ∈ s then
    some (s.takeWhile fun c => c ≠ separator, (s.dropWhile fun c => c ≠ separator).tail)
  else none

/-- `StringValues.ToString`, which leaves out the empty values. -/
def join (values : List (List Char)) : List Char :=
  List.intercalate [','] (values.filter fun value => !value.isEmpty)

theorem join_singleton (value : List Char) : join [value] = value := by
  cases value <;> simp [join, List.intercalate]

theorem splitPair_eq_some_iff {separator : Char} {s name value : List Char} :
    splitPair separator s = some (name, value) ↔ s = name ++ separator :: value ∧ separator ∉ name := by
  unfold splitPair
  constructor
  · intro h
    split at h
    · rename_i hmem
      simp only [Option.some.injEq, Prod.mk.injEq] at h
      obtain ⟨rfl, rfl⟩ := h
      have hnot : separator ∉ s.takeWhile fun c => decide (c ≠ separator) := by
        intro hin
        simpa using List.mem_takeWhile_imp hin
      refine ⟨?_, hnot⟩
      have hsplit := List.takeWhile_append_dropWhile (p := fun c => decide (c ≠ separator)) (l := s)
      cases hd : s.dropWhile fun c => decide (c ≠ separator) with
      | nil =>
        rw [hd, List.append_nil] at hsplit
        rw [hsplit] at hnot
        exact absurd hmem hnot
      | cons c rest =>
        have hc : c = separator := by
          have := List.head?_dropWhile_not (fun c => decide (c ≠ separator)) s
          rw [hd] at this
          simpa using this
        rw [hd, hc] at hsplit
        rw [List.tail_cons]
        exact hsplit.symm
    · cases h
  · rintro ⟨rfl, hname⟩
    have hall : ∀ c ∈ name, decide (c ≠ separator) = true := by
      intro c hc
      simp only [ne_eq, decide_not, Bool.not_eq_eq_eq_not, Bool.not_true, decide_eq_false_iff_not]
      rintro rfl
      exact hname hc
    rw [if_pos (by simp), List.takeWhile_append_of_pos hall, List.dropWhile_append_of_pos hall]
    simp

theorem trim_of_visible {s : List Char} (h : ∀ c ∈ s, isWhiteSpace c = false) : trim s = s := by
  have hdrop : ∀ l : List Char, (∀ c ∈ l, isWhiteSpace c = false) → l.dropWhile isWhiteSpace = l := by
    intro l hl
    cases l with
    | nil => rfl
    | cons c l => rw [List.dropWhile_cons_of_neg (by rw [hl c List.mem_cons_self]; exact Bool.false_ne_true)]
  rw [trim, hdrop s h, hdrop s.reverse fun c hc => h c (List.mem_reverse.mp hc), List.reverse_reverse]

/-- What a text keeps when nothing is trimmed from it. -/
theorem dropWhile_of_trim {s : List Char} (h : trim s = s) :
    s.dropWhile isWhiteSpace = s ∧ s.reverse.dropWhile isWhiteSpace = s.reverse := by
  have hlength := congrArg List.length h
  have hright := (List.dropWhile_suffix isWhiteSpace (l := (s.dropWhile isWhiteSpace).reverse)).length_le
  rw [trim, List.length_reverse] at hlength
  rw [List.length_reverse] at hright
  have hleft : s.dropWhile isWhiteSpace = s :=
    (List.dropWhile_suffix isWhiteSpace).eq_of_length_le (by omega)
  refine ⟨hleft, ?_⟩
  rw [trim, hleft] at h
  rw [← List.reverse_reverse (s.reverse.dropWhile isWhiteSpace), h]

/-- White space around a text is trimmed. -/
theorem trim_padded {before s after : List Char} (hbefore : ∀ c ∈ before, isWhiteSpace c = true)
    (hafter : ∀ c ∈ after, isWhiteSpace c = true) (h : trim s = s) : trim (before ++ s ++ after) = s := by
  obtain ⟨hleft, hright⟩ := dropWhile_of_trim h
  have hwhite : after.dropWhile isWhiteSpace = [] := List.dropWhile_eq_nil_iff.mpr hafter
  rw [trim, List.append_assoc, List.dropWhile_append_of_pos hbefore, List.dropWhile_append, hleft]
  split
  · rename_i hempty
    rw [List.isEmpty_iff.mp hempty, hwhite]
    rfl
  · rw [List.reverse_append,
      List.dropWhile_append_of_pos fun c hc => hafter c (List.mem_reverse.mp hc), hright,
      List.reverse_reverse]

theorem dropWhile_of_prefix {P : Char → Bool} {s t : List Char} (h : s <+: t) (ht : t.dropWhile P = t) :
    s.dropWhile P = s := by
  cases s with
  | nil => rfl
  | cons c s =>
    obtain ⟨rest, rfl⟩ := h
    have hc : ¬ P c = true := by
      intro hc
      rw [List.cons_append, List.dropWhile_cons_of_pos hc] at ht
      have hle := (List.dropWhile_suffix P (l := s ++ rest)).length_le
      rw [ht, List.length_cons] at hle
      omega
    rw [List.dropWhile_cons_of_neg hc]

/-- Nothing is trimmed from a text that has been trimmed. -/
theorem trim_trim (s : List Char) : trim (trim s) = trim s := by
  have hright := List.dropWhile_idempotent isWhiteSpace (s.dropWhile isWhiteSpace).reverse
  have hprefix : trim s <+: s.dropWhile isWhiteSpace := by
    rw [← List.reverse_suffix, trim, List.reverse_reverse]
    exact List.dropWhile_suffix isWhiteSpace
  have hleft := dropWhile_of_prefix hprefix (List.dropWhile_idempotent isWhiteSpace s)
  have hreverse : (trim s).reverse.dropWhile isWhiteSpace = (trim s).reverse := by
    rw [trim, List.reverse_reverse]
    exact hright
  conv_lhs => rw [trim, hleft, hreverse, List.reverse_reverse]

theorem exists_padding (s : List Char) : ∃ before after, (∀ c ∈ before, isWhiteSpace c = true) ∧
    (∀ c ∈ after, isWhiteSpace c = true) ∧ s = before ++ trim s ++ after := by
  refine ⟨s.takeWhile isWhiteSpace, ((s.dropWhile isWhiteSpace).reverse.takeWhile isWhiteSpace).reverse,
    fun c hc => List.mem_takeWhile_imp hc,
    fun c hc => List.mem_takeWhile_imp (List.mem_reverse.mp hc), ?_⟩
  rw [trim, List.append_assoc, ← List.reverse_append, List.takeWhile_append_dropWhile,
    List.reverse_reverse, List.takeWhile_append_dropWhile]

/-- The parts of a split text do not contain the separator. -/
theorem not_mem_of_mem_splitOn {separator : Char} {s part : List Char}
    (h : part ∈ s.splitOn separator) : separator ∉ part := by
  induction s generalizing part with
  | nil =>
    rw [List.splitOn_nil, List.mem_singleton] at h
    rw [h]
    exact List.not_mem_nil
  | cons c s ih =>
    rw [List.splitOn_cons_eq_if_modifyHead] at h
    obtain ⟨first, others, hsplit⟩ := List.exists_cons_of_ne_nil (List.splitOn_ne_nil separator s)
    rw [hsplit] at h ih
    split at h
    · rcases List.mem_cons.mp h with rfl | h
      · exact List.not_mem_nil
      · exact ih h
    · rename_i hc
      rcases List.mem_cons.mp h with rfl | h
      · have hne : separator ≠ c := by
          rintro rfl
          exact hc (beq_self_eq_true _)
        exact List.not_mem_cons_of_ne_of_not_mem hne (ih List.mem_cons_self)
      · exact ih (List.mem_cons_of_mem _ h)

/-- The entries of parts that stand between separators. -/
theorem splitEntries_intercalate {separator : Char} {parts : List (List Char)}
    (hsep : ∀ part ∈ parts, separator ∉ part) :
    splitEntries separator ([separator].intercalate parts) =
      (parts.map trim).filter fun entry => !entry.isEmpty := by
  cases parts with
  | nil => rfl
  | cons part parts => rw [splitEntries, List.splitOn_intercalate separator hsep (List.cons_ne_nil _ _)]

/-- A visible text without the separator is the only entry. -/
theorem splitEntries_single {separator : Char} {s : List Char} (hne : s ≠ []) (hsep : separator ∉ s)
    (h : ∀ c ∈ s, isWhiteSpace c = false) : splitEntries separator s = [s] := by
  rw [splitEntries, List.splitOn_eq_singleton hsep, List.map_singleton, trim_of_visible h,
    List.filter_cons_of_pos (by simpa using hne), List.filter_nil]

theorem splitEntries_cons {separator : Char} {s rest : List Char} (hne : s ≠ []) (hsep : separator ∉ s)
    (h : ∀ c ∈ s, isWhiteSpace c = false) :
    splitEntries separator (s ++ separator :: rest) = s :: splitEntries separator rest := by
  rw [splitEntries, List.splitOn_append_cons_self_of_not_mem hsep, List.map_cons, trim_of_visible h,
    List.filter_cons_of_pos (by simpa using hne), splitEntries]

/-! ## Replacing -/

/-- `Replace`, when the next `skip` characters belong to an occurrence that is replaced. -/
def replaceFrom (old new : List Char) : Nat → List Char → List Char
  | _, [] => []
  | skip + 1, _ :: s => replaceFrom old new skip s
  | 0, c :: s =>
    if old.isPrefixOf (c :: s) then new ++ replaceFrom old new (old.length - 1) s
    else c :: replaceFrom old new 0 s

/-- `Replace` of a text that is not empty, from left to right. -/
def replace (old new s : List Char) : List Char := replaceFrom old new 0 s

theorem replaceFrom_append (old new skipped s : List Char) :
    replaceFrom old new skipped.length (skipped ++ s) = replaceFrom old new 0 s := by
  induction skipped with
  | nil => rfl
  | cons c skipped ih => exact ih

theorem replace_of_not_infix {old s : List Char} (new : List Char) (h : ¬ old <:+: s) :
    replace old new s = s := by
  induction s with
  | nil => rfl
  | cons c s ih =>
    rw [List.infix_cons_iff, not_or] at h
    have hprefix : ¬ old.isPrefixOf (c :: s) = true := fun hp => h.1 (List.isPrefixOf_iff_prefix.mp hp)
    have hrest := ih h.2
    rw [replace] at hrest
    rw [replace, replaceFrom, if_neg hprefix, hrest]

/-- The first occurrence is replaced, and what follows it on its own. -/
theorem replace_of_infix {old s : List Char} (new : List Char) (hold : old ≠ []) (h : old <:+: s) :
    ∃ before after, s = before ++ (old ++ after) ∧
      replace old new s = before ++ (new ++ replace old new after) := by
  induction s with
  | nil => exact absurd (List.infix_nil.mp h) hold
  | cons c s ih =>
    by_cases hprefix : old <+: c :: s
    · obtain ⟨after, hafter⟩ := hprefix
      obtain ⟨d, old', rfl⟩ := List.exists_cons_of_ne_nil hold
      have hs : s = old' ++ after := (List.cons.inj hafter).2.symm
      refine ⟨[], after, hafter.symm, ?_⟩
      have hreplace : replaceFrom (d :: old') new ((d :: old').length - 1) s =
          replaceFrom (d :: old') new 0 after := by
        rw [hs]
        exact replaceFrom_append _ new old' after
      rw [replace, replaceFrom, if_pos (List.isPrefixOf_iff_prefix.mpr ⟨after, hafter⟩), hreplace]
      rfl
    · rw [List.infix_cons_iff] at h
      obtain ⟨before, after, hs, hreplace⟩ := ih (h.resolve_left hprefix)
      refine ⟨c :: before, after, by rw [hs]; rfl, ?_⟩
      rw [replace] at hreplace
      rw [replace, replaceFrom, if_neg fun hp => hprefix (List.isPrefixOf_iff_prefix.mp hp), hreplace]
      rfl

section Infix

variable {α : Type} {x y : α} {pattern a b : List α}

/-- An occurrence does not begin in a part without its first element. -/
theorem infix_cons_of_ne (h : x ≠ y) : x :: pattern <:+: y :: a ↔ x :: pattern <:+: a := by
  rw [List.infix_cons_iff, List.cons_prefix_cons]
  exact or_iff_right fun h' => h h'.1

theorem infix_append_of_not_mem (h : x ∉ a) : x :: pattern <:+: a ++ b ↔ x :: pattern <:+: b := by
  induction a with
  | nil => rfl
  | cons y a ih =>
    rw [List.mem_cons, not_or] at h
    rw [List.cons_append, infix_cons_of_ne h.1, ih h.2]

end Infix

/-! ## Integers -/

/-- White space around a number. -/
def isNumberWhite (c : Char) : Bool := (9 ≤ c.toNat && c.toNat ≤ 13) || c == ' '

def isDigit (c : Char) : Bool := 48 ≤ c.toNat && c.toNat ≤ 57

def digitsValue (digits : List Char) : Nat := digits.foldl (fun n c => 10 * n + (c.toNat - 48)) 0

/-- The sign of a number and what follows it. -/
def readSign : List Char → Bool × List Char
  | '-' :: rest => (true, rest)
  | '+' :: rest => (false, rest)
  | s => (false, s)

/-- `long.TryParse` with the invariant number format: white space on both sides, a sign,
digits, and any number of NUL characters at the end. -/
def tryParseInt64 (s : List Char) : Option Int :=
  let (negative, s) := readSign (s.dropWhile isNumberWhite)
  let digits := s.takeWhile isDigit
  let rest := (s.dropWhile isDigit).dropWhile isNumberWhite
  if digits.isEmpty || !rest.all (· == Char.ofNat 0) then none
  else
    let n : Int := if negative then -digitsValue digits else digitsValue digits
    if -2 ^ 63 ≤ n ∧ n < 2 ^ 63 then some n else none

theorem range_of_tryParseInt64 {s : List Char} {n : Int} (h : tryParseInt64 s = some n) :
    -2 ^ 63 ≤ n ∧ n < 2 ^ 63 := by
  unfold tryParseInt64 at h
  dsimp only at h
  split at h
  · cases h
  · split at h
    all_goals
      split at h
      · rename_i hrange
        cases h
        exact hrange
      · cases h

theorem mem_of_mem_readSign {c : Char} {s : List Char} (h : c ∈ (readSign s).2) : c ∈ s := by
  unfold readSign at h
  split at h
  · exact List.mem_cons_of_mem _ h
  · exact List.mem_cons_of_mem _ h
  · exact h

/-- A text that is a number is not blank. -/
theorem isNullOrWhiteSpace_of_tryParseInt64 {s : List Char} {n : Int} (h : tryParseInt64 s = some n) :
    isNullOrWhiteSpace (some s) = false := by
  unfold tryParseInt64 at h
  dsimp only at h
  generalize hd : ((readSign (s.dropWhile isNumberWhite)).2.takeWhile isDigit) = digits at h
  cases digits with
  | nil => simp at h
  | cons c digits =>
    have hmem : c ∈ (readSign (s.dropWhile isNumberWhite)).2.takeWhile isDigit := by
      rw [hd]
      exact List.mem_cons_self
    have hs : c ∈ s := by
      have := mem_of_mem_readSign ((List.takeWhile_prefix _).subset hmem)
      exact (List.dropWhile_suffix _).subset this
    have hdigit : isDigit c = true := List.mem_takeWhile_imp hmem
    have hnot : isWhiteSpace c = false := by
      simp only [isDigit, Bool.and_eq_true, decide_eq_true_eq] at hdigit
      simp only [isWhiteSpace, Bool.or_eq_false_iff, Bool.and_eq_false_iff, decide_eq_false_iff_not,
        beq_eq_false_iff_ne]
      omega
    have hall : ¬ s.all isWhiteSpace = true := by
      rw [List.all_eq_true]
      intro hall
      rw [hall c hs] at hnot
      cases hnot
    simpa [isNullOrWhiteSpace] using hall

/-- The text of an integer in the invariant number format. -/
def formatInt64 (n : Int) : List Char :=
  if n < 0 then '-' :: Nat.toDigits 10 n.natAbs else Nat.toDigits 10 n.natAbs

theorem digitsValue_toDigits (n : Nat) : digitsValue (Nat.toDigits 10 n) = n := by
  have h : Nat.ofDigitChars 10 (Nat.toDigits 10 n) 0 = n := Nat.ofDigitChars_ten_toDigits
  rwa [Nat.ofDigitChars_eq_foldl] at h

theorem isDigit_of_mem_toDigits {c : Char} {n : Nat} (h : c ∈ Nat.toDigits 10 n) : isDigit c = true := by
  have hdigit := Nat.isDigit_of_mem_toDigits (by decide) (by decide) h
  simp only [Char.isDigit, Bool.and_eq_true, decide_eq_true_eq, UInt32.le_iff_toNat_le] at hdigit
  simpa [isDigit] using hdigit

theorem digits_range {c : Char} (h : isDigit c = true) : 48 ≤ c.toNat ∧ c.toNat ≤ 57 := by
  simpa [isDigit] using h

theorem readSign_digit {c : Char} (h : isDigit c = true) (s : List Char) :
    readSign ((c :: s).dropWhile isNumberWhite) = (false, c :: s) := by
  have hc := digits_range h
  have hwhite : isNumberWhite c = false := by
    have hspace : c ≠ ' ' := by
      rintro rfl
      exact absurd hc.1 (by decide)
    simp only [isNumberWhite, Bool.or_eq_false_iff, Bool.and_eq_false_iff, decide_eq_false_iff_not,
      beq_eq_false_iff_ne]
    exact ⟨by omega, hspace⟩
  rw [List.dropWhile_cons_of_neg (by rw [hwhite]; exact Bool.false_ne_true)]
  unfold readSign
  split
  · rename_i heq
    cases heq
    exact absurd hc.1 (by decide)
  · rename_i heq
    cases heq
    exact absurd hc.1 (by decide)
  · rfl

/-- Digits, behind a sign or not, are read as their value. -/
theorem tryParseInt64_of_digits {s digits : List Char} {negative : Bool} (hne : digits ≠ [])
    (hdigits : ∀ c ∈ digits, isDigit c = true)
    (hsign : readSign (s.dropWhile isNumberWhite) = (negative, digits)) {n : Int}
    (hn : n = if negative then -(digitsValue digits : Int) else digitsValue digits)
    (h : -2 ^ 63 ≤ n) (h' : n < 2 ^ 63) : tryParseInt64 s = some n := by
  have htake : digits.takeWhile isDigit = digits := List.takeWhile_eq_self_iff.mpr hdigits
  have hdrop : digits.dropWhile isDigit = [] := List.dropWhile_eq_nil_iff.mpr hdigits
  unfold tryParseInt64
  rw [hsign]
  dsimp only
  rw [htake, hdrop, List.dropWhile_nil, List.all_nil, if_neg (by simpa using hne), ← hn, if_pos ⟨h, h'⟩]

/-- **The text of an integer** is read as that integer. -/
theorem tryParseInt64_formatInt64 {n : Int} (h : -2 ^ 63 ≤ n) (h' : n < 2 ^ 63) :
    tryParseInt64 (formatInt64 n) = some n := by
  have hdigits : ∀ c ∈ Nat.toDigits 10 n.natAbs, isDigit c = true := fun c => isDigit_of_mem_toDigits
  have hne : Nat.toDigits 10 n.natAbs ≠ [] := Nat.toDigits_ne_nil
  unfold formatInt64
  split
  · have hsign : readSign (('-' :: Nat.toDigits 10 n.natAbs).dropWhile isNumberWhite) =
        (true, Nat.toDigits 10 n.natAbs) := rfl
    apply tryParseInt64_of_digits hne hdigits hsign _ h h'
    rw [digitsValue_toDigits]
    simp only [if_true]
    omega
  · have hsign : readSign ((Nat.toDigits 10 n.natAbs).dropWhile isNumberWhite) =
        (false, Nat.toDigits 10 n.natAbs) := by
      generalize Nat.toDigits 10 n.natAbs = digits at hdigits hne
      cases digits with
      | nil => exact absurd rfl hne
      | cons c digits => exact readSign_digit (hdigits c List.mem_cons_self) digits
    apply tryParseInt64_of_digits hne hdigits hsign _ h h'
    rw [digitsValue_toDigits]
    simp only [Bool.false_eq_true, if_false]
    omega

theorem formatInt64_visible {n : Int} {c : Char} (h : c ∈ formatInt64 n) :
    c ≠ ',' ∧ isWhiteSpace c = false := by
  have hrange : 45 ≤ c.toNat ∧ c.toNat ≤ 57 := by
    unfold formatInt64 at h
    split at h
    · rcases List.mem_cons.mp h with rfl | h
      · exact ⟨by decide, by decide⟩
      · have := digits_range (isDigit_of_mem_toDigits h)
        omega
    · have := digits_range (isDigit_of_mem_toDigits h)
      omega
  constructor
  · rintro rfl
    exact absurd hrange.1 (by decide)
  · simp only [isWhiteSpace, Bool.or_eq_false_iff, Bool.and_eq_false_iff, decide_eq_false_iff_not,
      beq_eq_false_iff_ne]
    omega

example : tryParseInt64 " +1700000000 ".toList = some 1700000000 := by decide

example : tryParseInt64 "9223372036854775808".toList = none := by decide

end NetString
