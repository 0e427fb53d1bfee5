import WebhookInbox.Library.Json
import WebhookInbox.Library.NetString

/-!
# Escaped line ends in a JSON text

The details page replaces the four characters `\r\n`, backslashes included, by a line feed. They stand
in literals only, where a line feed may not, so the text stays JSON exactly when they do not occur
(`isText_replace_iff`). What the serializer writes has them exactly when a string of the value has a
line end (`infix_written_iff`).
-/

namespace WebhookInbox.UI

open NetString Json

/-- The pattern of the replacement. -/
def escapedLineEnd : List Char := ['\\', 'r', '\\', 'n']

def replaceLineEnds (text : List Char) : List Char := replace escapedLineEnd ['\n'] text

/-- The units are written as the pattern: CR and LF, or a backslash, the letter and LF. -/
def HasLineEnd (units : List UInt16) : Prop :=
  [0x0D, 0x0A] <:+: units ∨ [0x5C, 0x72, 0x0A] <:+: units

instance decidableHasLineEnd (units : List UInt16) : Decidable (HasLineEnd units) :=
  inferInstanceAs (Decidable (_ ∨ _))

/-! ## A text stays JSON or not -/

theorem place_of_backslash {place place' : Place} (h : scanChar place '\\' = some place') :
    scanChar place '\n' = none := by
  cases place with
  | outside => cases h
  | inside => rfl
  | escaped => rfl

theorem scan_replaceLineEnds {text : List Char} {place : Place} (hscan : scan .outside text = some place)
    (h : escapedLineEnd <:+: text) : scan .outside (replaceLineEnds text) = none := by
  have hne : escapedLineEnd ≠ [] := by decide
  obtain ⟨before, after, rfl, hreplace⟩ := replace_of_infix ['\n'] hne h
  rw [scan_append] at hscan
  rw [replaceLineEnds, hreplace, scan_append]
  cases hbefore : scan .outside before with
  | none => rfl
  | some place' =>
    rw [hbefore, Option.bind_some] at hscan
    change scan place' ('\\' :: _) = _ at hscan
    rw [scan_cons] at hscan
    obtain ⟨place'', hbackslash, -⟩ := Option.bind_eq_some_iff.mp hscan
    show scan place' ('\n' :: _) = _
    rw [scan_cons, place_of_backslash hbackslash, Option.bind_none]

/-- **The replacement** leaves a JSON text alone or makes it no JSON. -/
theorem isText_replace_iff {ν : Type} {number : List Char → Option ν} {text : List Char} {v : Value ν}
    (h : IsText number text v) : IsText number (replaceLineEnds text) v ↔ ¬ escapedLineEnd <:+: text := by
  constructor
  · intro hreplaced hinfix
    have hnone := scan_replaceLineEnds (scan_of_denotes h) hinfix
    rw [scan_of_denotes hreplaced] at hnone
    cases hnone
  · intro hinfix
    rw [replaceLineEnds, replace_of_not_infix _ hinfix]
    exact h

/-! ## What the serializer writes -/

/-- Carriage returns, line feeds and backslashes have short escapes, and the letter stands for itself. -/
def WrittenPiece (units : List UInt16) (text : List Char) : Prop :=
  Piece units text ∧ (units = [0x0D] → text = ['\\', 'r']) ∧ (units = [0x0A] → text = ['\\', 'n']) ∧
    (units = [0x5C] → text = ['\\', '\\']) ∧ (units = [0x72] → text = ['r'])

/-- The text of a value as it is written. -/
def Written {ν : Type} (number : List Char → Option ν) (text : List Char) (v : Value ν) : Prop :=
  Denotes number WrittenPiece (.item v) text

theorem Written.isText {ν : Type} {number : List Char → Option ν} {text : List Char} {v : Value ν}
    (h : Written number text v) : IsText number text v :=
  h.mono fun _ _ hpiece => hpiece.1

/-- The cases that matter to the pattern. -/
inductive Shape : List UInt16 → List Char → Prop
  | plain {c : Char} {units : List UInt16} (hc : c ≠ '\\') (hne : units ≠ []) (hcr : 0x0D ∉ units)
      (hlf : 0x0A ∉ units) (hbackslash : 0x5C ∉ units) (hletter : c ≠ 'r' → 0x72 ∉ units)
      (hr : c = 'r' → units = [0x72]) : Shape units [c]
  | carriageReturn : Shape [0x0D] ['\\', 'r']
  | lineFeed : Shape [0x0A] ['\\', 'n']
  | backslash : Shape [0x5C] ['\\', '\\']
  | other {c : Char} {u : UInt16} {text : List Char} (hr : c ≠ 'r') (hn : c ≠ 'n') (hc : '\\' ∉ c :: text)
      (hcr : u ≠ 0x0D) (hlf : u ≠ 0x0A) (hbackslash : u ≠ 0x5C) (hletter : u ≠ 0x72) :
      Shape [u] ('\\' :: c :: text)

theorem shape_of_plain {c : Char} (hcontrol : 0x20 ≤ c.toNat) (hescape : c ≠ '\\') :
    Shape (Utf16.encodeChar c) [c] := by
  have hne : Utf16.encodeChar c ≠ [] := by
    unfold Utf16.encodeChar
    split <;> exact List.cons_ne_nil _ _
  have hbelow : ∀ u : UInt16, u.toNat < 0x20 → u ∉ Utf16.encodeChar c := by
    intro u hu hmem
    have hvalue := (Utf16.encodeChar_of_mem hmem (by omega)).2
    omega
  have hascii : ∀ u : UInt16, ∀ d : Char, u.toNat = d.toNat → u.toNat < 0xD800 → c ≠ d →
      u ∉ Utf16.encodeChar c := by
    intro u d hd hu hcd hmem
    apply hcd
    apply Char.toNat_inj.mp
    rw [← hd, (Utf16.encodeChar_of_mem hmem hu).2]
  refine .plain hescape hne (hbelow _ (by decide)) (hbelow _ (by decide))
    (hascii _ '\\' (by decide) (by decide) hescape) (hascii _ 'r' (by decide) (by decide)) ?_
  rintro rfl
  rfl

theorem shape_of_short {c : Char} {u : UInt16} (h : shortEscape? c = some u) : Shape [u] ['\\', c] := by
  unfold shortEscape? at h
  split at h <;> cases h
  case h_2 => exact .backslash
  case h_6 => exact .lineFeed
  case h_7 => exact .carriageReturn
  -- the pattern has nothing to do with the others
  all_goals exact .other (by decide) (by decide) (by decide) (by decide) (by decide) (by decide) (by decide)

theorem shape_of_written {units : List UInt16} {text : List Char} (h : WrittenPiece units text) :
    Shape units text := by
  obtain ⟨hpiece, hcr, hlf, hbackslash, hletter⟩ := h
  cases hpiece with
  | plain hcontrol _ hescape => exact shape_of_plain hcontrol hescape
  | short h => exact shape_of_short h
  | @unicode a b c d _ _ _ _ ha hb hc hd =>
    have hdigit : ∀ (e : Char) (n : Nat), Hex.value? e = some n → '\\' ≠ e := by
      rintro e n he rfl
      cases he
    have hmem : '\\' ∉ ['u', a, b, c, d] := by
      simp [hdigit a _ ha, hdigit b _ hb, hdigit c _ hc, hdigit d _ hd]
    refine .other (by decide) (by decide) hmem ?_ ?_ ?_ ?_
    · intro hu
      cases hcr (by rw [hu])
    · intro hu
      cases hlf (by rw [hu])
    · intro hu
      cases hbackslash (by rw [hu])
    · intro hu
      cases hletter (by rw [hu])

/-! ## Occurrences -/

theorem hasLineEnd_append {units units' : List UInt16} (hcr : 0x0D ∉ units) (hbackslash : 0x5C ∉ units) :
    HasLineEnd (units ++ units') ↔ HasLineEnd units' := by
  unfold HasLineEnd
  rw [infix_append_of_not_mem hcr, infix_append_of_not_mem hbackslash]

section Content

variable {units : List UInt16} {text : List Char}

/-- A literal goes on with an escaped line feed exactly when the next unit is a line feed. -/
theorem lineFeed_prefix_iff (h : Pieces WrittenPiece units text) (rest : List Char) :
    ['\\', 'n'] <+: text ++ '"' :: rest ↔ [0x0A] <+: units := by
  cases h with
  | nil => simp
  | @cons u units t text hpiece _ =>
    cases shape_of_written hpiece with
    | plain hc hne _ hlf =>
      obtain ⟨x, u, rfl⟩ := List.exists_cons_of_ne_nil hne
      have hx : ¬ 0x0A = x := fun hx => hlf (hx ▸ List.mem_cons_self)
      simp [hx, Ne.symm hc]
    | carriageReturn => simp
    | lineFeed => simp
    | backslash => simp
    | other _ hn _ _ hlf => simp [Ne.symm hn, Ne.symm hlf]

theorem letter_prefix_iff (h : Pieces WrittenPiece units text) (rest : List Char) :
    ['r', '\\', 'n'] <+: text ++ '"' :: rest ↔ [0x72, 0x0A] <+: units := by
  cases h with
  | nil => simp
  | @cons u units t text hpiece hpieces =>
    have hnext := lineFeed_prefix_iff hpieces rest
    cases shape_of_written hpiece with
    | @plain c _ _ hne _ _ _ hletter hr =>
      by_cases hc : c = 'r'
      · rw [hr hc, hc]
        simpa using hnext
      · obtain ⟨x, u, rfl⟩ := List.exists_cons_of_ne_nil hne
        have hx : ¬ 0x72 = x := fun hx => hletter hc (hx ▸ List.mem_cons_self)
        simp [hx, Ne.symm hc]
    | carriageReturn => simp
    | lineFeed => simp
    | backslash => simp
    | other _ _ _ _ _ _ hletter => simp [Ne.symm hletter]

/-- **A literal** has the pattern exactly when its string has a line end. -/
theorem infix_content_iff (h : Pieces WrittenPiece units text) (rest : List Char) :
    escapedLineEnd <:+: text ++ '"' :: rest ↔ HasLineEnd units ∨ escapedLineEnd <:+: rest := by
  induction h with
  | nil =>
    have hnone : ¬ HasLineEnd [] := by decide
    rw [List.nil_append, escapedLineEnd, infix_cons_of_ne (by decide), or_iff_right hnone]
  | @cons u units t text hpiece hpieces ih =>
    rw [List.append_assoc]
    cases shape_of_written hpiece with
    | plain hc _ hcr _ hbackslash =>
      rw [hasLineEnd_append hcr hbackslash, ← ih]
      exact infix_append_of_not_mem (by simpa using Ne.symm hc)
    | carriageReturn =>
      have htext : escapedLineEnd <:+: ['\\', 'r'] ++ (text ++ '"' :: rest) ↔
          [0x0A] <+: units ∨ escapedLineEnd <:+: text ++ '"' :: rest := by
        rw [← lineFeed_prefix_iff hpieces rest]
        show escapedLineEnd <:+: '\\' :: 'r' :: (text ++ '"' :: rest) ↔ _
        rw [List.infix_cons_iff, escapedLineEnd, infix_cons_of_ne (y := 'r') (by decide),
          List.cons_prefix_cons, List.cons_prefix_cons, and_iff_right rfl, and_iff_right rfl]
      have hunits : HasLineEnd ([0x0D] ++ units) ↔ [0x0A] <+: units ∨ HasLineEnd units := by
        unfold HasLineEnd
        rw [List.singleton_append, List.infix_cons_iff, List.cons_prefix_cons, and_iff_right rfl,
          infix_cons_of_ne (x := 0x5C) (by decide), or_assoc]
      rw [htext, hunits, ih, or_assoc]
    | lineFeed =>
      rw [hasLineEnd_append (by decide) (by decide), ← ih]
      show escapedLineEnd <:+: '\\' :: 'n' :: (text ++ '"' :: rest) ↔ _
      rw [List.infix_cons_iff, escapedLineEnd, infix_cons_of_ne (y := 'n') (by decide),
        List.cons_prefix_cons, List.cons_prefix_cons]
      simp
    | backslash =>
      have htext : escapedLineEnd <:+: ['\\', '\\'] ++ (text ++ '"' :: rest) ↔
          [0x72, 0x0A] <+: units ∨ escapedLineEnd <:+: text ++ '"' :: rest := by
        rw [← letter_prefix_iff hpieces rest]
        show escapedLineEnd <:+: '\\' :: '\\' :: (text ++ '"' :: rest) ↔ _
        rw [List.infix_cons_iff, List.infix_cons_iff, escapedLineEnd]
        simp only [List.cons_prefix_cons]
        simp
      have hunits : HasLineEnd ([0x5C] ++ units) ↔ [0x72, 0x0A] <+: units ∨ HasLineEnd units := by
        unfold HasLineEnd
        rw [List.singleton_append, infix_cons_of_ne (x := 0x0D) (by decide), List.infix_cons_iff,
          List.cons_prefix_cons, and_iff_right rfl, or_left_comm]
      rw [htext, hunits, ih, or_assoc]
    | @other c u t hr _ hc hcr _ hbackslash =>
      rw [hasLineEnd_append (by simpa using Ne.symm hcr) (by simpa using Ne.symm hbackslash), ← ih]
      show escapedLineEnd <:+: '\\' :: (c :: t ++ (text ++ '"' :: rest)) ↔ _
      have hprefix : ¬ escapedLineEnd <+: '\\' :: (c :: t ++ (text ++ '"' :: rest)) := by
        rw [escapedLineEnd, List.cons_prefix_cons, List.cons_append, List.cons_prefix_cons]
        exact fun h => hr h.2.1.symm
      rw [List.infix_cons_iff, or_iff_right hprefix]
      exact infix_append_of_not_mem hc

end Content

theorem infix_laid_iff {strings : List (List UInt16)} {text : List Char}
    (h : Laid WrittenPiece strings text) :
    escapedLineEnd <:+: text ↔ ∃ units ∈ strings, HasLineEnd units := by
  induction h with
  | nil => simp [escapedLineEnd]
  | bare hc _ ih =>
    rw [isBare, Bool.and_eq_true, bne_iff_ne, bne_iff_ne] at hc
    rw [← ih]
    exact infix_cons_of_ne hc.2.symm
  | literal hunits _ ih =>
    rw [List.exists_mem_cons_iff, ← ih, ← infix_content_iff hunits]
    exact infix_cons_of_ne (by decide)

/-- **What is written** has the pattern exactly when a string of the value has a line end. -/
theorem infix_written_iff {ν : Type} {number : List Char → Option ν} {text : List Char} {v : Value ν}
    (h : Written number text v) :
    escapedLineEnd <:+: text ↔ ∃ units ∈ v.strings, HasLineEnd units :=
  infix_laid_iff (laid_of_denotes h)

end WebhookInbox.UI
