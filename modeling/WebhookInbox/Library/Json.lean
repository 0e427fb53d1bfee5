import WebhookInbox.Library.Hex
import WebhookInbox.Library.Utf16

/-!
# JSON texts and what they denote

The grammar of RFC 8259 as a relation between a text and its value. A string is its UTF-16 code
units, as an escape may stand for one half of a surrogate pair, and the reading of numbers is
a parameter. A text is bare characters and string literals in turn (`laid_of_denotes`), so a
scanner with three states goes through all of it (`scan_of_denotes`).
-/

namespace Json

inductive Value (ν : Type) where
  | null
  | boolean (value : Bool)
  | number (value : ν)
  | string (units : List UInt16)
  | array (items : List (Value ν))
  | object (members : List (List UInt16 × Value ν))

variable {ν : Type}

mutual

/-- The strings of a value and the names of its members, in their order. -/
def Value.strings : Value ν → List (List UInt16)
  | .string units => [units]
  | .array items => itemStrings items
  | .object members => memberStrings members
  | _ => []

def itemStrings : List (Value ν) → List (List UInt16)
  | [] => []
  | v :: items => v.strings ++ itemStrings items

def memberStrings : List (List UInt16 × Value ν) → List (List UInt16)
  | [] => []
  | (name, v) :: members => name :: (v.strings ++ memberStrings members)

end

/-! ## The grammar -/

def isSpace (c : Char) : Bool := c == ' ' || c == '\t' || c == '\n' || c == '\r'

/-- One or more digits. -/
def IsDigits (text : List Char) : Prop := text ≠ [] ∧ ∀ c ∈ text, c.isDigit = true

/-- A number: a sign, an integer without leading zeros, a fraction and an exponent. -/
def IsNumber (text : List Char) : Prop :=
  ∃ minus int frac exp, text = minus ++ int ++ frac ++ exp ∧ (minus = [] ∨ minus = ['-']) ∧
    IsDigits int ∧ (int.head? = some '0' → int = ['0']) ∧
    (frac = [] ∨ ∃ digits, frac = '.' :: digits ∧ IsDigits digits) ∧
    (exp = [] ∨ ∃ e sign digits, exp = e :: sign ++ digits ∧ (e = 'e' ∨ e = 'E') ∧
      (sign = [] ∨ sign = ['+'] ∨ sign = ['-']) ∧ IsDigits digits)

/-- The characters that are escaped by a letter or by themselves. -/
def shortEscape? (c : Char) : Option UInt16 :=
  match c with
  | '"' => some 0x22
  | '\\' => some 0x5C
  | '/' => some 0x2F
  | 'b' => some 0x08
  | 'f' => some 0x0C
  | 'n' => some 0x0A
  | 'r' => some 0x0D
  | 't' => some 0x09
  | _ => none

/-- What may stand between the quotes for some code units. -/
inductive Piece : List UInt16 → List Char → Prop
  | plain {c : Char} (hcontrol : 0x20 ≤ c.toNat) (hquote : c ≠ '"') (hescape : c ≠ '\\') :
      Piece (Utf16.encodeChar c) [c]
  | short {c : Char} {u : UInt16} (h : shortEscape? c = some u) : Piece [u] ['\\', c]
  | unicode {a b c d : Char} {i j k l : Nat} (ha : Hex.value? a = some i) (hb : Hex.value? b = some j)
      (hc : Hex.value? c = some k) (hd : Hex.value? d = some l) :
      Piece [UInt16.ofNat (((i * 16 + j) * 16 + k) * 16 + l)] ['\\', 'u', a, b, c, d]

/-- Pieces of some kind, one after the other. -/
inductive Pieces (P : List UInt16 → List Char → Prop) : List UInt16 → List Char → Prop
  | nil : Pieces P [] []
  | cons {units units' : List UInt16} {text text' : List Char} (hpiece : P units text)
      (hpieces : Pieces P units' text') : Pieces P (units ++ units') (text ++ text')

/-- The parts of a text that denote something. White space belongs to an item. -/
inductive Phrase (ν : Type) where
  | value (v : Value ν)
  | item (v : Value ν)
  | items (vs : List (Value ν))
  | member (name : List UInt16) (v : Value ν)
  | members (ms : List (List UInt16 × Value ν))

def Phrase.strings : Phrase ν → List (List UInt16)
  | .value v => v.strings
  | .item v => v.strings
  | .items vs => itemStrings vs
  | .member name v => name :: v.strings
  | .members ms => memberStrings ms

/-- `number` reads a number, and `P` says which pieces are used. -/
inductive Denotes (number : List Char → Option ν) (P : List UInt16 → List Char → Prop) :
    Phrase ν → List Char → Prop
  | null : Denotes number P (.value .null) "null".toList
  | yes : Denotes number P (.value (.boolean true)) "true".toList
  | no : Denotes number P (.value (.boolean false)) "false".toList
  | number {text : List Char} {x : ν} (h : IsNumber text) (hx : number text = some x) :
      Denotes number P (.value (.number x)) text
  | string {units : List UInt16} {text : List Char} (h : Pieces P units text) :
      Denotes number P (.value (.string units)) ('"' :: (text ++ ['"']))
  | emptyArray {space : List Char} (h : ∀ c ∈ space, isSpace c = true) :
      Denotes number P (.value (.array [])) ('[' :: (space ++ [']']))
  | array {vs : List (Value ν)} {text : List Char} (h : Denotes number P (.items vs) text) :
      Denotes number P (.value (.array vs)) ('[' :: (text ++ [']']))
  | emptyObject {space : List Char} (h : ∀ c ∈ space, isSpace c = true) :
      Denotes number P (.value (.object [])) ('\x7b' :: (space ++ ['\x7d']))
  | object {ms : List (List UInt16 × Value ν)} {text : List Char}
      (h : Denotes number P (.members ms) text) :
      Denotes number P (.value (.object ms)) ('\x7b' :: (text ++ ['\x7d']))
  | item {v : Value ν} {before text after : List Char} (hbefore : ∀ c ∈ before, isSpace c = true)
      (h : Denotes number P (.value v) text) (hafter : ∀ c ∈ after, isSpace c = true) :
      Denotes number P (.item v) (before ++ (text ++ after))
  | items {v : Value ν} {text : List Char} (h : Denotes number P (.item v) text) :
      Denotes number P (.items [v]) text
  | itemsCons {v : Value ν} {vs : List (Value ν)} {text text' : List Char}
      (h : Denotes number P (.item v) text) (h' : Denotes number P (.items vs) text') :
      Denotes number P (.items (v :: vs)) (text ++ ',' :: text')
  | member {name : List UInt16} {v : Value ν} {before text after text' : List Char}
      (hbefore : ∀ c ∈ before, isSpace c = true) (hname : Pieces P name text)
      (hafter : ∀ c ∈ after, isSpace c = true) (h : Denotes number P (.item v) text') :
      Denotes number P (.member name v) (before ++ '"' :: (text ++ '"' :: (after ++ ':' :: text')))
  | members {name : List UInt16} {v : Value ν} {text : List Char}
      (h : Denotes number P (.member name v) text) : Denotes number P (.members [(name, v)]) text
  | membersCons {name : List UInt16} {v : Value ν} {ms : List (List UInt16 × Value ν)}
      {text text' : List Char} (h : Denotes number P (.member name v) text)
      (h' : Denotes number P (.members ms) text') :
      Denotes number P (.members ((name, v) :: ms)) (text ++ ',' :: text')

/-- A JSON text: a value with white space around it. -/
def IsText (number : List Char → Option ν) (text : List Char) (v : Value ν) : Prop :=
  Denotes number Piece (.item v) text

section Mono

variable {number : List Char → Option ν} {P Q : List UInt16 → List Char → Prop}
  (hPQ : ∀ units text, P units text → Q units text)

include hPQ in
theorem Pieces.mono {units : List UInt16} {text : List Char} (h : Pieces P units text) :
    Pieces Q units text := by
  induction h with
  | nil => exact .nil
  | cons hpiece _ ih => exact .cons (hPQ _ _ hpiece) ih

include hPQ in
/-- More kinds of pieces denote no less. -/
theorem Denotes.mono {φ : Phrase ν} {text : List Char} (h : Denotes number P φ text) :
    Denotes number Q φ text := by
  induction h with
  | null => exact .null
  | yes => exact .yes
  | no => exact .no
  | number h hx => exact .number h hx
  | string h => exact .string (h.mono hPQ)
  | emptyArray h => exact .emptyArray h
  | array _ ih => exact .array ih
  | emptyObject h => exact .emptyObject h
  | object _ ih => exact .object ih
  | item hbefore _ hafter ih => exact .item hbefore ih hafter
  | items _ ih => exact .items ih
  | itemsCons _ _ ih ih' => exact .itemsCons ih ih'
  | member hbefore hname hafter _ ih => exact .member hbefore (hname.mono hPQ) hafter ih
  | members _ ih => exact .members ih
  | membersCons _ _ ih ih' => exact .membersCons ih ih'

end Mono

/-! ## The layout of a text -/

/-- A character that is part of no string literal. -/
def isBare (c : Char) : Bool := c != '"' && c != '\\'

/-- Bare characters and string literals, with the strings of the literals. -/
inductive Laid (P : List UInt16 → List Char → Prop) : List (List UInt16) → List Char → Prop
  | nil : Laid P [] []
  | bare {c : Char} {strings : List (List UInt16)} {text : List Char} (hc : isBare c = true)
      (h : Laid P strings text) : Laid P strings (c :: text)
  | literal {units : List UInt16} {strings : List (List UInt16)} {text text' : List Char}
      (hunits : Pieces P units text) (h : Laid P strings text') :
      Laid P (units :: strings) ('"' :: (text ++ '"' :: text'))

section Layout

variable {number : List Char → Option ν} {P : List UInt16 → List Char → Prop}

theorem Laid.append {strings strings' : List (List UInt16)} {text text' : List Char}
    (h : Laid P strings text) (h' : Laid P strings' text') :
    Laid P (strings ++ strings') (text ++ text') := by
  induction h with
  | nil => exact h'
  | bare hc _ ih => exact .bare hc ih
  | literal hunits _ ih =>
    rw [List.cons_append, List.cons_append, List.append_assoc, List.cons_append]
    exact .literal hunits ih

/-- Bare characters before a text. -/
theorem Laid.bares {before text : List Char} {strings : List (List UInt16)} (hbefore : before.all isBare)
    (h : Laid P strings text) : Laid P strings (before ++ text) := by
  induction before with
  | nil => exact h
  | cons c before ih =>
    rw [List.all_cons, Bool.and_eq_true] at hbefore
    exact .bare hbefore.1 (ih hbefore.2)

theorem laid_of_bare {text : List Char} (h : text.all isBare) : Laid P [] text := by
  rw [← List.append_nil text]
  exact .bares h .nil

theorem all_isBare_of_isSpace {space : List Char} (h : ∀ c ∈ space, isSpace c = true) :
    space.all isBare := by
  rw [List.all_eq_true]
  intro c hc
  have hspace := h c hc
  simp only [isSpace, Bool.or_eq_true, beq_iff_eq] at hspace
  rcases hspace with ((rfl | rfl) | rfl) | rfl <;> rfl

theorem all_isBare_of_isDigits {text : List Char} (h : IsDigits text) : text.all isBare := by
  rw [List.all_eq_true]
  intro c hc
  have hdigit := h.2 c hc
  rw [isBare, Bool.and_eq_true, bne_iff_ne, bne_iff_ne]
  constructor <;> rintro rfl <;> cases hdigit

theorem all_isBare_of_isNumber {text : List Char} (h : IsNumber text) : text.all isBare := by
  obtain ⟨minus, int, frac, exp, rfl, hminus, hint, -, hfrac, hexp⟩ := h
  have hminus : minus.all isBare := by rcases hminus with rfl | rfl <;> rfl
  have hfrac : frac.all isBare := by
    rcases hfrac with rfl | ⟨digits, rfl, hdigits⟩
    · rfl
    · rw [List.all_cons, all_isBare_of_isDigits hdigits]
      rfl
  have hexp : exp.all isBare := by
    rcases hexp with rfl | ⟨e, sign, digits, rfl, he, hsign, hdigits⟩
    · rfl
    · have he : isBare e = true := by rcases he with rfl | rfl <;> rfl
      have hsign : sign.all isBare := by rcases hsign with rfl | rfl | rfl <;> rfl
      rw [List.cons_append, List.all_cons, List.all_append, he, hsign, all_isBare_of_isDigits hdigits]
      rfl
  rw [List.all_append, List.all_append, List.all_append, hminus, all_isBare_of_isDigits hint, hfrac, hexp]
  rfl

/-- **The layout** of a text that denotes something. -/
theorem laid_of_denotes {φ : Phrase ν} {text : List Char} (h : Denotes number P φ text) :
    Laid P φ.strings text := by
  induction h with
  | null => exact laid_of_bare rfl
  | yes => exact laid_of_bare rfl
  | no => exact laid_of_bare rfl
  | number h _ => exact laid_of_bare (all_isBare_of_isNumber h)
  | string h => exact .literal h .nil
  | emptyArray h => exact .bare rfl (.bares (all_isBare_of_isSpace h) (laid_of_bare rfl))
  | array _ ih =>
    rw [Phrase.strings, Value.strings, ← List.append_nil (itemStrings _)]
    exact .bare rfl (ih.append (laid_of_bare rfl))
  | emptyObject h => exact .bare rfl (.bares (all_isBare_of_isSpace h) (laid_of_bare rfl))
  | object _ ih =>
    rw [Phrase.strings, Value.strings, ← List.append_nil (memberStrings _)]
    exact .bare rfl (ih.append (laid_of_bare rfl))
  | item hbefore _ hafter ih =>
    rw [Phrase.strings, ← List.append_nil (Value.strings _)]
    exact .bares (all_isBare_of_isSpace hbefore) (ih.append (laid_of_bare (all_isBare_of_isSpace hafter)))
  | items _ ih =>
    rw [Phrase.strings, itemStrings, itemStrings, List.append_nil]
    exact ih
  | itemsCons _ _ ih ih' =>
    rw [Phrase.strings, itemStrings]
    exact ih.append (.bare rfl ih')
  | member hbefore hname hafter _ ih =>
    exact .bares (all_isBare_of_isSpace hbefore)
      (.literal hname (.bares (all_isBare_of_isSpace hafter) (.bare rfl ih)))
  | members _ ih =>
    rw [Phrase.strings, memberStrings, memberStrings, List.append_nil]
    exact ih
  | membersCons _ _ ih ih' =>
    rw [Phrase.strings, memberStrings, ← List.cons_append]
    exact ih.append (.bare rfl ih')

end Layout

/-! ## Scanning -/

/-- Where a scanner stands: between the literals, in a literal, or behind a backslash in it. -/
inductive Place where
  | outside
  | inside
  | escaped
  deriving DecidableEq, Repr

/-- `none` where no text goes on with this character. -/
def scanChar (place : Place) (c : Char) : Option Place :=
  match place with
  | .outside => if c = '"' then some .inside else if c = '\\' then none else some .outside
  | .inside =>
    if c.toNat < 0x20 then none
    else if c = '"' then some .outside
    else if c = '\\' then some .escaped
    else some .inside
  | .escaped => if c.toNat < 0x20 then none else some .inside

def scan (place : Place) (text : List Char) : Option Place := text.foldlM scanChar place

theorem scan_cons (place : Place) (c : Char) (text : List Char) :
    scan place (c :: text) = (scanChar place c).bind fun place => scan place text :=
  List.foldlM_cons

theorem scan_append (place : Place) (text text' : List Char) :
    scan place (text ++ text') = (scan place text).bind fun place => scan place text' :=
  List.foldlM_append

theorem scanChar_plain {c : Char} (hcontrol : 0x20 ≤ c.toNat) (hquote : c ≠ '"') (hescape : c ≠ '\\') :
    scanChar .inside c = some .inside := by
  rw [scanChar, if_neg (by omega), if_neg hquote, if_neg hescape]

theorem scanChar_escaped {c : Char} (hcontrol : 0x20 ≤ c.toNat) : scanChar .escaped c = some .inside :=
  if_neg (by omega)

theorem toNat_of_shortEscape {c : Char} {u : UInt16} (h : shortEscape? c = some u) : 0x20 ≤ c.toNat := by
  unfold shortEscape? at h
  split at h
  all_goals first | decide | cases h

/-- A hexadecimal digit is a plain character. -/
theorem scanChar_digit {c : Char} {n : Nat} (h : Hex.value? c = some n) :
    scanChar .inside c = some .inside := by
  have hrange := Hex.value?_eq_some_iff_toNat.mp h
  apply scanChar_plain
  · omega
  · rintro rfl
    cases h
  · rintro rfl
    cases h

theorem scan_piece {units : List UInt16} {text : List Char} (h : Piece units text) :
    scan .inside text = some .inside := by
  have hescape : scanChar .inside '\\' = some .escaped := rfl
  cases h with
  | plain hcontrol hquote hescape =>
    rw [scan_cons, scanChar_plain hcontrol hquote hescape]
    rfl
  | short h =>
    rw [scan_cons, hescape, Option.bind_some, scan_cons, scanChar_escaped (toNat_of_shortEscape h)]
    rfl
  | unicode ha hb hc hd =>
    have hletter : scanChar .escaped 'u' = some .inside := rfl
    simp only [scan_cons, hescape, hletter, scanChar_digit ha, scanChar_digit hb, scanChar_digit hc,
      scanChar_digit hd, Option.bind_some]
    rfl

theorem scan_pieces {units : List UInt16} {text : List Char} (h : Pieces Piece units text) :
    scan .inside text = some .inside := by
  induction h with
  | nil => rfl
  | cons hpiece _ ih => rw [scan_append, scan_piece hpiece, Option.bind_some, ih]

theorem scan_of_laid {strings : List (List UInt16)} {text : List Char} (h : Laid Piece strings text) :
    scan .outside text = some .outside := by
  induction h with
  | nil => rfl
  | bare hc _ ih =>
    rw [isBare, Bool.and_eq_true, bne_iff_ne, bne_iff_ne] at hc
    have hstep : scanChar .outside _ = some .outside := (if_neg hc.1).trans (if_neg hc.2)
    rw [scan_cons, hstep, Option.bind_some, ih]
  | literal hunits _ ih =>
    have hopen : scanChar .outside '"' = some .inside := rfl
    have hclose : scanChar .inside '"' = some .outside := rfl
    rw [scan_cons, hopen, Option.bind_some, scan_append, scan_pieces hunits, Option.bind_some, scan_cons,
      hclose, Option.bind_some, ih]

/-- **Scanning** a text that denotes something ends outside of its literals. -/
theorem scan_of_denotes {number : List Char → Option ν} {φ : Phrase ν} {text : List Char}
    (h : Denotes number Piece φ text) : scan .outside text = some .outside :=
  scan_of_laid (laid_of_denotes h)

/-! ## Beginnings -/

/-- A character that begins a value. -/
def beginsValue (c : Char) : Bool :=
  c == '"' || c == '[' || c == '\x7b' || c == 't' || c == 'f' || c == 'n' || c == '-' || c.isDigit

section Beginning

variable {number : List Char → Option ν} {P : List UInt16 → List Char → Prop}

theorem head_of_isNumber {text : List Char} (h : IsNumber text) :
    ∃ c rest, text = c :: rest ∧ (c = '-' ∨ c.isDigit = true) := by
  obtain ⟨minus, int, frac, exp, rfl, hminus, hint, -, -, -⟩ := h
  rcases hminus with rfl | rfl
  · obtain ⟨c, int, rfl⟩ := List.exists_cons_of_ne_nil hint.1
    exact ⟨c, _, rfl, Or.inr (hint.2 c List.mem_cons_self)⟩
  · exact ⟨'-', _, rfl, Or.inl rfl⟩

theorem head_of_value {v : Value ν} {text : List Char} (h : Denotes number P (.value v) text) :
    ∃ c rest, text = c :: rest ∧ beginsValue c = true := by
  cases h with
  | null => exact ⟨'n', _, rfl, rfl⟩
  | yes => exact ⟨'t', _, rfl, rfl⟩
  | no => exact ⟨'f', _, rfl, rfl⟩
  | number h _ =>
    obtain ⟨c, rest, rfl, hc⟩ := head_of_isNumber h
    refine ⟨c, rest, rfl, ?_⟩
    rcases hc with rfl | hc
    · rfl
    · simp [beginsValue, hc]
  | string _ => exact ⟨'"', _, rfl, rfl⟩
  | emptyArray _ => exact ⟨'[', _, rfl, rfl⟩
  | array _ => exact ⟨'[', _, rfl, rfl⟩
  | emptyObject _ => exact ⟨'\x7b', _, rfl, rfl⟩
  | object _ => exact ⟨'\x7b', _, rfl, rfl⟩

theorem head_of_item {v : Value ν} {text : List Char} (h : Denotes number P (.item v) text) :
    ∃ c rest, text = c :: rest ∧ (isSpace c = true ∨ beginsValue c = true) := by
  cases h with
  | @item _ before _ _ hbefore h _ =>
    obtain ⟨c, rest, rfl, hc⟩ := head_of_value h
    cases before with
    | nil => exact ⟨c, _, rfl, Or.inr hc⟩
    | cons d before => exact ⟨d, _, rfl, Or.inl (hbefore d List.mem_cons_self)⟩

theorem head_of_items {vs : List (Value ν)} {text : List Char} (h : Denotes number P (.items vs) text) :
    ∃ c rest, text = c :: rest ∧ (isSpace c = true ∨ beginsValue c = true) := by
  cases h with
  | items h => exact head_of_item h
  | itemsCons h _ =>
    obtain ⟨c, rest, rfl, hc⟩ := head_of_item h
    exact ⟨c, _, rfl, hc⟩

/-- Behind the bracket of an array stands white space, a value or the closing bracket. -/
theorem second_of_array {v : Value ν} {text : List Char} (h : Denotes number P (.value v) ('[' :: text)) :
    ∃ c rest, text = c :: rest ∧ (isSpace c = true ∨ beginsValue c = true ∨ c = ']') := by
  generalize hwhole : '[' :: text = whole at h
  cases h with
  | null => cases hwhole
  | yes => cases hwhole
  | no => cases hwhole
  | number h _ =>
    obtain ⟨d, rest, rfl, hd⟩ := head_of_isNumber h
    cases hwhole
    rcases hd with hd | hd <;> cases hd
  | string _ => cases hwhole
  | @emptyArray space hspace =>
    cases hwhole
    cases space with
    | nil => exact ⟨']', [], rfl, Or.inr (Or.inr rfl)⟩
    | cons d space => exact ⟨d, _, rfl, Or.inl (hspace d List.mem_cons_self)⟩
  | array h =>
    obtain ⟨d, rest, rfl, hd⟩ := head_of_items h
    cases hwhole
    exact ⟨d, _, rfl, hd.imp_right Or.inl⟩
  | emptyObject _ => cases hwhole
  | object _ => cases hwhole

/-- A text is not JSON when it begins with a bracket and a character that does not belong behind it. -/
theorem not_isText {c : Char} {text : List Char} {v : Value ν} (hspace : isSpace c = false)
    (hvalue : beginsValue c = false) (hclose : c ≠ ']') : ¬ Denotes number P (.item v) ('[' :: c :: text) := by
  intro h
  generalize hwhole : '[' :: c :: text = whole at h
  cases h with
  | @item _ before value after hbefore h _ =>
    cases before with
    | cons d before =>
      obtain ⟨rfl, -⟩ := List.cons.inj hwhole
      exact absurd (hbefore '[' List.mem_cons_self) (by decide)
    | nil =>
      obtain ⟨d, rest, rfl, -⟩ := head_of_value h
      obtain ⟨rfl, hrest⟩ := List.cons.inj hwhole
      obtain ⟨e, rest, rfl, he⟩ := second_of_array h
      obtain ⟨rfl, -⟩ := List.cons.inj hrest
      rcases he with he | he | he
      · rw [hspace] at he
        cases he
      · rw [hvalue] at he
        cases he
      · exact hclose he

end Beginning

end Json
