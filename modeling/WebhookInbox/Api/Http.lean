import Mathlib.Algebra.Group.Nat.Defs
import WebhookInbox.Domain.Entities
import WebhookInbox.Library.Hex
import WebhookInbox.Library.NetString
import WebhookInbox.Library.Utf8

/-!
# What the API takes from its platform, and its requests

`Platform` holds the parts of .NET that are tables or algorithms of their own: the
invariant case mappings of characters, the digests and the text format of Guids. The laws
are the ones the results use. SHA-256 and HMAC-SHA256 are any functions here; where a
result idealises one as injective, that is a hypothesis of the result.
-/

namespace WebhookInbox.Api

open NetString

structure Platform where
  toUpperInvariant : Char → Char
  toLowerInvariant : Char → Char
  sha256 : Bytes → Bytes
  /-- The digest of a message under a key. -/
  hmacSha256 : Bytes → Bytes → Bytes
  /-- `ToString("D")`. -/
  formatGuid : Guid → Text
  tryParseGuid : Text → Option Guid
  toUpperInvariant_ascii : ∀ c, c.toNat < 128 → toUpperInvariant c = c.toUpper
  toUpperInvariant_whiteSpace : ∀ c, isWhiteSpace c = true → toUpperInvariant c = c

theorem toUpper_whiteSpace (c : Char) (h : isWhiteSpace c = true) : c.toUpper = c := by
  apply Char.toNat_inj.mp
  rw [Hex.toNat_toUpper]
  simp only [isWhiteSpace, Bool.or_eq_true, Bool.and_eq_true, decide_eq_true_eq, beq_iff_eq] at h
  split
  · omega
  · rfl

/-- A digest with the given values, in hexadecimal, on some messages. Every other message has
a value that is longer than a digest. -/
def tableDigest (table : List (Bytes × String)) (message : Bytes) : Bytes :=
  match table.find? fun x => x.1 == message with
  | some x => (Hex.decode? x.2.toList).getD []
  | none => List.replicate 33 0 ++ message

theorem tableDigest_injective {table : List (Bytes × String)}
    (hnodup : (table.map fun x => (Hex.decode? x.2.toList).getD []).Nodup)
    (hlen : ∀ x ∈ table, ((Hex.decode? x.2.toList).getD []).length = 32) :
    Function.Injective (tableDigest table) := by
  intro m m' h
  have hfind : ∀ {m : Bytes} {x : Bytes × String}, table.find? (fun x => x.1 == m) = some x →
      x ∈ table ∧ x.1 = m := fun hx =>
    ⟨List.mem_of_find?_eq_some hx, by simpa using List.find?_some hx⟩
  unfold tableDigest at h
  cases hx : table.find? fun x => x.1 == m with
  | none =>
    cases hx' : table.find? fun x => x.1 == m' with
    | none =>
      rw [hx, hx'] at h
      exact List.append_cancel_left h
    | some x' =>
      rw [hx, hx'] at h
      have := congrArg List.length h
      rw [hlen x' (hfind hx').1, List.length_append, List.length_replicate] at this
      omega
  | some x =>
    cases hx' : table.find? fun x => x.1 == m' with
    | none =>
      rw [hx, hx'] at h
      have := congrArg List.length h
      rw [hlen x (hfind hx).1, List.length_append, List.length_replicate] at this
      omega
    | some x' =>
      rw [hx, hx'] at h
      obtain ⟨hmem, rfl⟩ := hfind hx
      obtain ⟨hmem', rfl⟩ := hfind hx'
      rw [List.inj_on_of_nodup_map hnodup hmem hmem' h]

/-- The platform on ASCII texts and Guids below `2 ^ 48`, for given digests. -/
def Platform.ascii (sha256 : Bytes → Bytes) (hmacSha256 : Bytes → Bytes → Bytes) : Platform where
  toUpperInvariant := Char.toUpper
  toLowerInvariant := Char.toLower
  sha256 := sha256
  hmacSha256 := hmacSha256
  formatGuid id := "00000000-0000-0000-0000-".toList ++
    (List.range 12).map fun i => (Hex.digit (id / 16 ^ (11 - i) % 16)).toLower
  tryParseGuid text :=
    if text.length = 36 ∧ text.take 24 = "00000000-0000-0000-0000-".toList then
      (Hex.decode? (text.drop 24)).map fun bytes => bytes.foldl (fun n b => 256 * n + b.toNat) 0
    else none
  toUpperInvariant_ascii _ _ := rfl
  toUpperInvariant_whiteSpace := toUpper_whiteSpace

variable (p : Platform)

/-- `StringComparison.OrdinalIgnoreCase`. -/
def equalsIgnoreCase (a b : Text) : Bool := a.map p.toUpperInvariant == b.map p.toUpperInvariant

/-- `StartsWith` with `OrdinalIgnoreCase`. -/
def startsWithIgnoreCase (s beginning : Text) : Bool :=
  equalsIgnoreCase p (s.take beginning.length) beginning

structure HttpRequest where
  headers : List (Text × List Text)
  body : Bytes

/-- `Headers.TryGetValue` and the `ToString` of the value. -/
def tryGetHeader (req : HttpRequest) (name : Text) : Option Text :=
  (req.headers.find? fun h => equalsIgnoreCase p h.1 name).map fun h => join h.2

/-- An assignment to an item of a dictionary whose keys are compared ignoring case. An
entry that is there keeps its key and its place. -/
def setItem {α : Type} (dict : List (Text × α)) (key : Text) (value : α) : List (Text × α) :=
  if dict.any fun entry => equalsIgnoreCase p entry.1 key then
    dict.map fun entry => if equalsIgnoreCase p entry.1 key then (entry.1, value) else entry
  else dict ++ [(key, value)]

/-- The headers as the JSON object that is stored. -/
def headersJson (req : HttpRequest) : JsonElement :=
  .object (req.headers.foldl (fun dict h => setItem p dict h.1 (.array (h.2.map .string))) [])

theorem equalsIgnoreCase_iff {a b : Text} :
    equalsIgnoreCase p a b = true ↔ a.map p.toUpperInvariant = b.map p.toUpperInvariant := by
  simp [equalsIgnoreCase]

variable {p}

theorem equalsIgnoreCase_refl (a : Text) : equalsIgnoreCase p a a = true :=
  (equalsIgnoreCase_iff p).mpr rfl

theorem equalsIgnoreCase_append {a b a' b' : Text} (h : equalsIgnoreCase p a b = true)
    (h' : equalsIgnoreCase p a' b' = true) : equalsIgnoreCase p (a ++ a') (b ++ b') = true := by
  rw [equalsIgnoreCase_iff] at h h' ⊢
  rw [List.map_append, List.map_append, h, h']

theorem equalsIgnoreCase_of_eq_right {a b c : Text} (h : equalsIgnoreCase p a c = true)
    (h' : equalsIgnoreCase p b c = true) : equalsIgnoreCase p a b = true := by
  rw [equalsIgnoreCase_iff] at h h' ⊢
  rw [h, h']

/-- ASCII texts are compared by their upper case. -/
theorem equalsIgnoreCase_of_ascii {a b : Text} (ha : ∀ c ∈ a, c.toNat < 128) (hb : ∀ c ∈ b, c.toNat < 128) :
    equalsIgnoreCase p a b = (a.map Char.toUpper == b.map Char.toUpper) := by
  rw [equalsIgnoreCase, List.map_congr_left fun c hc => p.toUpperInvariant_ascii c (ha c hc),
    List.map_congr_left fun c hc => p.toUpperInvariant_ascii c (hb c hc)]

theorem length_eq_of_equalsIgnoreCase {a b : Text} (h : equalsIgnoreCase p a b = true) :
    a.length = b.length := by
  have hmap := congrArg List.length ((equalsIgnoreCase_iff p).mp h)
  rwa [List.length_map, List.length_map] at hmap

/-- A text that starts with a text of visible ASCII characters is not blank. -/
theorem not_blank_of_startsWithIgnoreCase {s : Text} {c : Char} {beginning : Text}
    (hascii : c.toNat < 128) (hc : isWhiteSpace c.toUpper = false)
    (h : startsWithIgnoreCase p s (c :: beginning) = true) : isNullOrWhiteSpace (some s) = false := by
  have hmap := (equalsIgnoreCase_iff p).mp h
  cases s with
  | nil => cases hmap
  | cons d s =>
    rw [List.length_cons, List.take_succ_cons, List.map_cons, List.map_cons, List.cons.injEq] at hmap
    have hd : isWhiteSpace d = false := by
      by_contra hwhite
      rw [Bool.not_eq_false] at hwhite
      rw [p.toUpperInvariant_whiteSpace d hwhite, p.toUpperInvariant_ascii c hascii] at hmap
      rw [hmap.1, hc] at hwhite
      cases hwhite
    simp [isNullOrWhiteSpace, hd]

end WebhookInbox.Api
