import Mathlib.Data.Set.List
import WebhookInbox.Api.Binding

/-!
# Layouts of a Stripe header

A header is a list of elements between commas, with any white space around each. With one
timestamp within the tolerance, it is accepted exactly when one of its candidates spells the
digest, whatever else stands in it and in whatever order (`stripe_layout`).
-/

namespace WebhookInbox.Api

open NetString

/-- An element of a header, which begins and ends visibly, and the white space around it. -/
structure HeaderPart where
  before : Text
  element : Text
  after : Text
  before_white : ∀ c ∈ before, isWhiteSpace c = true
  after_white : ∀ c ∈ after, isWhiteSpace c = true
  trim_element : trim element = element
  no_comma : ',' ∉ element

def HeaderPart.text (part : HeaderPart) : Text := part.before ++ part.element ++ part.after

/-- The header with these parts. -/
def layout (parts : List HeaderPart) : Text := [','].intercalate (parts.map HeaderPart.text)

/-- The elements with this name. -/
def elementsNamed (name : Text) (parts : List HeaderPart) : List Text :=
  (parts.map HeaderPart.element).filter (name ++ ['=']).isPrefixOf

/-- A `v1` spells the digest of `t`, a dot and the payload. -/
def HasCandidate (p : Platform) (secret t : Text) (payload : Bytes) (parts : List HeaderPart) : Prop :=
  ∃ h, "v1=".toList ++ h ∈ parts.map HeaderPart.element ∧
    Spells h (p.hmacSha256 (Utf8.encode secret) (Utf8.encode t ++ 0x2E :: payload))

/-! ## The entries of a header -/

theorem HeaderPart.comma_not_mem_text (part : HeaderPart) : ',' ∉ part.text := by
  have hcomma : isWhiteSpace ',' = false := by decide
  unfold HeaderPart.text
  rw [List.mem_append, List.mem_append]
  rintro ((hbefore | helement) | hafter)
  · rw [part.before_white _ hbefore] at hcomma
    cases hcomma
  · exact part.no_comma helement
  · rw [part.after_white _ hafter] at hcomma
    cases hcomma

/-- **The entries** are the elements, apart from empty ones. -/
theorem splitEntries_layout (parts : List HeaderPart) : splitEntries ',' (layout parts) =
    (parts.map HeaderPart.element).filter fun element => !element.isEmpty := by
  have hcommas : ∀ text ∈ parts.map HeaderPart.text, ',' ∉ text := by
    intro text htext
    obtain ⟨part, -, rfl⟩ := List.mem_map.mp htext
    exact part.comma_not_mem_text
  rw [layout, splitEntries_intercalate hcommas, List.map_map]
  congr 1
  apply List.map_congr_left
  intro part _
  exact trim_padded part.before_white part.after_white part.trim_element

/-- **Every header** has a layout. -/
theorem exists_layout (sigHeader : Text) : ∃ parts, layout parts = sigHeader := by
  have hpart : ∀ text ∈ sigHeader.splitOn ',', ∃ part : HeaderPart, part.text = text := by
    intro text htext
    obtain ⟨before, after, hbefore, hafter, heq⟩ := exists_padding text
    have hcomma : ',' ∉ trim text := by
      intro hmem
      apply not_mem_of_mem_splitOn htext
      rw [heq]
      exact List.mem_append_left _ (List.mem_append_right _ hmem)
    exact ⟨⟨before, trim text, after, hbefore, hafter, trim_trim text, hcomma⟩, heq.symm⟩
  have hparts : sigHeader.splitOn ',' ∈ Set.range (List.map HeaderPart.text) := by
    rw [Set.range_list_map]
    exact hpart
  obtain ⟨parts, hmap⟩ := hparts
  exact ⟨parts, by rw [layout, hmap, List.intercalate_splitOn]⟩

theorem hasElement_layout_iff {parts : List HeaderPart} {name value : Text} :
    HasElement (layout parts) name value ↔ name ++ '=' :: value ∈ parts.map HeaderPart.element := by
  rw [HasElement, splitEntries_layout, List.mem_filter, and_iff_left (by simp)]

/-- An element has the value behind its name. -/
theorem elementValue_eq {name : Text} (hname : '=' ∉ name) (element : Text) : elementValue name element =
    if (name ++ ['=']).isPrefixOf element then some (element.drop (name.length + 1)) else none := by
  split
  · rename_i hprefix
    obtain ⟨value, rfl⟩ := List.isPrefixOf_iff_prefix.mp hprefix
    have hdrop : (name ++ ['='] ++ value).drop (name.length + 1) = value := List.drop_left' (by simp)
    rw [hdrop, elementValue_eq_some_iff hname, List.append_assoc]
    rfl
  · rename_i hprefix
    apply Option.eq_none_iff_forall_ne_some.mpr
    intro value hvalue
    apply hprefix
    rw [(elementValue_eq_some_iff hname).mp hvalue, List.isPrefixOf_iff_prefix]
    exact ⟨value, by simp⟩

theorem filterMap_elementValue {name : Text} (hname : '=' ∉ name) (parts : List HeaderPart) :
    (splitEntries ',' (layout parts)).filterMap (elementValue name) =
      (elementsNamed name parts).map (List.drop (name.length + 1)) := by
  rw [splitEntries_layout, elementsNamed]
  generalize parts.map HeaderPart.element = elements
  rw [← List.filterMap_eq_map, List.filterMap_filter, List.filterMap_filter]
  apply List.filterMap_congr
  intro element _
  rw [elementValue_eq hname]
  cases element with
  | nil => simp
  | cons c element => simp

/-- The one timestamp is the one that is signed. -/
theorem signedAt_layout {parts : List HeaderPart} {t : Text}
    (hone : elementsNamed "t".toList parts = ["t=".toList ++ t]) : signedAt (layout parts) = some t := by
  rw [signedAt, filterMap_elementValue (by decide), hone]
  rfl

/-! ## Acceptance -/

section Accept

variable {p : Platform} {now : Time} {secret t : Text} {toleranceSeconds : Int32} {payload : Bytes}
  {ts : Int} (hwell : Utf8.WellFormed payload) (hts : tryParseInt64 t = some ts)
  (htol : |toUnixTimeSeconds now - ts| ≤ toleranceSeconds.toInt)

include hwell hts htol in
theorem stripeAccepts_layout_iff {req : HttpRequest} {parts : List HeaderPart}
    (hheader : tryGetHeader p req "Stripe-Signature".toList = some (layout parts))
    (hone : elementsNamed "t".toList parts = ["t=".toList ++ t]) :
    StripeAccepts p now secret toleranceSeconds req payload ↔ HasCandidate p secret t payload parts := by
  rw [stripeAccepts_iff hheader, signedAt_layout hone]
  constructor
  · rintro ⟨t', ts', ht, -, -, h, helement, hspells⟩
    cases ht
    rw [signedPayload_of_wellFormed hwell] at hspells
    exact ⟨h, hasElement_layout_iff.mp helement, hspells⟩
  · rintro ⟨h, helement, hspells⟩
    rw [← signedPayload_of_wellFormed hwell] at hspells
    exact ⟨t, ts, rfl, hts, withinTolerance_of_abs_le htol, h, hasElement_layout_iff.mpr helement, hspells⟩

end Accept

/-- Elements may change places, and elements that are no timestamp may be added. -/
def Extends (parts parts' : List HeaderPart) : Prop :=
  ∃ added, elementsNamed "t".toList added = [] ∧
    (parts'.map HeaderPart.element).Perm ((parts ++ added).map HeaderPart.element)

theorem Extends.elementsNamed_eq {parts parts' : List HeaderPart} (h : Extends parts parts') {text : Text}
    (hone : elementsNamed "t".toList parts = [text]) : elementsNamed "t".toList parts' = [text] := by
  obtain ⟨added, hadded, hperm⟩ := h
  have hfilter := hperm.filter ("t".toList ++ ['=']).isPrefixOf
  rw [List.map_append, List.filter_append] at hfilter
  change (elementsNamed _ parts').Perm (elementsNamed _ parts ++ elementsNamed _ added) at hfilter
  rw [hone, hadded, List.append_nil] at hfilter
  exact List.perm_singleton.mp hfilter

theorem HasCandidate.of_extends {p : Platform} {secret t : Text} {payload : Bytes}
    {parts parts' : List HeaderPart} (hcandidate : HasCandidate p secret t payload parts)
    (h : Extends parts parts') : HasCandidate p secret t payload parts' := by
  obtain ⟨v, hv, hspells⟩ := hcandidate
  obtain ⟨added, -, hperm⟩ := h
  refine ⟨v, hperm.symm.subset ?_, hspells⟩
  rw [List.map_append]
  exact List.mem_append_left _ hv

/-- **Any layout.** With one timestamp, which is within the tolerance, a header is accepted exactly when
a candidate matches, and it stays accepted when elements change places or others are added. -/
theorem stripe_layout (p : Platform) (now : Time) (secret : Text) (toleranceSeconds : Int32)
    (payload : Bytes) (hwell : Utf8.WellFormed payload) (t : Text) (ts : Int)
    (hts : tryParseInt64 t = some ts) (htol : |toUnixTimeSeconds now - ts| ≤ toleranceSeconds.toInt) :
    (∀ (req : HttpRequest) (parts : List HeaderPart),
        tryGetHeader p req "Stripe-Signature".toList = some (layout parts) →
        elementsNamed "t".toList parts = ["t=".toList ++ t] →
        (StripeAccepts p now secret toleranceSeconds req payload ↔
          HasCandidate p secret t payload parts)) ∧
      ∀ (req req' : HttpRequest) (parts parts' : List HeaderPart),
        tryGetHeader p req "Stripe-Signature".toList = some (layout parts) →
        tryGetHeader p req' "Stripe-Signature".toList = some (layout parts') →
        elementsNamed "t".toList parts = ["t=".toList ++ t] → Extends parts parts' →
        StripeAccepts p now secret toleranceSeconds req payload →
        StripeAccepts p now secret toleranceSeconds req' payload := by
  constructor
  · intro req parts hheader hone
    exact stripeAccepts_layout_iff hwell hts htol hheader hone
  · intro req req' parts parts' hheader hheader' hone hextends haccepts
    have hcandidate := (stripeAccepts_layout_iff hwell hts htol hheader hone).mp haccepts
    exact (stripeAccepts_layout_iff hwell hts htol hheader' (hextends.elementsNamed_eq hone)).mpr
      (hcandidate.of_extends hextends)

/-- The candidate for `a`, and the timestamp behind it with a space on both sides. -/
def candidateForA : List HeaderPart :=
  [{ before := []
     element := "v1=d8cdb672c348ab5392e5e390c3cba5fb7d3559e4f9352a87078cc56a318678e7".toList
     after := []
     before_white := fun _ hc => nomatch hc
     after_white := fun _ hc => nomatch hc
     trim_element := by decide
     no_comma := by decide },
    { before := [' ']
      element := "t=1700000000".toList
      after := [' ']
      before_white := fun _ hc => List.mem_singleton.mp hc ▸ rfl
      after_white := fun _ hc => List.mem_singleton.mp hc ▸ rfl
      trim_element := by decide
      no_comma := by decide }]

theorem stripe_layout_forA :
    StripeAccepts stripePlatform 17000000000000000 "whsec".toList 300
      (stripeRequest (String.ofList (layout candidateForA))) (Utf8.encode "a".toList) := by
  have hlayout := (stripe_layout stripePlatform 17000000000000000 "whsec".toList 300
    (Utf8.encode "a".toList) ⟨_, rfl⟩ "1700000000".toList 1700000000 (by decide) (by decide)).1
  apply (hlayout _ candidateForA ?_ ?_).mpr
  · exact ⟨"d8cdb672c348ab5392e5e390c3cba5fb7d3559e4f9352a87078cc56a318678e7".toList,
      List.mem_cons_self, by unfold Spells; decide⟩
  · decide
  · decide

end WebhookInbox.Api
