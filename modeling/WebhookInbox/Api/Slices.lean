import WebhookInbox.Api.Events

/-!
# Every page number

`GET /api/events` takes any two 32-bit numbers and multiplies them in 32 bits. For an offset
that fits, the page is the slice of the sorted rows that it names. An offset that does not fit
names an empty page, and wraps around to another one: the page is empty all the same when that
one lies past the rows (`rightSlice_iff`).
-/

namespace WebhookInbox.Api

/-- The page that is asked for, 1 when the number is not positive. -/
def pageNumber (page : Int32) : Nat := if 0 < page.toInt then page.toInt.toNat else 1

/-- The rows of a page: 20 when the size is not positive, and at most 200. -/
def rowsPerPage (pageSize : Int32) : Nat := if 0 < pageSize.toInt then min pageSize.toInt.toNat 200 else 20

/-- The rows before the page. -/
def pageOffset (page pageSize : Int32) : Nat := (pageNumber page - 1) * rowsPerPage pageSize

/-- The items returned are those at the positions from `(p - 1) * s` up to `p * s`. -/
def RightSlice (rows : List Event) (page pageSize : Int32) : Prop :=
  ∃ response, getEvents rows page pageSize = some response ∧
    response.items = (Linq.orderByDescending EventListItemDto.receivedAt (rows.map listItem)).extract
      (pageOffset page pageSize) (pageNumber page * rowsPerPage pageSize)

/-! ## The offset -/

theorem toInt_pageNumber (page : Int32) : (if page ≤ 0 then 1 else page).toInt = pageNumber page := by
  have hone : (1 : Int32).toInt = 1 := rfl
  unfold pageNumber
  by_cases hpos : 0 < page.toInt
  · rw [if_neg (mt nonpos_iff.mp (Int.not_le.mpr hpos)), if_pos hpos]
    omega
  · rw [if_pos (nonpos_iff.mpr (Int.not_lt.mp hpos)), if_neg hpos, hone]
    rfl

theorem toInt_clamp (value : Int32) :
    (clamp value 1 200).toInt = max 1 (min value.toInt 200) := by
  have hone : (1 : Int32).toInt = 1 := rfl
  have hmax : (200 : Int32).toInt = 200 := rfl
  unfold clamp
  split
  · rename_i hlow
    rw [Int32.lt_iff_toInt_lt, hone] at hlow
    rw [hone]
    omega
  · rename_i hlow
    rw [Int32.lt_iff_toInt_lt, hone] at hlow
    split
    · rename_i hhigh
      rw [Int32.lt_iff_toInt_lt, hmax] at hhigh
      rw [hmax]
      omega
    · rename_i hhigh
      rw [Int32.lt_iff_toInt_lt, hmax] at hhigh
      omega

theorem toInt_rowsPerPage (pageSize : Int32) :
    (clamp (if pageSize ≤ 0 then 20 else pageSize) 1 200).toInt = rowsPerPage pageSize := by
  have htwenty : (20 : Int32).toInt = 20 := rfl
  rw [toInt_clamp]
  unfold rowsPerPage
  by_cases hpos : 0 < pageSize.toInt
  · rw [if_neg (mt nonpos_iff.mp (Int.not_le.mpr hpos)), if_pos hpos]
    omega
  · rw [if_pos (nonpos_iff.mpr (Int.not_lt.mp hpos)), if_neg hpos, htwenty]
    rfl

theorem pageNumber_bounds (page : Int32) : 1 ≤ pageNumber page ∧ pageNumber page < 2 ^ 31 := by
  have hlt := page.toInt_lt
  unfold pageNumber
  split
  · omega
  · omega

theorem rowsPerPage_bounds (pageSize : Int32) : 1 ≤ rowsPerPage pageSize ∧ rowsPerPage pageSize ≤ 200 := by
  unfold rowsPerPage
  split
  · omega
  · omega

/-- The product wraps around. -/
theorem toInt_offset {p s : Int32} {page pageSize : Nat} (hp : p.toInt = page) (hs : s.toInt = pageSize)
    (hpos : 1 ≤ page) (hlt : page < 2 ^ 31) :
    ((p - 1) * s).toInt = (((page - 1) * pageSize : Nat) : Int).bmod (2 ^ 32) := by
  have hone : (1 : Int32).toInt = 1 := rfl
  have hsub : (p - 1).toInt = ((page - 1 : Nat) : Int) := by
    rw [Int32.toInt_sub, hp, hone, Int.ofNat_sub hpos]
    apply Int.bmod_eq_of_le
    · omega
    · omega
  rw [Int32.toInt_mul, hsub, hs, Int.natCast_mul]

/-- What `Skip` makes of the offset. -/
theorem toNat_bmod (n : Nat) :
    ((n : Int).bmod (2 ^ 32)).toNat = if n % 2 ^ 32 < 2 ^ 31 then n % 2 ^ 32 else 0 := by
  rw [Int.bmod_def]
  rcases Nat.lt_or_ge (n % 2 ^ 32) (2 ^ 31) with hlow | hhigh
  · rw [if_pos hlow, if_pos (by omega)]
    omega
  · rw [if_neg (Nat.not_lt.mpr hhigh), if_neg (by omega)]
    omega

/-! ## The page -/

/-- **The page that is returned**, with the offset that the product leaves. -/
theorem getEvents_items {rows : List Event} (hrows : rows.length ≤ maxLength) (page pageSize : Int32) :
    ∃ response, getEvents rows page pageSize = some response ∧ response.items =
      ((Linq.orderByDescending EventListItemDto.receivedAt (rows.map listItem)).drop
        ((pageOffset page pageSize : Int).bmod (2 ^ 32)).toNat).take (rowsPerPage pageSize) := by
  obtain ⟨hpos, hlt⟩ := pageNumber_bounds page
  have hskip := toInt_offset (toInt_pageNumber page) (toInt_rowsPerPage pageSize) hpos hlt
  unfold getEvents
  dsimp only
  rw [if_neg (Nat.not_lt.mpr hrows)]
  refine ⟨_, rfl, ?_⟩
  rw [hskip, toInt_rowsPerPage, Linq.take, Linq.skip, Int.toNat_natCast]
  rfl

/-- Behind the end there are no rows to take. -/
theorem take_drop_eq_iff {α : Type} {l : List α} {m n s : Nat} (hs : 1 ≤ s) (hn : l.length ≤ n) :
    (l.drop m).take s = (l.drop n).take s ↔ l.length ≤ m := by
  rw [List.drop_of_length_le hn, List.take_nil, List.take_eq_nil_iff, List.drop_eq_nil_iff]
  omega

/-- **The right slice** is returned for an offset of 31 bits, and else when the offset that is left of
it lies past the rows. -/
theorem rightSlice_iff (rows : List Event) (page pageSize : Int32) :
    RightSlice rows page pageSize ↔ rows.length ≤ maxLength ∧
      (pageOffset page pageSize < 2 ^ 31 ∨ rows.length = 0 ∨
        (pageOffset page pageSize % 2 ^ 32 < 2 ^ 31 ∧ rows.length ≤ pageOffset page pageSize % 2 ^ 32)) := by
  have hsize := (rowsPerPage_bounds pageSize).1
  have hend : pageNumber page * rowsPerPage pageSize - pageOffset page pageSize = rowsPerPage pageSize := by
    unfold pageOffset
    rw [← Nat.sub_mul, Nat.sub_sub_self (pageNumber_bounds page).1, Nat.one_mul]
  have hlength : (Linq.orderByDescending EventListItemDto.receivedAt (rows.map listItem)).length =
      rows.length := by
    rw [(Linq.orderByDescending_perm _ _).length_eq, List.length_map]
  have hmax : maxLength < 2 ^ 31 := by decide
  by_cases hrows : rows.length ≤ maxLength
  · obtain ⟨response, hresponse, hitems⟩ := getEvents_items hrows page pageSize
    have hslice : RightSlice rows page pageSize ↔ response.items =
        (Linq.orderByDescending EventListItemDto.receivedAt (rows.map listItem)).extract
          (pageOffset page pageSize) (pageNumber page * rowsPerPage pageSize) := by
      unfold RightSlice
      rw [hresponse]
      simp only [Option.some.injEq, exists_eq_left']
    rw [hslice, hitems, List.extract_eq_take_drop, hend, and_iff_right hrows, toNat_bmod]
    rcases Nat.lt_or_ge (pageOffset page pageSize) (2 ^ 31) with hfits | hwraps
    · rw [Nat.mod_eq_of_lt (by omega), if_pos hfits]
      exact iff_of_true rfl (Or.inl hfits)
    · rw [take_drop_eq_iff hsize (by omega), hlength]
      split <;> omega
  · constructor
    · rintro ⟨response, hresponse, -⟩
      rw [getEvents_eq_none (Nat.not_le.mp hrows)] at hresponse
      cases hresponse
    · intro h
      exact absurd h.1 hrows

def onlyEvent : Event := { id := 1, source := "github".toList, receivedAt := 0 }

/-- The last page number there is, at 200 rows a page: the offset is negative in 32 bits, and the one
event there is, which stands on page 1, is returned. -/
theorem not_rightSlice_last : ¬ RightSlice [onlyEvent] 2147483647 200 := by
  rintro ⟨response, hresponse, hitems⟩
  have hfirst : getEvents [onlyEvent] 2147483647 200 =
      some ⟨[listItem onlyEvent], 1, 2147483647, 200⟩ := by decide
  rw [hfirst] at hresponse
  cases hresponse
  have hempty : (Linq.orderByDescending EventListItemDto.receivedAt ([onlyEvent].map listItem)).extract
      (pageOffset 2147483647 200) (pageNumber 2147483647 * rowsPerPage 200) = [] := by decide
  rw [hempty] at hitems
  cases hitems

end WebhookInbox.Api
