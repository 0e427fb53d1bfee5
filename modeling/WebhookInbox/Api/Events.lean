import Mathlib.Algebra.Order.Group.Int
import Mathlib.Algebra.Order.Floor.Div
import WebhookInbox.Domain.Entities
import WebhookInbox.Library.Paging

/-!
# The pages of the events table

`GET /api/events` reads the whole table without an `ORDER BY`, sorts the rows by
`ReceivedAt` alone and cuts the page out. Rows received at the same time stay in the order
the `SELECT` returned them, which may differ from one request to the next. The pages list
every event exactly once, whatever these orders are, exactly when no page boundary falls between
two such rows (`pagesComplete_iff`).
-/

namespace WebhookInbox

def SignatureStatus.toString : SignatureStatus → Text
  | .none => "None".toList
  | .verified => "Verified".toList
  | .failed => "Failed".toList

def EventStatus.toString : EventStatus → Text
  | .new => "New".toList
  | .dispatched => "Dispatched".toList
  | .failed => "Failed".toList
  | .deadLetter => "DeadLetter".toList

namespace Api

open Paging

structure EventListItemDto where
  id : Guid
  source : Text
  status : Text
  signatureStatus : Text
  receivedAt : Time
  deriving DecidableEq, Repr

structure EventListResponse where
  items : List EventListItemDto
  total : Int32
  page : Int32
  pageSize : Int32
  deriving DecidableEq, Repr

def listItem (e : Event) : EventListItemDto where
  id := e.id
  source := e.source
  status := e.status.toString
  signatureStatus := e.signatureStatus.toString
  receivedAt := e.receivedAt

/-- `Array.MaxLength`, the most rows a list in memory holds. -/
def maxLength : Nat := 0x7FFFFFC7

/-- `Math.Clamp`. -/
def clamp (value min max : Int32) : Int32 :=
  if value < min then min else if max < value then max else value

/-- `GET /api/events` when the `SELECT` returns the rows in this order; `none` when they do not
fit in a list. -/
def getEvents (rows : List Event) (page pageSize : Int32) : Option EventListResponse :=
  let page := if page ≤ 0 then 1 else page
  let pageSize := clamp (if pageSize ≤ 0 then 20 else pageSize) 1 200
  let skip := (page - 1) * pageSize
  if maxLength < rows.length then none
  else
    let total := Int32.ofNat rows.length
    let items := rows.map listItem
    let pagedItems := Linq.take pageSize.toInt
      (Linq.skip skip.toInt (Linq.orderByDescending EventListItemDto.receivedAt items))
    some ⟨pagedItems, total, page, pageSize⟩

/-! ## One request -/

theorem toInt_ofNat {n : Nat} (h : n ≤ maxLength) : (Int32.ofNat n).toInt = n :=
  Int32.toInt_ofNat_of_lt (Nat.lt_of_le_of_lt h (by decide))

theorem nonpos_iff {n : Int32} : n ≤ 0 ↔ n.toInt ≤ 0 := by
  rw [Int32.le_iff_toInt_le, Int32.toInt_zero]

theorem ofNat_succ_pos {k : Nat} (h : k + 1 ≤ maxLength) : ¬ Int32.ofNat (k + 1) ≤ 0 := by
  rw [nonpos_iff, toInt_ofNat h]
  omega

section PageSize

variable {pageSize : Int32} (h : 1 ≤ pageSize) (h' : pageSize ≤ 200)

include h h' in
theorem toInt_pageSize : 1 ≤ pageSize.toInt ∧ pageSize.toInt ≤ 200 := by
  rw [Int32.le_iff_toInt_le] at h h'
  exact ⟨h, h'⟩

include h h' in
theorem clamp_pageSize : clamp (if pageSize ≤ 0 then 20 else pageSize) 1 200 = pageSize := by
  obtain ⟨hlow, hhigh⟩ := toInt_pageSize h h'
  have hpos : ¬ pageSize ≤ 0 := by
    rw [nonpos_iff]
    omega
  have hmin : ¬ pageSize < 1 := by
    rw [Int32.lt_iff_toInt_lt]
    exact Int.not_lt.mpr hlow
  have hmax : ¬ 200 < pageSize := by
    rw [Int32.lt_iff_toInt_lt]
    exact Int.not_lt.mpr hhigh
  rw [if_neg hpos, clamp, if_neg hmin, if_neg hmax]

include h h' in
/-- The offset of a page that begins inside the table does not wrap around. -/
theorem toInt_skip {k : Nat} (hk : k + 1 ≤ maxLength) (hskip : k * pageSize.toInt.toNat ≤ maxLength) :
    ((Int32.ofNat (k + 1) - 1) * pageSize).toInt = (k * pageSize.toInt.toNat : Nat) := by
  obtain ⟨hlow, hhigh⟩ := toInt_pageSize h h'
  have hmax : maxLength < 2 ^ 31 := by decide
  have hone : Int32.ofNat (k + 1) - 1 = Int32.ofNat k := by
    rw [Int32.ofNat_add]
    exact Int32.add_sub_cancel _ _
  have hcast : ((k * pageSize.toInt.toNat : Nat) : Int) = k * pageSize.toInt := by
    rw [Int.natCast_mul, Int.toNat_of_nonneg (by omega)]
  rw [hone, Int32.toInt_mul, toInt_ofNat (by omega), ← hcast]
  apply Int.bmod_eq_of_le <;> omega

include h h' in
/-- **One page** is a slice of the rows in descending order of `ReceivedAt`. -/
theorem getEvents_eq {rows : List Event} (hrows : rows.length ≤ maxLength) {k : Nat}
    (hk : k + 1 ≤ maxLength) (hskip : k * pageSize.toInt.toNat ≤ maxLength) :
    getEvents rows (Int32.ofNat (k + 1)) pageSize = some
      { items := (page pageSize.toInt.toNat (Linq.orderByDescending Event.receivedAt rows) k).map listItem
        total := Int32.ofNat rows.length
        page := Int32.ofNat (k + 1)
        pageSize := pageSize } := by
  unfold getEvents
  dsimp only
  rw [if_neg (ofNat_succ_pos hk), clamp_pageSize h h', toInt_skip h h' hk hskip,
    if_neg (Nat.not_lt.mpr hrows), Linq.orderByDescending_map]
  congr 2
  rw [Linq.take, Linq.skip, Int.toNat_natCast, page, List.map_take, List.map_drop]
  rfl

end PageSize

/-! ## A walk over the pages -/

/-- The items of the first `n` pages; the `SELECT` of page `k + 1` returns `orders k`. -/
def eventPages (orders : Nat → List Event) (pageSize : Int32) (n : Nat) :
    Option (List EventListItemDto) :=
  ((List.range n).mapM fun k => getEvents (orders k) (Int32.ofNat (k + 1)) pageSize).map
    fun responses => responses.flatMap EventListResponse.items

/-- The pages up to the last one list every event exactly once, in whatever order the rows are
returned at each request. -/
def PagesComplete (rows : List Event) (pageSize : Int32) : Prop :=
  ∀ orders : Nat → List Event, (∀ k, (orders k).Perm rows) →
    ∃ items, eventPages orders pageSize (rows.length ⌈/⌉ pageSize.toInt.toNat) = some items ∧
      items.Perm (rows.map listItem)

theorem lt_pageCount {k length size : Nat} (h : k < length ⌈/⌉ size) : k * size < length := by
  rcases Nat.eq_zero_or_pos size with rfl | hsize
  · rw [ceilDiv_zero] at h
    omega
  · by_contra hle
    rw [Nat.not_lt, Nat.mul_comm, ← ceilDiv_le_iff_le_mul hsize] at hle
    omega

theorem length_le_pageCount_mul {length size : Nat} (h : 0 < size) :
    length ≤ length ⌈/⌉ size * size := by
  rw [Nat.mul_comm]
  exact le_smul_ceilDiv h

theorem eventPages_succ {orders : Nat → List Event} {pageSize : Int32} {n : Nat}
    {items : List EventListItemDto} {response : EventListResponse}
    (hitems : eventPages orders pageSize n = some items)
    (hresponse : getEvents (orders n) (Int32.ofNat (n + 1)) pageSize = some response) :
    eventPages orders pageSize (n + 1) = some (items ++ response.items) := by
  unfold eventPages at hitems ⊢
  rw [Option.map_eq_some_iff] at hitems
  obtain ⟨responses, hresponses, rfl⟩ := hitems
  rw [List.range_succ, List.mapM_append, hresponses, List.mapM_cons, hresponse, List.mapM_nil]
  show some ((responses ++ [response]).flatMap _) = _
  rw [List.flatMap_append, List.flatMap_singleton]

theorem getEvents_eq_none {rows : List Event} (h : maxLength < rows.length) (page pageSize : Int32) :
    getEvents rows page pageSize = none := by
  unfold getEvents
  exact if_pos h

theorem eventPages_eq_none {orders : Nat → List Event} {pageSize : Int32}
    (h : maxLength < (orders 0).length) {n : Nat} (hn : 0 < n) : eventPages orders pageSize n = none := by
  obtain ⟨m, rfl⟩ := Nat.exists_eq_succ_of_ne_zero hn.ne'
  rw [eventPages, List.range_succ_eq_map, List.mapM_cons, getEvents_eq_none h]
  rfl

section Pages

variable {pageSize : Int32} (h : 1 ≤ pageSize) (h' : pageSize ≤ 200) {rows : List Event}
  {orders : Nat → List Event}

/-- The rows of each request, in descending order of `ReceivedAt`. -/
def sortedOrders (orders : Nat → List Event) (k : Nat) : List Event :=
  Linq.orderByDescending Event.receivedAt (orders k)

theorem sortedOrders_spec (horders : ∀ k, (orders k).Perm rows) (k : Nat) :
    (sortedOrders orders k).Perm (Linq.orderByDescending Event.receivedAt rows) ∧
      Descending Event.receivedAt (sortedOrders orders k) := by
  constructor
  · exact ((Linq.orderByDescending_perm _ _).trans (horders k)).trans
      (Linq.orderByDescending_perm _ _).symm
  · exact Linq.orderByDescending_pairwise _ _

include h h' in
/-- **The first pages** are slices of the sorted rows of their own requests. -/
theorem eventPages_eq (hrows : rows.length ≤ maxLength) (horders : ∀ k, (orders k).Perm rows) {n : Nat}
    (hn : n ≤ rows.length ⌈/⌉ pageSize.toInt.toNat) :
    eventPages orders pageSize n =
      some ((pages pageSize.toInt.toNat (sortedOrders orders) n).map listItem) := by
  induction n with
  | zero => rfl
  | succ n ih =>
    have hskip := lt_pageCount (Nat.lt_of_succ_le hn)
    have hsize : 1 ≤ pageSize.toInt.toNat := by
      have := toInt_pageSize h h'
      omega
    have hle : n ≤ n * pageSize.toInt.toNat := Nat.le_mul_of_pos_right n hsize
    have hlength := (horders n).length_eq
    have hfits : (orders n).length ≤ maxLength := by omega
    have hpage := getEvents_eq h h' hfits (k := n) (by omega) (by omega)
    rw [eventPages_succ (ih (Nat.le_of_succ_le hn)) hpage, pages_succ, List.map_append]
    rfl

end Pages

section Table

variable (events : Table Event Guid Event.id)

theorem nodup_listItem : (events.rows.map listItem).Nodup := by
  apply List.Nodup.of_map EventListItemDto.id
  rw [List.map_map]
  exact events.nodup

/-- **Sorted afresh at each request**, the pages together are the table when no boundary falls between
two rows of equal `ReceivedAt`, and only then. -/
theorem pages_complete_iff {size n : Nat} (hn : events.rows.length ≤ n * size) :
    (∀ orders : Nat → List Event, (∀ k, (orders k).Perm events.rows) →
      ((pages size (sortedOrders orders) n).map listItem).Perm (events.rows.map listItem)) ↔
      NoTieAtBoundary size (events.rows.map Event.receivedAt) := by
  have hsorted := Linq.orderByDescending_pairwise Event.receivedAt events.rows
  have hperm := Linq.orderByDescending_perm Event.receivedAt events.rows
  have hcover : (Linq.orderByDescending Event.receivedAt events.rows).length ≤ n * size := by
    rw [hperm.length_eq]
    exact hn
  rw [← noTieAtBoundary_congr (hperm.map _)]
  constructor
  · intro hcomplete
    apply noTieAtBoundary_of_nodup hsorted hcover
    intro lists hlists
    have hitems := hcomplete lists fun k => (hlists k).1.trans hperm
    have hfixed : sortedOrders lists = lists :=
      funext fun k => Linq.orderByDescending_of_pairwise (hlists k).2
    rw [hfixed] at hitems
    exact List.Nodup.of_map listItem (hitems.nodup_iff.mpr (nodup_listItem events))
  · intro htie orders horders
    have hall := pages_perm hsorted htie (sortedOrders_spec horders) hcover
    exact (hall.trans hperm).map listItem

/-- **The pages list every event exactly once** under that condition, when the table fits in a list,
and only then. -/
theorem pagesComplete_iff {pageSize : Int32} (h : 1 ≤ pageSize) (h' : pageSize ≤ 200) :
    PagesComplete events.rows pageSize ↔
      events.rows.length ≤ maxLength ∧
        NoTieAtBoundary pageSize.toInt.toNat (events.rows.map Event.receivedAt) := by
  have hsize : 0 < pageSize.toInt.toNat := by
    have := toInt_pageSize h h'
    omega
  have hpages : events.rows.length ≤
      events.rows.length ⌈/⌉ pageSize.toInt.toNat * pageSize.toInt.toNat := length_le_pageCount_mul hsize
  rw [← pages_complete_iff events hpages]
  constructor
  · intro hcomplete
    have hrows : events.rows.length ≤ maxLength := by
      by_contra hlong
      obtain ⟨items, hitems, -⟩ := hcomplete (fun _ => events.rows) fun _ => List.Perm.refl _
      rw [eventPages_eq_none (Nat.not_le.mp hlong) (by
        by_contra hzero
        rw [Nat.eq_zero_of_not_pos hzero, Nat.zero_mul] at hpages
        omega)] at hitems
      cases hitems
    refine ⟨hrows, fun orders horders => ?_⟩
    obtain ⟨items, hitems, hperm⟩ := hcomplete orders horders
    rw [eventPages_eq h h' hrows horders le_rfl, Option.some.injEq] at hitems
    rwa [hitems]
  · rintro ⟨hrows, hall⟩ orders horders
    exact ⟨_, eventPages_eq h h' hrows horders le_rfl, hall orders horders⟩

end Table

/-! ## The two queries of a request -/

/-- `GET /api/events` when `CountAsync` has returned `total` and the `SELECT` then returns these rows. -/
def getEventsCounted (total : Int32) (rows : List Event) (page pageSize : Int32) :
    Option EventListResponse :=
  let page := if page ≤ 0 then 1 else page
  let pageSize := clamp (if pageSize ≤ 0 then 20 else pageSize) 1 200
  let skip := (page - 1) * pageSize
  if maxLength < rows.length then none
  else
    let items := rows.map listItem
    let pagedItems := Linq.take pageSize.toInt
      (Linq.skip skip.toInt (Linq.orderByDescending EventListItemDto.receivedAt items))
    some ⟨pagedItems, total, page, pageSize⟩

/-- The count is only put into the answer. -/
theorem getEventsCounted_eq (total : Int32) (rows : List Event) (page pageSize : Int32) :
    getEventsCounted total rows page pageSize =
      (getEvents rows page pageSize).map fun response => { response with total } := by
  unfold getEventsCounted getEvents
  dsimp only
  split
  · rfl
  · rfl

end Api

end WebhookInbox
