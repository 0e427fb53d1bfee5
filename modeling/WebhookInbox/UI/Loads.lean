import WebhookInbox.UI.Events

/-!
# Loads that are awaited

`LoadPageAsync` gives way to other handlers while it awaits its request. `beginLoad` is the method up to
the request and `endLoad` what it does with the answer; together they are `loadPageAsync`. What the
table then shows is one `Slice` of the events in descending order, under the numbers of the page
(`Showing`). The request has two queries, and events may arrive between them.
-/

namespace WebhookInbox.UI

open Api Paging

/-- `ApiClient.GetEventsAsync` with the two queries of its request apart. -/
def getEventsAsyncCounted (total : Int32) (rows : List Event) (page pageSize : Int32) :
    Except Text EventListResponse :=
  match getEventsCounted total rows page pageSize with
  | some payload => .ok payload
  | none => .error serverError

namespace Events

inductive Button where
  | previous
  | next

def beginLoad (c : Events) : Events := { c with isLoading := true, error := none }

def endLoad (c : Events) : Except Text EventListResponse → Events
  | .ok result =>
    { c with
      items := result.items
      isLoading := false
      page := result.page
      pageSize := result.pageSize
      total := result.total
      hasPrevious := decide (1 < result.page)
      hasNext := decide (result.page * result.pageSize < result.total) }
  | .error message => { c with isLoading := false, error := some message }

theorem loadPageAsync_eq_endLoad (rows : List Event) (page : Int32) (c : Events) :
    loadPageAsync rows page c = c.beginLoad.endLoad (getEventsAsync rows page c.pageSize) := by
  unfold loadPageAsync
  cases getEventsAsync rows page c.pageSize <;> rfl

theorem rendered_endLoad {c : Events} (h : c.error = none) (result : EventListResponse) :
    (c.endLoad (.ok result)).rendered = result.items := by
  rw [rendered, endLoad]
  dsimp only
  rw [h]
  rfl

/-- The page that `PreviousPage` or `NextPage` loads. -/
def asked (c : Events) : Button → Option Int32
  | .previous => if c.hasPrevious then some (c.page - 1) else none
  | .next => if c.hasNext then some (c.page + 1) else none

theorem nextPage_eq_asked (rows : List Event) (c : Events) :
    nextPage rows c = ((c.asked .next).map fun page => loadPageAsync rows page c).getD c := by
  unfold nextPage asked
  cases c.hasNext <;> rfl

/-- The buttons were rendered with the last rows. They can be clicked until another page has taken
their place, so also twice. -/
def hasButtons (c : Events) : Bool := c.error.isNone && !c.items.isEmpty

/-- Rows that page `k + 1` can show when `counted` events were counted before they were queried. -/
structure Slice (items : List EventListItem) (counted k : Nat) : Prop where
  fits : counted ≤ maxLength
  inside : k = 0 ∨ k * 25 < counted
  least : min 25 (counted - k * 25) ≤ items.length
  most : items.length ≤ 25
  sorted : items.Pairwise fun a b => b.receivedAt ≤ a.receivedAt
  distinct : (items.map EventListItemDto.id).Nodup

/-- The component shows page `k + 1`, and says so. -/
structure Showing (c : Events) (counted k : Nat) : Prop where
  slice : Slice c.items counted k
  page : c.page = Int32.ofNat (k + 1)
  pageSize : c.pageSize = 25
  total : c.total = Int32.ofNat counted
  hasPrevious : c.hasPrevious = true ↔ 0 < k
  hasNext : c.hasNext = true ↔ (k + 1) * 25 < counted

theorem Showing.beginLoad {c : Events} {counted k : Nat} (h : Showing c counted k) :
    Showing c.beginLoad counted k :=
  ⟨h.slice, h.page, h.pageSize, h.total, h.hasPrevious, h.hasNext⟩

/-! ## The answers -/

theorem getEventsAsync_eq_counted (rows : List Event) (page pageSize : Int32) :
    getEventsAsync rows page pageSize =
      getEventsAsyncCounted (Int32.ofNat rows.length) rows page pageSize :=
  rfl

section Answer

variable {events : Table Event Guid Event.id} {rows : List Event} (hrows : rows.Perm events.rows)
  {counted k : Nat} (hcounted : counted ≤ rows.length) (hk : k = 0 ∨ k * 25 < counted)

theorem getEventsAsyncCounted_of_long (h : maxLength < rows.length) (total page pageSize : Int32) :
    getEventsAsyncCounted total rows page pageSize = .error serverError := by
  rw [getEventsAsyncCounted, getEventsCounted_eq, getEvents_eq_none h]
  rfl

/-- The items of the page. -/
def itemsOf (rows : List Event) (k : Nat) : List EventListItem :=
  (Paging.page 25 (Linq.orderByDescending Event.receivedAt rows) k).map listItem

include hcounted hk in
theorem getEventsAsyncCounted_eq (hfits : rows.length ≤ maxLength) (total : Int32) :
    getEventsAsyncCounted total rows (Int32.ofNat (k + 1)) 25 =
      .ok ⟨itemsOf rows k, total, Int32.ofNat (k + 1), 25⟩ := by
  obtain ⟨hpage, hskip, -⟩ := fits_of_lt (hcounted.trans hfits) hk
  have hlow : (1 : Int32) ≤ 25 := by decide
  have hhigh : (25 : Int32) ≤ 200 := by decide
  rw [getEventsAsyncCounted, getEventsCounted_eq, getEvents_eq hlow hhigh hfits hpage hskip]
  rfl

theorem length_itemsOf (rows : List Event) (k : Nat) :
    (itemsOf rows k).length = min 25 (rows.length - k * 25) := by
  rw [itemsOf, List.length_map, Paging.page, List.length_take, List.length_drop,
    (Linq.orderByDescending_perm Event.receivedAt rows).length_eq]

include hrows hcounted hk in
theorem slice_itemsOf (hfits : rows.length ≤ maxLength) : Slice (itemsOf rows k) counted k := by
  have hsub : (Paging.page 25 (Linq.orderByDescending Event.receivedAt rows) k).Sublist
      (Linq.orderByDescending Event.receivedAt rows) :=
    (List.take_sublist _ _).trans (List.drop_sublist _ _)
  have hperm := (Linq.orderByDescending_perm Event.receivedAt rows).trans hrows
  have hlength := length_itemsOf rows k
  refine ⟨hcounted.trans hfits, hk, by omega, by omega, ?_, ?_⟩
  · exact List.pairwise_map.mpr ((Linq.orderByDescending_pairwise Event.receivedAt rows).sublist hsub)
  · rw [itemsOf, List.map_map]
    exact ((hperm.map Event.id).nodup_iff.mpr events.nodup).sublist (hsub.map Event.id)

end Answer

/-- **An answer** of that kind is what the component then shows. -/
theorem showing_endLoad {items : List EventListItem} {counted k : Nat} (h : Slice items counted k)
    (c : Events) :
    Showing (c.endLoad (.ok ⟨items, Int32.ofNat counted, Int32.ofNat (k + 1), 25⟩)) counted k where
  slice := h
  page := rfl
  pageSize := rfl
  total := rfl
  hasPrevious := by
    rw [endLoad, decide_eq_true_iff, hasPrevious_iff (fits_of_lt h.fits h.inside).1]
    omega
  hasNext := by rw [endLoad, decide_eq_true_iff, hasNext_iff h.fits h.inside]

/-- **A click** asks for a page that begins inside the table, at most one behind the page shown. -/
theorem asked_of_showing {c : Events} {counted k : Nat} (h : Showing c counted k) {button : Button}
    {page : Int32} (hasked : c.asked button = some page) :
    ∃ k' ≤ k + 1, page = Int32.ofNat (k' + 1) ∧ (k' = 0 ∨ k' * 25 < counted) := by
  cases button with
  | previous =>
    simp only [asked, h.hasPrevious, Option.ite_none_right_eq_some, Option.some.injEq] at hasked
    obtain ⟨hpos, rfl⟩ := hasked
    obtain ⟨k', rfl⟩ := Nat.exists_eq_succ_of_ne_zero hpos.ne'
    have hinside := h.slice.inside
    refine ⟨k', by omega, ?_, by omega⟩
    rw [h.page, Int32.ofNat_add]
    exact Int32.add_sub_cancel _ _
  | next =>
    simp only [asked, h.hasNext, Option.ite_none_right_eq_some, Option.some.injEq] at hasked
    obtain ⟨hinside, rfl⟩ := hasked
    refine ⟨k + 1, le_rfl, ?_, Or.inr hinside⟩
    rw [h.page, Int32.ofNat_add (k + 1)]
    rfl

end Events

end WebhookInbox.UI
