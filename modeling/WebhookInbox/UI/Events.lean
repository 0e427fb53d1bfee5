import WebhookInbox.Api.Events

/-!
# The events page

The component behind `/events` loads page 1 when it is opened and the next page on each click
on Next, until `_hasNext` is false. The walk always ends (`visited_eq`), and shows every event
exactly once under the condition under which the pages of 25 rows list them so
(`walkComplete_iff`).
-/

namespace WebhookInbox.UI

open Api Paging

/-- The client's records have the fields of the API's. -/
abbrev EventListItem := EventListItemDto

/-- The fields of the component. -/
structure Events where
  items : List EventListItem := []
  isLoading : Bool := true
  error : Option Text := none
  page : Int32 := 1
  pageSize : Int32 := 25
  total : Int32 := 0
  hasNext : Bool := false
  hasPrevious : Bool := false

def serverError : Text :=
  "Response status code does not indicate success: 500 (Internal Server Error).".toList

/-- `ApiClient.GetEventsAsync`: an unhandled exception in the API is answered with 500, on which
`EnsureSuccessStatusCode` throws. -/
def getEventsAsync (rows : List Event) (page pageSize : Int32) : Except Text EventListResponse :=
  match getEvents rows page pageSize with
  | some payload => .ok payload
  | none => .error serverError

namespace Events

/-- `LoadPageAsync`, the `SELECT` of its request returning the rows in this order. -/
def loadPageAsync (rows : List Event) (page : Int32) (c : Events) : Events :=
  match getEventsAsync rows page c.pageSize with
  | .ok result =>
    { items := result.items
      isLoading := false
      error := none
      page := result.page
      pageSize := result.pageSize
      total := result.total
      hasPrevious := decide (1 < result.page)
      hasNext := decide (result.page * result.pageSize < result.total) }
  | .error message => { c with isLoading := false, error := some message }

def onInitializedAsync (rows : List Event) : Events := loadPageAsync rows 1 {}

def nextPage (rows : List Event) (c : Events) : Events :=
  if c.hasNext then loadPageAsync rows (c.page + 1) c else c

/-- The rows of the rendered table. -/
def rendered (c : Events) : List EventListItem :=
  match c.error with
  | some _ => []
  | none => if c.isLoading then [] else c.items

/-- The component after `n` clicks on Next; the `SELECT` of load `k` returns `orders k`. -/
def visited (orders : Nat → List Event) : Nat → Events
  | 0 => onInitializedAsync (orders 0)
  | n + 1 => nextPage (orders (n + 1)) (visited orders n)

/-- Next is followed while there is a next page; all rows rendered on the way. -/
def WalkShows (orders : Nat → List Event) (shown : List EventListItem) : Prop :=
  ∃ n, (∀ m < n, (visited orders m).hasNext = true) ∧ (visited orders n).hasNext = false ∧
    shown = (List.range (n + 1)).flatMap fun m => (visited orders m).rendered

/-- The walk ends and has shown every event exactly once. -/
def WalkComplete (rows : List Event) : Prop :=
  ∀ orders : Nat → List Event, (∀ k, (orders k).Perm rows) →
    ∃ shown, WalkShows orders shown ∧ shown.Perm (rows.map listItem)

/-! ## The pages that are visited -/

/-- What the component holds after a load of page `n + 1`. -/
def holding (rows : List Event) (length n : Nat) : Events where
  items := (Paging.page 25 (Linq.orderByDescending Event.receivedAt rows) n).map listItem
  isLoading := false
  page := Int32.ofNat (n + 1)
  total := Int32.ofNat length
  hasNext := decide ((n + 1) * 25 < length)
  hasPrevious := decide (1 < n + 1)

/-- The page after a page that begins inside the table has a number and an end that fit. -/
theorem fits_of_lt {length n : Nat} (hlength : length ≤ maxLength) (hn : n = 0 ∨ n * 25 < length) :
    n + 1 ≤ maxLength ∧ n * 25 ≤ maxLength ∧ (n + 1) * 25 < 2 ^ 31 := by
  have hmax : maxLength = 2147483591 := rfl
  omega

theorem hasNext_iff {length n : Nat} (hlength : length ≤ maxLength) (hn : n = 0 ∨ n * 25 < length) :
    Int32.ofNat (n + 1) * 25 < Int32.ofNat length ↔ (n + 1) * 25 < length := by
  obtain ⟨hpage, -, hend⟩ := fits_of_lt hlength hn
  have hmul : (Int32.ofNat (n + 1) * 25).toInt = ((n + 1) * 25 : Nat) := by
    have hsize : (25 : Int32).toInt = 25 := rfl
    rw [Int32.toInt_mul, toInt_ofNat hpage, hsize]
    apply Int.bmod_eq_of_le <;> omega
  rw [Int32.lt_iff_toInt_lt, hmul, toInt_ofNat hlength, Int.ofNat_lt]

theorem hasPrevious_iff {n : Nat} (hn : n + 1 ≤ maxLength) : 1 < Int32.ofNat (n + 1) ↔ 1 < n + 1 := by
  have hone : (1 : Int32).toInt = 1 := rfl
  rw [Int32.lt_iff_toInt_lt, toInt_ofNat hn, hone]
  omega

theorem loadPageAsync_eq {rows : List Event} (hrows : rows.length ≤ maxLength) {n : Nat}
    (hn : n = 0 ∨ n * 25 < rows.length) {c : Events} (hc : c.pageSize = 25) :
    loadPageAsync rows (Int32.ofNat (n + 1)) c = holding rows rows.length n := by
  obtain ⟨hpage, hskip, -⟩ := fits_of_lt hrows hn
  have hsize : (25 : Int32).toInt.toNat = 25 := rfl
  have hlow : (1 : Int32) ≤ 25 := by decide
  have hhigh : (25 : Int32) ≤ 200 := by decide
  have hanswer := getEvents_eq hlow hhigh hrows hpage hskip
  rw [hsize] at hanswer
  unfold loadPageAsync getEventsAsync
  rw [hc, hanswer]
  dsimp only
  rw [decide_eq_decide.mpr (hasNext_iff hrows hn), decide_eq_decide.mpr (hasPrevious_iff hpage)]
  rfl

/-- **A click on Next** loads the next page, as long as there is one. -/
theorem visited_eq {rows : List Event} (hrows : rows.length ≤ maxLength)
    {orders : Nat → List Event} (horders : ∀ k, (orders k).Perm rows) {n : Nat}
    (hn : n = 0 ∨ n * 25 < rows.length) : visited orders n = holding (orders n) rows.length n := by
  have hlength := fun k => (horders k).length_eq
  induction n with
  | zero =>
    rw [← hlength 0]
    exact loadPageAsync_eq (hlength 0 ▸ hrows) (Or.inl rfl) rfl
  | succ n ih =>
    have hbefore := ih (by omega)
    have hnext : (holding (orders n) rows.length n).hasNext = true :=
      decide_eq_true (by omega)
    have hpage : (holding (orders n) rows.length n).page + 1 = Int32.ofNat (n + 1 + 1) := by
      rw [Int32.ofNat_add (n + 1)]
      rfl
    rw [visited, hbefore, nextPage, if_pos hnext, hpage, ← hlength (n + 1)]
    exact loadPageAsync_eq (hlength (n + 1) ▸ hrows) (by rw [hlength (n + 1)]; omega) rfl

theorem rendered_holding (rows : List Event) (length n : Nat) : (holding rows length n).rendered =
    (Paging.page 25 (Linq.orderByDescending Event.receivedAt rows) n).map listItem :=
  rfl

section Walk

variable {rows : List Event} (hrows : rows.length ≤ maxLength) {orders : Nat → List Event}
  (horders : ∀ k, (orders k).Perm rows)

include hrows horders in
theorem hasNext_visited {n : Nat} (hn : n = 0 ∨ n * 25 < rows.length) :
    (visited orders n).hasNext = true ↔ (n + 1) * 25 < rows.length := by
  rw [visited_eq hrows horders hn]
  exact decide_eq_true_iff

include hrows horders in
/-- As long as Next was followed, the page begins inside the table. -/
theorem begins_inside {n : Nat} (hnext : ∀ m < n, (visited orders m).hasNext = true) :
    n = 0 ∨ n * 25 < rows.length := by
  induction n with
  | zero => exact Or.inl rfl
  | succ n ih =>
    have hn := ih fun m hm => hnext m (by omega)
    exact Or.inr ((hasNext_visited hrows horders hn).mp (hnext n n.lt_succ_self))

include hrows horders in
theorem rendered_visited {n : Nat} (hn : n = 0 ∨ n * 25 < rows.length) :
    (List.range (n + 1)).flatMap (fun m => (visited orders m).rendered) =
      (pages 25 (sortedOrders orders) (n + 1)).map listItem := by
  rw [pages, List.map_flatMap]
  apply List.flatMap_congr
  intro m hm
  rw [List.mem_range] at hm
  rw [visited_eq hrows horders (by omega), rendered_holding]
  rfl

include hrows horders in
/-- **The walk** ends behind the last row and shows the pages up to it. -/
theorem walkShows_iff {shown : List EventListItem} : WalkShows orders shown ↔
    shown = (pages 25 (sortedOrders orders) ((rows.length - 1) / 25 + 1)).map listItem := by
  constructor
  · rintro ⟨n, hnext, hend, rfl⟩
    have hn := begins_inside hrows horders hnext
    have hlast : ¬ (n + 1) * 25 < rows.length := by
      rw [← hasNext_visited hrows horders hn, hend]
      exact Bool.false_ne_true
    have heq : n = (rows.length - 1) / 25 := by omega
    rw [rendered_visited hrows horders hn, heq]
  · rintro rfl
    refine ⟨(rows.length - 1) / 25, fun m hm => ?_, ?_, ?_⟩
    · rw [hasNext_visited hrows horders (by omega)]
      omega
    · rw [← Bool.not_eq_true, hasNext_visited hrows horders (by omega)]
      omega
    · rw [rendered_visited hrows horders (by omega)]

end Walk

/-- A page that cannot be loaded ends the walk with nothing shown. -/
theorem walkShows_of_long {orders : Nat → List Event} (h : maxLength < (orders 0).length)
    {shown : List EventListItem} (hshown : WalkShows orders shown) : shown = [] := by
  have hfirst : visited orders 0 = { isLoading := false, error := some serverError } := by
    rw [visited, onInitializedAsync, loadPageAsync, getEventsAsync, getEvents_eq_none h]
  obtain ⟨n, hnext, -, rfl⟩ := hshown
  rcases Nat.eq_zero_or_pos n with rfl | hn
  · rw [List.range_one, List.flatMap_singleton, hfirst]
    rfl
  · have := hnext 0 hn
    rw [hfirst] at this
    cases this

theorem walkComplete_iff (events : Table Event Guid Event.id) :
    WalkComplete events.rows ↔ events.rows.length ≤ maxLength ∧
      NoTieAtBoundary 25 (events.rows.map Event.receivedAt) := by
  have hpages : events.rows.length ≤ ((events.rows.length - 1) / 25 + 1) * 25 := by omega
  rw [← pages_complete_iff events hpages]
  constructor
  · intro hcomplete
    have hrows : events.rows.length ≤ maxLength := by
      by_contra hlong
      obtain ⟨shown, hshown, hperm⟩ := hcomplete (fun _ => events.rows) fun _ => List.Perm.refl _
      rw [walkShows_of_long (Nat.not_le.mp hlong) hshown] at hperm
      have hlength := hperm.length_eq
      rw [List.length_nil, List.length_map] at hlength
      omega
    refine ⟨hrows, fun orders horders => ?_⟩
    obtain ⟨shown, hshown, hperm⟩ := hcomplete orders horders
    rwa [(walkShows_iff hrows horders).mp hshown] at hperm
  · rintro ⟨hrows, hall⟩ orders horders
    exact ⟨_, (walkShows_iff hrows horders).mpr rfl, hall orders horders⟩

/-- **Walking the pages**, through the API with any page size or through the component, lists
every event exactly once exactly when the table fits in a list and no page boundary falls between two
rows of equal `ReceivedAt`. -/
theorem eventWalks_complete_iff (events : Table Event Guid Event.id) :
    (∀ pageSize : Int32, 1 ≤ pageSize → pageSize ≤ 200 →
      (PagesComplete events.rows pageSize ↔ events.rows.length ≤ maxLength ∧
        NoTieAtBoundary pageSize.toInt.toNat (events.rows.map Event.receivedAt))) ∧
      (WalkComplete events.rows ↔ events.rows.length ≤ maxLength ∧
        NoTieAtBoundary 25 (events.rows.map Event.receivedAt)) := by
  constructor
  · intro pageSize h h'
    exact pagesComplete_iff events h h'
  · exact walkComplete_iff events

def firstEvent : Event := { id := 1, source := "github".toList, receivedAt := 0 }

def secondEvent : Event := { id := 2, source := "github".toList, receivedAt := 0 }

/-- Two events received at the same time. -/
def twoEvents : Table Event Guid Event.id := ⟨[firstEvent, secondEvent], by decide⟩

/-- One page of two rows has no boundary, two pages of one row have one between equal times. -/
theorem eventWalks_complete_twoEvents :
    PagesComplete twoEvents.rows 2 ∧ ¬ PagesComplete twoEvents.rows 1 := by
  constructor
  · rw [(eventWalks_complete_iff twoEvents).1 2 (by decide) (by decide)]
    refine ⟨by decide, fun t k hk => ?_⟩
    have hlength : (twoEvents.rows.map Event.receivedAt).countP (fun a => t ≤ a) ≤ 2 :=
      List.countP_le_length
    have hsize : (2 : Int32).toInt.toNat = 2 := rfl
    rw [hsize] at hk
    omega
  · rw [(eventWalks_complete_iff twoEvents).1 1 (by decide) (by decide)]
    rintro ⟨-, htie⟩
    exact htie 0 1 (by decide)

/-- The first page is cut from one order of the two rows and the second from the other, so the first
event is listed twice. -/
theorem not_eventWalks_complete : ¬ ∀ events : Table Event Guid Event.id,
    (∀ pageSize : Int32, 1 ≤ pageSize → pageSize ≤ 200 → PagesComplete events.rows pageSize) ∧
      WalkComplete events.rows := by
  intro h
  have hcomplete := (h twoEvents).1 1 (by decide) (by decide)
  let orders : Nat → List Event := fun k =>
    if k = 0 then [firstEvent, secondEvent] else [secondEvent, firstEvent]
  have horders : ∀ k, (orders k).Perm twoEvents.rows := by
    intro k
    rcases Nat.eq_zero_or_pos k with rfl | hk
    · exact List.Perm.refl _
    · show (if k = 0 then _ else _ : List Event).Perm _
      rw [if_neg hk.ne']
      exact List.Perm.swap _ _ _
  obtain ⟨items, hitems, hperm⟩ := hcomplete orders horders
  have htwice : items = [listItem firstEvent, listItem firstEvent] := by
    apply Option.some.inj
    rw [← hitems]
    decide
  rw [htwice] at hperm
  exact absurd hperm (by decide)

end Events

end WebhookInbox.UI
