import WebhookInbox.Deployment.Custody
import WebhookInbox.UI.Loads

/-!
# Browsing the events while they arrive

The page `/events` is open while the service runs. Every answer is cut from the table as it was when
the request was served, which may be long before the answer is there; in between events arrive at the
top, and the rows move down. So a walk may show an event twice, but it passes none: an event
that has not been shown has at least as many newer ones above it as the shown pages hold rows, since
that number never falls (`browsing_run`). On a page that is not full every event that was stored when
the page was opened has been shown, unless another one was received at the same time. A full page need
not be the last one when its Next is disabled: the events are counted before they are queried.
-/

namespace WebhookInbox.Deployment

open Api Worker UI

/-- A load of the component whose request has not been handled to its end. -/
inductive Load where
  | requested (page pageSize : Int32)
  | counted (page pageSize total : Int32)
  | answered (answer : Except Text EventListResponse)

/-- The service, and someone at the page `/events`. -/
structure Browsing (ι : Type) where
  system : System ι
  component : Events := {}
  loads : List Load := []
  /-- The events that were stored when the page was opened. -/
  opened : List Event := []
  /-- All rows that have been rendered since. -/
  shown : List EventListItem := []

inductive BrowsingAction (ι : Type) where
  | system (a : SystemAction ι)
  | visit
  | click (button : Events.Button)
  /-- `CountAsync` of the request of a load. -/
  | count (i : Nat)
  /-- Its `SELECT`, which returns the rows in the order of these ids. -/
  | select (i : Nat) (order : List Guid)
  | fail (i : Nat) (message : Text)
  | deliver (i : Nat)

variable {ι : Type}

namespace Browsing

def start (ι : Type) (endpoints : Table Endpoint Guid Endpoint.id) : Browsing ι where
  system := .start ι endpoints

def events (s : Browsing ι) : Table Event Guid Event.id := s.system.inbox.events

def countEvents (events : Table Event Guid Event.id) : Load → Option Load
  | .requested page pageSize => some (.counted page pageSize (Int32.ofNat events.rows.length))
  | _ => none

def selectEvents (events : Table Event Guid Event.id) (order : List Guid) : Load → Option Load
  | .counted page pageSize total =>
    if order.Perm (events.rows.map Event.id) then
      some (.answered (getEventsAsyncCounted total (order.filterMap events.find?) page pageSize))
    else none
  | _ => none

/-- Its `StateHasChanged` renders the component. -/
def render (s : Browsing ι) (component : Events) (loads : List Load) : Browsing ι :=
  { s with component, loads, shown := s.shown ++ component.rendered }

def step [DecidableEq ι] (srv : Server) (w : World) (opts : DeliveryOptions) (s : Browsing ι) :
    BrowsingAction ι → Option (Browsing ι)
  | .system a => (s.system.step srv w opts a).map fun system => { s with system }
  | .visit =>
    let component : Events := {}
    some { s with
      component := component.beginLoad
      loads := [.requested 1 component.pageSize]
      opened := s.events.rows
      shown := [] }
  | .click button =>
    if s.component.hasButtons then
      (s.component.asked button).map fun page =>
        { s with
          component := s.component.beginLoad
          loads := .requested page s.component.pageSize :: s.loads }
    else none
  | .count i =>
    (s.loads[i]?.bind (countEvents s.events)).map fun load => { s with loads := s.loads.set i load }
  | .select i order =>
    (s.loads[i]?.bind (selectEvents s.events order)).map fun load =>
      { s with loads := s.loads.set i load }
  | .fail i message =>
    -- no exception has an empty message
    if message = [] then none
    else some { s with loads := s.loads.set i (.answered (.error message)) }
  | .deliver i =>
    match s.loads[i]? with
    | some (.answered answer) => some (s.render (s.component.endLoad answer) (s.loads.eraseIdx i))
    | _ => none

end Browsing

/-! ## Events among the others -/

/-- The event is among the items, at whatever status. -/
def Listed (items : List EventListItem) (e : Event) : Prop :=
  ∃ ev, bare ev = bare e ∧ listItem ev ∈ items

/-- No other event was received at its time. -/
def Alone (rows : List Event) (e : Event) : Prop :=
  ∀ ev ∈ rows, ev.receivedAt = e.receivedAt → ev.id = e.id

/-- The number of events received after it. -/
def newer (rows : List Event) (e : Event) : Nat := Paging.above (rows.map Event.receivedAt) e.receivedAt

theorem Listed.mono {items items' : List EventListItem} {e : Event} (h : Listed items e)
    (hsub : items ⊆ items') : Listed items' e := by
  obtain ⟨ev, hbare, hmem⟩ := h
  exact ⟨ev, hbare, hsub hmem⟩

theorem id_of_bare {ev e : Event} (h : bare ev = bare e) : ev.id = e.id := by
  have hid := congrArg Event.id h
  exact hid

theorem receivedAt_of_bare {ev e : Event} (h : bare ev = bare e) : ev.receivedAt = e.receivedAt := by
  have htime := congrArg Event.receivedAt h
  exact htime

section Growth

variable {rows rows' : List Event} (hgrows : rows.map bare <+: rows'.map bare) {e : Event}

include hgrows in
theorem exists_grown {ev : Event} (hev : ev ∈ rows) : ∃ ev' ∈ rows', bare ev' = bare ev :=
  List.mem_map.mp (hgrows.subset (List.mem_map_of_mem hev))

include hgrows in
theorem Alone.anti (h : Alone rows' e) : Alone rows e := by
  intro ev hev htime
  obtain ⟨ev', hev', hbare⟩ := exists_grown hgrows hev
  rw [← id_of_bare hbare]
  exact h ev' hev' ((receivedAt_of_bare hbare).trans htime)

include hgrows in
theorem newer_mono (e : Event) : newer rows e ≤ newer rows' e := by
  have htimes : ∀ l : List Event, l.map Event.receivedAt = (l.map bare).map Event.receivedAt := by
    intro l
    rw [List.map_map]
    rfl
  rw [newer, newer, htimes rows, htimes rows']
  exact Paging.above_mono (hgrows.sublist.map _) _

include hgrows in
theorem length_mono : rows.length ≤ rows'.length := by
  have hlength := hgrows.length_le
  rwa [List.length_map, List.length_map] at hlength

end Growth

theorem newer_lt_length {rows : List Event} {e ev : Event} (hev : ev ∈ rows) (hbare : bare ev = bare e) :
    newer rows e < rows.length := by
  have hmem : e.receivedAt ∈ rows.map Event.receivedAt := by
    rw [← receivedAt_of_bare hbare]
    exact List.mem_map_of_mem hev
  have hlt := Paging.above_lt_length hmem
  rwa [List.length_map] at hlt

/-- **A page** lists the event when it reaches over the newer ones. -/
theorem listed_itemsOf {events : Table Event Guid Event.id} {rows : List Event}
    (hrows : rows.Perm events.rows) {e ev : Event} (hev : ev ∈ events.rows) (hbare : bare ev = bare e)
    (halone : Alone events.rows e) {k : Nat} (hlo : k * 25 ≤ newer events.rows e)
    (hhi : newer events.rows e < (k + 1) * 25) : Listed (Events.itemsOf rows k) e := by
  have hperm := (Linq.orderByDescending_perm Event.receivedAt rows).trans hrows
  have htime := receivedAt_of_bare hbare
  rw [newer, ← htime, ← Paging.above_of_perm (hperm.map Event.receivedAt)] at hlo hhi
  obtain ⟨b, hb, hkey⟩ := Paging.exists_mem_page
    (Linq.orderByDescending_pairwise Event.receivedAt rows) (hperm.mem_iff.mpr hev) hlo hhi
  have hmem : b ∈ events.rows := hperm.mem_iff.mp (List.mem_of_mem_drop (List.mem_of_mem_take hb))
  have hid : b.id = ev.id := (halone b hmem (hkey.trans htime)).trans (id_of_bare hbare).symm
  obtain rfl := events.eq_of_key_eq hmem hev hid
  exact ⟨b, hbare, List.mem_map_of_mem hb⟩

section System

variable {srv : Server} {w : World} {opts : DeliveryOptions} [DecidableEq ι]

/-- Events are only added, and of the stored ones only the status changes. -/
theorem rows_grow {s s' : System ι} {a : SystemAction ι} (h : s.step srv w opts a = some s') :
    s.inbox.events.rows.map bare <+: s'.inbox.events.rows.map bare := by
  rcases step_cases h with ⟨b, inbox, rfl, hinbox, rfl⟩ | ⟨b, workers, hb, hworkers, rfl⟩
  · show s.inbox.events.rows.map bare <+: inbox.events.rows.map bare
    cases Ingestion.step_cases hinbox with
    | committed entity answered hmem events hrows =>
      show _ <+: events.rows.map bare
      rw [hrows, List.map_append]
      exact List.prefix_append _ _
    | _ => exact List.prefix_rfl
  · have hbare := bare_cluster (fun ev heq => cluster?_ne_insertEvent a ev (heq ▸ hb)) hworkers
    show _ <+: workers.shared.db.events.rows.map bare
    rw [hbare, s.shared]

end System

/-! ## The walk -/

namespace Browsing

/-- An event from before that has not been shown, and that no tie can hide. -/
structure Unseen (s : Browsing ι) (e : Event) : Prop where
  opened : e ∈ s.opened
  alone : Alone s.events.rows e
  unlisted : ¬ Listed s.shown e

/-- An answer lists the event, or the event is on a later page. -/
def Reaches (s : Browsing ι) (items : List EventListItem) (k : Nat) (e : Event) : Prop :=
  Listed items e ∨ items.length = 25 ∧ (k + 1) * 25 ≤ newer s.events.rows e

/-- A request is for a page that is at most one behind the pages shown. -/
def LoadValid (s : Browsing ι) (n : Nat) : Load → Prop
  | .requested page pageSize =>
    pageSize = 25 ∧ ∃ k ≤ n, page = Int32.ofNat (k + 1) ∧ (k = 0 ∨ k * 25 < s.events.rows.length)
  | .counted page pageSize total =>
    pageSize = 25 ∧ ∃ k ≤ n, page = Int32.ofNat (k + 1) ∧
      ∃ length ≤ s.events.rows.length, total = Int32.ofNat length ∧ (k = 0 ∨ k * 25 < length)
  | .answered (.error _) => True
  | .answered (.ok result) =>
    ∃ k, ∃ length ≤ s.events.rows.length,
      result = ⟨result.items, Int32.ofNat length, Int32.ofNat (k + 1), 25⟩ ∧
        Events.Slice result.items length k ∧ ∀ e, s.Unseen e → s.Reaches result.items k e

/-- The first `n` pages have been shown. -/
structure Walked (s : Browsing ι) (n : Nat) : Prop where
  stored : ∀ e ∈ s.opened, ∃ ev ∈ s.events.rows, bare ev = bare e
  behind : ∀ e, s.Unseen e → n * 25 ≤ newer s.events.rows e
  loads : ∀ load ∈ s.loads, s.LoadValid n load
  showing : s.component.error = none → s.component.isLoading = false ∨ s.component.items ≠ [] →
    ∃ k < n, ∃ length ≤ s.events.rows.length, s.component.Showing length k
  full : s.component.error = none → s.component.isLoading = false → s.component.items.length < 25 →
    ∀ e, ¬ s.Unseen e

section Step

variable {s s' : Browsing ι} {n n' : Nat}

theorem Unseen.anti {e : Event} (h : s'.Unseen e) (hopened : s'.opened = s.opened)
    (hgrows : s.events.rows.map bare <+: s'.events.rows.map bare) (hshown : s.shown ⊆ s'.shown) :
    s.Unseen e :=
  ⟨hopened ▸ h.opened, h.alone.anti hgrows, fun hlisted => h.unlisted (hlisted.mono hshown)⟩

theorem LoadValid.mono {load : Load} (h : s.LoadValid n load) (hn : n ≤ n')
    (hgrows : s.events.rows.map bare <+: s'.events.rows.map bare)
    (hunseen : ∀ e, s'.Unseen e → s.Unseen e) : s'.LoadValid n' load := by
  have hlength := length_mono hgrows
  match load, h with
  | .requested page pageSize, ⟨hsize, k, hk, hpage, hinside⟩ =>
    exact ⟨hsize, k, hk.trans hn, hpage, hinside.imp_right fun hlt => hlt.trans_le hlength⟩
  | .counted page pageSize total, ⟨hsize, k, hk, hpage, length, hle, htotal⟩ =>
    exact ⟨hsize, k, hk.trans hn, hpage, length, hle.trans hlength, htotal⟩
  | .answered (.error message), _ => trivial
  | .answered (.ok result), ⟨k, length, hle, hresult, hslice, hreaches⟩ =>
    refine ⟨k, length, hle.trans hlength, hresult, hslice, fun e he => ?_⟩
    have hlater := hreaches e (hunseen e he)
    exact hlater.imp_right (And.imp_right fun hnewer => hnewer.trans (newer_mono hgrows e))

/-- The table grows under the page. -/
theorem Walked.grow (h : s.Walked n) {system : System ι}
    (hgrows : s.events.rows.map bare <+: system.inbox.events.rows.map bare) :
    ({ s with system } : Browsing ι).Walked n := by
  have hunseen : ∀ e, ({ s with system } : Browsing ι).Unseen e → s.Unseen e :=
    fun e he => he.anti rfl hgrows (List.Subset.refl _)
  refine ⟨fun e he => ?_, fun e he => ?_, fun load hload => ?_, fun herror hrendered => ?_,
    fun herror hloaded hfull e he => ?_⟩
  · obtain ⟨ev, hev, hbare⟩ := h.stored e he
    obtain ⟨ev', hev', hbare'⟩ := exists_grown hgrows hev
    exact ⟨ev', hev', hbare'.trans hbare⟩
  · exact (h.behind e (hunseen e he)).trans (newer_mono hgrows e)
  · exact (h.loads load hload).mono le_rfl hgrows hunseen
  · obtain ⟨k, hk, length, hle, hshowing⟩ := h.showing herror hrendered
    exact ⟨k, hk, length, hle.trans (length_mono hgrows), hshowing⟩
  · exact h.full herror hloaded hfull e (hunseen e he)

/-- The component and its loads change, and no row is rendered. -/
theorem Walked.update (h : s.Walked n) {component : Events} {loads : List Load}
    (hloads : ∀ load ∈ loads, s.LoadValid n load)
    (hshowing : component.error = none → component.isLoading = false ∨ component.items ≠ [] →
      ∃ k < n, ∃ length ≤ s.events.rows.length, component.Showing length k)
    (hfull : component.error = none → component.isLoading = false → component.items.length < 25 →
      ∀ e, ¬ s.Unseen e) :
    ({ s with component, loads } : Browsing ι).Walked n := by
  have hunseen : ∀ e, ({ s with component, loads } : Browsing ι).Unseen e → s.Unseen e :=
    fun e he => he.anti rfl List.prefix_rfl (List.Subset.refl _)
  exact ⟨h.stored, fun e he => h.behind e (hunseen e he),
    fun load hload => (hloads load hload).mono le_rfl List.prefix_rfl hunseen, hshowing,
    fun herror hloaded hshort e he => hfull herror hloaded hshort e (hunseen e he)⟩

theorem LoadValid.count {load load' : Load} (hload : s.LoadValid n load)
    (hcount : countEvents s.events load = some load') : s.LoadValid n load' := by
  match load, hload with
  | .requested page pageSize, ⟨hsize, k, hk, hpage, hinside⟩ =>
    cases hcount
    exact ⟨hsize, k, hk, hpage, s.events.rows.length, le_rfl, rfl, hinside⟩
  | .counted .., _ => cases hcount
  | .answered answer, _ => cases hcount

/-- **An answer** is cut from the table as it is now. -/
theorem Walked.select (h : s.Walked n) {order : List Guid} {load load' : Load} (hload : s.LoadValid n load)
    (hselect : selectEvents s.events order load = some load') : s.LoadValid n load' := by
  match load, hload with
  | .requested .., _ => cases hselect
  | .answered answer, _ => cases hselect
  | .counted page pageSize total, ⟨hsize, k, hk, hpage, length, hle, htotal, hinside⟩ =>
    simp only [selectEvents] at hselect
    split at hselect
    · rename_i horder
      cases hselect
      have hrows := s.events.filterMap_find?_perm horder
      rw [hsize, hpage]
      generalize order.filterMap s.events.find? = rows at hrows
      rcases Nat.lt_or_ge maxLength rows.length with hlong | hfits
      · rw [Events.getEventsAsyncCounted_of_long hlong]
        trivial
      · have hcounted : length ≤ rows.length := hle.trans hrows.length_eq.ge
        rw [Events.getEventsAsyncCounted_eq hcounted hinside hfits, htotal]
        refine ⟨k, length, hle, rfl, Events.slice_itemsOf hrows hcounted hinside hfits,
          fun e he => ?_⟩
        obtain ⟨ev, hev, hbare⟩ := h.stored e he.opened
        have hbehind := h.behind e he
        have hlt := newer_lt_length hev hbare
        rcases Nat.lt_or_ge (newer s.events.rows e) ((k + 1) * 25) with hhi | hge
        · have hlo : k * 25 ≤ newer s.events.rows e := by omega
          exact Or.inl (listed_itemsOf hrows hev hbare he.alone hlo hhi)
        · refine Or.inr ⟨?_, hge⟩
          rw [Events.length_itemsOf, hrows.length_eq]
          omega
    · cases hselect

/-- **A click** asks for a page at most one behind the pages shown. -/
theorem Walked.click (h : s.Walked n) {button : Events.Button} {page : Int32}
    (hbuttons : s.component.hasButtons = true) (hasked : s.component.asked button = some page) :
    ({ s with
      component := s.component.beginLoad
      loads := .requested page s.component.pageSize :: s.loads } : Browsing ι).Walked n := by
  simp only [Events.hasButtons, Bool.and_eq_true, Option.isNone_iff_eq_none, Bool.not_eq_true',
    List.isEmpty_eq_false_iff] at hbuttons
  obtain ⟨herror, hitems⟩ := hbuttons
  obtain ⟨k, hk, length, hle, hshowing⟩ := h.showing herror (Or.inr hitems)
  obtain ⟨k', hk', hpage, hinside⟩ := Events.asked_of_showing hshowing hasked
  have hload : s.LoadValid n (.requested page s.component.pageSize) :=
    ⟨hshowing.pageSize, k', by omega, hpage, hinside.imp_right fun hlt => hlt.trans_le hle⟩
  apply h.update
  · intro load hmem
    rcases List.mem_cons.mp hmem with rfl | hmem
    · exact hload
    · exact h.loads load hmem
  · intro _ _
    exact ⟨k, hk, length, hle, hshowing.beginLoad⟩
  · intro _ hloaded
    cases hloaded

/-- With an error no row is rendered. -/
theorem Walked.hidden (h : s.Walked n) {component : Events} {loads : List Load}
    (hloads : ∀ load ∈ loads, s.LoadValid n load) (herror : component.error ≠ none) :
    (s.render component loads).Walked n := by
  obtain ⟨message, hmessage⟩ := Option.ne_none_iff_exists'.mp herror
  have hrendered : component.rendered = [] := by rw [Events.rendered, hmessage]
  rw [render, hrendered, List.append_nil]
  exact h.update hloads (fun hnone => absurd hnone herror) fun hnone => absurd hnone herror

/-- **A page is shown.** What it does not list is behind it, and the page is full. -/
theorem Walked.render (h : s.Walked n) {component : Events} {loads : List Load} {length k : Nat}
    (hloads : ∀ load ∈ loads, s.LoadValid n load) (hrendered : component.rendered = component.items)
    (hle : length ≤ s.events.rows.length) (hshowing : component.Showing length k)
    (hreaches : ∀ e, s.Unseen e → s.Reaches component.items k e) :
    (s.render component loads).Walked (max n (k + 1)) := by
  have hunseen : ∀ e, (s.render component loads).Unseen e →
      s.Unseen e ∧ component.items.length = 25 ∧ (k + 1) * 25 ≤ newer s.events.rows e := by
    intro e he
    have hbefore : s.Unseen e := he.anti rfl List.prefix_rfl (List.subset_append_left _ _)
    refine ⟨hbefore, (hreaches e hbefore).resolve_left fun hlisted => he.unlisted ?_⟩
    rw [← hrendered] at hlisted
    exact hlisted.mono (List.subset_append_right _ _)
  refine ⟨h.stored, fun e he => ?_, fun load hmem => ?_, fun _ _ => ⟨k, by omega, length, hle, hshowing⟩,
    fun _ _ hshort e he => ?_⟩
  · obtain ⟨hbefore, -, hnewer⟩ := hunseen e he
    have hbehind := h.behind e hbefore
    show max n (k + 1) * 25 ≤ newer s.events.rows e
    omega
  · exact (hloads load hmem).mono (le_max_left _ _) List.prefix_rfl fun e he => (hunseen e he).1
  · exact absurd (hunseen e he).2.1 (Nat.ne_of_lt hshort)

/-- **An answer is delivered.** -/
theorem Walked.deliver (h : s.Walked n) {answer : Except Text EventListResponse}
    (hload : s.LoadValid n (.answered answer)) {loads : List Load} (hloads : loads ⊆ s.loads) :
    ∃ n', (s.render (s.component.endLoad answer) loads).Walked n' := by
  have hvalid : ∀ load ∈ loads, s.LoadValid n load := fun load hmem => h.loads load (hloads hmem)
  match answer, hload with
  | .error message, _ => exact ⟨n, h.hidden hvalid (Option.some_ne_none _)⟩
  | .ok result, ⟨k, length, hle, hresult, hslice, hreaches⟩ =>
    cases herror : s.component.error with
    | some message =>
      -- an earlier load has failed, and its error stays
      refine ⟨n, h.hidden hvalid ?_⟩
      show s.component.error ≠ none
      rw [herror]
      exact Option.some_ne_none _
    | none =>
      have hshowing : (s.component.endLoad (.ok result)).Showing length k := by
        rw [hresult]
        exact Events.showing_endLoad hslice s.component
      exact ⟨max n (k + 1), h.render hvalid (Events.rendered_endLoad herror result) hle hshowing hreaches⟩

/-- The page is opened. -/
theorem walked_visit (s : Browsing ι) : ({ s with
    component := Events.beginLoad {}
    loads := [.requested 1 25]
    opened := s.events.rows
    shown := [] } : Browsing ι).Walked 0 := by
  refine ⟨fun e he => ⟨e, he, rfl⟩, fun e _ => by omega, fun load hmem => ?_, fun _ hrendered => ?_,
    fun _ hloaded => by cases hloaded⟩
  · rw [List.mem_singleton.mp hmem]
    exact ⟨rfl, 0, le_rfl, rfl, Or.inl rfl⟩
  · rcases hrendered with hloaded | hitems
    · cases hloaded
    · exact absurd rfl hitems

theorem walked_start (endpoints : Table Endpoint Guid Endpoint.id) : (start ι endpoints).Walked 0 := by
  refine ⟨fun _ he => (by cases he), fun e _ => by omega, fun _ hmem => (by cases hmem),
    fun _ hrendered => ?_, fun _ hloaded => by cases hloaded⟩
  rcases hrendered with hloaded | hitems
  · cases hloaded
  · exact absurd rfl hitems

/-- **Every step** shows no fewer pages, or opens the page anew. -/
theorem walked_step [DecidableEq ι] {srv : Server} {w : World} {opts : DeliveryOptions}
    {a : BrowsingAction ι} (h : s.Walked n) (hstep : s.step srv w opts a = some s') :
    ∃ n', s'.Walked n' := by
  cases a with
  | system a =>
    obtain ⟨system, hsystem, rfl⟩ := Option.map_eq_some_iff.mp hstep
    exact ⟨n, h.grow (rows_grow hsystem)⟩
  | visit =>
    cases hstep
    exact ⟨0, walked_visit s⟩
  | click button =>
    simp only [step] at hstep
    split at hstep
    · rename_i hbuttons
      obtain ⟨page, hasked, rfl⟩ := Option.map_eq_some_iff.mp hstep
      exact ⟨n, h.click hbuttons hasked⟩
    · cases hstep
  | count i =>
    obtain ⟨load', hcounted, rfl⟩ := Option.map_eq_some_iff.mp hstep
    obtain ⟨load, hload, hcount⟩ := Option.bind_eq_some_iff.mp hcounted
    have hvalid := (h.loads load (List.mem_of_getElem? hload)).count hcount
    exact ⟨n, h.update (fun l hl => (List.mem_or_eq_of_mem_set hl).elim (h.loads l) (· ▸ hvalid))
      h.showing h.full⟩
  | select i order =>
    obtain ⟨load', hselected, rfl⟩ := Option.map_eq_some_iff.mp hstep
    obtain ⟨load, hload, hselect⟩ := Option.bind_eq_some_iff.mp hselected
    have hvalid := h.select (h.loads load (List.mem_of_getElem? hload)) hselect
    exact ⟨n, h.update (fun l hl => (List.mem_or_eq_of_mem_set hl).elim (h.loads l) (· ▸ hvalid))
      h.showing h.full⟩
  | fail i message =>
    simp only [step] at hstep
    split at hstep
    · cases hstep
    · cases hstep
      exact ⟨n, h.update (fun l hl => (List.mem_or_eq_of_mem_set hl).elim (h.loads l) (· ▸ trivial))
        h.showing h.full⟩
  | deliver i =>
    simp only [step] at hstep
    split at hstep
    · rename_i answer hload
      cases hstep
      exact h.deliver (h.loads _ (List.mem_of_getElem? hload)) (List.eraseIdx_subset)
    · cases hstep

end Step

end Browsing

/-- **A walk passes no event**, whatever the service does meanwhile, in whatever order the answers come,
however often the buttons are clicked. What has not been shown is behind the page that is shown, which
is then full. -/
theorem browsing_run [DecidableEq ι] (srv : Server) (w : World) (opts : DeliveryOptions)
    (endpoints : Table Endpoint Guid Endpoint.id) (actions : List (BrowsingAction ι)) {s' : Browsing ι}
    (hrun : Transition.run (Browsing.step srv w opts) (Browsing.start ι endpoints) actions = some s')
    (herror : s'.component.error = none) (hloaded : s'.component.isLoading = false) :
    ∃ k, (∃ length ≤ s'.events.rows.length, s'.component.Showing length k) ∧
      ∀ e ∈ s'.opened, Alone s'.events.rows e →
        Listed s'.shown e ∨ s'.component.items.length = 25 ∧ (k + 1) * 25 ≤ newer s'.events.rows e := by
  obtain ⟨n, h⟩ := Transition.invariant (I := fun s : Browsing ι => ∃ n, s.Walked n)
    (fun _ _ _ hwalked hstep => hwalked.elim fun _ h => Browsing.walked_step h hstep)
    ⟨0, Browsing.walked_start endpoints⟩ hrun
  obtain ⟨k, hk, length, hle, hshowing⟩ := h.showing herror (Or.inl hloaded)
  refine ⟨k, ⟨length, hle, hshowing⟩, fun e he halone => ?_⟩
  by_cases hlisted : Listed s'.shown e
  · exact Or.inl hlisted
  · have hunseen : s'.Unseen e := ⟨he, halone, hlisted⟩
    have hbehind := h.behind e hunseen
    have hmost := hshowing.slice.most
    have hfull : ¬ s'.component.items.length < 25 := fun hshort => h.full herror hloaded hshort e hunseen
    exact Or.inr ⟨by omega, by omega⟩

/-- The page is opened, and a worker delivers the event before the request is served. -/
def browsedActions : List (BrowsingAction Bool) :=
  (deliveredActions.take 2).map .system ++ .visit :: .count 0 ::
    (deliveredActions.drop 2).map .system ++ [.select 0 [7], .deliver 0]

theorem browsedRun_isSome : (Transition.run (Browsing.step openServer splitWorld {})
    (Browsing.start Bool (.single workingEndpoint)) browsedActions).isSome := by
  decide

/-- The service and the page after these actions. -/
def browsed : Browsing Bool :=
  (Transition.run (Browsing.step openServer splitWorld {}) (Browsing.start Bool (.single workingEndpoint))
    browsedActions).get browsedRun_isSome

theorem browsing_run_browsed :
    browsed.opened.length = 1 ∧
      ∃ k, (∃ length ≤ browsed.events.rows.length, browsed.component.Showing length k) ∧
      ∀ e ∈ browsed.opened, Alone browsed.events.rows e →
        Listed browsed.shown e ∨
          browsed.component.items.length = 25 ∧ (k + 1) * 25 ≤ newer browsed.events.rows e :=
  ⟨by decide, browsing_run openServer splitWorld {} (.single workingEndpoint) browsedActions
    (Option.some_get browsedRun_isSome).symm (by decide) (by decide)⟩

end WebhookInbox.Deployment
