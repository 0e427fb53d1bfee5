import WebhookInbox.Library.Utf16
import WebhookInbox.Worker.Process

/-!
# Storing a response body

The response path keeps the first 10000 code units of the body. The text column takes
well-formed text without `U+0000`, and the remote endpoint chooses the body: a `U+0000` stays
in it, and the cut may go through a pair. `recordsBody_iff` says that nothing else goes wrong.
-/

namespace WebhookInbox.Worker

open Utf16 (WellFormed isHighSurrogate)

/-- What the text column accepts. -/
def columnAccepts (stored : Utf16) : Prop := WellFormed stored ∧ 0 ∉ stored

/-- The row has a body that the column accepts, at most 10000 code units from the start of
the response's one. -/
def RecordsBody (body : Utf16) (row : DeliveryAttempt) : Prop :=
  ∃ stored, row.responseBody = some stored ∧ stored.length ≤ 10000 ∧ columnAccepts stored ∧
    stored <+: body

/-- The change set was saved with this row at its end, or it was refused and kept with it. -/
def AddsRow (s : State) (result : Bool × State) (row : DeliveryAttempt) : Prop :=
  (result.1 = true ∧ result.2.db.attempts.rows = s.db.attempts.rows ++ (s.ctx.added ++ [row])) ∨
    (result.1 = false ∧ result.2.ctx.added = s.ctx.added ++ [row])

/-- The first 10000 code units have no `U+0000`, and the last of them does not begin a pair. -/
def CutsWell (body : Utf16) : Prop :=
  0 ∉ body.take 10000 ∧ ∀ u, body[9999]? = some u → isHighSurrogate u = false

theorem truncate_eq_take (body : Utf16) (max : Nat) : truncate body max = body.take max := by
  unfold truncate
  split
  · rename_i hle
    exact (List.take_of_length_le hle).symm
  · rfl

theorem columnAccepts_truncate_iff {body : Utf16} (hbody : WellFormed body) :
    columnAccepts (truncate body 10000) ↔ CutsWell body := by
  have hcut := Utf16.isWellFormed_take_iff (Utf16.isWellFormed_iff.mpr hbody) 9999
  rw [columnAccepts, CutsWell, truncate_eq_take, ← Utf16.isWellFormed_iff, hcut]
  exact and_comm

/-- The row of the response path has the cut body. -/
theorem recordsBody_attemptRow_iff {opts : DeliveryOptions} {e ep id : Guid} {n : Int}
    {statusCode : Nat} {body : Utf16} {sentAt now : Time} (hbody : WellFormed body) :
    RecordsBody body (attemptRow opts e ep n (.response statusCode body) id sentAt now) ↔
      CutsWell body := by
  rw [← columnAccepts_truncate_iff hbody]
  constructor
  · rintro ⟨stored, hstored, -, haccepts, -⟩
    cases hstored
    exact haccepts
  · intro haccepts
    refine ⟨truncate body 10000, rfl, ?_, haccepts, ?_⟩
    · rw [truncate_eq_take, List.length_take]
      omega
    · rw [truncate_eq_take]
      exact List.take_prefix _ _

theorem addsRow_persist (w : World) (row : DeliveryAttempt) (status : EventStatus)
    (label : DeliveryResult) (s : State) : AddsRow s (persist w row status label s) row := by
  by_cases hfail : w.saveFails s.saves.length = true ∨
      s.db.attempts.insertAll? (s.ctx.added ++ [row]) = none
  · obtain ⟨hres, hrej⟩ := persist_rejected status label hfail
    exact Or.inr ⟨hres, hrej.added⟩
  · rw [not_or, Bool.not_eq_true, ← Ne, Option.ne_none_iff_isSome] at hfail
    obtain ⟨hres, hcom⟩ := persist_committed row status label hfail.1 hfail.2
    exact Or.inl ⟨hres, hcom.rows⟩

theorem AddsRow.unique {s : State} {result : Bool × State} {row row' : DeliveryAttempt}
    (h : AddsRow s result row) (h' : AddsRow s result row') : row = row' := by
  rcases h with ⟨hsaved, hrows⟩ | ⟨hsaved, hadded⟩
  · rcases h' with ⟨-, hrows'⟩ | ⟨hsaved', -⟩
    · rw [hrows] at hrows'
      simpa using hrows'
    · rw [hsaved] at hsaved'
      cases hsaved'
  · rcases h' with ⟨hsaved', -⟩ | ⟨-, hadded'⟩
    · rw [hsaved] at hsaved'
      cases hsaved'
    · rw [hadded] at hadded'
      simpa using hadded'

/-- The row that the response path adds. -/
theorem addsRow_recordResponse (w : World) (opts : DeliveryOptions) (eventId endpointId : Guid)
    (tryNumber : Int) (statusCode : Nat) (body : Utf16) (s : State) :
    ∃ id sentAt now, AddsRow s (recordResponse w opts eventId endpointId tryNumber statusCode body s)
      (attemptRow opts eventId endpointId tryNumber (.response statusCode body) id sentAt now) := by
  obtain ⟨r, -, heq⟩ := recordResponse_eq w opts eventId endpointId tryNumber statusCode body s
  rw [heq]
  exact ⟨_, _, _, addsRow_persist w _ _ _ { s with reads := r, guids := s.guids + 1 }⟩

/-- **A response body is recorded** exactly when it is cut well. -/
theorem recordsBody_iff (w : World) (opts : DeliveryOptions) (eventId endpointId : Guid)
    (tryNumber : Int) (statusCode : Nat) (body : Utf16) (hbody : WellFormed body) (s : State) :
    ∃ row, AddsRow s (recordResponse w opts eventId endpointId tryNumber statusCode body s) row ∧
      (RecordsBody body row ↔ CutsWell body) := by
  obtain ⟨id, sentAt, now, hadds⟩ :=
    addsRow_recordResponse w opts eventId endpointId tryNumber statusCode body s
  exact ⟨_, hadds, recordsBody_attemptRow_iff hbody⟩

theorem recordsBody_ok :
    ∃ row, AddsRow splitStart
        (recordResponse splitWorld {} 7 2 1 200 (Utf16.encode "ok".toList) splitStart) row ∧
      (RecordsBody (Utf16.encode "ok".toList) row ↔ CutsWell (Utf16.encode "ok".toList)) :=
  recordsBody_iff splitWorld {} 7 2 1 200 (Utf16.encode "ok".toList) ⟨_, rfl⟩ splitStart

/-! ## Bodies that are not recorded -/

/-- Letters, and then a character beyond the basic plane. -/
def emojiAfter (letters : Nat) : Utf16 := Utf16.encode (List.replicate letters 'a' ++ [Char.ofNat 0x1F600])

theorem getElem?_emojiAfter (letters : Nat) : (emojiAfter letters)[letters]? = some 0xD83D := by
  induction letters with
  | zero => rfl
  | succ letters ih => exact ih

theorem not_recordsBody {w : World} {opts : DeliveryOptions} {e ep : Guid} {n : Int} {statusCode : Nat}
    {body : Utf16} {s : State} (hbody : WellFormed body) (hcut : ¬ CutsWell body) :
    ¬ ∃ row, AddsRow s (recordResponse w opts e ep n statusCode body s) row ∧ RecordsBody body row := by
  rintro ⟨row, hadds, hrecords⟩
  obtain ⟨id, sentAt, now, hadds'⟩ := addsRow_recordResponse w opts e ep n statusCode body s
  rw [hadds.unique hadds', recordsBody_attemptRow_iff hbody] at hrecords
  exact hcut hrecords

/-- A body with a `U+0000`, and one whose pair lies across the cut. -/
theorem body_not_recorded :
    (WellFormed [0x61, 0] ∧ ¬ ∃ row, AddsRow splitStart
        (recordResponse splitWorld {} 7 2 1 200 [0x61, 0] splitStart) row ∧
      RecordsBody [0x61, 0] row) ∧
    (WellFormed (emojiAfter 9999) ∧ ¬ ∃ row, AddsRow splitStart
        (recordResponse splitWorld {} 7 2 1 200 (emojiAfter 9999) splitStart) row ∧
      RecordsBody (emojiAfter 9999) row) := by
  refine ⟨⟨⟨"a\x00".toList, rfl⟩, not_recordsBody ⟨"a\x00".toList, rfl⟩ ?_⟩,
    ⟨⟨_, rfl⟩, not_recordsBody ⟨_, rfl⟩ ?_⟩⟩
  · exact fun h => h.1 (by decide)
  · intro h
    have hunit := h.2 _ (getElem?_emojiAfter 9999)
    cases hunit

end WebhookInbox.Worker
