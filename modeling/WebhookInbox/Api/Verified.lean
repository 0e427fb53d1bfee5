import WebhookInbox.Api.Inbox
import WebhookInbox.Api.Verdicts

/-!
# What `Verified` says about a stored event

The validator accepts a request without a look at its signature when no configuration
requires one, and the handler stores every accepted request as `Verified`.
`verifiedMeansChecked_iff` says that such requests are the only ones for which the stored
status is wrong.
-/

namespace WebhookInbox.Api

open NetString

/-- A request whose row is stored as `Verified` had a signature that was checked. -/
def VerifiedMeansChecked (srv : Server) (req : InboxRequest) (stored : Option Event) : Prop :=
  ∀ entity, stored = some entity → entity.signatureStatus = .verified →
    ∃ cfg, selectConfig srv.platform srv.signatures req.source = some cfg ∧ cfg.require = true ∧
      SignatureChecked srv.platform cfg req.http req.http.body

theorem accepts_of_not_required {p : Platform} {opts : SignatureOptions} {now : Time} {source : Text}
    {req : HttpRequest} {payload : Bytes}
    (h : ∀ cfg, selectConfig p opts source = some cfg → cfg.require = false) :
    Accepts p opts now source req payload := by
  unfold Accepts validateAsync
  cases hcfg : selectConfig p opts source with
  | none => exact ⟨_, rfl⟩
  | some cfg =>
    dsimp only
    rw [h cfg hcfg]
    exact ⟨_, rfl⟩

/-- **Verified events.** The stored status tells the truth exactly when nothing is stored or
the source's configuration requires signatures. -/
theorem verifiedMeansChecked_iff (srv : Server) (times : Clocks) (tentativeId : Guid)
    (store : ReservationStore) (req : InboxRequest) (saved : Bool) :
    VerifiedMeansChecked srv req (storedEvent (postInbox srv times tentativeId store req).1 saved) ↔
      saved = false ∨ isNullOrWhiteSpace (some req.source) = true ∨
        (∃ id, liveReservation store times.reservedAt (inboxKey srv req) = some id) ∨
        ∃ cfg, selectConfig srv.platform srv.signatures req.source = some cfg ∧ cfg.require = true := by
  have hpost := postInbox_spec srv times tentativeId store req
  generalize postInbox srv times tentativeId store req = result at hpost
  constructor
  · intro h
    by_contra hnot
    simp only [not_or, not_exists, not_and, Bool.not_eq_false, Bool.not_eq_true] at hnot
    obtain ⟨hsaved, hsource, hlive, hrequire⟩ := hnot
    have haccept : Accepts srv.platform srv.signatures times.validatedAt req.source req.http
        req.http.body := accepts_of_not_required hrequire
    obtain ⟨reason, haccept⟩ := haccept
    cases hpost with
    | blank hblank => simp [hsource] at hblank
    | raised e _ hraise => simp [haccept] at hraise
    | refused _ hrefuse => simp [haccept] at hrefuse
    | duplicate id _ _ hid => exact hlive id hid
    | saving =>
      obtain ⟨cfg, hcfg, htrue, -⟩ := h _ (by rw [storedEvent, hsaved]; rfl) rfl
      rw [hrequire cfg hcfg] at htrue
      cases htrue
  · intro h entity hstored _
    cases hpost with
    | blank => cases hstored
    | raised => cases hstored
    | refused => cases hstored
    | duplicate => cases hstored
    | saving hsource haccept hnone =>
      rcases h with hsaved | hblank | ⟨id, hid⟩ | ⟨cfg, hcfg, hrequire⟩
      · rw [storedEvent, hsaved] at hstored
        cases hstored
      · rw [hsource] at hblank
        cases hblank
      · rw [hnone] at hid
        cases hid
      · exact ⟨cfg, hcfg, hrequire, signatureChecked_of_accepts hcfg hrequire haccept⟩

/-- A server without any signature configuration; the table has the SHA-256 of `{}`. -/
def openServer : Server where
  platform := Platform.ascii
    (tableDigest [([0x7B, 0x7D], "44136fa355b3678a1146ad16f7e8649e94fb4fc21fe77e8310c060f61caaff8a")])
    fun _ => tableDigest []

def unsignedRequest : InboxRequest where
  source := "shop".toList
  http := { headers := [("Content-Type".toList, ["application/json".toList])], body := [0x7B, 0x7D] }

/-- A request without a signature, for a source without a configuration, is stored as `Verified`. -/
theorem unsigned_stored_as_verified :
    ¬ VerifiedMeansChecked openServer unsignedRequest
      (storedEvent (postInbox openServer ⟨0, 0, 0⟩ 7 (fun _ => none) unsignedRequest).1 true) := by
  intro h
  obtain ⟨cfg, hcfg, -⟩ := h (buildEvent openServer 0 7 unsignedRequest) rfl rfl
  cases hcfg

end WebhookInbox.Api
