import WebhookInbox.Api.Keys

/-!
# Sending a signed payload again

Two accepted requests with one payload and one configuration have the same digest, and their
sources agree ignoring case. The key is built from the source and the signature header as
they were sent, so the keys of the two agree ignoring case, and are equal when both texts are.
-/

namespace WebhookInbox.Api

open NetString

variable {p : Platform}

/-- The text that identifies a request without an explicit key. -/
def signatureText (p : Platform) (req : HttpRequest) : Text :=
  (nonBlankHeader p req "X-Hub-Signature-256".toList).getD (Hex.encode (p.sha256 req.body))

/-- The request carries neither of the two explicit headers. -/
def WithoutExplicitKey (p : Platform) (req : HttpRequest) : Prop :=
  tryGetHeader p req "Idempotency-Key".toList = none ∧
    tryGetHeader p req "X-Idempotency-Key".toList = none

theorem nonBlankHeader_eq_none {req : HttpRequest} {name : Text} (h : tryGetHeader p req name = none) :
    nonBlankHeader p req name = none := by
  rw [nonBlankHeader, h]
  rfl

theorem resolve_eq_signatureText {req : HttpRequest} (h : WithoutExplicitKey p req) :
    resolve p req req.body = signatureText p req := by
  obtain ⟨hidk, hxidk⟩ := h
  unfold resolve signatureText
  rw [nonBlankHeader_eq_none hidk, nonBlankHeader_eq_none hxidk]
  cases nonBlankHeader p req "X-Hub-Signature-256".toList with
  | none => rfl
  | some value => rfl

/-! ## Spellings ignoring case -/

/-- Two spellings of one digest agree ignoring case. -/
theorem map_toUpperInvariant_of_spells {digits : Text} {bytes : Bytes} (h : Spells digits bytes) :
    digits.map p.toUpperInvariant = Hex.encode bytes := by
  rw [← h]
  apply List.map_congr_left
  intro c hc
  apply p.toUpperInvariant_ascii
  have hmem : c.toUpper ∈ Hex.encode bytes := by
    rw [← h]
    exact List.mem_map_of_mem hc
  have hupper := Hex.toNat_lt_of_mem_encode hmem
  rw [Hex.toNat_toUpper] at hupper
  split at hupper
  · omega
  · omega

theorem equalsIgnoreCase_of_isGitHubSignature {text text' : Text} {digest : Bytes}
    (h : IsGitHubSignature p text digest) (h' : IsGitHubSignature p text' digest) :
    equalsIgnoreCase p text text' = true := by
  obtain ⟨beginning, digits, rfl, hbeginning, hdigits⟩ := h
  obtain ⟨beginning', digits', rfl, hbeginning', hdigits'⟩ := h'
  apply equalsIgnoreCase_append (equalsIgnoreCase_of_eq_right hbeginning hbeginning')
  rw [equalsIgnoreCase_iff, map_toUpperInvariant_of_spells hdigits,
    map_toUpperInvariant_of_spells hdigits']

theorem not_blank_of_isGitHubSignature {text : Text} {digest : Bytes}
    (h : IsGitHubSignature p text digest) : isNullOrWhiteSpace (some text) = false := by
  obtain ⟨beginning, digits, rfl, hbeginning, -⟩ := h
  have hstart : startsWithIgnoreCase p (beginning ++ digits) "sha256=".toList = true := by
    unfold startsWithIgnoreCase
    rwa [← length_eq_of_equalsIgnoreCase hbeginning, List.take_left' rfl]
  exact not_blank_of_startsWithIgnoreCase (by decide) (by decide) hstart

/-! ## The two keys -/

theorem equalsIgnoreCase_of_selectConfig {opts : SignatureOptions} {source source' : Text}
    {cfg : SourceSignatureConfig} (h : selectConfig p opts source = some cfg)
    (h' : selectConfig p opts source' = some cfg) : equalsIgnoreCase p source source' = true := by
  have hname := List.find?_some h
  have hname' := List.find?_some h'
  rw [Option.any_eq_true] at hname hname'
  obtain ⟨name, hcfg, hequal⟩ := hname
  obtain ⟨name', hcfg', hequal'⟩ := hname'
  rw [hcfg] at hcfg'
  cases hcfg'
  rw [equalsIgnoreCase_iff] at hequal hequal' ⊢
  rw [← hequal, hequal']

/-- A request accepted by the GitHub provider has its signature for a key. -/
theorem signatureText_of_github {cfg : SourceSignatureConfig} {req : HttpRequest}
    {provider : Text} (hprovider : cfg.provider = some provider)
    (hgithub : provider.map p.toLowerInvariant = "github".toList)
    (h : SignatureChecked p cfg req req.body) :
    ∃ secret, cfg.secret = some secret ∧
      IsGitHubSignature p (signatureText p req) (p.hmacSha256 (Utf8.encode secret) req.body) := by
  obtain ⟨secret, provider', hsecret, -, hprovider', h⟩ := h
  rw [hprovider] at hprovider'
  cases hprovider'
  rcases h with ⟨-, text, htext, hsig⟩ | ⟨hstripe, -⟩
  · have hhub := nonBlankHeader_eq_some_iff.mpr ⟨htext, not_blank_of_isGitHubSignature hsig⟩
    refine ⟨secret, hsecret, ?_⟩
    unfold signatureText
    rw [hhub, Option.getD_some]
    exact hsig
  · rw [hgithub] at hstripe
    exact absurd hstripe (by decide)

theorem equalsIgnoreCase_namespaced {source source' key key' : Text}
    (hsource : equalsIgnoreCase p source source' = true) (hkey : equalsIgnoreCase p key key' = true) :
    equalsIgnoreCase p (namespaced source key) (namespaced source' key') = true :=
  equalsIgnoreCase_append (equalsIgnoreCase_append (equalsIgnoreCase_refl _) hsource)
    (equalsIgnoreCase_append (a := [':']) (b := [':']) (equalsIgnoreCase_refl _) hkey)

/-- **Sending again.** Two accepted requests with one payload and one configuration have equal
keys exactly when their sources and the texts of their signatures are equal. The keys agree
ignoring case for the GitHub provider, and where no signature is sent in its header. -/
theorem inboxKey_of_resent (srv : Server) (cfg : SourceSignatureConfig) (now now' : Time)
    (req req' : InboxRequest)
    (hexplicit : WithoutExplicitKey srv.platform req.http)
    (hexplicit' : WithoutExplicitKey srv.platform req'.http)
    (hbody : req.http.body = req'.http.body)
    (hcfg : selectConfig srv.platform srv.signatures req.source = some cfg)
    (hcfg' : selectConfig srv.platform srv.signatures req'.source = some cfg)
    (hrequire : cfg.require = true)
    (haccept : Accepts srv.platform srv.signatures now req.source req.http req.http.body)
    (haccept' : Accepts srv.platform srv.signatures now' req'.source req'.http req'.http.body) :
    (inboxKey srv req = inboxKey srv req' ↔ req.source = req'.source ∧
        signatureText srv.platform req.http = signatureText srv.platform req'.http) ∧
      ((∃ provider, cfg.provider = some provider ∧
          provider.map srv.platform.toLowerInvariant = "github".toList) →
        equalsIgnoreCase srv.platform (inboxKey srv req) (inboxKey srv req') = true) ∧
      (nonBlankHeader srv.platform req.http "X-Hub-Signature-256".toList = none →
        nonBlankHeader srv.platform req'.http "X-Hub-Signature-256".toList = none →
        equalsIgnoreCase srv.platform (inboxKey srv req) (inboxKey srv req') = true) := by
  have hsource := equalsIgnoreCase_of_selectConfig hcfg hcfg'
  unfold inboxKey
  rw [resolve_eq_signatureText hexplicit, resolve_eq_signatureText hexplicit']
  refine ⟨⟨fun h => ?_, ?_⟩, ?_, ?_⟩
  · exact namespaced_inj (not_overlap_of_length_eq (length_eq_of_equalsIgnoreCase hsource)) h
  · rintro ⟨hs, ht⟩
    rw [hs, ht]
  · rintro ⟨provider, hprovider, hgithub⟩
    obtain ⟨secret, hsecret, hsig⟩ := signatureText_of_github hprovider hgithub
      (signatureChecked_of_accepts hcfg hrequire haccept)
    obtain ⟨secret', hsecret', hsig'⟩ := signatureText_of_github hprovider hgithub
      (signatureChecked_of_accepts hcfg' hrequire haccept')
    rw [hsecret] at hsecret'
    cases hsecret'
    rw [← hbody] at hsig'
    exact equalsIgnoreCase_namespaced hsource (equalsIgnoreCase_of_isGitHubSignature hsig hsig')
  · intro hnone hnone'
    refine equalsIgnoreCase_namespaced hsource ?_
    unfold signatureText
    rw [hnone, hnone', hbody]
    exact equalsIgnoreCase_refl _

def gitHubConfig : SourceSignatureConfig where
  source := some "shop".toList
  provider := some "github".toList
  secret := some "s3cr3t".toList

/-- A server that requires signatures of one GitHub source. The tables have the digests of
`{}`, the second one under the secret. -/
def gitHubServer : Server where
  platform := Platform.ascii
    (tableDigest [([0x7B, 0x7D], "44136fa355b3678a1146ad16f7e8649e94fb4fc21fe77e8310c060f61caaff8a")])
    fun _ =>
      tableDigest [([0x7B, 0x7D], "608b0c406f3dda19702d71a048483b8c331283106d80a208e3cf43dbde505286")]
  signatures := { sources := [gitHubConfig] }

def gitHubRequest (source signature : String) : InboxRequest where
  source := source.toList
  http := { headers := [("X-Hub-Signature-256".toList, [signature.toList])], body := [0x7B, 0x7D] }

def lowerCaseRequest : InboxRequest :=
  gitHubRequest "shop" "sha256=608b0c406f3dda19702d71a048483b8c331283106d80a208e3cf43dbde505286"

def upperCaseRequest : InboxRequest :=
  gitHubRequest "shop" "sha256=608B0C406F3DDA19702D71A048483B8C331283106D80A208E3CF43DBDE505286"

theorem accepts_lowerCaseRequest :
    Accepts gitHubServer.platform gitHubServer.signatures 0 lowerCaseRequest.source
      lowerCaseRequest.http lowerCaseRequest.http.body :=
  ⟨none, by decide⟩

theorem accepts_upperCaseRequest :
    Accepts gitHubServer.platform gitHubServer.signatures 0 upperCaseRequest.source
      upperCaseRequest.http upperCaseRequest.http.body :=
  ⟨none, by decide⟩

theorem inboxKey_of_resent_gitHub :
    equalsIgnoreCase gitHubServer.platform (inboxKey gitHubServer lowerCaseRequest)
      (inboxKey gitHubServer upperCaseRequest) = true :=
  (inboxKey_of_resent gitHubServer gitHubConfig 0 0 lowerCaseRequest upperCaseRequest
    ⟨by decide, by decide⟩ ⟨by decide, by decide⟩ rfl rfl rfl rfl accepts_lowerCaseRequest
    accepts_upperCaseRequest).2.1 ⟨"github".toList, rfl, by decide⟩

/-- The validator reads hexadecimal digits of either case, and the key keeps the case. -/
theorem keys_differ_by_case :
    (WithoutExplicitKey gitHubServer.platform lowerCaseRequest.http ∧
      WithoutExplicitKey gitHubServer.platform upperCaseRequest.http) ∧
    lowerCaseRequest.http.body = upperCaseRequest.http.body ∧
    (selectConfig gitHubServer.platform gitHubServer.signatures lowerCaseRequest.source =
        some gitHubConfig ∧
      selectConfig gitHubServer.platform gitHubServer.signatures upperCaseRequest.source =
        some gitHubConfig ∧ gitHubConfig.require = true) ∧
    (Accepts gitHubServer.platform gitHubServer.signatures 0 lowerCaseRequest.source
        lowerCaseRequest.http lowerCaseRequest.http.body ∧
      Accepts gitHubServer.platform gitHubServer.signatures 0 upperCaseRequest.source
        upperCaseRequest.http upperCaseRequest.http.body) ∧
    inboxKey gitHubServer lowerCaseRequest ≠ inboxKey gitHubServer upperCaseRequest :=
  ⟨⟨⟨by decide, by decide⟩, by decide, by decide⟩, rfl, ⟨rfl, rfl, rfl⟩,
    ⟨accepts_lowerCaseRequest, accepts_upperCaseRequest⟩, by decide⟩

end WebhookInbox.Api
