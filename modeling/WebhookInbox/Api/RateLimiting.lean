import WebhookInbox.Api.Http
import WebhookInbox.Library.FixedWindow

/-!
# The `inbox-per-source` policy

The limit of a request is looked up with one notion of a source and counted with another:
the override is the first one whose source equals the route value ignoring case, while the
partition key holds the route value as it was sent. So every spelling of a source has a
window of its own. `reached_le` says what the policy bounds, for any limiter that keeps
the promise of a fixed window.

What a rejected request is answered with, and the metric it raises, is not part of the
model.
-/

namespace WebhookInbox.Api

open FixedWindow

structure SourceRateLimit where
  source : Option Text := none
  requestsPerMinute : Int := 0
  deriving DecidableEq

structure RateLimitOptions where
  defaultRequestsPerMinute : Int := 60
  sources : List SourceRateLimit := []

variable (p : Platform) (cfg : RateLimitOptions)

/-- The route value of a request, or the name that stands for none. -/
def routeSource (value : Option Text) : Text := value.getD "default".toList

/-- The override of a source. -/
def selectSource (source : Text) : Option SourceRateLimit :=
  cfg.sources.find? fun s => s.source.any fun name => equalsIgnoreCase p name source

def requestsPerMinute (source : Text) : Int :=
  (selectSource p cfg source).elim cfg.defaultRequestsPerMinute SourceRateLimit.requestsPerMinute

def sourcePartition (source : Text) : Partition Text where
  key := "inbox:".toList ++ source
  permitLimit := (max (requestsPerMinute p cfg source) 0).toNat

/-- The policy, on the route value of a request. -/
def inboxPerSource (value : Option Text) : Partition Text := sourcePartition p cfg (routeSource value)

/-- The sources of the requests of one window that reach the handler. -/
def reached (limiter : List (Partition Text) → List Bool) (requests : List (Option Text)) : List Text :=
  ((requests.zip (limiter (requests.map (inboxPerSource p cfg)))).filter Prod.snd).map
    fun x => routeSource x.1

/-- The different spellings of an override among the sources of the requests. -/
def spellings (s : SourceRateLimit) (requests : List (Option Text)) : List Text :=
  ((requests.map routeSource).filter fun source => selectSource p cfg source = some s).dedup

section Bound

variable {p cfg} {limiter : List (Partition Text) → List Bool}

theorem mem_of_mem_reached {requests : List (Option Text)} {source : Text}
    (h : source ∈ reached p cfg limiter requests) : source ∈ requests.map routeSource := by
  obtain ⟨x, hx, rfl⟩ := List.mem_map.mp h
  apply List.mem_map_of_mem
  exact (List.of_mem_zip (List.mem_filter.mp hx).1).1

/-- The requests of one spelling are those of one partition. -/
theorem count_reached (requests : List (Option Text)) (source : Text) :
    (reached p cfg limiter requests).countP (fun t => t = source) =
      Log.taken ((requests.map (inboxPerSource p cfg)).zip
        (limiter (requests.map (inboxPerSource p cfg)))) (sourcePartition p cfg source).key := by
  unfold reached Log.taken
  rw [List.countP_map, List.countP_filter, List.zip_map_left, List.countP_map]
  apply List.countP_congr
  intro x _
  have hkey : (inboxPerSource p cfg x.1).key = (sourcePartition p cfg source).key ↔
      routeSource x.1 = source := List.append_right_inj _
  simp [hkey]

/-- The partition of a key is set up with the limit of its source. -/
theorem permitLimit_of_opener? {requests : List (Option Text)} {leases : List Bool} {source : Text}
    {first : Partition Text} (h : Log.opener? ((requests.map (inboxPerSource p cfg)).zip leases)
      (sourcePartition p cfg source).key = some first) : first = sourcePartition p cfg source := by
  obtain ⟨x, hx, rfl⟩ := Option.map_eq_some_iff.mp h
  have hkey : x.1.key = (sourcePartition p cfg source).key := by simpa using List.find?_some hx
  obtain ⟨value, -, hvalue⟩ := List.mem_map.mp (List.of_mem_zip (List.mem_of_find?_eq_some hx)).1
  rw [← hvalue] at hkey ⊢
  have hsource : routeSource value = source := List.append_cancel_left hkey
  rw [inboxPerSource, hsource]

/-- **One spelling.** -/
theorem count_reached_le (hlimiter : Keeps limiter)
    (requests : List (Option Text)) {s : SourceRateLimit} {source : Text}
    (hs : selectSource p cfg source = some s) :
    ((reached p cfg limiter requests).countP fun t => t = source) ≤ (max s.requestsPerMinute 0).toNat := by
  have hlimit : (sourcePartition p cfg source).permitLimit = (max s.requestsPerMinute 0).toNat := by
    unfold sourcePartition requestsPerMinute
    rw [hs]
    rfl
  rw [count_reached]
  cases hopener : Log.opener? ((requests.map (inboxPerSource p cfg)).zip
      (limiter (requests.map (inboxPerSource p cfg)))) (sourcePartition p cfg source).key with
  | none =>
    rw [Log.taken_eq_zero_of_opener? hopener]
    exact Nat.zero_le _
  | some first =>
    have hle := hlimiter _ _ first hopener
    have hfirst := permitLimit_of_opener? hopener
    subst hfirst
    rwa [hlimit] at hle

end Bound

/-- **What the policy bounds.** In one window, the requests of each spelling of an override
are within its limit, and all its requests together within the limit times the number of
its spellings. -/
theorem reached_le (limiter : List (Partition Text) → List Bool)
    (hlimiter : Keeps limiter) (requests : List (Option Text))
    (s : SourceRateLimit) :
    (∀ source, selectSource p cfg source = some s →
        ((reached p cfg limiter requests).countP fun t => t = source : Int) ≤
          max s.requestsPerMinute 0) ∧
      ((reached p cfg limiter requests).countP fun t => selectSource p cfg t = some s : Int) ≤
        max s.requestsPerMinute 0 * (spellings p cfg s requests).length := by
  have htoNat : ((max s.requestsPerMinute 0).toNat : Int) = max s.requestsPerMinute 0 :=
    Int.toNat_of_nonneg (Int.le_max_right _ _)
  constructor
  · intro source hs
    have hle := count_reached_le hlimiter requests hs
    omega
  · rw [← htoNat]
    have hle := countP_le_mul_length id (B := (max s.requestsPerMinute 0).toNat)
      (P := fun t => decide (selectSource p cfg t = some s)) (l := reached p cfg limiter requests)
      (spellings p cfg s requests) ?_ ?_
    · exact_mod_cast hle
    · intro source hmem hs
      exact List.mem_dedup.mpr (List.mem_filter.mpr ⟨mem_of_mem_reached hmem, hs⟩)
    · intro source hmem
      have hs := (List.mem_filter.mp (List.mem_dedup.mp hmem)).2
      refine Nat.le_trans (List.countP_mono_left fun t _ h => ?_)
        (count_reached_le hlimiter requests (of_decide_eq_true hs))
      exact (Bool.and_eq_true _ _ ▸ h).2

/-- A limit of one request for `shop`. -/
def shopLimit : SourceRateLimit := { source := some "shop".toList, requestsPerMinute := 1 }

def oneForShop : RateLimitOptions := { sources := [shopLimit] }

def shopRequests : List (Option Text) := [some "shop".toList, some "SHOP".toList, some "shop".toList]

def shopPlatform : Platform := .ascii id fun _ => id

theorem reached_le_shop :
    (∀ source, selectSource shopPlatform oneForShop source = some shopLimit →
        ((reached shopPlatform oneForShop counter shopRequests).countP fun t => t = source : Int) ≤ 1) ∧
      ((reached shopPlatform oneForShop counter shopRequests).countP
        fun t => selectSource shopPlatform oneForShop t = some shopLimit : Int) ≤
          1 * (spellings shopPlatform oneForShop shopLimit shopRequests).length :=
  reached_le shopPlatform oneForShop counter counter_keeps shopRequests shopLimit

/-- The second spelling has a window of its own, so two requests pass under a limit of one. -/
theorem limit_exceeded :
    Keeps (counter : List (Partition Text) → List Bool) ∧ shopLimit ∈ oneForShop.sources ∧
      ¬ ((reached shopPlatform oneForShop counter shopRequests).countP
        fun t => selectSource shopPlatform oneForShop t = some shopLimit : Int) ≤
          max shopLimit.requestsPerMinute 0 :=
  ⟨counter_keeps, by decide, by decide⟩

end WebhookInbox.Api
