import Argvio.Oidc.Jwks
import Mathlib.Data.List.Induction

namespace argvio.oidc

/-- The cache after some calls, and the most recent fetch they attempted. -/
structure Lookups where
  cache : JwksCache := {}
  lastFetch : Option Fetch := none

def Lookups.next (cfg : CacheConfig) (s : Lookups) (call : LookupCall) : Lookups where
  cache := (lookupKey cfg s.cache call).cache
  lastFetch := (lookupKey cfg s.cache call).fetched.or s.lastFetch

/-- A sequence of calls on a new verifier. -/
def runLookups (cfg : CacheConfig) (calls : List LookupCall) : Lookups := calls.foldl (Lookups.next cfg) {}

/-- A set that was loaded came from a fetch, and the cached keys are those of the most
recent one unless it failed. -/
structure Lookups.Consistent (s : Lookups) : Prop where
  loaded : s.cache.fetchedAt ≠ 0 → s.lastFetch ≠ none
  keys : ∀ set, s.lastFetch = some (.ok set) → s.cache.keys = parseKeys set

theorem consistent_refreshAndMatch (c : JwksCache) (call : LookupCall) :
    Lookups.Consistent ⟨(refreshAndMatch c call).cache, some call.fetch⟩ := by
  refine ⟨fun _ => Option.some_ne_none _, fun set hset => ?_⟩
  obtain ⟨detail, hfetch, -⟩ | ⟨set', hfetch, hcache, -⟩ := refreshAndMatch_cases c call
  · rw [hfetch] at hset
    cases hset
  · rw [hfetch] at hset
    cases hset
    rw [hcache]

variable {cfg : CacheConfig} {s : Lookups} {call : LookupCall}

theorem Lookups.Consistent.next (h : s.Consistent) (cfg : CacheConfig) (call : LookupCall) :
    (s.next cfg call).Consistent := by
  have hstep := lookupKey_step cfg s.cache call
  unfold Lookups.next
  generalize lookupKey cfg s.cache call = r at hstep ⊢
  cases hstep with
  | hit _ _ | refused _ _ _ => exact h
  | unknown _ _ _ | expired _ =>
    rw [refreshAndMatch_fetched]
    exact consistent_refreshAndMatch _ call

theorem consistent_runLookups (cfg : CacheConfig) (calls : List LookupCall) : (runLookups cfg calls).Consistent := by
  induction calls using List.reverseRecOn with
  | nil => exact ⟨fun h => absurd rfl h, fun set h => by cases h⟩
  | append_singleton calls call ih =>
    unfold runLookups
    rw [List.foldl_concat]
    exact ih.next cfg call

/-- The provider's trouble is not reported as a bad token: a call refuses a token only
on the word of a fetch that succeeded, and says so when there is none to rely on. -/
structure Honest (cfg : CacheConfig) (s : Lookups) (call : LookupCall) : Prop where
  invalid : ∀ kid, (lookupKey cfg s.cache call).result = .error (.invalidToken kid) →
    ∃ set, (s.next cfg call).lastFetch = some (.ok set) ∧ matchKey (parseKeys set) call.kid call.alg = none
  unavailable : ∀ detail, (s.next cfg call).lastFetch = some (.error detail) →
    matchKey (s.next cfg call).cache.keys call.kid call.alg = none →
    ∃ detail', (lookupKey cfg s.cache call).result = .error (.providerUnavailable detail')

/-- The call asks for an unknown key of a fresh set during a cooldown, and the most
recent fetch failed. -/
structure AfterOutage (cfg : CacheConfig) (s : Lookups) (call : LookupCall) : Prop where
  fresh : s.cache.fresh cfg call.now
  unknown : matchKey s.cache.keys call.kid call.alg = none
  cooling : s.cache.coolingDown cfg call.now
  failed : ∃ detail, s.lastFetch = some (.error detail)

/-- A call that makes a fetch answers by its outcome. -/
theorem honest_of_refresh {c : JwksCache} (h : lookupKey cfg s.cache call = refreshAndMatch c call) :
    Honest cfg s call := by
  have hlast : (s.next cfg call).lastFetch = some call.fetch := by
    simp [Lookups.next, h]
  have hcache : (s.next cfg call).cache = (refreshAndMatch c call).cache := by
    simp [Lookups.next, h]
  obtain ⟨detail, hfetch, hkept, hresult⟩ | ⟨set, hfetch, -, hresult⟩ := refreshAndMatch_cases c call
  · refine ⟨fun kid hinvalid => ?_, fun _ _ hnone => ?_⟩
    · rw [h, hresult] at hinvalid
      cases hmatch : matchKey c.keys call.kid call.alg <;> simp [hmatch] at hinvalid
    · rw [hcache, hkept] at hnone
      rw [h, hresult, hnone]
      exact ⟨detail, rfl⟩
  · refine ⟨fun kid hinvalid => ⟨set, by rw [hlast, hfetch], ?_⟩, fun detail hfailed => ?_⟩
    · rw [h, hresult] at hinvalid
      cases hmatch : matchKey (parseKeys set) call.kid call.alg with
      | none => rfl
      | some k => simp [hmatch] at hinvalid
    · rw [hlast, hfetch] at hfailed
      cases hfailed

theorem honest_of_hit {k : JwksKey} (h : lookupKey cfg s.cache call = ⟨s.cache, .ok k, none⟩)
    (hmatch : matchKey s.cache.keys call.kid call.alg = some k) : Honest cfg s call := by
  refine ⟨fun kid hinvalid => ?_, fun _ _ hnone => ?_⟩
  · rw [h] at hinvalid
    cases hinvalid
  · have hcache : (s.next cfg call).cache = s.cache := by
      simp [Lookups.next, h]
    rw [hcache, hmatch] at hnone
    cases hnone

/-- A call that is refused without a fetch is right when the last fetch succeeded. -/
theorem honest_refused_iff (h : lookupKey cfg s.cache call = ⟨s.cache, .error (.invalidToken call.kid), none⟩)
    (hmatch : matchKey s.cache.keys call.kid call.alg = none) (hkeys : s.Consistent) (hloaded : s.cache.fetchedAt ≠ 0) :
    Honest cfg s call ↔ ¬ ∃ detail, s.lastFetch = some (.error detail) := by
  have hlast : (s.next cfg call).lastFetch = s.lastFetch := by
    simp [Lookups.next, h]
  constructor
  · rintro hhonest ⟨detail, hfailed⟩
    obtain ⟨set, hset, -⟩ := hhonest.invalid call.kid (by rw [h])
    rw [hlast, hfailed] at hset
    cases hset
  intro hok
  cases hfetch : s.lastFetch with
  | none => exact absurd hfetch (hkeys.loaded hloaded)
  | some fetch =>
    cases fetch with
    | error detail => exact absurd ⟨detail, hfetch⟩ hok
    | ok set =>
      refine ⟨fun kid _ => ⟨set, by rw [hlast, hfetch], ?_⟩, fun detail hfailed => ?_⟩
      · rw [← hkeys.keys set hfetch]
        exact hmatch
      · rw [hlast, hfetch] at hfailed
        cases hfailed

/-- In every sequence of calls, with any clock, a call misreports the provider's trouble
exactly when it falls into the cooldown of a refresh that failed. -/
theorem lookupKey_honest_iff (cfg : CacheConfig) (calls : List LookupCall) (call : LookupCall) :
    Honest cfg (runLookups cfg calls) call ↔ ¬ AfterOutage cfg (runLookups cfg calls) call := by
  have hkeys := consistent_runLookups cfg calls
  generalize runLookups cfg calls = s at hkeys ⊢
  have hstep := lookupKey_step cfg s.cache call
  generalize hr : lookupKey cfg s.cache call = r at hstep
  cases hstep with
  | hit _ hmatch =>
    refine iff_of_true (honest_of_hit hr hmatch) (fun h => ?_)
    rw [h.unknown] at hmatch
    cases hmatch
  | refused hfresh hmatch hcooling =>
    have hloaded : s.cache.fetchedAt ≠ 0 := (of_decide_eq_true hfresh).1
    rw [honest_refused_iff hr hmatch hkeys hloaded]
    exact not_congr ⟨fun hfailed => ⟨hfresh, hmatch, hcooling, hfailed⟩, fun h => h.failed⟩
  | unknown _ _ hcooling => exact iff_of_true (honest_of_refresh hr) (fun h => hcooling h.cooling)
  | expired hfresh => exact iff_of_true (honest_of_refresh hr) (fun h => hfresh h.fresh)

/-- The clock readings of some calls, in the order in which they are taken. -/
def clockReadings (calls : List LookupCall) : List Int :=
  calls.flatMap (fun call => [call.now, call.fetchNow])

/-- A key set is loaded, and a second later the provider fails while a token with a new
kid asks for a refresh. -/
def outageCalls : List LookupCall :=
  [{ kid := "a", alg := "RS256", now := 63900000000 * 10 ^ 9,
     fetch := .ok [{ kty := "RSA", use := "sig", kid := "a", alg := "RS256", parsed := some (.rsa 1) }],
     fetchNow := 63900000000 * 10 ^ 9 },
   { kid := "b", alg := "RS256", now := 63900000001 * 10 ^ 9, fetch := .error "connection refused",
     fetchNow := 63900000001 * 10 ^ 9 }]

/-- The same token once more, another second later. -/
def retryCall : LookupCall where
  kid := "b"
  alg := "RS256"
  now := 63900000002 * 10 ^ 9
  fetch := .error "connection refused"
  fetchNow := 63900000002 * 10 ^ 9

/-- With an hour of caching and the cooldown of ten seconds, the first request with a new
kid learns of the outage and the second is told that its token is bad. -/
theorem outage_reported_as_invalid_token :
    let cfg : CacheConfig := ⟨3600 * 10 ^ 9, 10 * 10 ^ 9⟩
    let s := runLookups cfg outageCalls
    (clockReadings (outageCalls ++ [retryCall])).Pairwise (· ≤ ·) ∧
      s.lastFetch = some (.error "connection refused") ∧
      (lookupKey cfg s.cache retryCall).fetched = none ∧
      (lookupKey cfg s.cache retryCall).result = .error (.invalidToken "b") ∧ ¬ Honest cfg s retryCall := by
  intro cfg s
  have hlast : s.lastFetch = some (.error "connection refused") := rfl
  have hfetched : (lookupKey cfg s.cache retryCall).fetched = none := rfl
  have hresult : (lookupKey cfg s.cache retryCall).result = .error (.invalidToken "b") := rfl
  refine ⟨by decide, hlast, hfetched, hresult, fun hhonest => ?_⟩
  obtain ⟨set, hset, -⟩ := hhonest.invalid "b" hresult
  simp [Lookups.next, hfetched, hlast] at hset

end argvio.oidc
