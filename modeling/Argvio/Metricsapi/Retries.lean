import Argvio.Metricsapi.Ratios

namespace argvio.storage

/-- The default window in which a run counts as a retry of the failed one before it. -/
def retryWindow : Int := 10 * 60 * second

/-- The longest window a caller may ask for. -/
def maxRetryWindow : Int := 60 * 60 * second

def repeatedFailureCount : Int := 3

/-- One row of the retries query. -/
structure RetryRow where
  commandName : Option String
  failedCount : Int
  retriedCount : Int
  retrySequences : Int
  recoveredSequences : Int
  repeatedFailureInstalls : Int
  longestFailureStreak : Int
  deriving DecidableEq

/-- The retry picture of one command. -/
structure RetryPoint extends RetryRow where
  retryRate : GoFloat := .finite 0
  deriving DecidableEq

def RetryRow.point (r : RetryRow) : RetryPoint :=
  if r.failedCount > 0 then { r with retryRate := .finite (r.retriedCount / r.failedCount) } else { r with }

inductive RetriesError where
  | window (window : Int)
  | query (err : String)
  deriving DecidableEq

/-- `QueryBuilder.Retries`, given what the database answers to its query. -/
def QueryBuilder.retries (query : TenantScope → Filters → Int → Except String (List RetryRow)) (scope : TenantScope)
    (f : Filters) (window : Int) : Except RetriesError (List RetryPoint) :=
  if window ≤ 0 ∨ window > maxRetryWindow then .error (.window window)
  else ((query scope f window).map (List.map RetryRow.point)).mapError .query

end argvio.storage

open gostrings
open argvio.storage

namespace argvio.metricsapi

/-- A request for retries; `windowSeconds` is empty when it is absent. -/
structure RetriesRequest where
  scope : Option TenantScope
  filters : Except String Filters
  windowSeconds : String

structure RetriesResponse where
  windowSeconds : ℚ
  repeatedFailureCount : Int
  commands : List RetryPoint
  deriving DecidableEq

def invalidWindow : HTTPError :=
  ⟨statusBadRequest, "invalid_request",
    "window_seconds must be an integer from 1 to " ++ toString (maxRetryWindow / second)⟩

/-- The window a request asks for. The product with a second is one of `int64`. -/
def parseRetryWindow (v : String) : Except HTTPError Int :=
  if v = "" then .ok retryWindow
  else
    match atoi v with
    | none => .error invalidWindow
    | some n =>
      if n < 1 ∨ wrapInt64 (n * second) > maxRetryWindow then .error invalidWindow
      else .ok (wrapInt64 (n * second))

def retriesResponse (window : Int) (points : List RetryPoint) : RetriesResponse :=
  ⟨window / second, storage.repeatedFailureCount, points⟩

/-- Serves `/v1/metrics/retries`, given what the database answers to its query. -/
def handleRetries (query : TenantScope → Filters → Int → Except String (List RetryRow)) (r : RetriesRequest) :
    Except HTTPError RetriesResponse := do
  let some scope := r.scope | throw ⟨statusUnauthorized, "unauthorized", "missing tenant scope"⟩
  let f ← r.filters.mapError (fun err => ⟨statusBadRequest, "invalid_request", err⟩)
  let window ← parseRetryWindow r.windowSeconds
  let points ← (QueryBuilder.retries query scope f window).mapError
    (fun _ => ⟨statusInternalServerError, "internal_error", "query failed"⟩)
  return retriesResponse window points

/-- What a request for a window of `n` seconds is to be answered with. -/
def answerForWindow (query : TenantScope → Filters → Int → Except String (List RetryRow)) (scope : TenantScope)
    (f : Filters) (n : Int) : Except HTTPError RetriesResponse :=
  if n < 1 ∨ n > 3600 then .error invalidWindow
  else
    match query scope f (n * second) with
    | .error _ => .error ⟨statusInternalServerError, "internal_error", "query failed"⟩
    | .ok rows => .ok (retriesResponse (n * second) (rows.map RetryRow.point))

section Window

variable {r : RetriesRequest} {scope : TenantScope} {f : Filters} {n : Int}

/-- The product with a second is above the longest window, as `int64` has it. -/
theorem maxRetryWindow_lt_wrapInt64_iff :
    maxRetryWindow < wrapInt64 (n * second) ↔
      3600 * 10 ^ 9 < n * 10 ^ 9 % 2 ^ 64 ∧ n * 10 ^ 9 % 2 ^ 64 < 2 ^ 63 := by
  unfold maxRetryWindow second wrapInt64 Int.bmod
  dsimp only
  split <;> omega

theorem handleRetries_eq (query : TenantScope → Filters → Int → Except String (List RetryRow))
    (hscope : r.scope = some scope) (hfilters : r.filters = .ok f) (hparam : r.windowSeconds ≠ "")
    (hn : atoi r.windowSeconds = some n) :
    handleRetries query r =
      if n < 1 ∨ wrapInt64 (n * second) > maxRetryWindow then .error invalidWindow
      else if wrapInt64 (n * second) ≤ 0 then .error ⟨statusInternalServerError, "internal_error", "query failed"⟩
      else
        match query scope f (wrapInt64 (n * second)) with
        | .error _ => .error ⟨statusInternalServerError, "internal_error", "query failed"⟩
        | .ok rows => .ok (retriesResponse (wrapInt64 (n * second)) (rows.map RetryRow.point)) := by
  have hwindow : parseRetryWindow r.windowSeconds =
      if n < 1 ∨ wrapInt64 (n * second) > maxRetryWindow then .error invalidWindow
      else .ok (wrapInt64 (n * second)) := by
    unfold parseRetryWindow
    rw [if_neg hparam, hn]
  by_cases hrefused : n < 1 ∨ wrapInt64 (n * second) > maxRetryWindow
  · unfold handleRetries
    rw [hscope, hfilters, hwindow, if_pos hrefused, if_pos hrefused]
    rfl
  have hcall : handleRetries query r = do
      let points ← (QueryBuilder.retries query scope f (wrapInt64 (n * second))).mapError
        (fun _ => (⟨statusInternalServerError, "internal_error", "query failed"⟩ : HTTPError))
      return retriesResponse (wrapInt64 (n * second)) points := by
    unfold handleRetries
    rw [hscope, hfilters, hwindow, if_neg hrefused]
    rfl
  have hmax : ¬ wrapInt64 (n * second) > maxRetryWindow := fun h => hrefused (.inr h)
  rw [hcall, if_neg hrefused]
  unfold QueryBuilder.retries
  by_cases hpositive : wrapInt64 (n * second) ≤ 0
  · rw [if_pos (.inl hpositive), if_pos hpositive]
    rfl
  · rw [if_neg (not_or.mpr ⟨hpositive, hmax⟩), if_neg hpositive]
    cases query scope f (wrapInt64 (n * second)) <;> rfl

/-- A window of an hour or less is the one asked for. -/
theorem wrapInt64_mul_second (hlow : 1 ≤ n) (hhigh : n ≤ 3600) : wrapInt64 (n * second) = n * second := by
  apply wrapInt64_of_range <;> unfold second <;> omega

/-- Whatever the database answers, a window is refused or used as it was asked for, exactly
when it is at most an hour or its nanoseconds, taken modulo 2^64, still show that it is not. -/
theorem handleRetries_exact_iff (hscope : r.scope = some scope) (hfilters : r.filters = .ok f)
    (hparam : r.windowSeconds ≠ "") (hn : atoi r.windowSeconds = some n) :
    (∀ query, handleRetries query r = answerForWindow query scope f n) ↔
      n ≤ 3600 ∨ 3600 * 10 ^ 9 < n * 10 ^ 9 % 2 ^ 64 ∧ n * 10 ^ 9 % 2 ^ 64 < 2 ^ 63 := by
  rw [← maxRetryWindow_lt_wrapInt64_iff]
  constructor
  · intro hexact
    by_contra hnot
    obtain ⟨hlong, hsmall⟩ := not_or.mp hnot
    -- A database without rows tells a refusal from anything else.
    have hanswer := hexact (fun _ _ _ => .ok [])
    have haccepted : ¬ (n < 1 ∨ wrapInt64 (n * second) > maxRetryWindow) := by omega
    have hrefused : n < 1 ∨ n > 3600 := by omega
    rw [handleRetries_eq _ hscope hfilters hparam hn, if_neg haccepted] at hanswer
    unfold answerForWindow at hanswer
    rw [if_pos hrefused] at hanswer
    split at hanswer
    · exact absurd (Except.error.inj hanswer) (by decide)
    · cases hanswer
  · rintro hcond query
    rw [handleRetries_eq query hscope hfilters hparam hn]
    unfold answerForWindow
    by_cases hshort : n < 1
    · rw [if_pos (.inl hshort), if_pos (.inl hshort)]
    by_cases hhigh : n ≤ 3600
    · have hwrap := wrapInt64_mul_second (by omega) hhigh
      have hmax : n * second ≤ maxRetryWindow := by
        unfold maxRetryWindow second
        omega
      have hpositive : ¬ n * second ≤ 0 := by
        unfold second
        omega
      have haccepted : ¬ (n < 1 ∨ n * second > maxRetryWindow) := by omega
      have hasked : ¬ (n < 1 ∨ n > 3600) := by omega
      rw [hwrap, if_neg haccepted, if_neg hpositive, if_neg hasked]
    · rw [if_pos (.inr (hcond.resolve_left hhigh)), if_pos (.inr (not_le.mp hhigh))]

end Window

/-- A scope for the requests below. -/
def sampleScope : TenantScope := ⟨1, by decide⟩

/-- With a database without rows: one window is used as one second, another leads to
status 500. -/
theorem handleRetries_wraps_window :
    let request (v : String) : RetriesRequest := ⟨some sampleScope, .ok { from_ := 0, to_ := 0 }, v⟩
    atoi "36028797018963969" = some 36028797018963969 ∧
      handleRetries (fun _ _ window => if window = second then .ok [] else .error "") (request "36028797018963969") =
        .ok ⟨1, 3, []⟩ ∧
      atoi "9223372037" = some 9223372037 ∧
      handleRetries (fun _ _ _ => .ok []) (request "9223372037") =
        .error ⟨statusInternalServerError, "internal_error", "query failed"⟩ := by
  decide +kernel

theorem handleRetries_exact_half_hour :
    atoi "1800" = some 1800 ∧
      ∀ query, handleRetries query ⟨some sampleScope, .ok { from_ := 0, to_ := 0 }, "1800"⟩ =
        answerForWindow query sampleScope { from_ := 0, to_ := 0 } 1800 := by
  have hn : atoi "1800" = some 1800 := by decide
  exact ⟨hn, (handleRetries_exact_iff rfl rfl (by decide) hn).mpr (.inl (by decide))⟩

end argvio.metricsapi
