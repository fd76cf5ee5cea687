import Argvio.Oidc.Jwks

open Function

namespace argvio.oidc

/-- What a call decides under the lock: its answer, or that it needs a refresh, and then
whether the key set it saw was fresh. -/
inductive Decision where
  | answer (result : Except LookupError JwksKey)
  | refresh (fresh : Bool)

/-- The first locked section of `lookupKey`. -/
def JwksCache.decide (c : JwksCache) (cfg : CacheConfig) (kid alg : String) (now : Int) : JwksCache × Decision :=
  if c.fresh cfg now then
    match matchKey c.keys kid alg with
    | some k => (c, .answer (.ok k))
    | none =>
      if c.coolingDown cfg now then (c, .answer (.error (.invalidToken kid)))
      else ({ c with lastUnknownRefresh := now }, .refresh true)
  else (c, .refresh false)

/-- The end of `lookupKey`, given the result of the refresh and the keys that are cached then. -/
def answerFrom (cached : List JwksKey) (kid alg : String) :
    Except LookupError (List JwksKey) → Except LookupError JwksKey
  | .error err =>
    match matchKey cached kid alg with
    | some k => .ok k
    | none => .error err
  | .ok keys =>
    match matchKey keys kid alg with
    | some k => .ok k
    | none => .error (.invalidToken kid)

/-- By itself, a call is its locked section, a fetch of its own and the answer from it. -/
theorem lookupKey_eq_decide (cfg : CacheConfig) (c : JwksCache) (call : LookupCall) :
    lookupKey cfg c call =
      match c.decide cfg call.kid call.alg call.now with
      | (c, .answer result) => ⟨c, result, none⟩
      | (c, .refresh _) =>
        let refreshed := refreshJWKS c call.fetch call.fetchNow
        ⟨refreshed.1, answerFrom refreshed.1.keys call.kid call.alg refreshed.2, some call.fetch⟩ := by
  have hrefresh (c : JwksCache) : refreshAndMatch c call =
      ⟨(refreshJWKS c call.fetch call.fetchNow).1,
        answerFrom (refreshJWKS c call.fetch call.fetchNow).1.keys call.kid call.alg
          (refreshJWKS c call.fetch call.fetchNow).2, some call.fetch⟩ := by
    unfold refreshAndMatch refreshJWKS answerFrom
    cases call.fetch with
    | error detail => cases hmatch : matchKey c.keys call.kid call.alg <;> simp [hmatch]
    | ok set => cases hmatch : matchKey (parseKeys set) call.kid call.alg <;> simp [hmatch]
  unfold lookupKey JwksCache.decide
  by_cases hfresh : c.fresh cfg call.now = true
  · rw [if_pos hfresh, if_pos hfresh]
    cases matchKey c.keys call.kid call.alg with
    | some k => rfl
    | none =>
      dsimp only
      by_cases hcooling : c.coolingDown cfg call.now = true
      · rw [if_pos hcooling, if_pos hcooling]
      · rw [if_neg hcooling, if_neg hcooling, hrefresh]
  · rw [if_neg hfresh, if_neg hfresh, hrefresh]

/-- How far a call is, with its reading of the clock. A call that asked for a fetch keeps
its number and whether it had seen a fresh key set. -/
inductive CallPhase where
  | idle
  | read (now : Int)
  | asking (now : Int) (fresh : Bool)
  | waiting (now : Int) (fresh : Bool) (fetch : Nat)
  | answered (now : Int) (result : Except LookupError JwksKey)
  | served (now : Int) (fresh : Bool) (fetch : Nat) (result : Except LookupError JwksKey)

/-- The calls of a verifier. Fetches are numbered as they start; `flight` is the one that
others may join, and `results` what fetches have returned. -/
structure KeyFlights (ι : Type) where
  cache : JwksCache
  started : Nat
  flight : Option Nat
  results : Nat → Option (Except LookupError (List JwksKey))
  phase : ι → CallPhase

section Calls

variable {ι : Type} [DecidableEq ι] (cfg : CacheConfig) (kid alg : ι → String)

/-- One step of a call, or of the fetch in flight. Readings of the clock and the outcomes of
fetches are arbitrary. The function of a flight writes the cache before the flight is over,
and until then calls still join it. -/
inductive FlightStep : KeyFlights ι → KeyFlights ι → Prop where
  | read {s : KeyFlights ι} {i : ι} (now : Int) (hphase : s.phase i = .idle) :
      FlightStep s { s with phase := update s.phase i (.read now) }
  | answer {s : KeyFlights ι} {i : ι} {now : Int} {c : JwksCache} {result : Except LookupError JwksKey}
      (hphase : s.phase i = .read now) (hdecide : s.cache.decide cfg (kid i) (alg i) now = (c, .answer result)) :
      FlightStep s { s with cache := c, phase := update s.phase i (.answered now result) }
  | ask {s : KeyFlights ι} {i : ι} {now : Int} {c : JwksCache} {fresh : Bool}
      (hphase : s.phase i = .read now) (hdecide : s.cache.decide cfg (kid i) (alg i) now = (c, .refresh fresh)) :
      FlightStep s { s with cache := c, phase := update s.phase i (.asking now fresh) }
  | lead {s : KeyFlights ι} {i : ι} {now : Int} {fresh : Bool} (hphase : s.phase i = .asking now fresh)
      (hflight : s.flight = none) :
      FlightStep s
        { s with
          started := s.started + 1
          flight := some s.started
          phase := update s.phase i (.waiting now fresh s.started) }
  | join {s : KeyFlights ι} {i : ι} {now : Int} {fresh : Bool} {f : Nat} (hphase : s.phase i = .asking now fresh)
      (hflight : s.flight = some f) :
      FlightStep s { s with phase := update s.phase i (.waiting now fresh f) }
  | land {s : KeyFlights ι} {f : Nat} (fetch : Fetch) (now : Int) (hflight : s.flight = some f)
      (hresult : s.results f = none) :
      FlightStep s
        { s with
          cache := (refreshJWKS s.cache fetch now).1
          results := update s.results f (some (refreshJWKS s.cache fetch now).2) }
  | close {s : KeyFlights ι} {f : Nat} (hflight : s.flight = some f) (hresult : (s.results f).isSome = true) :
      FlightStep s { s with flight := none }
  | serve {s : KeyFlights ι} {i : ι} {now : Int} {fresh : Bool} {f : Nat} {r : Except LookupError (List JwksKey)}
      (hphase : s.phase i = .waiting now fresh f) (hresult : s.results f = some r) :
      FlightStep s
        { s with
          phase := update s.phase i
            (.served now fresh f (answerFrom s.cache.keys (kid i) (alg i) r)) }

def FlightsReach : KeyFlights ι → KeyFlights ι → Prop := Relation.ReflTransGen (FlightStep cfg kid alg)

end Calls

/-- Before any call, with whatever is cached. -/
def KeyFlights.start {ι : Type} (c : JwksCache) : KeyFlights ι where
  cache := c
  started := 0
  flight := none
  results := fun _ => none
  phase := fun _ => .idle

/-- The call asked for this fetch, having seen a fresh key set. -/
def CallPhase.AskedFresh (p : CallPhase) (now : Int) (fetch : Nat) : Prop :=
  p = .waiting now true fetch ∨ ∃ result, p = .served now true fetch result

/-- The reading of a call that was granted a refresh for an unknown kid. -/
def CallPhase.granted : CallPhase → Option Int
  | .asking now true => some now
  | .waiting now true _ => some now
  | .served now true _ _ => some now
  | _ => none

theorem CallPhase.AskedFresh.granted {p : CallPhase} {now : Int} {fetch : Nat} (h : p.AskedFresh now fetch) :
    p.granted = some now := by
  rcases h with rfl | ⟨result, rfl⟩ <;> rfl

/-- The locked section leaves the cache as it is, unless it grants a refresh. -/
theorem decide_cases {cfg : CacheConfig} {c c' : JwksCache} {kid alg : String} {now : Int} {d : Decision}
    (h : c.decide cfg kid alg now = (c', d)) :
    c' = c ∧ (∀ fresh, d = .refresh fresh → fresh = false) ∨
      c' = { c with lastUnknownRefresh := now } ∧ d = .refresh true ∧ c.coolingDown cfg now = false := by
  unfold JwksCache.decide at h
  split at h
  · split at h
    · cases h
      exact .inl ⟨rfl, fun _ hd => nomatch hd⟩
    split at h
    · cases h
      exact .inl ⟨rfl, fun _ hd => nomatch hd⟩
    · rename_i hcooling
      cases h
      exact .inr ⟨rfl, rfl, by simpa using hcooling⟩
  · cases h
    refine .inl ⟨rfl, fun fresh hd => ?_⟩
    cases hd
    rfl

/-- The last reading granted is the latest, and all are a cooldown apart. -/
structure Spaced {ι : Type} (cfg : CacheConfig) (s : KeyFlights ι) : Prop where
  last : ∀ i now, (s.phase i).granted = some now → now ≤ s.cache.lastUnknownRefresh
  apart : ∀ i j now now', i ≠ j → (s.phase i).granted = some now → (s.phase j).granted = some now' →
    cfg.unknownKIDCooldown ≤ |now - now'|

theorem spaced_start {ι : Type} (cfg : CacheConfig) (c : JwksCache) : Spaced cfg (KeyFlights.start c : KeyFlights ι) where
  last := by
    intro i now h
    cases h
  apart := by
    intro i j now now' _ h
    cases h

section Spacing

variable {ι : Type} [DecidableEq ι] {cfg : CacheConfig} {kid alg : ι → String} {s s' : KeyFlights ι}

theorem granted_update {i : ι} {p : CallPhase} (h : p.granted = (s.phase i).granted) (j : ι) :
    (update s.phase i p j).granted = (s.phase j).granted := by
  by_cases hij : j = i
  · subst hij
    rw [update_self, h]
  · rw [update_of_ne hij]

theorem refreshJWKS_lastUnknownRefresh (c : JwksCache) (fetch : Fetch) (now : Int) :
    (refreshJWKS c fetch now).1.lastUnknownRefresh = c.lastUnknownRefresh := by
  cases fetch <;> rfl

/-- A step grants a refresh to one call whose reading is not within the cooldown of the last
one granted, or it grants none and forgets none. -/
theorem FlightStep.cases_granted (h : FlightStep cfg kid alg s s') :
    (s'.cache.lastUnknownRefresh = s.cache.lastUnknownRefresh ∧ ∀ j, (s'.phase j).granted = (s.phase j).granted) ∨
      ∃ i now, s.cache.coolingDown cfg now = false ∧ s'.cache.lastUnknownRefresh = now ∧
        (s'.phase i).granted = some now ∧ ∀ j, j ≠ i → (s'.phase j).granted = (s.phase j).granted := by
  cases h with
  | @read i now hphase => exact .inl ⟨rfl, granted_update (by rw [hphase]; rfl)⟩
  | @answer i now c result hphase hdecide =>
    rcases decide_cases hdecide with ⟨rfl, -⟩ | ⟨-, hrefresh, -⟩
    · exact .inl ⟨rfl, granted_update (by rw [hphase]; rfl)⟩
    · cases hrefresh
  | @ask i now c fresh hphase hdecide =>
    rcases decide_cases hdecide with ⟨rfl, hstale⟩ | ⟨rfl, hfresh, hcooling⟩
    · rw [hstale fresh rfl]
      exact .inl ⟨rfl, granted_update (by rw [hphase]; rfl)⟩
    cases hfresh
    refine .inr ⟨i, now, hcooling, rfl, ?_, fun j hj => ?_⟩
    · dsimp only
      rw [update_self]
      rfl
    · dsimp only
      rw [update_of_ne hj]
  | @lead i now fresh hphase hflight | @join i now fresh f hphase hflight | @serve i now fresh f r hphase hresult =>
    exact .inl ⟨rfl, granted_update (by rw [hphase]; cases fresh <;> rfl)⟩
  | land fetch now hflight hresult =>
    exact .inl ⟨refreshJWKS_lastUnknownRefresh s.cache fetch now, fun _ => rfl⟩
  | close hflight hresult => exact .inl ⟨rfl, fun _ => rfl⟩

theorem cooldown_le_of_not_coolingDown {c : JwksCache} {now : Int} (hpos : 0 < cfg.unknownKIDCooldown)
    (h : c.coolingDown cfg now = false) : cfg.unknownKIDCooldown ≤ now - c.lastUnknownRefresh := by
  have hsub : cfg.unknownKIDCooldown ≤ subTime now c.lastUnknownRefresh := by
    simpa [JwksCache.coolingDown] using h
  exact hsub.trans (subTime_le_of_pos (lt_of_lt_of_le hpos hsub))

theorem Spaced.step (h : Spaced cfg s) (hpos : 0 < cfg.unknownKIDCooldown) (hstep : FlightStep cfg kid alg s s') :
    Spaced cfg s' := by
  rcases hstep.cases_granted with ⟨hlast, hsame⟩ | ⟨i, now, hcooling, hlast, hgranted, hothers⟩
  · refine ⟨fun j n hj => ?_, fun j k n n' hjk hj hk => ?_⟩
    · rw [hsame] at hj
      rw [hlast]
      exact h.last j n hj
    · rw [hsame] at hj hk
      exact h.apart j k n n' hjk hj hk
  · -- The readings granted before are at most the last one, which is a cooldown before this one.
    have hgap := cooldown_le_of_not_coolingDown hpos hcooling
    have hbefore (j : ι) (n : Int) (hji : j ≠ i) (hj : (s'.phase j).granted = some n) :
        n + cfg.unknownKIDCooldown ≤ now := by
      rw [hothers j hji] at hj
      have hle := h.last j n hj
      omega
    have hself (n : Int) (hi : (s'.phase i).granted = some n) : n = now := by
      rw [hgranted] at hi
      exact (Option.some.inj hi).symm
    refine ⟨fun j n hj => ?_, fun j k n n' hjk hj hk => ?_⟩
    · rw [hlast]
      by_cases hji : j = i
      · subst hji
        exact (hself n hj).le
      · have hn := hbefore j n hji hj
        omega
    · by_cases hji : j = i
      · subst hji
        have hn := hself n hj
        have hn' := hbefore k n' hjk.symm hk
        have hdist := le_abs_self (n - n')
        omega
      have hn := hbefore j n hji hj
      by_cases hki : k = i
      · subst hki
        have hn' := hself n' hk
        have hdist := neg_le_abs (n - n')
        omega
      · rw [hothers j hji] at hj
        rw [hothers k hki] at hk
        exact h.apart j k n n' hjk hj hk

theorem Spaced.reach (h : Spaced cfg s) (hpos : 0 < cfg.unknownKIDCooldown) (hrun : FlightsReach cfg kid alg s s') :
    Spaced cfg s' := by
  induction hrun with
  | refl => exact h
  | tail _ hstep ih => exact ih.step hpos hstep

/-- In every interleaving of calls, two fetches that calls with a fresh key set asked for were
asked for at least a cooldown apart. -/
theorem unknown_kid_fetches_spaced {c : JwksCache} (hrun : FlightsReach cfg kid alg (.start c) s) {i j : ι}
    {now now' : Int} {fetch fetch' : Nat} (hi : (s.phase i).AskedFresh now fetch)
    (hj : (s.phase j).AskedFresh now' fetch') (hne : fetch ≠ fetch') : cfg.unknownKIDCooldown ≤ |now - now'| := by
  have hij : i ≠ j := by
    rintro rfl
    rcases hi with hi | ⟨result, hi⟩ <;> rcases hj with hj | ⟨result', hj⟩ <;> rw [hi] at hj <;> cases hj <;>
      exact hne rfl
  by_cases hpos : 0 < cfg.unknownKIDCooldown
  · exact ((spaced_start cfg c).reach hpos hrun).apart i j now now' hij hi.granted hj.granted
  · exact (not_lt.mp hpos).trans (abs_nonneg _)

end Spacing

/-- Two calls for unknown kids, ten nanoseconds and thus a cooldown apart, each with a fetch of
its own. -/
theorem unknown_kid_fetches_spaced_twice :
    ∃ s : KeyFlights Bool,
      FlightsReach ⟨1000, 10⟩ (fun _ => "k") (fun _ => "RS256") (.start { fetchedAt := 1 }) s ∧
        (s.phase false).AskedFresh 100 0 ∧ (s.phase true).AskedFresh 110 1 ∧ (10 : Int) ≤ |(100 : Int) - 110| := by
  let cfg : CacheConfig := ⟨1000, 10⟩
  let s₀ : KeyFlights Bool := .start { fetchedAt := 1 }
  let s₁ : KeyFlights Bool := { s₀ with phase := update s₀.phase false (.read 100) }
  let s₂ : KeyFlights Bool :=
    { s₁ with
      cache := ⟨[], 1, 100⟩
      phase := update s₁.phase false (.asking 100 true) }
  let s₃ : KeyFlights Bool :=
    { s₂ with
      started := 1
      flight := some 0
      phase := update s₂.phase false (.waiting 100 true 0) }
  let s₄ : KeyFlights Bool :=
    { s₃ with results := update s₃.results 0 (some (.error (.providerUnavailable "timeout"))) }
  let s₅ : KeyFlights Bool := { s₄ with flight := none }
  let s₆ : KeyFlights Bool := { s₅ with phase := update s₅.phase true (.read 110) }
  let s₇ : KeyFlights Bool :=
    { s₆ with
      cache := ⟨[], 1, 110⟩
      phase := update s₆.phase true (.asking 110 true) }
  let s₈ : KeyFlights Bool :=
    { s₇ with
      started := 2
      flight := some 1
      phase := update s₇.phase true (.waiting 110 true 1) }
  have h₁ : FlightStep cfg (fun _ => "k") (fun _ => "RS256") s₀ s₁ := .read 100 rfl
  have h₂ : FlightStep cfg (fun _ => "k") (fun _ => "RS256") s₁ s₂ := .ask rfl rfl
  have h₃ : FlightStep cfg (fun _ => "k") (fun _ => "RS256") s₂ s₃ := .lead rfl rfl
  have h₄ : FlightStep cfg (fun _ => "k") (fun _ => "RS256") s₃ s₄ := .land (.error "timeout") 105 rfl rfl
  have h₅ : FlightStep cfg (fun _ => "k") (fun _ => "RS256") s₄ s₅ := .close rfl rfl
  have h₆ : FlightStep cfg (fun _ => "k") (fun _ => "RS256") s₅ s₆ := .read 110 rfl
  have h₇ : FlightStep cfg (fun _ => "k") (fun _ => "RS256") s₆ s₇ := .ask rfl rfl
  have h₈ : FlightStep cfg (fun _ => "k") (fun _ => "RS256") s₇ s₈ := .lead rfl rfl
  have hrun := (((((((Relation.ReflTransGen.single h₁).tail h₂).tail h₃).tail h₄).tail h₅).tail h₆).tail h₇).tail h₈
  have hfalse : (s₈.phase false).AskedFresh 100 0 := .inl rfl
  have htrue : (s₈.phase true).AskedFresh 110 1 := .inl rfl
  exact ⟨s₈, hrun, hfalse, htrue, unknown_kid_fetches_spaced hrun hfalse htrue (by decide)⟩

end argvio.oidc
