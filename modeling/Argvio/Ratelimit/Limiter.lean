import Argvio.Authn.Verifier

open argvio.authn argvio.tenant List

namespace argvio.ratelimit

/-- What the limiter builds on: the token buckets of `x/time/rate`, which a rate and
a burst govern, and the conversion of a float no `int` holds, which Go leaves open. -/
structure Platform (τ : Type) where
  newTokens : GoFloat → Int → τ
  allowN : GoFloat → Int → τ → Int → Int → Bool × τ
  outOfRange : GoFloat → Int

/-- The conversion `int(f)`, which drops the fraction. -/
def Platform.toInt {τ : Type} (sys : Platform τ) : GoFloat → Int
  | .finite q =>
    let n := q.num.tdiv q.den
    if -2 ^ 63 ≤ n ∧ n < 2 ^ 63 then n else sys.outOfRange (.finite q)
  | f => sys.outOfRange f

structure Defaults where
  requestsPerSecond : GoFloat
  bytesPerSecond : GoFloat
  burst : Int
  deriving DecidableEq

def Defaults.zero (d : Defaults) : Bool :=
  d.requestsPerSecond.eq (.finite 0) && d.bytesPerSecond.eq (.finite 0) && d.burst = 0

/-- A `rate.Limiter`. -/
structure RateLimiter (τ : Type) where
  limit : GoFloat
  burst : Int
  tokens : τ

structure Bucket (τ : Type) where
  requests : RateLimiter τ
  bytes : RateLimiter τ

structure BucketKey where
  tenantID : UUID
  method : Method
  deriving DecidableEq

structure Limiter (τ : Type) where
  defaults : Defaults
  perMethod : GoMap Method Defaults
  buckets : GoMap BucketKey (Bucket τ)

/-- An identity whose tenant is chosen, as every caller of the limiter has it. -/
structure TenantIdentity where
  id : Identity
  resolved : Resolved
  hresolved : id.resolved = some resolved

def TenantIdentity.key (id : TenantIdentity) : BucketKey := ⟨id.resolved.tenant.id, id.id.method⟩

/-- A call of `Allow`, with the times at which it asks its two buckets. -/
structure Call where
  id : TenantIdentity
  nBytes : Int
  requestsAt : Int
  bytesAt : Int

section Allow

variable {τ : Type} (sys : Platform τ)

def RateLimiter.new (limit : GoFloat) (burst : Int) : RateLimiter τ where
  limit := limit
  burst := burst
  tokens := sys.newTokens limit burst

def RateLimiter.allowN (l : RateLimiter τ) (now n : Int) : Bool × RateLimiter τ :=
  let (ok, tokens) := sys.allowN l.limit l.burst l.tokens now n
  (ok, { l with tokens := tokens })

def Limiter.new (defaults : Defaults) (perMethod : GoMap Method Defaults) : Limiter τ where
  defaults := defaults
  perMethod := perMethod
  buckets := ∅

/-- The limits an identity is to have: each override of its tenant that is set, else
the default for its method, when there is one, or for all. -/
def settings (defaults : Defaults) (perMethod : GoMap Method Defaults) (id : TenantIdentity) : Defaults :=
  let defaults := match perMethod.lookup id.id.method with
    | some d => if d.zero then defaults else d
    | none => defaults
  let cfg := id.resolved.config
  { requestsPerSecond := cfg.rateLimitRequestsPerSec.getD defaults.requestsPerSecond
    bytesPerSecond := cfg.rateLimitBytesPerSec.getD defaults.bytesPerSecond
    burst := cfg.rateLimitBurst.getD defaults.burst }

/-- There is no separate burst for bytes. -/
def byteBurst (bps : GoFloat) : Int := if sys.toInt bps ≤ 0 then 1 else sys.toInt bps

def Bucket.new (s : Defaults) : Bucket τ where
  requests := .new sys s.requestsPerSecond s.burst
  bytes := .new sys s.bytesPerSecond (byteBurst sys s.bytesPerSecond)

/-- The bucket that decides a call, and the limiter with it. -/
def Limiter.bucketFor (l : Limiter τ) (id : TenantIdentity) : Bucket τ × Limiter τ :=
  match l.buckets.lookup id.key with
  | some b => (b, l)
  | none =>
    let b := Bucket.new sys (settings l.defaults l.perMethod id)
    (b, { l with buckets := l.buckets.insert id.key b })

/-- `Allow`. The buckets are shared, so what is taken from them stays taken. -/
def Limiter.allow (l : Limiter τ) (c : Call) : Bool × Limiter τ :=
  let (b, l) := l.bucketFor sys c.id
  let (ok, requests) := b.requests.allowN sys c.requestsAt 1
  if ok = false then (false, { l with buckets := l.buckets.insert c.id.key { b with requests := requests } })
  else
    let (ok, bytes) := b.bytes.allowN sys c.bytesAt c.nBytes
    (ok, { l with buckets := l.buckets.insert c.id.key { requests := requests, bytes := bytes } })

/-- The limiter after some calls. -/
def afterCalls (defaults : Defaults) (perMethod : GoMap Method Defaults) (calls : List Call) : Limiter τ :=
  calls.foldl (fun l c => (l.allow sys c).2) (.new defaults perMethod)

/-- The buckets have the rates and bursts of some limits. -/
structure Bucket.HasSettings (b : Bucket τ) (s : Defaults) : Prop where
  requests : b.requests.limit = s.requestsPerSecond
  requests_burst : b.requests.burst = s.burst
  bytes : b.bytes.limit = s.bytesPerSecond
  bytes_burst : b.bytes.burst = byteBurst sys s.bytesPerSecond

end Allow

section Runs

variable {τ : Type} {sys : Platform τ}

theorem hasSettings_new (s : Defaults) : (Bucket.new sys s).HasSettings sys s := ⟨rfl, rfl, rfl, rfl⟩

theorem Bucket.HasSettings.unique {b : Bucket τ} {s s' : Defaults} (h : b.HasSettings sys s)
    (h' : b.HasSettings sys s') : s = s' := by
  obtain ⟨rps, bps, burst⟩ := s
  obtain ⟨rps', bps', burst'⟩ := s'
  have hrps : rps = rps' := h.requests.symm.trans h'.requests
  have hbps : bps = bps' := h.bytes.symm.trans h'.bytes
  have hburst : burst = burst' := h.requests_burst.symm.trans h'.requests_burst
  rw [hrps, hbps, hburst]

/-- A call spends tokens, and leaves every rate and burst as it found it. -/
theorem Limiter.allow_snd (sys : Platform τ) (l : Limiter τ) (c : Call) :
    ∃ b, (l.allow sys c).2 = { (l.bucketFor sys c.id).2 with
        buckets := (l.bucketFor sys c.id).2.buckets.insert c.id.key b } ∧
      ∀ s, (l.bucketFor sys c.id).1.HasSettings sys s → b.HasSettings sys s := by
  unfold Limiter.allow
  dsimp only
  split <;> exact ⟨_, rfl, fun s h => ⟨h.requests, h.requests_burst, h.bytes, h.bytes_burst⟩⟩

variable {defaults : Defaults} {perMethod : GoMap Method Defaults}

/-- The first of some calls with a key. -/
def firstCall (calls : List Call) (key : BucketKey) : Option Call := calls.find? (fun c => c.id.key = key)

/-- Each bucket has the settings of the call that made it, the first with its key. -/
structure Limiter.Remembers (sys : Platform τ) (defaults : Defaults) (perMethod : GoMap Method Defaults)
    (l : Limiter τ) (calls : List Call) : Prop where
  defaults_eq : l.defaults = defaults
  perMethod_eq : l.perMethod = perMethod
  missing : ∀ key, firstCall calls key = none → l.buckets.lookup key = none
  found : ∀ key c, firstCall calls key = some c →
    ∃ b, l.buckets.lookup key = some b ∧ b.HasSettings sys (settings defaults perMethod c.id)

theorem mem_of_firstCall {calls : List Call} {key : BucketKey} {c : Call} (h : firstCall calls key = some c) :
    c ∈ calls ∧ c.id.key = key := by
  have hkey := find?_some h
  exact ⟨mem_of_find?_eq_some h, of_decide_eq_true hkey⟩

theorem firstCall_concat (calls : List Call) (c : Call) (key : BucketKey) :
    firstCall (calls ++ [c]) key = (firstCall calls key).or (if c.id.key = key then some c else none) := by
  unfold firstCall
  rw [find?_append]
  congr 1
  by_cases hkey : c.id.key = key <;> simp [hkey]

section Step

variable {l : Limiter τ} {calls : List Call} (h : l.Remembers sys defaults perMethod calls)
include h

/-- The settings of the bucket that decides the next call. -/
theorem Limiter.Remembers.bucketFor (id : TenantIdentity) :
    (l.bucketFor sys id).1.HasSettings sys
      (settings defaults perMethod (((firstCall calls id.key).map Call.id).getD id)) := by
  unfold Limiter.bucketFor
  cases hfirst : firstCall calls id.key with
  | none =>
    rw [h.missing id.key hfirst, h.defaults_eq, h.perMethod_eq]
    exact hasSettings_new _
  | some first =>
    obtain ⟨b, hb, hsettings⟩ := h.found id.key first hfirst
    rw [hb]
    exact hsettings

theorem Limiter.Remembers.bucketFor_snd (id : TenantIdentity) :
    (l.bucketFor sys id).2.defaults = defaults ∧ (l.bucketFor sys id).2.perMethod = perMethod ∧
      ∀ key, key ≠ id.key → (l.bucketFor sys id).2.buckets.lookup key = l.buckets.lookup key := by
  unfold Limiter.bucketFor
  split
  · exact ⟨h.defaults_eq, h.perMethod_eq, fun _ _ => rfl⟩
  · exact ⟨h.defaults_eq, h.perMethod_eq, fun _ hkey => AList.lookup_insert_ne hkey⟩

theorem Limiter.Remembers.allow (c : Call) :
    (l.allow sys c).2.Remembers sys defaults perMethod (calls ++ [c]) := by
  obtain ⟨b, hafter, hkept⟩ := Limiter.allow_snd sys l c
  obtain ⟨hdefaults, hperMethod, hothers⟩ := h.bucketFor_snd c.id
  have hsettings := hkept _ (h.bucketFor c.id)
  rw [hafter]
  refine ⟨hdefaults, hperMethod, ?_, ?_⟩
  · intro key hnone
    rw [firstCall_concat, Option.or_eq_none_iff] at hnone
    have hkey : key ≠ c.id.key := by
      rintro rfl
      simp at hnone
    exact (AList.lookup_insert_ne hkey).trans ((hothers key hkey).trans (h.missing key hnone.1))
  · intro key first hfirst
    rw [firstCall_concat] at hfirst
    by_cases hkey : key = c.id.key
    · -- The call's own bucket: made by an earlier call, or by this one.
      subst hkey
      refine ⟨b, AList.lookup_insert _, ?_⟩
      cases hearlier : firstCall calls c.id.key with
      | none =>
        rw [hearlier] at hfirst hsettings
        simp only [Option.none_or, if_true, Option.some.injEq] at hfirst
        subst hfirst
        exact hsettings
      | some earlier =>
        rw [hearlier] at hfirst hsettings
        cases hfirst
        exact hsettings
    · have hne : ¬ c.id.key = key := fun heq => hkey heq.symm
      rw [if_neg hne, Option.or_none] at hfirst
      obtain ⟨b', hb', hsettings'⟩ := h.found key first hfirst
      exact ⟨b', (AList.lookup_insert_ne hkey).trans ((hothers key hkey).trans hb'), hsettings'⟩

end Step

variable (calls : List Call)

theorem remembers_afterCalls : (afterCalls sys defaults perMethod calls).Remembers sys defaults perMethod calls := by
  induction calls using reverseRecOn with
  | nil => exact ⟨rfl, rfl, fun _ _ => rfl, fun _ _ hfirst => nomatch hfirst⟩
  | append_singleton calls c ih =>
    unfold afterCalls
    rw [foldl_append]
    exact ih.allow c

/-- A call is decided by the limits of its own identity exactly when the first call
with its key had the same. -/
theorem bucketFor_hasSettings_iff (id : TenantIdentity) :
    ((afterCalls sys defaults perMethod calls).bucketFor sys id).1.HasSettings sys (settings defaults perMethod id) ↔
      ∀ first, firstCall calls id.key = some first →
        settings defaults perMethod first.id = settings defaults perMethod id := by
  have hremembers : (afterCalls sys defaults perMethod calls).Remembers sys defaults perMethod calls :=
    remembers_afterCalls calls
  have hbucket := hremembers.bucketFor id
  constructor
  · intro hown first hfirst
    rw [hfirst] at hbucket
    exact hbucket.unique hown
  intro hsame
  cases hfirst : firstCall calls id.key with
  | none =>
    rw [hfirst] at hbucket
    exact hbucket
  | some first =>
    rw [hfirst] at hbucket
    exact hsame first hfirst ▸ hbucket

/-- Every call of a run is decided by buckets with the limits of its own identity. -/
def DecidedByOwn (sys : Platform τ) (defaults : Defaults) (perMethod : GoMap Method Defaults) (calls : List Call) : Prop :=
  ∀ before c, before ++ [c] <+: calls →
    ((afterCalls sys defaults perMethod before).bucketFor sys c.id).1.HasSettings sys (settings defaults perMethod c.id)

/-- Two calls of one tenant and method ask for the same limits. -/
def SameSettings (defaults : Defaults) (perMethod : GoMap Method Defaults) (a b : Call) : Prop :=
  a.id.key = b.id.key → settings defaults perMethod a.id = settings defaults perMethod b.id

theorem decidedByOwn_concat (c : Call) :
    DecidedByOwn sys defaults perMethod (calls ++ [c]) ↔ DecidedByOwn sys defaults perMethod calls ∧
      ((afterCalls sys defaults perMethod calls).bucketFor sys c.id).1.HasSettings sys (settings defaults perMethod c.id) := by
  constructor
  · intro h
    exact ⟨fun before d hd => h before d (hd.trans (prefix_append _ _)), h calls c (prefix_refl _)⟩
  rintro ⟨hearlier, hlast⟩ before d hd
  rcases prefix_concat_iff.mp hd with heq | hd
  · obtain ⟨rfl, hcd⟩ := append_inj' heq rfl
    cases hcd
    exact hlast
  · exact hearlier before d hd

theorem forall_sameSettings_iff {calls : List Call} (hpairwise : calls.Pairwise (SameSettings defaults perMethod))
    (c : Call) :
    (∀ first, firstCall calls c.id.key = some first →
      settings defaults perMethod first.id = settings defaults perMethod c.id) ↔
      ∀ a ∈ calls, SameSettings defaults perMethod a c := by
  have hsymm : Std.Symm (SameSettings defaults perMethod) := ⟨fun _ _ h hkey => (h hkey.symm).symm⟩
  have hall := hpairwise.forall_of_forall (fun _ _ _ => rfl)
  constructor
  · intro hfirst a ha hkey
    have hsome : (firstCall calls c.id.key).isSome := find?_isSome.mpr ⟨a, ha, decide_eq_true hkey⟩
    obtain ⟨first, hfound⟩ := Option.isSome_iff_exists.mp hsome
    obtain ⟨hmem, hfirstKey⟩ := mem_of_firstCall hfound
    exact (hall ha hmem (hkey.trans hfirstKey.symm)).trans (hfirst first hfound)
  · intro hsame first hfound
    obtain ⟨hmem, hfirstKey⟩ := mem_of_firstCall hfound
    exact hsame first hmem hfirstKey

/-- In a run every call is decided by its own limits exactly when no two calls of one
tenant and method ask for different ones. -/
theorem decidedByOwn_iff (sys : Platform τ) (defaults : Defaults) (perMethod : GoMap Method Defaults) (calls : List Call) :
    DecidedByOwn sys defaults perMethod calls ↔ calls.Pairwise (SameSettings defaults perMethod) := by
  induction calls using reverseRecOn with
  | nil =>
    refine ⟨fun _ => .nil, ?_⟩
    intro _ before c hnil
    simp at hnil
  | append_singleton calls c ih =>
    rw [decidedByOwn_concat, ih, bucketFor_hasSettings_iff, pairwise_append]
    constructor
    · rintro ⟨hpairwise, hfirst⟩
      refine ⟨hpairwise, pairwise_singleton _ _, ?_⟩
      intro a ha b hb
      cases mem_singleton.mp hb
      exact (forall_sameSettings_iff hpairwise c).mp hfirst a ha
    · rintro ⟨hpairwise, _, hsame⟩
      refine ⟨hpairwise, (forall_sameSettings_iff hpairwise c).mpr ?_⟩
      intro a ha
      exact hsame a ha c (mem_singleton_self c)

end Runs

/-- A call of the api key of one tenant with some overrides. -/
def callWith (rps : Option GoFloat) (burst : Option Int) : Call where
  id :=
    let resolved : Resolved :=
      { tenant := { id := 7, slug := "acme", name := "Acme", status := .active }
        config :=
          { tierCeiling := "full", tierEnforcementMode := .strip, rateLimitRequestsPerSec := rps, rateLimitBurst := burst }
        apiKey := none }
    { id := { method := .apiKey, resolved := some resolved }, resolved := resolved, hresolved := rfl }
  nBytes := 10
  requestsAt := 0
  bytesAt := 0

/-- The override is raised after the first call, and the second one is still decided
by a bucket of the defaults. -/
theorem override_ignored :
    let sys : Platform Unit :=
      { newTokens := fun _ _ => (), allowN := fun _ _ _ _ _ => (true, ()), outOfRange := fun _ => 0 }
    let defaults : Defaults := { requestsPerSecond := .finite 1, bytesPerSecond := .finite 1000000, burst := 2 }
    let first := callWith none none
    let second := callWith (some (.finite 100)) (some 50)
    let b := ((afterCalls sys defaults ∅ [first]).bucketFor sys second.id).1
    settings defaults ∅ second.id = { requestsPerSecond := .finite 100, bytesPerSecond := .finite 1000000, burst := 50 } ∧
      b.requests.limit = .finite 1 ∧ b.requests.burst = 2 ∧ ¬ DecidedByOwn sys defaults ∅ [first, second] := by
  intro sys defaults first second b
  have hlimit : b.requests.limit = .finite 1 := rfl
  have hburst : b.requests.burst = 2 := rfl
  refine ⟨rfl, hlimit, hburst, ?_⟩
  intro hown
  have hsecond := (hown [first] second (prefix_refl _)).requests_burst
  exact absurd (hburst.symm.trans hsecond) (by decide)

end argvio.ratelimit
