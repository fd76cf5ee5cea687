import Argvio.GoTypes
import Argvio.GoStrings

open gostrings

namespace argvio.oidc

/-- A public key; `id` stands for its parameters. -/
inductive PublicKey where
  | rsa (id : Nat)
  | ecdsa (id : Nat)
  | other (id : Nat)
  deriving DecidableEq

/-- One usable verification key from the provider's key set. -/
structure JwksKey where
  kid : String
  alg : String
  key : PublicKey
  deriving DecidableEq

/-- An entry of a key set as it is fetched, with the public key it parses to, if it
does. -/
structure Jwk where
  kty : String
  use : String
  kid : String
  alg : String
  parsed : Option PublicKey
  deriving DecidableEq

/-- What one entry of a key set contributes. -/
def parseKey (m : Jwk) : Option JwksKey :=
  if m.kty ≠ "RSA" ∧ m.kty ≠ "EC" then none
  else if m.use ≠ "" ∧ m.use ≠ "sig" then none
  else m.parsed.map (fun key => { kid := m.kid, alg := m.alg, key := key })

/-- The RSA and EC signature keys of a set, one bad entry never discarding the rest. -/
def parseKeys (set : List Jwk) : List JwksKey := set.filterMap parseKey

def keySuitsAlg (key : PublicKey) (alg : String) : Bool :=
  match key with
  | .rsa _ => (cutPrefix alg "RS").isSome || (cutPrefix alg "PS").isSome
  | .ecdsa _ => (cutPrefix alg "ES").isSome
  | .other _ => false

/-- The tests of the loop of `matchKey`. -/
def JwksKey.suits (k : JwksKey) (kid alg : String) : Bool :=
  if kid ≠ "" ∧ k.kid ≠ kid then false
  else if k.alg ≠ "" ∧ k.alg ≠ alg then false
  else if kid = "" ∧ !keySuitsAlg k.key alg then false
  else true

/-- Selects by kid; a token without a kid matches only when the provider publishes
exactly one key suitable for its algorithm. -/
def matchKey (keys : List JwksKey) (kid alg : String) : Option JwksKey :=
  match keys.filter (fun k => k.suits kid alg) with
  | [k] => some k
  | _ => none

/-- The errors of `lookupKey`, by the sentinel they wrap. -/
inductive LookupError where
  | invalidToken (kid : String)
  | providerUnavailable (detail : String)
  deriving DecidableEq

def LookupError.text (isPrint : Char → Bool) : LookupError → String
  | .invalidToken kid => "oidc: invalid token: no signing key for kid " ++ quote isPrint kid
  | .providerUnavailable detail => "oidc: provider unavailable: fetching JWKS: " ++ detail

/-- The settings of a verifier that its key cache reads. -/
structure CacheConfig where
  cacheTTL : Int
  unknownKIDCooldown : Int

/-- The provider's signing keys. A time that was never written is the zero time. -/
structure JwksCache where
  keys : List JwksKey := []
  fetchedAt : Int := 0
  lastUnknownRefresh : Int := 0
  deriving DecidableEq

/-- The outcome of a fetch: why it failed, or a key set. -/
abbrev Fetch := Except String (List Jwk)

/-- One call: what it is asked, the clock when it starts, and what a fetch returns if
it makes one, with the clock at that time. -/
structure LookupCall where
  kid : String
  alg : String
  now : Int
  fetch : Fetch
  fetchNow : Int

/-- What a call leaves and returns, and the fetch it made, if any. -/
structure Lookup where
  cache : JwksCache
  result : Except LookupError JwksKey
  fetched : Option Fetch

def JwksCache.fresh (c : JwksCache) (cfg : CacheConfig) (now : Int) : Bool :=
  c.fetchedAt ≠ 0 ∧ subTime now c.fetchedAt < cfg.cacheTTL

/-- A refresh for an unknown kid was asked for less than the cooldown ago. -/
def JwksCache.coolingDown (c : JwksCache) (cfg : CacheConfig) (now : Int) : Bool :=
  subTime now c.lastUnknownRefresh < cfg.unknownKIDCooldown

/-- `refreshJWKS` with no other call in flight. -/
def refreshJWKS (c : JwksCache) (fetch : Fetch) (now : Int) : JwksCache × Except LookupError (List JwksKey) :=
  match fetch with
  | .error detail => (c, .error (.providerUnavailable detail))
  | .ok set => ({ c with keys := parseKeys set, fetchedAt := now }, .ok (parseKeys set))

/-- The rest of `lookupKey` once it has decided to refresh. -/
def refreshAndMatch (c : JwksCache) (call : LookupCall) : Lookup :=
  match refreshJWKS c call.fetch call.fetchNow with
  | (c, .error err) =>
    -- A stale key set is better than failing every request.
    match matchKey c.keys call.kid call.alg with
    | some k => ⟨c, .ok k, some call.fetch⟩
    | none => ⟨c, .error err, some call.fetch⟩
  | (c, .ok keys) =>
    match matchKey keys call.kid call.alg with
    | some k => ⟨c, .ok k, some call.fetch⟩
    | none => ⟨c, .error (.invalidToken call.kid), some call.fetch⟩

/-- Finds the key for a token's kid and alg, refreshing the key set when it is old or
the kid is unknown. -/
def lookupKey (cfg : CacheConfig) (c : JwksCache) (call : LookupCall) : Lookup :=
  if c.fresh cfg call.now then
    match matchKey c.keys call.kid call.alg with
    | some k => ⟨c, .ok k, none⟩
    | none =>
      if c.coolingDown cfg call.now then ⟨c, .error (.invalidToken call.kid), none⟩
      else refreshAndMatch { c with lastUnknownRefresh := call.now } call
  else refreshAndMatch c call

variable (c : JwksCache) (call : LookupCall)

/-- The ways a refresh can end. -/
theorem refreshAndMatch_cases :
    (∃ detail, call.fetch = .error detail ∧ (refreshAndMatch c call).cache = c ∧
      (refreshAndMatch c call).result =
        (matchKey c.keys call.kid call.alg).elim (.error (.providerUnavailable detail)) .ok) ∨
    (∃ set, call.fetch = .ok set ∧
      (refreshAndMatch c call).cache = { c with keys := parseKeys set, fetchedAt := call.fetchNow } ∧
      (refreshAndMatch c call).result =
        (matchKey (parseKeys set) call.kid call.alg).elim (.error (.invalidToken call.kid)) .ok) := by
  unfold refreshAndMatch
  cases hfetch : call.fetch with
  | error detail =>
    refine .inl ⟨detail, rfl, ?_⟩
    cases hmatch : matchKey c.keys call.kid call.alg <;> simp [refreshJWKS, hmatch]
  | ok set =>
    refine .inr ⟨set, rfl, ?_⟩
    cases hmatch : matchKey (parseKeys set) call.kid call.alg <;> simp [refreshJWKS, hmatch]

@[simp]
theorem refreshAndMatch_fetched : (refreshAndMatch c call).fetched = some call.fetch := by
  unfold refreshAndMatch
  split <;> split <;> rfl

/-- The ways a call can go. -/
inductive LookupStep (cfg : CacheConfig) (c : JwksCache) (call : LookupCall) : Lookup → Prop where
  | hit {k : JwksKey} (hfresh : c.fresh cfg call.now) (hmatch : matchKey c.keys call.kid call.alg = some k) :
      LookupStep cfg c call ⟨c, .ok k, none⟩
  | refused (hfresh : c.fresh cfg call.now) (hmatch : matchKey c.keys call.kid call.alg = none)
      (hcooling : c.coolingDown cfg call.now) : LookupStep cfg c call ⟨c, .error (.invalidToken call.kid), none⟩
  | unknown (hfresh : c.fresh cfg call.now) (hmatch : matchKey c.keys call.kid call.alg = none)
      (hcooling : ¬ c.coolingDown cfg call.now) :
      LookupStep cfg c call (refreshAndMatch { c with lastUnknownRefresh := call.now } call)
  | expired (hfresh : ¬ c.fresh cfg call.now) : LookupStep cfg c call (refreshAndMatch c call)

theorem lookupKey_step (cfg : CacheConfig) (c : JwksCache) (call : LookupCall) :
    LookupStep cfg c call (lookupKey cfg c call) := by
  unfold lookupKey
  by_cases hfresh : c.fresh cfg call.now
  · rw [if_pos hfresh]
    cases hmatch : matchKey c.keys call.kid call.alg with
    | some k => exact .hit hfresh hmatch
    | none =>
      by_cases hcooling : c.coolingDown cfg call.now
      · simp only [if_pos hcooling]
        exact .refused hfresh hmatch hcooling
      · simp only [if_neg hcooling]
        exact .unknown hfresh hmatch hcooling
  · rw [if_neg hfresh]
    exact .expired hfresh

end argvio.oidc
