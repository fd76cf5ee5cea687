import Argvio.Authn.Verifier
import Argvio.GoTypes
import Argvio.Sha256

open gostrings
open argvio.authn

namespace argvio.oidc

def clockSkewLeeway : Int := 30 * 1000000000

def maxIntrospectionCacheEntries : Nat := 10000

def invalidf (reason : String) : OIDCError := .invalidToken ("oidc: invalid token: " ++ reason)

def unavailable (err : String) : OIDCError := .providerUnavailable ("oidc: provider unavailable: " ++ err)

/-- A `*ScopeError`. -/
def scopeError (missing : List String) : OIDCError :=
  .insufficientScope ("oidc: token missing required scope(s): " ++ ", ".intercalate missing)

abbrev Digest := List UInt8

/-- What the cache and the flights are keyed by. -/
def sum256 (token : String) : Digest := sha256.sum256 (gobytes.ofString token)

/-- The settings of a verifier that introspection reads, with how the registered claims of a claim set
are read. -/
structure Introspector where
  issuerURL : String
  audience : String
  requiredScopes : List String
  endpoint : String
  cacheTTL : Int
  negativeCacheTTL : Int
  isPrint : Char → Bool
  getIssuer : Claims → Option String
  getAudience : Claims → Option (List String)
  getExpirationTime : Claims → Except String (Option Int)
  getNotBefore : Claims → Except String (Option Int)

/-- What is remembered about a token: its claims, or why it was rejected. -/
structure IntrospectionEntry where
  result : Except OIDCError Claims
  expiresAt : Int

abbrev IntrospectionCache := GoMap Digest IntrospectionEntry

/-- The entry for a key. One that has expired is deleted instead. -/
def IntrospectionCache.get (c : IntrospectionCache) (key : Digest) (now : Int) :
    IntrospectionCache × Option IntrospectionEntry :=
  match c.lookup key with
  | none => (c, none)
  | some e => if now < e.expiresAt then (c, some e) else (c.erase key, none)

/-- Remembers an entry. A full cache first drops what has expired, and stays as it is
when that makes no room. -/
def IntrospectionCache.put (c : IntrospectionCache) (key : Digest) (e : IntrospectionEntry) (now : Int) :
    IntrospectionCache :=
  if key ∉ c ∧ maxIntrospectionCacheEntries ≤ c.entries.length then
    let live := GoMap.keep (fun _ old => now < old.expiresAt) c
    if maxIntrospectionCacheEntries ≤ live.entries.length then live else live.insert key e
  else c.insert key e

inductive BodyError where
  | reading (detail : String)
  | decoding (detail : String)

structure IntrospectionResponse where
  status : Nat
  body : Except BodyError Claims

/-- How a call to the provider goes: the endpoint that discovery gives, whether a request
can be made, and the response. -/
structure Exchange where
  discover : Except String String
  request : Except String Unit
  response : Except String IntrospectionResponse

/-- The scopes of a claim set, from a space-delimited string or an array. -/
def grantedScopes (claims : Claims) : List String :=
  (match claims.lookup "scope" with
    | some (.str s) => fields s
    | _ => []) ++
  match claims.lookup "scp" with
  | some (.array items) =>
    items.filterMap (fun item =>
      match item with
      | .str s => some s
      | _ => none)
  | some (.str s) => fields s
  | _ => []

/-- `active, _ := resp["active"].(bool)`. -/
def isActive (resp : Claims) : Bool :=
  match resp.lookup "active" with
  | some (.other json) => json = "true"
  | _ => false

def checkActive (resp : Claims) : Except OIDCError Unit :=
  if isActive resp then .ok () else .error (invalidf "token is not active")

namespace Introspector

/-- Posts the token to the provider. Only a token that the provider itself calls
malformed is invalid here. -/
def callIntrospection (v : Introspector) (x : Exchange) : Except OIDCError Claims :=
  match if v.endpoint = "" then x.discover else .ok v.endpoint with
  | .error err => .error (unavailable err)
  | .ok endpoint =>
    if endpoint = "" then .error (unavailable "no introspection endpoint configured or discovered")
    else
      match x.request with
      | .error err => .error (unavailable err)
      | .ok () =>
        match x.response with
        | .error err => .error (unavailable ("introspection request: " ++ err))
        | .ok resp =>
          if resp.status = 200 then
            match resp.body with
            | .error (.reading err) => .error (unavailable ("reading introspection response: " ++ err))
            | .error (.decoding err) => .error (unavailable ("decoding introspection response: " ++ err))
            | .ok out => .ok out
          else if resp.status = 400 then .error (invalidf "provider rejected the token as malformed")
          else .error (unavailable ("introspection endpoint returned status " ++ toString resp.status))

def checkScopes (v : Introspector) (claims : Claims) : Except OIDCError Unit :=
  let missing := v.requiredScopes.filter (fun req => req ∉ grantedScopes claims)
  if missing ≠ [] then .error (scopeError missing) else .ok ()

def checkIssuer (v : Introspector) (claims : Claims) : Except OIDCError Unit :=
  if claims.lookup "iss" = none then .ok ()
  else
    match v.getIssuer claims with
    | none => .error (invalidf ("issuer " ++ quote v.isPrint "" ++ " does not match"))
    | some iss =>
      if iss ≠ v.issuerURL then .error (invalidf ("issuer " ++ quote v.isPrint iss ++ " does not match")) else .ok ()

def checkAudience (v : Introspector) (claims : Claims) : Except OIDCError Unit :=
  if v.audience ∈ (v.getAudience claims).getD [] then .ok ()
  else .error (invalidf ("audience does not include " ++ quote v.isPrint v.audience))

def checkExpiry (v : Introspector) (claims : Claims) (now : Int) : Except OIDCError Unit :=
  match v.getExpirationTime claims with
  | .error err => .error (invalidf ("malformed exp: " ++ err))
  | .ok none => .ok ()
  | .ok (some exp) => if now > exp + clockSkewLeeway then .error (invalidf "token is expired") else .ok ()

def checkNotBefore (v : Introspector) (claims : Claims) (now : Int) : Except OIDCError Unit :=
  match v.getNotBefore claims with
  | .error err => .error (invalidf ("malformed nbf: " ++ err))
  | .ok none => .ok ()
  | .ok (some nbf) => if now + clockSkewLeeway < nbf then .error (invalidf "token is not valid yet") else .ok ()

/-- Applies the acceptance rules to a decoded response. -/
def validateIntrospection (v : Introspector) (resp : Claims) (now : Int) : Except OIDCError Claims := do
  checkActive resp
  v.checkIssuer resp
  v.checkAudience resp
  v.checkExpiry resp now
  v.checkNotBefore resp now
  v.checkScopes resp
  return resp

/-- The entry for a verdict reached at `now`. -/
def entryFor (v : Introspector) (verdict : Except OIDCError Claims) (now : Int) : IntrospectionEntry where
  result := verdict
  expiresAt :=
    match verdict with
    | .error _ => now + v.negativeCacheTTL
    | .ok claims =>
      match v.getExpirationTime claims with
      | .ok (some exp) => now + min v.cacheTTL (subTime exp now)
      | _ => now + v.cacheTTL

/-- What a call makes of the provider's answer at `now`: an entry, or an error that is
never cached. -/
def judge (v : Introspector) (x : Exchange) (now : Int) : Except OIDCError IntrospectionEntry :=
  match v.callIntrospection x with
  | .error (.invalidToken reason) => .ok (v.entryFor (.error (.invalidToken reason)) now)
  | .error err => .error err
  | .ok resp => .ok (v.entryFor (v.validateIntrospection resp now) now)

/-- The acceptance rules, for a response judged at `now`. -/
structure Acceptable (v : Introspector) (resp : Claims) (now : Int) : Prop where
  active : isActive resp = true
  issuer : resp.lookup "iss" = none ∨ v.getIssuer resp = some v.issuerURL
  audience : v.audience ∈ (v.getAudience resp).getD []
  expiry : ∃ exp, v.getExpirationTime resp = .ok exp ∧ ∀ t ∈ exp, now ≤ t + clockSkewLeeway
  notBefore : ∃ nbf, v.getNotBefore resp = .ok nbf ∧ ∀ t ∈ nbf, t ≤ now + clockSkewLeeway
  scopes : ∀ req ∈ v.requiredScopes, req ∈ grantedScopes resp

end Introspector

section Checks

variable {v : Introspector} {claims : Claims} {now : Int}

theorem checkActive_eq_ok_iff : checkActive claims = .ok () ↔ isActive claims = true := by
  unfold checkActive
  split <;> simp_all

namespace Introspector

theorem checkIssuer_eq_ok_iff :
    v.checkIssuer claims = .ok () ↔ claims.lookup "iss" = none ∨ v.getIssuer claims = some v.issuerURL := by
  unfold checkIssuer
  by_cases hiss : claims.lookup "iss" = none
  · simp [hiss]
  · cases hget : v.getIssuer claims with
    | none => simp [hiss]
    | some iss => by_cases heq : iss = v.issuerURL <;> simp [hiss, heq]

theorem checkAudience_eq_ok_iff :
    v.checkAudience claims = .ok () ↔ v.audience ∈ (v.getAudience claims).getD [] := by
  unfold checkAudience
  split <;> simp_all

theorem checkExpiry_eq_ok_iff :
    v.checkExpiry claims now = .ok () ↔
      ∃ exp, v.getExpirationTime claims = .ok exp ∧ ∀ t ∈ exp, now ≤ t + clockSkewLeeway := by
  unfold checkExpiry
  cases v.getExpirationTime claims with
  | error err => simp
  | ok exp =>
    cases exp with
    | none => simp
    | some t =>
      by_cases hlate : now > t + clockSkewLeeway
      · simp [hlate]
      · simpa [hlate] using Int.not_lt.mp hlate

theorem checkNotBefore_eq_ok_iff :
    v.checkNotBefore claims now = .ok () ↔
      ∃ nbf, v.getNotBefore claims = .ok nbf ∧ ∀ t ∈ nbf, t ≤ now + clockSkewLeeway := by
  unfold checkNotBefore
  cases v.getNotBefore claims with
  | error err => simp
  | ok nbf =>
    cases nbf with
    | none => simp
    | some t =>
      by_cases hearly : now + clockSkewLeeway < t
      · simp [hearly]
      · simpa [hearly] using Int.not_lt.mp hearly

theorem checkScopes_eq_ok_iff :
    v.checkScopes claims = .ok () ↔ ∀ req ∈ v.requiredScopes, req ∈ grantedScopes claims := by
  have hmissing : v.requiredScopes.filter (fun req => req ∉ grantedScopes claims) = [] ↔
      ∀ req ∈ v.requiredScopes, req ∈ grantedScopes claims := by
    simp [List.filter_eq_nil_iff]
  rw [← hmissing]
  unfold checkScopes
  dsimp only
  split <;> simp_all

/-- A response is accepted, as it is, exactly when it meets the rules. -/
theorem validateIntrospection_eq_ok_iff {resp : Claims} :
    v.validateIntrospection resp now = .ok claims ↔ claims = resp ∧ v.Acceptable resp now := by
  simp only [validateIntrospection, Except.bind_eq_ok_iff]
  constructor
  · rintro ⟨_, hactive, _, hissuer, _, haudience, _, hexpiry, _, hnotBefore, _, hscopes, hresp⟩
    refine ⟨(Except.ok.inj hresp).symm, ?_, ?_, ?_, ?_, ?_, ?_⟩
    · exact checkActive_eq_ok_iff.mp hactive
    · exact checkIssuer_eq_ok_iff.mp hissuer
    · exact checkAudience_eq_ok_iff.mp haudience
    · exact checkExpiry_eq_ok_iff.mp hexpiry
    · exact checkNotBefore_eq_ok_iff.mp hnotBefore
    · exact checkScopes_eq_ok_iff.mp hscopes
  · rintro ⟨rfl, haccept⟩
    exact ⟨(), checkActive_eq_ok_iff.mpr haccept.active, (), checkIssuer_eq_ok_iff.mpr haccept.issuer, (),
      checkAudience_eq_ok_iff.mpr haccept.audience, (), checkExpiry_eq_ok_iff.mpr haccept.expiry, (),
      checkNotBefore_eq_ok_iff.mpr haccept.notBefore, (), checkScopes_eq_ok_iff.mpr haccept.scopes, rfl⟩

end Introspector

end Checks

section Judge

variable {v : Introspector} {x : Exchange} {e : IntrospectionEntry} {now : Int}

/-- A check that blames the token, if anything. -/
def BlamesToken {α : Type} (r : Except OIDCError α) : Prop := ∀ detail, r ≠ .error (.providerUnavailable detail)

theorem BlamesToken.bind {α β : Type} {r : Except OIDCError α} {f : α → Except OIDCError β} (hr : BlamesToken r)
    (hf : ∀ a, BlamesToken (f a)) : BlamesToken (r >>= f) := by
  cases r with
  | error err =>
    intro detail h
    cases h
    exact hr detail rfl
  | ok a => exact hf a

namespace Introspector

theorem blamesToken_validateIntrospection (resp : Claims) : BlamesToken (v.validateIntrospection resp now) := by
  have hactive : BlamesToken (checkActive resp) := by
    unfold checkActive
    split <;> simp [BlamesToken, invalidf]
  have hissuer : BlamesToken (v.checkIssuer resp) := by
    unfold checkIssuer
    repeat' split
    all_goals simp [BlamesToken, invalidf]
  have haudience : BlamesToken (v.checkAudience resp) := by
    unfold checkAudience
    split <;> simp [BlamesToken, invalidf]
  have hexpiry : BlamesToken (v.checkExpiry resp now) := by
    unfold checkExpiry
    repeat' split
    all_goals simp [BlamesToken, invalidf]
  have hnotBefore : BlamesToken (v.checkNotBefore resp now) := by
    unfold checkNotBefore
    repeat' split
    all_goals simp [BlamesToken, invalidf]
  have hscopes : BlamesToken (v.checkScopes resp) := by
    unfold checkScopes
    dsimp only
    split <;> simp [BlamesToken, scopeError]
  refine hactive.bind (fun _ => hissuer.bind (fun _ => haudience.bind (fun _ => hexpiry.bind (fun _ =>
    hnotBefore.bind (fun _ => hscopes.bind (fun _ => ?_))))))
  intro detail h
  cases h

/-- An entry comes from a response that was checked, or from a token that the provider
calls malformed. -/
theorem judge_eq_ok (h : v.judge x now = .ok e) :
    (∃ reason, e = v.entryFor (.error (.invalidToken reason)) now) ∨
      ∃ resp, v.callIntrospection x = .ok resp ∧ e = v.entryFor (v.validateIntrospection resp now) now := by
  unfold judge at h
  split at h
  · exact .inl ⟨_, (Except.ok.inj h).symm⟩
  · cases h
  · rename_i resp hcall
    exact .inr ⟨resp, hcall, (Except.ok.inj h).symm⟩

theorem blamesToken_of_judge (h : v.judge x now = .ok e) : BlamesToken e.result := by
  obtain ⟨reason, rfl⟩ | ⟨resp, -, rfl⟩ := judge_eq_ok h
  · intro detail herr
    cases herr
  · exact blamesToken_validateIntrospection resp

theorem eq_entryFor_of_judge (h : v.judge x now = .ok e) : e = v.entryFor e.result now := by
  obtain ⟨reason, rfl⟩ | ⟨resp, -, rfl⟩ := judge_eq_ok h
  · rfl
  · rfl

variable {claims : Claims}

/-- Claims are an active response that met the acceptance rules when it was judged. -/
theorem acceptable_of_judge (h : v.judge x now = .ok e) (hresult : e.result = .ok claims) :
    v.callIntrospection x = .ok claims ∧ v.Acceptable claims now := by
  obtain ⟨reason, rfl⟩ | ⟨resp, hcall, rfl⟩ := judge_eq_ok h
  · cases hresult
  · obtain ⟨rfl, haccept⟩ := validateIntrospection_eq_ok_iff.mp hresult
    exact ⟨hcall, haccept⟩

theorem expiresAt_of_rejected (h : v.judge x now = .ok e) {err : OIDCError} (hresult : e.result = .error err) :
    e.expiresAt = now + v.negativeCacheTTL := by
  rw [eq_entryFor_of_judge h, hresult]
  rfl

theorem expiresAt_le_of_accepted (h : v.judge x now = .ok e) (hresult : e.result = .ok claims) :
    e.expiresAt ≤ now + v.cacheTTL := by
  rw [eq_entryFor_of_judge h, hresult]
  unfold entryFor
  dsimp only
  split
  · exact Int.add_le_add_left (Int.min_le_left ..) now
  · exact Int.le_refl _

/-- Claims that outlive the moment they were judged expire with their token. -/
theorem lt_exp_of_accepted (h : v.judge x now = .ok e) (hresult : e.result = .ok claims) {exp : Int}
    (hexp : v.getExpirationTime claims = .ok (some exp)) {t : Int} (hle : now ≤ t) (hlt : t < e.expiresAt) :
    t < exp := by
  rw [eq_entryFor_of_judge h, hresult] at hlt
  simp only [entryFor, hexp] at hlt
  have hmin := Int.min_le_right v.cacheTTL (subTime exp now)
  have hsub := subTime_le_of_pos (t := exp) (u := now) (by omega)
  omega

end Introspector

end Judge

end argvio.oidc
