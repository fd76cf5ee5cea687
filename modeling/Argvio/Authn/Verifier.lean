import Argvio.Tenant.Store

open gostrings
open argvio.tenant

namespace argvio.authn

inductive Method where
  | apiKey
  | jwt
  | oidc
  deriving DecidableEq

/-- A value of a JSON claim set; only strings and arrays are looked into. -/
inductive ClaimValue where
  | str (s : String)
  | array (items : List ClaimValue)
  | other (json : String)

abbrev Claims := GoMap String ClaimValue

/-- Why a caller is turned away. -/
inductive AuthError where
  | unauthenticated (cause : Option String)
  | tenantSuspended
  | noTenantAccess
  | tenantRequired
  | insufficientScope (detail : String)
  | providerUnavailable (detail : String)
  | resolver (err : String)
  deriving DecidableEq

/-- The error classes of the OIDC verifier. -/
inductive OIDCError where
  | invalidToken (reason : String)
  | insufficientScope (detail : String)
  | providerUnavailable (detail : String)
  deriving DecidableEq

/-- An OIDC verifier: the issuer it is configured for, and what the provider
says about a token. -/
structure OIDCVerifier where
  issuerURL : String
  introspectionEnabled : Bool
  verify : String → Except OIDCError Claims
  introspect : String → Except OIDCError Claims

/-- The authenticated caller. `resolved` is unset until a tenant is chosen. -/
structure Identity where
  method : Method
  resolved : Option Resolved := none
  claims : Claims := ∅
  issuer : String := ""
  subject : String := ""
  role : String := ""
  admin : Bool := false
  adminRule : String := ""

/-- An admin rule: the name of the rule when it recognizes the identity. -/
abbrev AdminRecognizer := Identity → Option String

/-- The admin side of a verifier. Without a verifier of its own, admin tokens are
verified like user tokens. -/
structure AdminAccess where
  verifier : Option OIDCVerifier
  recognizers : List AdminRecognizer
  role : String
  roleClaim : String

/-- A verifier's configuration, with what it takes from other packages: UUID
parsing, the `alg` of a JOSE header, and HS256 token parsing. -/
structure Verifier where
  methods : Finset Method
  jwtSigningKey : String
  oidcVerifier : OIDCVerifier
  resolver : Resolver
  apiKeyScope : Scope
  extraAPIKeyScopes : List Scope
  trustTenantIDClaim : Bool
  admin : Option AdminAccess
  parseUUID : String → Option UUID
  headerAlg : String → Option String
  parseHS256 : String → String → Option Claims

/-- The string under a claim, or "" when it is not one. -/
def claimString (claims : Claims) (name : String) : String :=
  match claims.lookup name with
  | some (.str s) => s
  | _ => ""

def knownRole (r : String) : Bool := r = "viewer" || r = "admin"

/-- A valid role in the token's role claim, else the configured one. -/
def AdminAccess.roleFor (a : AdminAccess) (id : Identity) : String :=
  if a.roleClaim = "" then a.role
  else
    match id.claims.lookup a.roleClaim with
    | some (.str r) => if knownRole r then r else a.role
    | _ => a.role

/-- Marks the identity as an admin if a rule recognizes it. -/
def AdminAccess.admitAdmin (a : AdminAccess) (id : Identity) : Option Identity :=
  (a.recognizers.findSome? (fun recognize => recognize id)).map (fun rule =>
    { id with admin := true, adminRule := rule, role := a.roleFor id })

def AdminAccess.introspects (a : AdminAccess) : Bool :=
  match a.verifier with
  | some ov => ov.introspectionEnabled
  | none => false

namespace Verifier

/-- Verifies the token with one OIDC verifier and translates its errors. The
issuer is the configured one, not a claim. -/
def verifyOIDC (ov : OIDCVerifier) (raw : String) (isOpaque : Bool) : Except AuthError Identity :=
  match if isOpaque then ov.introspect raw else ov.verify raw with
  | .error (.invalidToken reason) => .error (.unauthenticated (some reason))
  | .error (.insufficientScope detail) => .error (.insufficientScope detail)
  | .error (.providerUnavailable detail) => .error (.providerUnavailable detail)
  | .ok claims =>
    .ok { method := .oidc, claims := claims, issuer := ov.issuerURL, subject := claimString claims "sub" }

/-- The admin identity, or why admin verification did not apply. -/
def authenticateAdminFirst (v : Verifier) (raw : String) (isOpaque : Bool) :
    Except (Option AuthError) Identity :=
  match v.admin with
  | none => .error none
  | some a =>
    match a.verifier with
    | none => .error none
    | some ov =>
      if isOpaque ∧ ov.introspectionEnabled = false then .error none
      else
        match verifyOIDC ov raw isOpaque with
        | .error err => .error (some err)
        | .ok id =>
          match a.admitAdmin id with
          | some adminId => .ok adminId
          | none => .error none

def preferAdminErr (userErr : AuthError) (adminErr : Option AuthError) : AuthError :=
  match userErr, adminErr with
  | .unauthenticated _, some (.providerUnavailable detail) => .providerUnavailable detail
  | .unauthenticated _, some (.insufficientScope detail) => .insufficientScope detail
  | _, _ => userErr

/-- The extra scopes are tried in turn while the key is not found. -/
def resolveScopes (v : Verifier) (raw : String) : List Scope → Except String (Option Resolved)
  | [] => .ok none
  | scope :: scopes =>
    match v.resolver.resolve raw scope with
    | .error err => .error err
    | .ok (some resolved) => .ok (some resolved)
    | .ok none => resolveScopes v raw scopes

def authenticateAPIKey (v : Verifier) (raw : String) : Except AuthError Identity :=
  if Method.apiKey ∉ v.methods then .error (.unauthenticated none)
  else
    match resolveScopes v raw (v.apiKeyScope :: v.extraAPIKeyScopes) with
    | .error err => .error (.resolver err)
    | .ok none => .error (.unauthenticated none)
    | .ok (some resolved) =>
      if (resolved.apiKey.bind APIKey.revokedAt).isSome then .error (.unauthenticated none)
      else if resolved.tenant.status ≠ .active then .error .tenantSuspended
      else .ok { method := .apiKey, resolved := some resolved }

/-- The tenant id claim, or nothing when it is absent, not a string or malformed. -/
def tenantIDFromClaims (v : Verifier) (claims : Claims) : Option UUID :=
  match claims.lookup "tenant_id" with
  | some (.str s) => v.parseUUID s
  | _ => none

/-- The tenant the claim of a verified token names, resolved again. -/
def identityFromClaims (v : Verifier) (method : Method) (claims : Claims) : Except AuthError Identity :=
  match v.tenantIDFromClaims claims with
  | none => .error (.unauthenticated none)
  | some tenantID =>
    match v.resolver.resolveByTenantID tenantID with
    | .error err => .error (.resolver err)
    | .ok none => .error (.unauthenticated none)
    | .ok (some resolved) =>
      if resolved.tenant.status ≠ .active then .error .tenantSuspended
      else .ok { method := method, resolved := some resolved, claims := claims }

def authenticateJWT (v : Verifier) (raw : String) : Except AuthError Identity :=
  match v.parseHS256 v.jwtSigningKey raw with
  | none => .error (.unauthenticated none)
  | some claims => v.identityFromClaims .jwt claims

/-- User verification, after admin verification did not apply. -/
def authenticateUser (v : Verifier) (raw : String) (isOpaque : Bool) (adminErr : Option AuthError) :
    Except AuthError Identity :=
  match verifyOIDC v.oidcVerifier raw isOpaque with
  | .error err => .error (preferAdminErr err adminErr)
  | .ok id =>
    match v.admin with
    | some a =>
      match a.verifier with
      | none => .ok ((a.admitAdmin id).getD id)
      | some _ => .ok id
    | none => .ok id

def authenticateOIDC (v : Verifier) (raw : String) (isOpaque : Bool) : Except AuthError Identity :=
  match v.authenticateAdminFirst raw isOpaque with
  | .ok id => .ok id
  | .error adminErr =>
    if isOpaque ∧ v.oidcVerifier.introspectionEnabled = false then
      match adminErr with
      | none => v.authenticateAPIKey raw
      | some (.unauthenticated _) => v.authenticateAPIKey raw
      | some err => .error err
    else v.authenticateUser raw isOpaque adminErr

/-- The algorithm of a three-part token, unverified. -/
def peekAlg (v : Verifier) (raw : String) : Option String :=
  match splitChar raw '.' with
  | [header, _, _] => v.headerAlg header
  | _ => none

def isAsymmetricAlg (alg : String) : Bool :=
  decide (alg ∈ ["RS256", "RS384", "RS512", "PS256", "PS384", "PS512", "ES256", "ES384", "ES512"])

/-- Verifies the credential without choosing a tenant; its form picks the method. -/
def authenticateSubject (v : Verifier) (raw : String) : Except AuthError Identity :=
  if raw = "" then .error (.unauthenticated none)
  else if (cutPrefix raw "argv_").isSome then v.authenticateAPIKey raw
  else
    match v.peekAlg raw with
    | some alg =>
      if alg = "HS256" ∧ Method.jwt ∈ v.methods then v.authenticateJWT raw
      else if isAsymmetricAlg alg ∧ Method.oidc ∈ v.methods then v.authenticateOIDC raw false
      else .error (.unauthenticated none)
    | none =>
      if Method.oidc ∈ v.methods ∧
          (v.oidcVerifier.introspectionEnabled || v.admin.any AdminAccess.introspects) then
        v.authenticateOIDC raw true
      else v.authenticateAPIKey raw

def tenantMatches (v : Verifier) (hint : String) (tenantID : UUID) : Bool :=
  decide (v.parseUUID hint = some tenantID)

def resolveTenant (v : Verifier) (id : Identity) (tenantID : UUID) (role : String) :
    Except AuthError Identity :=
  match v.resolver.resolveByTenantID tenantID with
  | .error err => .error (.resolver err)
  | .ok none => .error .noTenantAccess
  | .ok (some resolved) =>
    if resolved.tenant.status ≠ .active then .error .tenantSuspended
    else .ok { id with resolved := some resolved, role := role }

/-- The optional tenant id claim; a malformed one is an error. -/
def tenantClaim (v : Verifier) (claims : Claims) : Except Unit (Option UUID) :=
  match claims.lookup "tenant_id" with
  | none => .ok none
  | some (.str s) =>
    match v.parseUUID s with
    | some tenantID => .ok (some tenantID)
    | none => .error ()
  | some _ => .error ()

def hasMembership (members : List Membership) (tenantID : UUID) : Bool :=
  members.any (fun m => m.tenant.id = tenantID)

/-- The membership the hint names, or the only one. -/
def chooseMembership (v : Verifier) (members : List Membership) (hint : String) :
    Except AuthError Membership :=
  if hint ≠ "" then
    match members.find? (fun m => v.tenantMatches hint m.tenant.id) with
    | some m => .ok m
    | none => .error .noTenantAccess
  else
    match members with
    | [] => .error .noTenantAccess
    | [m] => .ok m
    | _ => .error .tenantRequired

/-- The tenant of an identity whose claim is not trusted: one it is a member of. -/
def selectMembership (v : Verifier) (id : Identity) (claim : Option UUID) (hint : String) :
    Except AuthError Identity :=
  if id.subject = "" then .error .noTenantAccess
  else
    match v.resolver.memberships id.issuer id.subject with
    | .error err => .error (.resolver err)
    | .ok members =>
      if claim.any (fun tenantID => !hasMembership members tenantID) then .error .noTenantAccess
      else
        match v.chooseMembership members hint with
        | .error err => .error err
        | .ok chosen => v.resolveTenant id chosen.tenant.id chosen.role

def selectTenant (v : Verifier) (id : Identity) (hint : String) : Except AuthError Identity :=
  match v.tenantClaim id.claims with
  | .error _ => .error .noTenantAccess
  | .ok (some claimTenant) =>
    if v.trustTenantIDClaim then
      if hint ≠ "" ∧ v.tenantMatches hint claimTenant = false then .error .noTenantAccess
      else v.resolveTenant id claimTenant ""
    else v.selectMembership id (some claimTenant) hint
  | .ok none => v.selectMembership id none hint

/-- The tenant an admin asks for: the hinted one, or the only active one. -/
def chooseAdminTenant (v : Verifier) (hint : String) : Except AuthError UUID :=
  if hint ≠ "" then
    match v.parseUUID hint with
    | some tenantID => .ok tenantID
    | none => .error .noTenantAccess
  else
    match v.resolver.activeTenants with
    | .error err => .error (.resolver err)
    | .ok [] => .error .noTenantAccess
    | .ok [t] => .ok t.id
    | .ok _ => .error .tenantRequired

def selectAdminTenant (v : Verifier) (id : Identity) (hint : String) : Except AuthError Identity :=
  match v.chooseAdminTenant hint with
  | .error err => .error err
  | .ok tenantID =>
    match v.resolver.resolveByTenantID tenantID with
    | .error err => .error (.resolver err)
    | .ok none => .error .noTenantAccess
    | .ok (some resolved) =>
      if resolved.tenant.status ≠ .active then .error .noTenantAccess
      else .ok { id with resolved := some resolved }

/-- Authenticates a caller that may name the tenant it wants. -/
def authenticateForTenant (v : Verifier) (raw tenantHint : String) : Except AuthError Identity :=
  match v.authenticateSubject raw with
  | .error err => .error err
  | .ok id =>
    if id.admin then v.selectAdminTenant id tenantHint
    else
      match id.resolved with
      | some resolved =>
        if tenantHint ≠ "" ∧ v.tenantMatches tenantHint resolved.tenant.id = false then .error .noTenantAccess
        else .ok id
      | none => v.selectTenant id tenantHint

end Verifier

end argvio.authn
