import Argvio.Authn.Verifier

open gostrings
open argvio.tenant

namespace argvio.authn

/-- The claims one of the verifier's checks returned for the credential, which
the provider is taken to vouch for. -/
def OIDCVerifier.Vouches (ov : OIDCVerifier) (raw : String) (claims : Claims) : Prop :=
  ov.verify raw = .ok claims ∨ ov.introspect raw = .ok claims

/-- The identity a verifier makes of vouched claims. -/
def OIDCVerifier.identityOf (ov : OIDCVerifier) (claims : Claims) : Identity :=
  { method := .oidc, claims := claims, issuer := ov.issuerURL, subject := claimString claims "sub" }

namespace Verifier

/-- The tenant of an unrevoked key with an accepted scope. -/
def ByAPIKey (v : Verifier) (raw : String) (tenantID : UUID) : Prop :=
  ∃ key ∈ v.resolver.store.apiKeys, key.keyHash = v.resolver.store.sha256 raw ∧
    key.scope ∈ v.apiKeyScope :: v.extraAPIKeyScopes ∧ key.revokedAt = none ∧ key.tenantID = tenantID

/-- The tenant the claim of a verified HS256 token names. -/
def ByJWT (v : Verifier) (raw : String) (tenantID : UUID) : Prop :=
  ∃ claims, v.parseHS256 v.jwtSigningKey raw = some claims ∧ v.tenantIDFromClaims claims = some tenantID

/-- An admin rule matched the identity that admin verification vouches for. -/
def AdminRecognized (v : Verifier) (raw : String) (claims : Claims) : Prop :=
  ∃ a ov, v.admin = some a ∧ a.verifier.getD v.oidcVerifier = ov ∧ ov.Vouches raw claims ∧
    ∃ recognize ∈ a.recognizers, (recognize (ov.identityOf claims)).isSome = true

/-- What a verified credential is good for before a tenant is chosen. -/
inductive Subject (v : Verifier) (raw : String) (id : Identity) : Prop where
  | apiKey (resolved : Resolved) (hmethod : id.method = .apiKey) (hadmin : id.admin = false)
      (hresolved : id.resolved = some resolved) (hmem : resolved.tenant ∈ v.resolver.store.tenants)
      (hactive : resolved.tenant.status = .active) (hkey : v.ByAPIKey raw resolved.tenant.id)
  | jwt (resolved : Resolved) (hmethod : id.method = .jwt) (hadmin : id.admin = false)
      (hresolved : id.resolved = some resolved) (hmem : resolved.tenant ∈ v.resolver.store.tenants)
      (hactive : resolved.tenant.status = .active) (hclaim : v.ByJWT raw resolved.tenant.id)
  | user (hid : id = v.oidcVerifier.identityOf id.claims) (hvouched : v.oidcVerifier.Vouches raw id.claims)
  | admin (hmethod : id.method = .oidc) (hadmin : id.admin = true) (hresolved : id.resolved = none)
      (hrecognized : v.AdminRecognized raw id.claims)

variable {v : Verifier} {raw : String} {isOpaque : Bool} {id : Identity}

variable {resolved : Resolved} {ov : OIDCVerifier} {a : AdminAccess}

theorem verifyOIDC_ok (h : verifyOIDC ov raw isOpaque = .ok id) :
    ov.Vouches raw id.claims ∧ id = ov.identityOf id.claims := by
  unfold verifyOIDC at h
  split at h
  · cases h
  · cases h
  · cases h
  · rename_i claims hclaims
    cases h
    refine ⟨?_, rfl⟩
    cases isOpaque with
    | true => exact .inr hclaims
    | false => exact .inl hclaims

theorem admitAdmin_eq_some {id adminId : Identity} (h : a.admitAdmin id = some adminId) :
    adminId.method = id.method ∧ adminId.admin = true ∧ adminId.resolved = id.resolved ∧
      adminId.claims = id.claims ∧ ∃ recognize ∈ a.recognizers, (recognize id).isSome = true := by
  unfold AdminAccess.admitAdmin at h
  obtain ⟨rule, hrule, hid⟩ := Option.map_eq_some_iff.mp h
  obtain ⟨recognize, hmem, hmatch⟩ := List.exists_of_findSome?_eq_some hrule
  subst hid
  exact ⟨rfl, rfl, rfl, rfl, recognize, hmem, by simp [hmatch]⟩

/-- A verified identity that a rule recognizes is an admin's. -/
theorem subject_of_admitAdmin {id adminId : Identity} (hadmin : v.admin = some a)
    (hov : a.verifier.getD v.oidcVerifier = ov) (hvouched : ov.Vouches raw id.claims)
    (hid : id = ov.identityOf id.claims) (hadmitted : a.admitAdmin id = some adminId) : v.Subject raw adminId := by
  obtain ⟨hmethod, hflag, hresolved, hclaims, recognize, hmem, hmatch⟩ := admitAdmin_eq_some hadmitted
  rw [hid] at hmethod hresolved hmatch
  refine .admin hmethod hflag hresolved ⟨a, ov, hadmin, hov, ?_, recognize, hmem, ?_⟩
  · rw [hclaims]
    exact hvouched
  · rw [hclaims]
    exact hmatch

/-- Admin verification succeeds only for an identity that a rule recognizes. -/
theorem authenticateAdminFirst_eq_ok (h : v.authenticateAdminFirst raw isOpaque = .ok id) :
    ∃ a ov user, v.admin = some a ∧ a.verifier.getD v.oidcVerifier = ov ∧ verifyOIDC ov raw isOpaque = .ok user ∧
      a.admitAdmin user = some id := by
  unfold authenticateAdminFirst at h
  split at h
  · cases h
  rename_i a hadmin
  split at h
  · cases h
  rename_i ov hverifier
  split at h
  · cases h
  split at h
  · cases h
  rename_i user huser
  split at h
  · rename_i adminId hadmitted
    cases h
    exact ⟨a, ov, user, hadmin, by rw [hverifier, Option.getD_some], huser, hadmitted⟩
  · cases h

theorem resolveScopes_ok {scopes : List Scope} (h : resolveScopes v raw scopes = .ok (some resolved)) :
    ∃ scope ∈ scopes, v.resolver.store.lookupByRawAPIKey raw scope = some resolved := by
  induction scopes with
  | nil => cases h
  | cons scope scopes ih =>
    unfold resolveScopes at h
    split at h
    · cases h
    · rename_i found hfound
      cases h
      have hanswer := Resolver.answer_eq_ok hfound
      exact ⟨scope, by simp, hanswer.symm⟩
    · obtain ⟨scope', hmem, hlookup⟩ := ih h
      exact ⟨scope', by simp [hmem], hlookup⟩

theorem authenticateAPIKey_ok (h : v.authenticateAPIKey raw = .ok id) : v.Subject raw id := by
  unfold authenticateAPIKey at h
  split at h
  · cases h
  split at h
  · cases h
  · cases h
  · rename_i resolved hresolved
    split at h
    · cases h
    split at h
    · cases h
    rename_i hactive
    cases h
    obtain ⟨scope, hscope, hlookup⟩ := resolveScopes_ok hresolved
    obtain ⟨key, hkey, hhash, hkeyScope, hrevoked, hmem, hid⟩ := Store.lookupByRawAPIKey_eq_some hlookup
    refine .apiKey resolved rfl rfl rfl hmem (by simpa using hactive)
      ⟨key, hkey, hhash, ?_, hrevoked, hid.symm⟩
    rw [hkeyScope]
    exact hscope

theorem resolveByTenantID_ok {tenantID : UUID} (h : v.resolver.resolveByTenantID tenantID = .ok (some resolved)) :
    resolved.tenant ∈ v.resolver.store.tenants ∧ resolved.tenant.id = tenantID := by
  have hlookup := (Resolver.answer_eq_ok h).symm
  exact Store.withConfig_eq_some hlookup

theorem authenticateJWT_ok (h : v.authenticateJWT raw = .ok id) : v.Subject raw id := by
  unfold authenticateJWT at h
  split at h
  · cases h
  rename_i claims hclaims
  unfold identityFromClaims at h
  split at h
  · cases h
  rename_i tenantID htenant
  split at h
  · cases h
  · cases h
  · rename_i resolved hresolved
    split at h
    · cases h
    rename_i hactive
    cases h
    obtain ⟨hmem, hid⟩ := resolveByTenantID_ok hresolved
    refine .jwt resolved rfl rfl rfl hmem (by simpa using hactive) ⟨claims, hclaims, ?_⟩
    rw [hid]
    exact htenant

theorem authenticateUser_ok {adminErr : Option AuthError} (h : v.authenticateUser raw isOpaque adminErr = .ok id) :
    v.Subject raw id := by
  unfold authenticateUser at h
  split at h
  · cases h
  rename_i user huser
  obtain ⟨hvouched, hid⟩ := verifyOIDC_ok huser
  have hsubject : v.Subject raw user := .user hid hvouched
  split at h
  · rename_i a hadmin
    split at h
    · rename_i hverifier
      cases h
      cases hadmitted : a.admitAdmin user with
      | none => exact hsubject
      | some adminId =>
        have hov : a.verifier.getD v.oidcVerifier = v.oidcVerifier := by rw [hverifier, Option.getD_none]
        exact subject_of_admitAdmin hadmin hov hvouched hid hadmitted
    · cases h
      exact hsubject
  · cases h
    exact hsubject

theorem authenticateOIDC_ok (h : v.authenticateOIDC raw isOpaque = .ok id) : v.Subject raw id := by
  unfold authenticateOIDC at h
  split at h
  · rename_i adminId hfirst
    cases h
    obtain ⟨a, ov, user, hadmin, hov, huser, hadmitted⟩ := authenticateAdminFirst_eq_ok hfirst
    obtain ⟨hvouched, hid⟩ := verifyOIDC_ok huser
    exact subject_of_admitAdmin hadmin hov hvouched hid hadmitted
  · split at h
    · split at h
      · exact authenticateAPIKey_ok h
      · exact authenticateAPIKey_ok h
      · cases h
    · exact authenticateUser_ok h

/-- The check the form of a credential picks. -/
inductive Route where
  | refused
  | apiKey
  | jwt
  | oidc (isOpaque : Bool)

def route (v : Verifier) (raw : String) : Route :=
  if raw = "" then .refused
  else if (cutPrefix raw "argv_").isSome then .apiKey
  else
    match v.peekAlg raw with
    | some alg =>
      if alg = "HS256" ∧ Method.jwt ∈ v.methods then .jwt
      else if isAsymmetricAlg alg ∧ Method.oidc ∈ v.methods then .oidc false
      else .refused
    | none =>
      if Method.oidc ∈ v.methods ∧
          (v.oidcVerifier.introspectionEnabled || v.admin.any AdminAccess.introspects) then .oidc true
      else .apiKey

def authenticateBy (v : Verifier) (raw : String) : Route → Except AuthError Identity
  | .refused => .error (.unauthenticated none)
  | .apiKey => v.authenticateAPIKey raw
  | .jwt => v.authenticateJWT raw
  | .oidc isOpaque => v.authenticateOIDC raw isOpaque

theorem authenticateSubject_eq (v : Verifier) (raw : String) :
    v.authenticateSubject raw = v.authenticateBy raw (v.route raw) := by
  unfold authenticateSubject route
  cases v.peekAlg raw with
  | none | some alg =>
    dsimp only
    split_ifs <;> rfl

/-- Whatever the form of the credential, a verified one is one of the four kinds. -/
theorem authenticateSubject_ok (h : v.authenticateSubject raw = .ok id) : v.Subject raw id := by
  rw [authenticateSubject_eq] at h
  generalize v.route raw = way at h
  cases way with
  | refused => cases h
  | apiKey => exact authenticateAPIKey_ok h
  | jwt => exact authenticateJWT_ok h
  | oidc isOpaque => exact authenticateOIDC_ok h

end Verifier

end argvio.authn
