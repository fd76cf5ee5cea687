import Argvio.Authn.Subject

open argvio.tenant

namespace argvio.authn.Verifier

/-- The vouched identity is a member of the tenant, with that role. -/
def IsMember (v : Verifier) (claims : Claims) (tenantID : UUID) (role : String) : Prop :=
  { tenantID, issuer := v.oidcVerifier.issuerURL, subject := claimString claims "sub", role } ∈
    v.resolver.store.members

variable {v : Verifier} {raw hint : String} {id id' : Identity} {tenantID : UUID} {claim : Option UUID}

theorem resolveTenant_ok {role : String} (h : v.resolveTenant id tenantID role = .ok id') :
    ∃ resolved, id' = { id with resolved := some resolved, role := role } ∧
      resolved.tenant ∈ v.resolver.store.tenants ∧ resolved.tenant.id = tenantID ∧
      resolved.tenant.status = .active := by
  unfold resolveTenant at h
  split at h
  · cases h
  · cases h
  · rename_i resolved hresolved
    split at h
    · cases h
    rename_i hactive
    cases h
    obtain ⟨hmem, hid⟩ := resolveByTenantID_ok hresolved
    exact ⟨resolved, rfl, hmem, hid, by simpa using hactive⟩

theorem tenantMatches_iff : v.tenantMatches hint tenantID = true ↔ v.parseUUID hint = some tenantID := by
  simp [tenantMatches]

theorem chooseMembership_ok {members : List Membership} {m : Membership} (h : v.chooseMembership members hint = .ok m) :
    m ∈ members ∧ (hint ≠ "" → v.parseUUID hint = some m.tenant.id) := by
  unfold chooseMembership at h
  split at h
  · rename_i hhint
    split at h
    · rename_i chosen hchosen
      cases h
      have hmatch := List.find?_some hchosen
      exact ⟨List.mem_of_find?_eq_some hchosen, fun _ => tenantMatches_iff.mp hmatch⟩
    · cases h
  · rename_i hhint
    split at h
    · cases h
    · cases h
      exact ⟨by simp, fun hne => absurd hne hhint⟩
    · cases h

theorem tenantClaim_eq_ok {claims : Claims} (h : v.tenantClaim claims = .ok claim) :
    (claim = none ∧ "tenant_id" ∉ claims) ∨
      ∃ tenantID, claim = some tenantID ∧ v.tenantIDFromClaims claims = some tenantID := by
  unfold tenantClaim at h
  split at h
  · rename_i hnone
    cases h
    exact .inl ⟨rfl, AList.lookup_eq_none.mp hnone⟩
  · rename_i s hlookup
    split at h
    · rename_i tenantID hparse
      cases h
      refine .inr ⟨tenantID, rfl, ?_⟩
      simp [tenantIDFromClaims, hlookup, hparse]
    · cases h
  · cases h

theorem isMember_of_mem {m : Membership} (hid : id = v.oidcVerifier.identityOf id.claims)
    (hm : m ∈ v.resolver.store.listMemberships id.issuer id.subject) : v.IsMember id.claims m.tenant.id m.role := by
  have hmember := (Store.mem_listMemberships hm).2
  rw [hid] at hmember
  exact hmember

/-- Without trust in its claim, an identity gets a tenant it is a member of, and
a claim it carries names such a tenant. -/
theorem selectMembership_ok (hid : id = v.oidcVerifier.identityOf id.claims)
    (h : v.selectMembership id claim hint = .ok id') :
    ∃ resolved role, id' = { id with resolved := some resolved, role := role } ∧
      resolved.tenant ∈ v.resolver.store.tenants ∧ resolved.tenant.status = .active ∧
      (hint ≠ "" → v.parseUUID hint = some resolved.tenant.id) ∧
      v.IsMember id.claims resolved.tenant.id role ∧
      ∀ tenantID, claim = some tenantID → ∃ role, v.IsMember id.claims tenantID role := by
  unfold selectMembership at h
  split at h
  · cases h
  split at h
  · cases h
  rename_i members hmembers
  have hlist := Resolver.answer_eq_ok hmembers
  subst hlist
  split at h
  · cases h
  rename_i hclaim
  split at h
  · cases h
  rename_i chosen hchosen
  obtain ⟨hmem, hhint⟩ := chooseMembership_ok hchosen
  obtain ⟨resolved, hid', htenants, hresolved, hactive⟩ := resolveTenant_ok h
  refine ⟨resolved, chosen.role, hid', htenants, hactive, ?_, ?_, ?_⟩
  · rw [hresolved]
    exact hhint
  · rw [hresolved]
    exact isMember_of_mem hid hmem
  · rintro tenantID rfl
    simp only [Option.any_some, Bool.not_eq_true', Bool.not_eq_false, hasMembership, List.any_eq_true,
      decide_eq_true_eq] at hclaim
    obtain ⟨m, hm, hmid⟩ := hclaim
    refine ⟨m.role, ?_⟩
    rw [← hmid]
    exact isMember_of_mem hid hm

/-- How a credential may come by a tenant. -/
def Entitled (v : Verifier) (raw : String) (id : Identity) (tenantID : UUID) : Prop :=
  (id.method = .apiKey ∧ v.ByAPIKey raw tenantID) ∨
    (id.method = .jwt ∧ v.ByJWT raw tenantID) ∨
    (id.method = .oidc ∧ id.admin = false ∧ v.oidcVerifier.Vouches raw id.claims ∧
      (v.IsMember id.claims tenantID id.role ∨
        v.trustTenantIDClaim = true ∧ v.tenantIDFromClaims id.claims = some tenantID)) ∨
    (id.method = .oidc ∧ id.admin = true ∧ v.AdminRecognized raw id.claims)

/-- Unless it is trusted, a tenant id claim on a user's token names a membership. -/
def ClaimIsMembership (v : Verifier) (id : Identity) : Prop :=
  v.trustTenantIDClaim = false → "tenant_id" ∈ id.claims →
    ∃ tenantID role, v.tenantIDFromClaims id.claims = some tenantID ∧ v.IsMember id.claims tenantID role

/-- What a successful call returns. -/
def Isolated (v : Verifier) (raw hint : String) (id : Identity) : Prop :=
  ∃ resolved, id.resolved = some resolved ∧ resolved.tenant ∈ v.resolver.store.tenants ∧
    resolved.tenant.status = .active ∧ (hint ≠ "" → v.parseUUID hint = some resolved.tenant.id) ∧
    v.Entitled raw id resolved.tenant.id ∧
    (id.method = .oidc → id.admin = false → v.ClaimIsMembership id)

section Vouched

variable (hid : id = v.oidcVerifier.identityOf id.claims) (hvouched : v.oidcVerifier.Vouches raw id.claims)

include hid hvouched

theorem selectMembership_isolated (hclaim : v.tenantClaim id.claims = .ok claim)
    (h : v.selectMembership id claim hint = .ok id') : v.Isolated raw hint id' := by
  have hmethod : id.method = .oidc := by rw [hid]; rfl
  have hadmin : id.admin = false := by rw [hid]; rfl
  obtain ⟨resolved, role, rfl, hmem, hactive, hhint, hmember, hclaimed⟩ := selectMembership_ok hid h
  refine ⟨resolved, rfl, hmem, hactive, hhint, .inr (.inr (.inl ⟨hmethod, hadmin, hvouched, .inl hmember⟩)), ?_⟩
  intro _ _ _ hpresent
  rcases tenantClaim_eq_ok hclaim with ⟨_, habsent⟩ | ⟨tenantID, rfl, hnamed⟩
  · exact absurd hpresent habsent
  · obtain ⟨role', hmember'⟩ := hclaimed tenantID rfl
    exact ⟨tenantID, role', hnamed, hmember'⟩

/-- A trusted claim stands for a membership, and a hint cannot lead away from it. -/
theorem trustedClaim_isolated {claimTenant : UUID} (hclaim : v.tenantClaim id.claims = .ok (some claimTenant))
    (htrust : v.trustTenantIDClaim = true) (hhint : ¬ (hint ≠ "" ∧ v.tenantMatches hint claimTenant = false))
    (h : v.resolveTenant id claimTenant "" = .ok id') : v.Isolated raw hint id' := by
  have hmethod : id.method = .oidc := by rw [hid]; rfl
  have hadmin : id.admin = false := by rw [hid]; rfl
  obtain ⟨resolved, rfl, hmem, hresolved, hactive⟩ := resolveTenant_ok h
  refine ⟨resolved, rfl, hmem, hactive, ?_, .inr (.inr (.inl ⟨hmethod, hadmin, hvouched, .inr ⟨htrust, ?_⟩⟩)), ?_⟩
  · intro hne
    rw [hresolved]
    have hmatch : v.tenantMatches hint claimTenant = true := by
      by_contra hno
      exact hhint ⟨hne, by simpa using hno⟩
    exact tenantMatches_iff.mp hmatch
  · rw [hresolved]
    rcases tenantClaim_eq_ok hclaim with ⟨habsurd, _⟩ | ⟨tenantID, heq, hnamed⟩
    · cases habsurd
    · cases heq
      exact hnamed
  · intro _ _ hno
    rw [htrust] at hno
    cases hno

theorem selectTenant_isolated (h : v.selectTenant id hint = .ok id') : v.Isolated raw hint id' := by
  unfold selectTenant at h
  split at h
  · cases h
  · rename_i claimTenant hclaim
    split at h
    · rename_i htrust
      split at h
      · cases h
      · rename_i hhint
        exact trustedClaim_isolated hid hvouched hclaim htrust hhint h
    · exact selectMembership_isolated hid hvouched hclaim h
  · rename_i hclaim
    exact selectMembership_isolated hid hvouched hclaim h

end Vouched

theorem chooseAdminTenant_ok (h : v.chooseAdminTenant hint = .ok tenantID) :
    hint ≠ "" → v.parseUUID hint = some tenantID := by
  intro hne
  unfold chooseAdminTenant at h
  rw [if_pos hne] at h
  split at h
  · rename_i parsed hparse
    cases h
    exact hparse
  · cases h

theorem selectAdminTenant_isolated (hmethod : id.method = .oidc) (hadmin : id.admin = true)
    (hrecognized : v.AdminRecognized raw id.claims) (h : v.selectAdminTenant id hint = .ok id') :
    v.Isolated raw hint id' := by
  unfold selectAdminTenant at h
  split at h
  · cases h
  rename_i tenantID hchosen
  split at h
  · cases h
  · cases h
  · rename_i resolved hresolved
    split at h
    · cases h
    rename_i hactive
    cases h
    obtain ⟨hmem, hid⟩ := resolveByTenantID_ok hresolved
    refine ⟨resolved, rfl, hmem, by simpa using hactive, ?_, .inr (.inr (.inr ⟨hmethod, hadmin, hrecognized⟩)), ?_⟩
    · rw [hid]
      exact chooseAdminTenant_ok hchosen
    · intro _ hno
      rw [hadmin] at hno
      cases hno

/-- A credential that names its tenant keeps it, and a hint has to agree. -/
theorem bound_isolated {resolved : Resolved} (hresolved : id.resolved = some resolved)
    (hmem : resolved.tenant ∈ v.resolver.store.tenants) (hactive : resolved.tenant.status = .active)
    (hentitled : v.Entitled raw id resolved.tenant.id) (hmethod : id.method ≠ .oidc)
    (hhint : ¬ (hint ≠ "" ∧ v.tenantMatches hint resolved.tenant.id = false)) : v.Isolated raw hint id := by
  refine ⟨resolved, hresolved, hmem, hactive, ?_, hentitled, fun hoidc => absurd hoidc hmethod⟩
  intro hne
  have hmatch : v.tenantMatches hint resolved.tenant.id = true := by
    by_contra hno
    exact hhint ⟨hne, by simpa using hno⟩
  exact tenantMatches_iff.mp hmatch

/-- Tenant isolation of authentication: on every route a caller ends up with an
active tenant that its hint agrees with and that its credential entitles it to,
and a tenant id claim that is no membership helps a user only when it is trusted. -/
theorem authenticateForTenant_isolated {v : Verifier} {raw hint : String} {id : Identity}
    (h : v.authenticateForTenant raw hint = .ok id) : v.Isolated raw hint id := by
  unfold authenticateForTenant at h
  split at h
  · cases h
  rename_i subject hsubject
  cases authenticateSubject_ok hsubject with
  | apiKey resolved hmethod hadmin hresolved hmem hactive hkey =>
    simp only [hadmin, hresolved, Bool.false_eq_true, if_false] at h
    split at h
    · cases h
    · rename_i hhint
      cases h
      exact bound_isolated hresolved hmem hactive (.inl ⟨hmethod, hkey⟩) (by simp [hmethod]) hhint
  | jwt resolved hmethod hadmin hresolved hmem hactive hclaim =>
    simp only [hadmin, hresolved, Bool.false_eq_true, if_false] at h
    split at h
    · cases h
    · rename_i hhint
      cases h
      exact bound_isolated hresolved hmem hactive (.inr (.inl ⟨hmethod, hclaim⟩)) (by simp [hmethod]) hhint
  | user hid hvouched =>
    have hadmin : subject.admin = false := by rw [hid]; rfl
    have hresolved : subject.resolved = none := by rw [hid]; rfl
    simp only [hadmin, hresolved, Bool.false_eq_true, if_false] at h
    exact selectTenant_isolated hid hvouched h
  | admin hmethod hadmin hresolved hrecognized =>
    simp only [hadmin, if_true] at h
    exact selectAdminTenant_isolated hmethod hadmin hrecognized h

/-- A verifier for OIDC users over one tenant with one member. -/
def sampleVerifier : Verifier where
  methods := {.oidc}
  jwtSigningKey := ""
  oidcVerifier :=
    { issuerURL := "https://idp.example.com"
      introspectionEnabled := false
      verify := fun _ => .ok (GoMap.putAll ∅ [("iss", .str "https://idp.example.com"), ("sub", .str "alice")])
      introspect := fun _ => .error (.invalidToken "introspection is off") }
  resolver :=
    { store :=
        { tenants := [{ id := 7, slug := "acme", name := "Acme", status := .active }]
          configs := [(7, { tierCeiling := "basic", tierEnforcementMode := .strip })]
          apiKeys := []
          members := [{ tenantID := 7, issuer := "https://idp.example.com", subject := "alice", role := "viewer" }]
          sha256 := fun _ => []
          nameLe := fun a b => decide (a ≤ b) }
      fault := fun _ => none }
  apiKeyScope := .metricsQuery
  extraAPIKeyScopes := []
  trustTenantIDClaim := false
  admin := none
  parseUUID := fun s => if s = "00000000-0000-0000-0000-000000000007" then some 7 else none
  headerAlg := fun header => if header = "eyJhbGciOiJSUzI1NiJ9" then some "RS256" else none
  parseHS256 := fun _ _ => none

theorem authenticateForTenant_isolated_member :
    ∃ id, sampleVerifier.authenticateForTenant "eyJhbGciOiJSUzI1NiJ9.e30.c2ln"
        "00000000-0000-0000-0000-000000000007" = .ok id ∧
      sampleVerifier.Isolated "eyJhbGciOiJSUzI1NiJ9.e30.c2ln" "00000000-0000-0000-0000-000000000007" id :=
  ⟨_, rfl, authenticateForTenant_isolated rfl⟩

end argvio.authn.Verifier
