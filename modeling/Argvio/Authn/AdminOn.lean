import Argvio.Authn.Isolation

open gostrings
open argvio.tenant

namespace argvio.authn.Verifier

variable {v : Verifier} {a : AdminAccess} {raw : String} {id : Identity} {isOpaque : Bool}

/-- The same verifier with admin access on or off. -/
def withAdmin (v : Verifier) (admin : Option AdminAccess) : Verifier := { v with admin := admin }

variable (admin : Option AdminAccess)

@[simp] theorem withAdmin_admin : (v.withAdmin admin).admin = admin := rfl

@[simp] theorem withAdmin_methods : (v.withAdmin admin).methods = v.methods := rfl

@[simp] theorem withAdmin_oidcVerifier :
    (v.withAdmin admin).oidcVerifier = v.oidcVerifier := rfl

@[simp] theorem withAdmin_peekAlg : (v.withAdmin admin).peekAlg raw = v.peekAlg raw := rfl

/-- What a caller gets once admin access is on: the identity it had before, unless a
rule recognizes the one that admin verification vouches for. -/
def SameOrAdmin (v : Verifier) (a : AdminAccess) (raw : String) (id id' : Identity) : Prop :=
  id' = id ∨ id'.admin = true ∧ (v.withAdmin (some a)).AdminRecognized raw id'.claims

/-- The credential is opaque, only admin verification introspects, and there the
provider is unavailable or finds a scope missing. -/
def AdminBlocks (v : Verifier) (a : AdminAccess) (raw : String) : Prop :=
  cutPrefix raw "argv_" = none ∧ v.peekAlg raw = none ∧ Method.oidc ∈ v.methods ∧
    v.oidcVerifier.introspectionEnabled = false ∧
    ∃ ov, a.verifier = some ov ∧ ov.introspectionEnabled = true ∧
      ∃ detail, ov.introspect raw = .error (.insufficientScope detail) ∨
        ov.introspect raw = .error (.providerUnavailable detail)

theorem resolveScopes_withAdmin (scopes : List Scope) :
    (v.withAdmin admin).resolveScopes raw scopes = v.resolveScopes raw scopes := by
  induction scopes with
  | nil => rfl
  | cons scope scopes ih =>
    simp only [resolveScopes, ih]
    rfl

/-- API keys do not depend on admin access. -/
theorem authenticateAPIKey_withAdmin :
    (v.withAdmin admin).authenticateAPIKey raw = v.authenticateAPIKey raw := by
  simp only [authenticateAPIKey, resolveScopes_withAdmin]
  rfl

variable {ov : OIDCVerifier}

/-- An identity that admin verification made is one that a rule recognizes. -/
theorem sameOrAdmin_of_admitAdmin {user adminId : Identity} (hov : a.verifier.getD v.oidcVerifier = ov)
    (huser : verifyOIDC ov raw isOpaque = .ok user) (hadmitted : a.admitAdmin user = some adminId) :
    v.SameOrAdmin a raw id adminId := by
  obtain ⟨hvouched, huserEq⟩ := verifyOIDC_ok huser
  obtain ⟨_, hflag, _, hclaims, recognize, hmem, hmatch⟩ := admitAdmin_eq_some hadmitted
  rw [huserEq] at hmatch
  refine .inr ⟨hflag, a, ov, rfl, hov, ?_, recognize, hmem, ?_⟩
  · rw [hclaims]
    exact hvouched
  · rw [hclaims]
    exact hmatch

/-- An identity that admin verification makes is an admin's. -/
theorem sameOrAdmin_of_authenticateAdminFirst {adminId : Identity}
    (h : (v.withAdmin (some a)).authenticateAdminFirst raw isOpaque = .ok adminId) : v.SameOrAdmin a raw id adminId := by
  obtain ⟨a', ov, user, hadmin, hov, huser, hadmitted⟩ := authenticateAdminFirst_eq_ok h
  obtain rfl : a = a' := Option.some.inj hadmin
  exact sameOrAdmin_of_admitAdmin hov huser hadmitted

/-- A token that verifies as a user's still does with admin access on. -/
theorem exists_authenticateOIDC (huser : verifyOIDC v.oidcVerifier raw isOpaque = .ok id)
    (hroute : ¬ (isOpaque = true ∧ v.oidcVerifier.introspectionEnabled = false)) :
    ∃ id', (v.withAdmin (some a)).authenticateOIDC raw isOpaque = .ok id' ∧ v.SameOrAdmin a raw id id' := by
  unfold authenticateOIDC
  cases hfirst : (v.withAdmin (some a)).authenticateAdminFirst raw isOpaque with
  | ok adminId => exact ⟨adminId, rfl, sameOrAdmin_of_authenticateAdminFirst hfirst⟩
  | error adminErr =>
    have hon : ¬ (isOpaque = true ∧ (v.withAdmin (some a)).oidcVerifier.introspectionEnabled = false) := hroute
    dsimp only
    rw [if_neg hon]
    simp only [authenticateUser, withAdmin_admin, withAdmin_oidcVerifier, huser]
    cases hverifier : a.verifier with
    | some ov => exact ⟨id, rfl, .inl rfl⟩
    | none =>
      cases hadmitted : a.admitAdmin id with
      | none => exact ⟨id, rfl, .inl rfl⟩
      | some adminId =>
        refine ⟨adminId, rfl, ?_⟩
        exact sameOrAdmin_of_admitAdmin (by rw [hverifier, Option.getD_none]) huser hadmitted

/-- With admin access off, an OIDC credential is verified as a user's. -/
theorem verifyOIDC_of_authenticateOIDC (hroute : ¬ (isOpaque = true ∧ v.oidcVerifier.introspectionEnabled = false))
    (h : (v.withAdmin none).authenticateOIDC raw isOpaque = .ok id) :
    verifyOIDC v.oidcVerifier raw isOpaque = .ok id := by
  have hoff : ¬ (isOpaque = true ∧ (v.withAdmin none).oidcVerifier.introspectionEnabled = false) := hroute
  simp only [authenticateOIDC, authenticateAdminFirst, withAdmin_admin] at h
  rw [if_neg hoff] at h
  simp only [authenticateUser, withAdmin_admin, withAdmin_oidcVerifier] at h
  cases huser : verifyOIDC v.oidcVerifier raw isOpaque with
  | error err => simp [huser] at h
  | ok user =>
    simp only [huser, Except.ok.injEq] at h
    rw [h]

/-- Where only admin verification introspects, an API key gets through exactly when
the introspection does not fail for want of a provider or a scope. -/
theorem authenticateOIDC_apiKey_iff (hverifier : a.verifier = some ov) (hintrospects : ov.introspectionEnabled = true)
    (huser : v.oidcVerifier.introspectionEnabled = false) (hkey : v.authenticateAPIKey raw = .ok id) :
    (∃ id', (v.withAdmin (some a)).authenticateOIDC raw true = .ok id' ∧ v.SameOrAdmin a raw id id') ↔
      ¬ ∃ detail, ov.introspect raw = .error (.insufficientScope detail) ∨
        ov.introspect raw = .error (.providerUnavailable detail) := by
  have hov : a.verifier.getD v.oidcVerifier = ov := by rw [hverifier, Option.getD_some]
  simp only [authenticateOIDC, authenticateAdminFirst, withAdmin_admin, hverifier, hintrospects, withAdmin_oidcVerifier,
    huser, verifyOIDC, authenticateAPIKey_withAdmin, hkey, Bool.true_eq_false, and_false, if_false, and_self, if_true]
  cases hanswer : ov.introspect raw with
  | error err =>
    cases err with
    | invalidToken reason => simp [SameOrAdmin]
    | insufficientScope detail | providerUnavailable detail => simp
  | ok claims =>
    have hverified : verifyOIDC ov raw true = .ok (ov.identityOf claims) := by
      simp [verifyOIDC, hanswer, OIDCVerifier.identityOf]
    have hidentity : (⟨.oidc, none, claims, ov.issuerURL, claimString claims "sub", "", false, ""⟩ : Identity) =
        ov.identityOf claims := rfl
    simp only [hidentity]
    cases hadmitted : a.admitAdmin (ov.identityOf claims) with
    | none => simp [SameOrAdmin]
    | some adminId =>
      have hsame := @sameOrAdmin_of_admitAdmin v a raw id true ov _ adminId hov hverified hadmitted
      simp [hsame]

/-- Turning admin access on sends the credential from the API keys to OIDC. -/
structure Diverts (v : Verifier) (a : AdminAccess) (raw : String) : Prop where
  unmarked : cutPrefix raw "argv_" = none
  noAlg : v.peekAlg raw = none
  oidc : Method.oidc ∈ v.methods
  user : v.oidcVerifier.introspectionEnabled = false
  introspects : a.introspects = true

theorem Diverts.introspectionEnabled (h : v.Diverts a raw) (hverifier : a.verifier = some ov) :
    ov.introspectionEnabled = true := by
  simpa [AdminAccess.introspects, hverifier] using h.introspects

theorem adminBlocks_iff (hverifier : a.verifier = some ov) (hdiverts : v.Diverts a raw) :
    v.AdminBlocks a raw ↔ ∃ detail, ov.introspect raw = .error (.insufficientScope detail) ∨
      ov.introspect raw = .error (.providerUnavailable detail) := by
  constructor
  · rintro ⟨_, _, _, _, ov', hverifier', _, hfails⟩
    obtain rfl : ov = ov' := Option.some.inj (hverifier.symm.trans hverifier')
    exact hfails
  · intro hfails
    have hintrospects := hdiverts.introspectionEnabled hverifier
    exact ⟨hdiverts.unmarked, hdiverts.noAlg, hdiverts.oidc, hdiverts.user, ov, hverifier, hintrospects, hfails⟩

theorem AdminBlocks.diverts (h : v.AdminBlocks a raw) : v.Diverts a raw := by
  obtain ⟨hunmarked, hnoAlg, hoidc, huser, ov, hverifier, hintrospects, _⟩ := h
  exact ⟨hunmarked, hnoAlg, hoidc, huser, by simpa [AdminAccess.introspects, hverifier] using hintrospects⟩

theorem Diverts.route_off (h : v.Diverts a raw) (hraw : raw ≠ "") : (v.withAdmin none).route raw = .apiKey := by
  simp [route, hraw, h.unmarked, h.noAlg, h.user]

theorem Diverts.route_on (h : v.Diverts a raw) (hraw : raw ≠ "") :
    (v.withAdmin (some a)).route raw = .oidc true := by
  simp [route, hraw, h.unmarked, h.noAlg, h.oidc, h.introspects]

theorem route_of_not_diverts (h : ¬ v.Diverts a raw) :
    (v.withAdmin (some a)).route raw = (v.withAdmin none).route raw := by
  unfold route
  simp only [withAdmin_peekAlg]
  cases hmarked : cutPrefix raw "argv_" with
  | some rest => rfl
  | none =>
    cases halg : v.peekAlg raw with
    | some alg => rfl
    | none =>
      by_cases hoidc : Method.oidc ∈ v.methods
      · cases huser : v.oidcVerifier.introspectionEnabled with
        | true => simp [huser]
        | false =>
          have hadmin : a.introspects = false := by
            by_contra hon
            exact h ⟨hmarked, halg, hoidc, huser, by simpa using hon⟩
          simp [huser, hadmin]
      · simp [hoidc]

/-- Without admin access only a provider that introspects gets opaque tokens. -/
theorem introspects_of_route (h : (v.withAdmin none).route raw = .oidc isOpaque) :
    ¬ (isOpaque = true ∧ v.oidcVerifier.introspectionEnabled = false) := by
  rintro ⟨rfl, huser⟩
  unfold route at h
  cases halg : v.peekAlg raw with
  | none =>
    simp only [withAdmin_peekAlg, withAdmin_oidcVerifier, withAdmin_admin, halg, huser] at h
    split_ifs at h with _ _ hintrospects
    cases hintrospects.2
  | some alg =>
    simp only [withAdmin_peekAlg, halg] at h
    split_ifs at h
    cases h

/-- Where the credential takes the same way as before, it still works. -/
theorem exists_authenticateBy {way : Route} (hway : (v.withAdmin none).route raw = way)
    (h : (v.withAdmin none).authenticateBy raw way = .ok id) :
    ∃ id', (v.withAdmin (some a)).authenticateBy raw way = .ok id' ∧ v.SameOrAdmin a raw id id' := by
  cases way with
  | refused => cases h
  | apiKey =>
    have hsame : (v.withAdmin (some a)).authenticateAPIKey raw = (v.withAdmin none).authenticateAPIKey raw := by
      rw [authenticateAPIKey_withAdmin, authenticateAPIKey_withAdmin]
    exact ⟨id, hsame.trans h, .inl rfl⟩
  | jwt => exact ⟨id, h, .inl rfl⟩
  | oidc isOpaque =>
    have hroute := introspects_of_route hway
    exact exists_authenticateOIDC (verifyOIDC_of_authenticateOIDC hroute h) hroute

/-- Turning admin access on leaves a credential that works without it working, with
the same identity unless it is an admin's, exactly when admin verification does not
block it. -/
theorem authenticateSubject_admin_on_iff (hoff : (v.withAdmin none).authenticateSubject raw = .ok id) :
    (∃ id', (v.withAdmin (some a)).authenticateSubject raw = .ok id' ∧ v.SameOrAdmin a raw id id') ↔
      ¬ v.AdminBlocks a raw := by
  have hraw : raw ≠ "" := by
    rintro rfl
    cases hoff
  rw [authenticateSubject_eq] at hoff ⊢
  by_cases hdiverts : v.Diverts a raw
  · rw [hdiverts.route_off hraw] at hoff
    rw [hdiverts.route_on hraw]
    have hkey : v.authenticateAPIKey raw = .ok id := by
      rw [← authenticateAPIKey_withAdmin none]
      exact hoff
    cases hverifier : a.verifier with
    | none =>
      have hintrospects := hdiverts.introspects
      simp [AdminAccess.introspects, hverifier] at hintrospects
    | some ov =>
      have hintrospects := hdiverts.introspectionEnabled hverifier
      rw [adminBlocks_iff hverifier hdiverts]
      exact authenticateOIDC_apiKey_iff hverifier hintrospects hdiverts.user hkey
  · rw [route_of_not_diverts hdiverts]
    exact iff_of_true (exists_authenticateBy rfl hoff) (fun hblocks => hdiverts hblocks.diverts)

/-- A verifier whose only API key does not look like one. -/
def legacyVerifier : Verifier :=
  { sampleVerifier with
    methods := {.apiKey, .oidc}
    resolver :=
      { sampleVerifier.resolver with
        store :=
          { sampleVerifier.resolver.store with
            apiKeys := [{ id := 1, tenantID := 7, keyHash := [], scope := .metricsQuery, revokedAt := none }] } } }

/-- Admin access with a provider of its own that introspects. -/
def adminAnswering (answer : Except OIDCError Claims) : AdminAccess where
  verifier := some
    { issuerURL := "https://admin.example.com"
      introspectionEnabled := true
      verify := fun _ => .error (.invalidToken "not a JWS")
      introspect := fun _ => answer }
  recognizers := [fun id => if id.subject = "root" then some "subjects" else none]
  role := "viewer"
  roleClaim := ""

theorem authenticateSubject_admin_on_iff_inactive :
    ∃ id, (legacyVerifier.withAdmin none).authenticateSubject "legacy-key" = .ok id ∧
      ∃ id', (legacyVerifier.withAdmin (some (adminAnswering (.error (.invalidToken "inactive"))))).authenticateSubject
          "legacy-key" = .ok id' ∧
        legacyVerifier.SameOrAdmin (adminAnswering (.error (.invalidToken "inactive"))) "legacy-key" id id' := by
  refine ⟨_, rfl, (authenticateSubject_admin_on_iff rfl).mpr ?_⟩
  rintro ⟨_, _, _, _, _, ⟨⟩, _, _, hfails | hfails⟩
  · cases hfails
  · cases hfails

/-- While the admin provider is down, a key that works without admin access is refused. -/
theorem admin_outage_refuses_api_key :
    ∃ id, (legacyVerifier.withAdmin none).authenticateSubject "legacy-key" = .ok id ∧
      (legacyVerifier.withAdmin (some (adminAnswering (.error (.providerUnavailable "down"))))).authenticateSubject
        "legacy-key" = .error (.providerUnavailable "down") :=
  ⟨_, rfl, rfl⟩

end argvio.authn.Verifier
