import Argvio.Authn.Memberships
import Argvio.Metricsapi.Ratios

open gostrings
open argvio.authn argvio.tenant

namespace argvio.metricsapi

def statusForbidden : Nat := 403

def statusServiceUnavailable : Nat := 503

/-- The header a caller names its tenant with. -/
def tenantHeader : String := "X-Argvio-Tenant"

/-- One element of the `GET /v1/tenants` response. -/
structure TenantJSON where
  id : String
  name : String
  role : String
  deriving DecidableEq

def bearerToken (authorization : String) : Option String :=
  match cutPrefix authorization "Bearer " with
  | none => none
  | some tok => if tok = "" then none else some tok

/-- `writeAuthError`, without the challenge header. -/
def authErrorAnswer : AuthError → HTTPError
  | .providerUnavailable _ =>
    ⟨statusServiceUnavailable, "provider_unavailable", "the identity provider could not be reached; retry shortly"⟩
  | .insufficientScope _ => ⟨statusForbidden, "insufficient_scope", "token lacks a required scope"⟩
  | .tenantSuspended => ⟨statusForbidden, "forbidden", "tenant is suspended"⟩
  | .noTenantAccess => ⟨statusForbidden, "no_tenant_access", "no access to the requested tenant"⟩
  | .tenantRequired =>
    ⟨statusBadRequest, "tenant_required",
      "this identity belongs to several tenants; send " ++ tenantHeader ++ " to choose one"⟩
  | .unauthenticated _ => ⟨statusUnauthorized, "unauthorized", "invalid or expired credential"⟩
  | .resolver _ => ⟨statusInternalServerError, "internal_error", "failed to resolve identity"⟩

/-- Authenticates an OIDC caller without choosing a tenant. -/
def userMiddleware (v : Verifier) (authorization : String) : Except HTTPError Identity :=
  match bearerToken authorization with
  | none => .error ⟨statusUnauthorized, "unauthorized", "missing Bearer authorization header"⟩
  | some raw =>
    match v.authenticateSubject raw with
    | .error err => .error (authErrorAnswer err)
    | .ok id =>
      if id.method ≠ .oidc then .error ⟨statusForbidden, "forbidden", "this endpoint requires an OIDC user token"⟩
      else .ok id

section Tenants

variable (v : Verifier) (uuidString : UUID → String)

/-- Lists the tenants the caller may select with the tenant header. -/
def handleTenants (id : Identity) : Except HTTPError (List TenantJSON) :=
  match v.memberships id with
  | .error _ => .error ⟨statusInternalServerError, "internal_error", "failed to list tenants"⟩
  | .ok members =>
    .ok (members.map (fun m => { id := uuidString m.tenant.id, name := m.tenant.name, role := m.role }))

/-- Serves `GET /v1/tenants`. -/
def serveTenants (authorization : String) : Except HTTPError (List TenantJSON) :=
  match userMiddleware v authorization with
  | .error err => .error err
  | .ok id => handleTenants v uuidString id

/-- The tenants that the response to a credential lists. -/
def listed (raw : String) : Set UUID :=
  { t | ∃ tenants, serveTenants v uuidString ("Bearer " ++ raw) = .ok tenants ∧ ∃ j ∈ tenants, j.id = uuidString t }

/-- The tenants that the credential can be used for, by naming them. -/
def selectable (raw : String) : Set UUID := { t | ∃ id, v.authenticateForTenant raw (uuidString t) = .ok id }

/-- What `uuid` documents: the text of an id parses to it. -/
structure UUIDText : Prop where
  nonempty : ∀ t, uuidString t ≠ ""
  parse : ∀ t, v.parseUUID (uuidString t) = some t

/-- A user's tenant id claim does not come between the memberships and the selection: it is
well formed, and one that is trusted names the only membership, if it names a usable tenant at
all, while one that is not names one of them. Without memberships there is nothing to lose. -/
def ClaimAgrees (id : Identity) : Prop :=
  match v.tenantClaim id.claims with
  | .error _ => ∀ t, ¬ v.Member id t
  | .ok none => True
  | .ok (some c) =>
    if v.trustTenantIDClaim then (v.resolver.store.Usable c → v.Member id c) ∧ ∀ t, v.Member id t → t = c
    else v.Member id c ∨ ∀ t, ¬ v.Member id t

/-- Every tenant to be listed is active and configured, and a user's claim agrees. -/
def ListAgrees (id : Identity) : Prop :=
  if id.admin then
    ∀ t ∈ v.resolver.store.tenants, t.status = .active → ∃ c ∈ v.resolver.store.configs, c.1 = t.id
  else (∀ t, v.Member id t → v.resolver.store.Usable t) ∧ ClaimAgrees v id

/-- What a user can select, by its claim. -/
def MaySelect (id : Identity) (t : UUID) : Prop :=
  match v.tenantClaim id.claims with
  | .error _ => False
  | .ok none => v.Member id t ∧ v.resolver.store.Usable t
  | .ok (some c) =>
    if v.trustTenantIDClaim then t = c ∧ v.resolver.store.Usable t
    else v.Member id t ∧ v.resolver.store.Usable t ∧ v.Member id c

end Tenants

section Selection

variable {v : Verifier} {uuidString : UUID → String} {raw : String} {id : Identity} {t : UUID}

theorem UUIDText.injective (htext : UUIDText v uuidString) {t t' : UUID} (h : uuidString t = uuidString t') : t = t' := by
  have hparse := htext.parse t
  rw [h, htext.parse t'] at hparse
  exact (Option.some.inj hparse).symm

/-- A verified credential reaches the handler. -/
theorem userMiddleware_eq (hsubject : v.authenticateSubject raw = .ok id) (hmethod : id.method = .oidc) :
    userMiddleware v ("Bearer " ++ raw) = .ok id := by
  have hraw : raw ≠ "" := by
    rintro rfl
    cases hsubject
  have htoken : bearerToken ("Bearer " ++ raw) = some raw := by
    unfold bearerToken
    rw [cutPrefix_eq_some_iff.mpr rfl]
    exact if_neg hraw
  unfold userMiddleware
  rw [htoken]
  dsimp only
  rw [hsubject]
  exact if_neg (not_not.mpr hmethod)

section Listed

variable (hreach : v.Reachable) (hkeyed : v.resolver.store.Keyed) (htext : UUIDText v uuidString)

include hreach hkeyed htext

theorem mem_listed_iff (hsubject : v.authenticateSubject raw = .ok id) (hmethod : id.method = .oidc) :
    t ∈ listed v uuidString raw ↔
      if id.admin then ∃ row ∈ v.resolver.store.tenants, row.id = t ∧ row.status = .active else v.Member id t := by
  obtain ⟨members, hmembers, hids⟩ := Verifier.exists_memberships hreach hkeyed hmethod
  rw [← hids t]
  unfold listed serveTenants handleTenants
  rw [userMiddleware_eq hsubject hmethod]
  dsimp only
  rw [hmembers]
  simp only [Set.mem_ofPred_eq, Except.ok.injEq, exists_eq_left', List.mem_map, exists_exists_and_eq_and]
  constructor
  · rintro ⟨m, hm, hid⟩
    exact ⟨m, hm, htext.injective hid⟩
  · rintro ⟨m, hm, hid⟩
    exact ⟨m, hm, congrArg uuidString hid⟩

theorem exists_selectTenant_iff : (∃ id', v.selectTenant id (uuidString t) = .ok id') ↔ MaySelect v id t := by
  unfold Verifier.selectTenant MaySelect
  cases v.tenantClaim id.claims with
  | error e => simp
  | ok claim =>
    cases claim with
    | none =>
      dsimp only
      rw [Verifier.exists_selectMembership_iff hreach hkeyed (htext.nonempty t) (htext.parse t)]
      simp
    | some c =>
      dsimp only
      by_cases htrust : v.trustTenantIDClaim = true
      · rw [if_pos htrust, if_pos htrust]
        have hmatches : v.tenantMatches (uuidString t) c = true ↔ t = c := by
          rw [Verifier.tenantMatches_iff, htext.parse t, Option.some.injEq]
        by_cases hclaim : t = c
        · rw [if_neg (by simp [hmatches.mpr hclaim]), Verifier.exists_resolveTenant_iff hreach hkeyed, hclaim]
          exact (and_iff_right rfl).symm
        · have hno : v.tenantMatches (uuidString t) c = false := by
            rw [Bool.eq_false_iff]
            exact fun h => hclaim (hmatches.mp h)
          rw [if_pos ⟨htext.nonempty t, hno⟩]
          simp [hclaim]
      · rw [if_neg htrust, if_neg htrust,
          Verifier.exists_selectMembership_iff hreach hkeyed (htext.nonempty t) (htext.parse t)]
        simp

theorem mem_selectable_iff (hsubject : v.authenticateSubject raw = .ok id) (hmethod : id.method = .oidc) :
    t ∈ selectable v uuidString raw ↔ if id.admin then v.resolver.store.Usable t else MaySelect v id t := by
  unfold selectable Verifier.authenticateForTenant
  rw [Set.mem_ofPred_eq, hsubject]
  dsimp only
  cases hadmin : id.admin with
  | true =>
    rw [if_pos rfl, if_pos rfl]
    exact Verifier.exists_selectAdminTenant_iff hreach hkeyed (htext.nonempty t) (htext.parse t)
  | false =>
    have hresolved : id.resolved = none := by
      cases Verifier.authenticateSubject_ok hsubject with
      | apiKey resolved hkey => rw [hmethod] at hkey; cases hkey
      | jwt resolved hjwt => rw [hmethod] at hjwt; cases hjwt
      | user hid hvouched => rw [hid]; rfl
      | admin hmethod' hadmin' hresolved => exact hresolved
    rw [if_neg Bool.false_ne_true, if_neg Bool.false_ne_true, hresolved]
    exact exists_selectTenant_iff hreach hkeyed htext

end Listed

/-- For a user, by the four forms of its claim. -/
theorem member_iff_maySelect :
    (∀ t, v.Member id t ↔ MaySelect v id t) ↔ (∀ t, v.Member id t → v.resolver.store.Usable t) ∧ ClaimAgrees v id := by
  unfold MaySelect ClaimAgrees
  cases v.tenantClaim id.claims with
  | error e =>
    simp only [iff_false]
    exact ⟨fun h => ⟨fun t ht => absurd ht (h t), h⟩, fun h => h.2⟩
  | ok claim =>
    cases claim with
    | none =>
      simp only [and_true]
      exact ⟨fun h t ht => ((h t).mp ht).2, fun h t => ⟨fun ht => ⟨ht, h t ht⟩, fun ht => ht.1⟩⟩
    | some c =>
      by_cases htrust : v.trustTenantIDClaim = true
      · simp only [htrust, if_true]
        constructor
        · intro h
          exact ⟨fun t ht => ((h t).mp ht).2, fun husable => (h c).mpr ⟨rfl, husable⟩, fun t ht => ((h t).mp ht).1⟩
        · rintro ⟨husable, hnamed, honly⟩ t
          constructor
          · exact fun ht => ⟨honly t ht, husable t ht⟩
          · rintro ⟨rfl, ht⟩
            exact hnamed ht
      · simp only [htrust, if_false, Bool.false_eq_true]
        constructor
        · intro h
          refine ⟨fun t ht => ((h t).mp ht).2.1, ?_⟩
          by_cases hc : v.Member id c
          · exact .inl hc
          · exact .inr (fun t ht => hc ((h t).mp ht).2.2)
        · rintro ⟨husable, hclaim⟩ t
          refine ⟨fun ht => ⟨ht, husable t ht, ?_⟩, fun h => h.1⟩
          rcases hclaim with hc | hnone
          · exact hc
          · exact absurd ht (hnone t)

/-- The list of tenants is what its caller can select exactly when every tenant to be listed is
active and configured and, for a user, the claim agrees with the memberships. -/
theorem listed_eq_selectable_iff (hreach : v.Reachable) (hkeyed : v.resolver.store.Keyed)
    (htext : UUIDText v uuidString) (hsubject : v.authenticateSubject raw = .ok id) (hmethod : id.method = .oidc) :
    listed v uuidString raw = selectable v uuidString raw ↔ ListAgrees v id := by
  rw [Set.ext_iff]
  have hiff (t : UUID) : (t ∈ listed v uuidString raw ↔ t ∈ selectable v uuidString raw) ↔
      ((if id.admin then ∃ row ∈ v.resolver.store.tenants, row.id = t ∧ row.status = .active else v.Member id t) ↔
        if id.admin then v.resolver.store.Usable t else MaySelect v id t) := by
    rw [mem_listed_iff hreach hkeyed htext hsubject hmethod, mem_selectable_iff hreach hkeyed htext hsubject hmethod]
  rw [forall_congr' hiff]
  unfold ListAgrees
  cases id.admin with
  | true =>
    simp only [if_true]
    constructor
    · intro h t ht hactive
      exact ((h t.id).mp ⟨t, ht, rfl, hactive⟩).2
    · intro h t
      refine ⟨fun hrow => ⟨hrow, ?_⟩, fun husable => husable.1⟩
      obtain ⟨row, hrow, rfl, hactive⟩ := hrow
      exact h row hrow hactive
  | false =>
    simp only [if_false, Bool.false_eq_true]
    exact member_iff_maySelect

end Selection

/-- A text for ids that parses back. -/
def unaryText (t : UUID) : String := String.ofList ('#' :: List.replicate t.toNat '1')

def parseUnary (s : String) : Option UUID := some (BitVec.ofNat 128 (s.toList.length - 1))

/-- The sample verifier, over one tenant with the given status. -/
def statusVerifier (status : Status) : Verifier :=
  { Verifier.sampleVerifier with
    resolver :=
      { store :=
          { tenants := [{ id := 7, slug := "acme", name := "Acme", status := status }]
            configs := [(7, { tierCeiling := "basic", tierEnforcementMode := .strip })]
            apiKeys := []
            members := [{ tenantID := 7, issuer := "https://idp.example.com", subject := "alice", role := "viewer" }]
            sha256 := fun _ => []
            nameLe := fun a b => decide (a ≤ b) }
        fault := fun _ => none }
    parseUUID := parseUnary }

def aliceToken : String := "eyJhbGciOiJSUzI1NiJ9.e30.c2ln"

def alice : Identity where
  method := .oidc
  claims := GoMap.putAll ∅ [("iss", .str "https://idp.example.com"), ("sub", .str "alice")]
  issuer := "https://idp.example.com"
  subject := "alice"

theorem uuidText_statusVerifier (status : Status) : UUIDText (statusVerifier status) unaryText where
  nonempty := by
    intro t h
    have hlist := congrArg String.toList h
    rw [unaryText, String.toList_ofList] at hlist
    cases hlist
  parse := by
    intro t
    change parseUnary (unaryText t) = some t
    simp [parseUnary, unaryText]

theorem keyed_statusVerifier (status : Status) : (statusVerifier status).resolver.store.Keyed where
  ids := by simp [statusVerifier]
  members := by simp [statusVerifier]

/-- With an active tenant the condition holds and the two sets agree. -/
theorem listed_eq_selectable_active :
    ListAgrees (statusVerifier .active) alice ∧
      listed (statusVerifier .active) unaryText aliceToken = selectable (statusVerifier .active) unaryText aliceToken := by
  have hagrees : ListAgrees (statusVerifier .active) alice := by
    refine ⟨?_, trivial⟩
    rintro t ⟨_, m, hm, rfl, _⟩
    obtain rfl := List.mem_singleton.mp hm
    exact ⟨⟨_, List.mem_singleton_self _, rfl, rfl⟩, _, List.mem_singleton_self _, rfl⟩
  exact ⟨hagrees, (listed_eq_selectable_iff (fun _ => rfl) (keyed_statusVerifier .active)
    (uuidText_statusVerifier .active) rfl rfl).mpr hagrees⟩

/-- A suspended tenant is listed and cannot be selected. -/
theorem listed_suspended_not_selectable :
    serveTenants (statusVerifier .suspended) unaryText ("Bearer " ++ aliceToken) =
        .ok [{ id := unaryText 7, name := "Acme", role := "viewer" }] ∧
      (statusVerifier .suspended).authenticateForTenant aliceToken (unaryText 7) = .error .tenantSuspended ∧
      listed (statusVerifier .suspended) unaryText aliceToken ≠
        selectable (statusVerifier .suspended) unaryText aliceToken := by
  have hserve : serveTenants (statusVerifier .suspended) unaryText ("Bearer " ++ aliceToken) =
      .ok [{ id := unaryText 7, name := "Acme", role := "viewer" }] := rfl
  have hrefused : (statusVerifier .suspended).authenticateForTenant aliceToken (unaryText 7) = .error .tenantSuspended :=
    rfl
  refine ⟨hserve, hrefused, fun heq => ?_⟩
  have hlisted : (7 : UUID) ∈ listed (statusVerifier .suspended) unaryText aliceToken :=
    ⟨_, hserve, _, List.mem_singleton_self _, rfl⟩
  rw [heq] at hlisted
  obtain ⟨id, hid⟩ := hlisted
  rw [hrefused] at hid
  cases hid

end argvio.metricsapi
