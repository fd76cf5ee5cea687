import Argvio.Tenant.Types

namespace argvio.tenant

/-- The tenant tables, with the hash keys are stored under and the collation
that orders tenant names. -/
structure Store where
  tenants : List Tenant
  configs : List (UUID × Config)
  apiKeys : List APIKey
  members : List Member
  sha256 : String → List UInt8
  nameLe : String → String → Bool

/-- Rows come back by name, then by id. -/
def Store.tenantLe (s : Store) (a b : Tenant) : Bool :=
  if a.name = b.name then decide (a.id ≤ b.id) else s.nameLe a.name b.name

/-- The join of a tenant with its configuration. -/
def Store.withConfig (s : Store) (tenantID : UUID) (apiKey : Option APIKey) : Option Resolved := do
  let t ← s.tenants.find? (fun t => t.id = tenantID)
  let c ← s.configs.find? (fun c => c.1 = t.id)
  return { tenant := t, config := c.2, apiKey := apiKey }

/-- A key that is not revoked, under its hash and scope. -/
def Store.lookupByKeyHash (s : Store) (keyHash : List UInt8) (scope : Scope) : Option Resolved :=
  s.apiKeys.findSome? (fun k =>
    if k.keyHash = keyHash ∧ k.scope = scope ∧ k.revokedAt = none then s.withConfig k.tenantID (some k)
    else none)

def Store.lookupByRawAPIKey (s : Store) (rawKey : String) (scope : Scope) : Option Resolved :=
  s.lookupByKeyHash (s.sha256 rawKey) scope

def Store.lookupByTenantID (s : Store) (tenantID : UUID) : Option Resolved := s.withConfig tenantID none

/-- Every tenant an identity belongs to, in a stable order. -/
def Store.listMemberships (s : Store) (issuer subject : String) : List Membership :=
  (s.members.filterMap (fun m =>
    if m.issuer = issuer ∧ m.subject = subject then
      (s.tenants.find? (fun t => t.id = m.tenantID)).map (fun t => { tenant := t, role := m.role })
    else none)).insertionSort (fun a b => s.tenantLe a.tenant b.tenant)

def Store.listActiveTenants (s : Store) : List Tenant :=
  (s.tenants.filter (fun t => t.status = .active)).insertionSort (fun a b => s.tenantLe a b)

/-- The lookups a server makes, any of which may fail. -/
inductive Call where
  | resolve (rawKey : String) (scope : Scope)
  | resolveByTenantID (tenantID : UUID)
  | memberships (issuer subject : String)
  | activeTenants
  deriving DecidableEq

/-- The resolver of one request: the contents it answers from, and the calls
that fail because the database cannot be reached. -/
structure Resolver where
  store : Store
  fault : Call → Option String

/-- The answer to a call, unless it fails. -/
def Resolver.answer {α : Type} (r : Resolver) (call : Call) (value : α) : Except String α :=
  match r.fault call with
  | some err => .error err
  | none => .ok value

def Resolver.resolve (r : Resolver) (rawKey : String) (scope : Scope) : Except String (Option Resolved) :=
  r.answer (.resolve rawKey scope) (r.store.lookupByRawAPIKey rawKey scope)

def Resolver.resolveByTenantID (r : Resolver) (tenantID : UUID) : Except String (Option Resolved) :=
  r.answer (.resolveByTenantID tenantID) (r.store.lookupByTenantID tenantID)

def Resolver.memberships (r : Resolver) (issuer subject : String) : Except String (List Membership) :=
  r.answer (.memberships issuer subject) (r.store.listMemberships issuer subject)

def Resolver.activeTenants (r : Resolver) : Except String (List Tenant) :=
  r.answer .activeTenants r.store.listActiveTenants

theorem Resolver.answer_eq_ok {α : Type} {r : Resolver} {call : Call} {value result : α}
    (h : r.answer call value = .ok result) : result = value := by
  unfold Resolver.answer at h
  split at h
  · cases h
  · cases h
    rfl

variable {s : Store} {r : Resolved}

theorem Store.withConfig_eq_some {tenantID : UUID} {apiKey : Option APIKey}
    (h : s.withConfig tenantID apiKey = some r) : r.tenant ∈ s.tenants ∧ r.tenant.id = tenantID := by
  unfold Store.withConfig at h
  cases htenant : s.tenants.find? (fun t => t.id = tenantID) with
  | none => simp [htenant] at h
  | some t =>
    cases hconfig : s.configs.find? (fun c => c.1 = t.id) with
    | none => simp [htenant, hconfig] at h
    | some c =>
      simp [htenant, hconfig] at h
      subst h
      have hid := List.find?_some htenant
      exact ⟨List.mem_of_find?_eq_some htenant, by simpa using hid⟩

/-- A resolved key is a stored, unrevoked key of that scope and its tenant's. -/
theorem Store.lookupByRawAPIKey_eq_some {rawKey : String} {scope : Scope}
    (h : s.lookupByRawAPIKey rawKey scope = some r) :
    ∃ key ∈ s.apiKeys, key.keyHash = s.sha256 rawKey ∧ key.scope = scope ∧ key.revokedAt = none ∧
      r.tenant ∈ s.tenants ∧ r.tenant.id = key.tenantID := by
  unfold Store.lookupByRawAPIKey Store.lookupByKeyHash at h
  obtain ⟨key, hkey, hmatch⟩ := List.exists_of_findSome?_eq_some h
  split at hmatch
  · rename_i hrow
    obtain ⟨htenant, hid⟩ := Store.withConfig_eq_some hmatch
    exact ⟨key, hkey, hrow.1, hrow.2.1, hrow.2.2, htenant, hid⟩
  · cases hmatch

theorem Store.mem_listMemberships {issuer subject : String} {m : Membership}
    (h : m ∈ s.listMemberships issuer subject) :
    m.tenant ∈ s.tenants ∧ { tenantID := m.tenant.id, issuer, subject, role := m.role } ∈ s.members := by
  unfold Store.listMemberships at h
  rw [List.mem_insertionSort] at h
  obtain ⟨row, hrow, hmap⟩ := List.mem_filterMap.mp h
  split at hmap
  · rename_i hidentity
    obtain ⟨t, ht, hm⟩ := Option.map_eq_some_iff.mp hmap
    subst hm
    have hid : t.id = row.tenantID := by simpa using List.find?_some ht
    refine ⟨List.mem_of_find?_eq_some ht, ?_⟩
    rw [← hidentity.1, ← hidentity.2, hid]
    exact hrow
  · cases hmap

end argvio.tenant
