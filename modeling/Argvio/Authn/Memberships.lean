import Argvio.Authn.Isolation

open List

namespace argvio.tenant

/-- The keys of the tenant tables: ids are unique, and a member row refers to a tenant. -/
structure Store.Keyed (s : Store) : Prop where
  ids : (s.tenants.map Tenant.id).Nodup
  members : ∀ m ∈ s.members, m.tenantID ∈ s.tenants.map Tenant.id

/-- An active tenant with a configuration row. -/
def Store.Usable (s : Store) (tenantID : UUID) : Prop :=
  (∃ t ∈ s.tenants, t.id = tenantID ∧ t.status = .active) ∧ ∃ c ∈ s.configs, c.1 = tenantID

/-- A member row gives the identity the tenant. -/
def Store.HasMember (s : Store) (issuer subject : String) (tenantID : UUID) : Prop :=
  ∃ m ∈ s.members, m.tenantID = tenantID ∧ m.issuer = issuer ∧ m.subject = subject

section Keyed

variable {s : Store} {issuer subject : String} {tenantID : UUID}

theorem Store.Keyed.find_eq (hkeyed : s.Keyed) {t : Tenant} (ht : t ∈ s.tenants) :
    s.tenants.find? (fun t' => t'.id = t.id) = some t := by
  cases hfind : s.tenants.find? (fun t' => t'.id = t.id) with
  | none =>
    have hno := find?_eq_none.mp hfind t ht
    simp at hno
  | some found =>
    have hid : found.id = t.id := by simpa using find?_some hfind
    rw [inj_on_of_nodup_map hkeyed.ids (mem_of_find?_eq_some hfind) ht hid]

/-- The tenants that resolve to an active one. -/
theorem Store.Keyed.exists_active_iff (hkeyed : s.Keyed) :
    (∃ r, s.lookupByTenantID tenantID = some r ∧ r.tenant.status = .active) ↔ s.Usable tenantID := by
  unfold Store.lookupByTenantID Store.withConfig Store.Usable
  constructor
  · rintro ⟨r, hr, hactive⟩
    obtain ⟨t, hfind, hrest⟩ := Option.bind_eq_some_iff.mp hr
    obtain ⟨c, hconfig, hc⟩ := Option.bind_eq_some_iff.mp hrest
    cases hc
    have hid : t.id = tenantID := by simpa using find?_some hfind
    have hrow : c.1 = t.id := by simpa using find?_some hconfig
    exact ⟨⟨t, mem_of_find?_eq_some hfind, hid, hactive⟩, c, mem_of_find?_eq_some hconfig, hrow.trans hid⟩
  · rintro ⟨⟨t, ht, rfl, hactive⟩, c, hc, hrow⟩
    rw [hkeyed.find_eq ht]
    cases hconfig : s.configs.find? (fun c => c.1 = t.id) with
    | none =>
      have hno := find?_eq_none.mp hconfig c hc
      exact absurd hrow (by simpa using hno)
    | some found => exact ⟨{ tenant := t, config := found.2, apiKey := none }, by simp [hconfig], hactive⟩

theorem Store.Keyed.exists_membership_iff (hkeyed : s.Keyed) :
    (∃ m ∈ s.listMemberships issuer subject, m.tenant.id = tenantID) ↔ s.HasMember issuer subject tenantID := by
  constructor
  · rintro ⟨m, hm, rfl⟩
    exact ⟨_, (Store.mem_listMemberships hm).2, rfl, rfl, rfl⟩
  rintro ⟨row, hrow, rfl, rfl, rfl⟩
  obtain ⟨t, ht, hid⟩ := mem_map.mp (hkeyed.members row hrow)
  refine ⟨{ tenant := t, role := row.role }, ?_, hid⟩
  unfold Store.listMemberships
  rw [mem_insertionSort, mem_filterMap]
  refine ⟨row, hrow, ?_⟩
  rw [if_pos ⟨rfl, rfl⟩, ← hid, hkeyed.find_eq ht]
  rfl

theorem Store.exists_activeTenant_iff :
    (∃ t ∈ s.listActiveTenants, t.id = tenantID) ↔ ∃ t ∈ s.tenants, t.id = tenantID ∧ t.status = .active := by
  unfold Store.listActiveTenants
  simp only [mem_insertionSort, mem_filter, decide_eq_true_eq, and_assoc]
  exact exists_congr (fun t => and_congr_right (fun _ => and_comm))

end Keyed

end argvio.tenant

open argvio.tenant

namespace argvio.authn.Verifier

/-- Every active tenant, as an admin's memberships. -/
def adminMemberships (v : Verifier) (memberRole : String) : Except String (List Membership) :=
  match v.resolver.activeTenants with
  | .error err => .error err
  | .ok tenants => .ok (tenants.map (fun t => { tenant := t, role := memberRole }))

/-- The tenants an OIDC identity belongs to; for an admin, every active tenant. -/
def memberships (v : Verifier) (id : Identity) : Except String (List Membership) :=
  if id.admin then v.adminMemberships id.role
  else if id.method ≠ .oidc ∨ id.subject = "" then .ok []
  else v.resolver.memberships id.issuer id.subject

/-- The identity of a user is a member of the tenant. A token without a subject is nobody's. -/
def Member (v : Verifier) (id : Identity) (tenantID : UUID) : Prop :=
  id.subject ≠ "" ∧ v.resolver.store.HasMember id.issuer id.subject tenantID

/-- A resolver that reaches its database. -/
def Reachable (v : Verifier) : Prop := ∀ call, v.resolver.fault call = none

section Selection

variable {v : Verifier} {id : Identity} {hint : String} {tenantID : UUID}

theorem Reachable.answer (hreach : v.Reachable) {α : Type} (call : Call) (value : α) :
    v.resolver.answer call value = .ok value := by
  unfold Resolver.answer
  rw [hreach call]

section Reached

variable (hreach : v.Reachable) (hkeyed : v.resolver.store.Keyed)

include hreach hkeyed

/-- The tenants that a list of memberships names. -/
theorem exists_memberships (hmethod : id.method = .oidc) :
    ∃ members, v.memberships id = .ok members ∧
      ∀ tenantID, (∃ m ∈ members, m.tenant.id = tenantID) ↔
        if id.admin then ∃ t ∈ v.resolver.store.tenants, t.id = tenantID ∧ t.status = .active
        else v.Member id tenantID := by
  unfold memberships adminMemberships Resolver.activeTenants Resolver.memberships Member
  rw [hreach.answer, hreach.answer]
  cases hadmin : id.admin with
  | true =>
    refine ⟨_, rfl, fun tenantID => ?_⟩
    rw [if_pos rfl, ← Store.exists_activeTenant_iff]
    simp
  | false =>
    by_cases hsubject : id.subject = ""
    · refine ⟨[], by simp [hsubject], fun tenantID => ?_⟩
      simp [hsubject]
    · refine ⟨v.resolver.store.listMemberships id.issuer id.subject, by simp [hmethod, hsubject], fun tenantID => ?_⟩
      rw [if_neg Bool.false_ne_true, hkeyed.exists_membership_iff]
      exact (and_iff_right hsubject).symm

theorem exists_resolveTenant_iff (role : String) :
    (∃ id', v.resolveTenant id tenantID role = .ok id') ↔ v.resolver.store.Usable tenantID := by
  rw [← hkeyed.exists_active_iff]
  unfold resolveTenant Resolver.resolveByTenantID
  rw [hreach.answer]
  cases v.resolver.store.lookupByTenantID tenantID with
  | none => simp
  | some r => by_cases hactive : r.tenant.status = .active <;> simp [hactive]

theorem exists_selectAdminTenant_iff (hhint : hint ≠ "") (hparse : v.parseUUID hint = some tenantID) :
    (∃ id', v.selectAdminTenant id hint = .ok id') ↔ v.resolver.store.Usable tenantID := by
  rw [← hkeyed.exists_active_iff]
  unfold selectAdminTenant chooseAdminTenant Resolver.resolveByTenantID
  rw [if_pos hhint, hparse]
  dsimp only
  rw [hreach.answer]
  cases v.resolver.store.lookupByTenantID tenantID with
  | none => simp
  | some r => by_cases hactive : r.tenant.status = .active <;> simp [hactive]

end Reached

theorem exists_chooseMembership_iff {members : List Membership} (hhint : hint ≠ "")
    (hparse : v.parseUUID hint = some tenantID) :
    (∃ m, v.chooseMembership members hint = .ok m) ↔ ∃ m ∈ members, m.tenant.id = tenantID := by
  unfold chooseMembership
  rw [if_pos hhint]
  cases hfind : members.find? (fun m => v.tenantMatches hint m.tenant.id) with
  | none =>
    have hno := find?_eq_none.mp hfind
    simp only [tenantMatches_iff, hparse, Option.some.injEq] at hno
    constructor
    · rintro ⟨m, hm⟩
      cases hm
    · rintro ⟨m, hm, hid⟩
      exact absurd hid.symm (hno m hm)
  | some chosen =>
    have hfound := find?_some hfind
    have hmatch := tenantMatches_iff.mp hfound
    rw [hparse] at hmatch
    exact ⟨fun _ => ⟨chosen, mem_of_find?_eq_some hfind, (Option.some.inj hmatch).symm⟩, fun _ => ⟨chosen, rfl⟩⟩

theorem hasMembership_iff (hkeyed : v.resolver.store.Keyed) (c : UUID) :
    hasMembership (v.resolver.store.listMemberships id.issuer id.subject) c = true ↔
      v.resolver.store.HasMember id.issuer id.subject c := by
  rw [← hkeyed.exists_membership_iff]
  simp [hasMembership]

/-- Without trust in the claim, a member may select an active tenant of its own, unless its
claim names one that is not. -/
theorem exists_selectMembership_iff (hreach : v.Reachable) (hkeyed : v.resolver.store.Keyed) (hhint : hint ≠ "")
    (hparse : v.parseUUID hint = some tenantID) (claim : Option UUID) :
    (∃ id', v.selectMembership id claim hint = .ok id') ↔
      v.Member id tenantID ∧ v.resolver.store.Usable tenantID ∧ ∀ c, claim = some c → v.Member id c := by
  unfold selectMembership Resolver.memberships Member
  rw [hreach.answer]
  by_cases hsubject : id.subject = ""
  · simp [hsubject]
  rw [if_neg hsubject]
  dsimp only
  have hclaim : claim.any (fun c => !hasMembership (v.resolver.store.listMemberships id.issuer id.subject) c) = true ↔
      ¬ ∀ c, claim = some c → v.resolver.store.HasMember id.issuer id.subject c := by
    cases claim with
    | none => simp
    | some c => simp [← hasMembership_iff hkeyed]
  by_cases hnamed : ∀ c, claim = some c → v.resolver.store.HasMember id.issuer id.subject c
  · rw [if_neg (fun h => hclaim.mp h hnamed)]
    have hchosen : (∃ m, v.chooseMembership (v.resolver.store.listMemberships id.issuer id.subject) hint = .ok m) ↔
        v.resolver.store.HasMember id.issuer id.subject tenantID := by
      rw [exists_chooseMembership_iff hhint hparse, hkeyed.exists_membership_iff]
    cases hchoose : v.chooseMembership (v.resolver.store.listMemberships id.issuer id.subject) hint with
    | error err =>
      rw [hchoose] at hchosen
      simp [hsubject, ← hchosen]
    | ok chosen =>
      have hid := (chooseMembership_ok hchoose).2 hhint
      rw [hparse] at hid
      obtain rfl := Option.some.inj hid
      rw [hchoose] at hchosen
      dsimp only
      rw [exists_resolveTenant_iff hreach hkeyed]
      have hmember := hchosen.mp ⟨chosen, rfl⟩
      exact ⟨fun husable => ⟨⟨hsubject, hmember⟩, husable, fun c hc => ⟨hsubject, hnamed c hc⟩⟩, fun h => h.2.1⟩
  · rw [if_pos (hclaim.mpr hnamed)]
    constructor
    · rintro ⟨id', hid'⟩
      cases hid'
    · rintro ⟨_, _, hmembers⟩
      exact absurd (fun c hc => (hmembers c hc).2) hnamed

end Selection

end argvio.authn.Verifier
