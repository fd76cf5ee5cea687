import Argvio.Tenant.Cache

open List

namespace argvio.tenant

/-- What can be taken back: an API key, or the membership of an identity in a tenant. -/
inductive Grant where
  | apiKey (id : UUID)
  | membership (tenantID : UUID) (issuer subject : String)
  deriving DecidableEq

namespace Grant

def ValidIn (s : Store) : Grant → Prop
  | .apiKey id => ∃ k ∈ s.apiKeys, k.id = id ∧ k.revokedAt = none
  | .membership tenantID issuer subject =>
    ∃ m ∈ s.members, m.tenantID = tenantID ∧ m.issuer = issuer ∧ m.subject = subject

/-- The answer to a call accepts the key, or lists the membership. -/
def HonouredBy : Grant → Call → Answer → Prop
  | .apiKey id, .resolve _ _, a => ∃ r k, a.resolved = some r ∧ r.apiKey = some k ∧ k.id = id
  | .membership tenantID issuer subject, .memberships issuer' subject', a =>
    issuer' = issuer ∧ subject' = subject ∧ ∃ m ∈ a.memberships, m.tenant.id = tenantID
  | _, _, _ => False

end Grant

variable {call : Call} {s : Store} {g : Grant}

theorem Store.apiKey_lookupByRawAPIKey {rawKey : String} {scope : Scope} {r : Resolved} {k : APIKey}
    (h : s.lookupByRawAPIKey rawKey scope = some r) (hk : r.apiKey = some k) : k ∈ s.apiKeys ∧ k.revokedAt = none := by
  unfold Store.lookupByRawAPIKey Store.lookupByKeyHash at h
  obtain ⟨key, hkey, hmatch⟩ := exists_of_findSome?_eq_some h
  split at hmatch
  · rename_i hrow
    have hsame : r.apiKey = some key := by
      simp only [Store.withConfig, Option.bind_eq_bind, Option.bind_eq_some_iff] at hmatch
      obtain ⟨_, _, _, _, hr⟩ := hmatch
      cases hr
      rfl
    obtain rfl : key = k := Option.some.inj (hsame.symm.trans hk)
    exact ⟨hkey, hrow.2.2⟩
  · cases hmatch

/-- The store only answers with what is valid in it. -/
theorem Grant.validIn_of_answer (h : g.HonouredBy call (s.answer call)) : g.ValidIn s := by
  cases g with
  | apiKey id =>
    cases call with
    | resolve rawKey scope =>
      obtain ⟨r, k, hr, hk, hid⟩ := h
      obtain ⟨hmem, hunrevoked⟩ := Store.apiKey_lookupByRawAPIKey hr hk
      exact ⟨k, hmem, hid, hunrevoked⟩
    | resolveByTenantID | memberships | activeTenants => exact h.elim
  | membership tenantID issuer subject =>
    cases call with
    | resolve | resolveByTenantID | activeTenants => exact h.elim
    | memberships issuer' subject' =>
      obtain ⟨rfl, rfl, m, hm, hid⟩ := h
      exact ⟨_, (Store.mem_listMemberships hm).2, hid, rfl, rfl⟩

/-- An answer that honours a grant is cached for the longer time. -/
theorem Grant.ttlOf_eq {a : Answer} (c : Cache) (h : g.HonouredBy call a) : c.ttlOf call a = c.ttl := by
  cases g with
  | apiKey id =>
    cases call with
    | resolve rawKey scope =>
      obtain ⟨r, k, hr, _⟩ := h
      simp [Cache.ttlOf, hr]
    | resolveByTenantID | memberships | activeTenants => exact h.elim
  | membership tenantID issuer subject =>
    cases call with
    | resolve | resolveByTenantID | activeTenants => exact h.elim
    | memberships issuer' subject' =>
      obtain ⟨_, _, m, hm, _⟩ := h
      have hlength : a.memberships.length ≠ 0 := by
        rw [Ne, length_eq_zero_iff]
        exact ne_nil_of_mem hm
      simp [Cache.ttlOf, hlength]

theorem not_validIn_revokeAPIKey (s : Store) (id : UUID) (at_ : Int) :
    ¬ (Grant.apiKey id).ValidIn (s.revokeAPIKey id at_) := by
  rintro ⟨k, hk, hid, hunrevoked⟩
  obtain ⟨k', _, rfl⟩ := mem_map.mp hk
  split at hunrevoked
  · cases hunrevoked
  · rename_i hnot
    rw [if_neg hnot] at hid
    exact hnot ⟨hid, hunrevoked⟩

theorem not_validIn_removeMember (s : Store) (tenantID : UUID) (issuer subject : String) :
    ¬ (Grant.membership tenantID issuer subject).ValidIn (s.removeMember tenantID issuer subject) := by
  rintro ⟨m, hm, hrow⟩
  have hkept := (mem_filter.mp hm).2
  exact of_decide_eq_true hkept hrow

/-- From the moment a key is revoked, or a membership removed, for good, calls that
start the TTL later do not get it exactly when no call has looked it up without
having written its answer to the cache yet. -/
theorem revocation_honoured_iff {ttl : Int} {keys : KeyTexts} {store : Store} {now : Int}
    {s : TtlCache.System Store (CacheCall keys) String Answer}
    (hreaches : TtlCache.Reaches ((newCache ttl).inFrontOf keys) (.start store now) s) (g : Grant) {revoked : Store}
    (hrevoked : ¬ g.ValidIn revoked) :
    (∀ s', TtlCache.ReachesWhile ((newCache ttl).inFrontOf keys) (fun store => ¬ g.ValidIn store)
        { s with source := revoked } s' →
      ∀ ret ∈ s'.returned, s.now + ttl ≤ ret.startedAt → ¬ g.HonouredBy ret.request.call ret.value) ↔
      (∀ f ∈ s.flights, ∀ a, f.found = some a → g.HonouredBy f.request.call a → ttl ≤ 0 ∧ f.startedAt < s.now + ttl) ∧
        ∀ ret ∈ s.returned, g.HonouredBy ret.request.call ret.value → ret.startedAt < s.now + ttl := by
  have hT : ∀ (call : CacheCall keys) (a : Answer), g.HonouredBy call.call a →
      ((newCache ttl).inFrontOf keys).ttl call a = ttl := fun call a h => g.ttlOf_eq (newCache ttl) h
  have hsound : ∀ (source : Store) (call : CacheCall keys),
      g.HonouredBy call.call (((newCache ttl).inFrontOf keys).answer source call) → g.ValidIn source :=
    fun source call h => Grant.validIn_of_answer h
  exact TtlCache.revoked_iff hsound hT (TtlCache.bounded_of_reaches hT hreaches) hrevoked

/-- The texts of a run in which only one is hashed. -/
def keysOf (text : String) : KeyTexts where
  uuidString := fun id => String.ofList (replicate id.toNat 'a')
  uuidString_injective := by
    intro id id' h
    have hlength := congrArg length (String.ofList_injective h)
    rw [length_replicate, length_replicate] at hlength
    exact BitVec.eq_of_toNat_eq hlength
  hashed := {text}
  sha256Hex_injOn := Set.injOn_singleton _ _

/-- A tenant with one key and one member. -/
def plainStore : Store where
  tenants := [{ id := 7, slug := "acme", name := "Acme", status := .active }]
  configs := [(7, { tierCeiling := "full", tierEnforcementMode := .strip })]
  apiKeys := [{ id := 1, tenantID := 7, keyHash := [1], scope := .publicIngest, revokedAt := none }]
  members := [{ tenantID := 7, issuer := "https://idp", subject := "alice", role := "viewer" }]
  sha256 := fun _ => [1]
  nameLe := fun a b => a ≤ b

/-- A first call finds its answer in the store. -/
theorem reaches_found {keys : KeyTexts} (c : Cache) (call : CacheCall keys) :
    TtlCache.Reaches (c.inFrontOf keys) (.start plainStore 0)
      { TtlCache.System.start plainStore 0 with flights := [⟨call, 0, some (plainStore.answer call.call)⟩] } := by
  let s₀ : TtlCache.System Store (CacheCall keys) String Answer := .start plainStore 0
  let s₁ := { s₀ with flights := [⟨call, 0, none⟩] }
  have hmiss : TtlCache.Step (c.inFrontOf keys) s₀ s₁ := .miss call (fun e hentry => by cases hentry)
  have hflights : s₁.flights = [] ++ ⟨call, 0, none⟩ :: [] := rfl
  exact (Relation.ReflTransGen.single hmiss).tail (.lookup hflights rfl)

def resolveCall : CacheCall (keysOf "argv_live_pub_1\x00public_ingest") where
  call := .resolve "argv_live_pub_1" .publicIngest
  nulFree := by simp
  hashed := fun _ htext => Option.some.inj htext.symm

/-- A call looks the key up, the key is revoked, and the call only then writes what it
found to the cache: a call that starts the TTL after the revocation gets the key. -/
theorem revoked_key_honoured_late :
    let cache := (newCache (60 * second)).inFrontOf (keysOf "argv_live_pub_1\x00public_ingest")
    ∃ s s', TtlCache.Reaches cache (.start plainStore 0) s ∧
      TtlCache.ReachesWhile cache (fun store => ¬ (Grant.apiKey 1).ValidIn store)
        { s with source := s.source.revokeAPIKey 1 s.now } s' ∧
      ∃ ret ∈ s'.returned, s.now + 60 * second ≤ ret.startedAt ∧
        (Grant.apiKey 1).HonouredBy ret.request.call ret.value := by
  intro cache
  have hhonoured : (Grant.apiKey 1).HonouredBy resolveCall.call (plainStore.answer resolveCall.call) :=
    ⟨_, _, rfl, rfl, rfl⟩
  have hT : ∀ (call : CacheCall _) (a : Answer), (Grant.apiKey 1).HonouredBy call.call a →
      cache.ttl call a = 60 * second := fun call a h => (Grant.apiKey 1).ttlOf_eq (newCache (60 * second)) h
  have hrevoked := not_validIn_revokeAPIKey plainStore 1 0
  have hfound := reaches_found (newCache (60 * second)) resolveCall
  obtain ⟨s', hrun, hlate⟩ := TtlCache.exists_late_return (P := fun store => ¬ (Grant.apiKey 1).ValidIn store)
    (s := { TtlCache.System.start (plainStore.revokeAPIKey 1 0) 0 with
      flights := [⟨resolveCall, 0, some (plainStore.answer resolveCall.call)⟩] })
    hT hrevoked (by decide) (mem_singleton_self _) rfl hhonoured
  exact ⟨_, s', hfound, hrun, hlate⟩

def membershipsCall : CacheCall (keysOf "https://idp\x00alice") where
  call := .memberships "https://idp" "alice"
  nulFree := by
    intro issuer subject h
    cases h
    decide
  hashed := fun _ htext => Option.some.inj htext.symm

/-- A membership that is in the cache is removed while no call is under way. -/
theorem revocation_honoured_iff_cached :
    let cache := (newCache (60 * second)).inFrontOf (keysOf "https://idp\x00alice")
    let g := Grant.membership 7 "https://idp" "alice"
    ∃ s, TtlCache.Reaches cache (.start plainStore 0) s ∧
      (∃ e, s.entries (cache.key membershipsCall) = some e ∧ g.HonouredBy membershipsCall.call e.value) ∧
      ∀ s', TtlCache.ReachesWhile cache (fun store => ¬ g.ValidIn store)
          { s with source := s.source.removeMember 7 "https://idp" "alice" } s' →
        ∀ ret ∈ s'.returned, s.now + 60 * second ≤ ret.startedAt → ¬ g.HonouredBy ret.request.call ret.value := by
  intro cache g
  have hremoved := not_validIn_removeMember plainStore 7 "https://idp" "alice"
  have hhonoured : g.HonouredBy membershipsCall.call (plainStore.answer membershipsCall.call) :=
    ⟨rfl, rfl, _, mem_singleton_self _, rfl⟩
  have hflights : [(⟨membershipsCall, 0, some (plainStore.answer membershipsCall.call)⟩ : TtlCache.Flight _ _)] =
      [] ++ ⟨membershipsCall, 0, some (plainStore.answer membershipsCall.call)⟩ :: [] := rfl
  have hcached := (reaches_found (newCache (60 * second)) membershipsCall).tail (.write hflights rfl)
  refine ⟨_, hcached, ⟨_, Function.update_self .., hhonoured⟩, (revocation_honoured_iff hcached g hremoved).mpr ⟨?_, ?_⟩⟩
  · intro f hf
    cases hf
  · intro ret hret _
    rw [mem_singleton.mp hret]
    decide

end argvio.tenant
