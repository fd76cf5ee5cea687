import Argvio.Delimited
import Argvio.GoStrings
import Argvio.GoTypes
import Argvio.Sha256
import Argvio.Tenant.Store
import Argvio.TtlCache

open List

namespace argvio.tenant

def Scope.text : Scope → String
  | .publicIngest => "public_ingest"
  | .metricsQuery => "metrics_query"
  | .metricsAdmin => "metrics_admin"

/-- What an entry holds besides its expiry; a key or tenant that is not found has no
`resolved`. -/
structure Answer where
  resolved : Option Resolved := none
  memberships : List Membership := []
  tenants : List Tenant := []
  deriving DecidableEq

@[irreducible] def sha256Hex (text : String) : String :=
  String.ofList (gobytes.hexString (sha256.sum256 (gobytes.ofString text)))

def cacheKey (rawKey : String) (scope : Scope) : String := sha256Hex (rawKey ++ "\x00" ++ scope.text)

/-- How ids are written, and the texts that are hashed in a run, no two of which have one hash. -/
structure KeyTexts where
  uuidString : UUID → String
  uuidString_injective : Function.Injective uuidString
  hashed : Set String
  sha256Hex_injOn : Set.InjOn sha256Hex hashed

/-- The key under which a call's answer is cached. -/
def KeyTexts.key (t : KeyTexts) : Call → String
  | .resolve rawKey scope => cacheKey rawKey scope
  | .resolveByTenantID tenantID => "tid:" ++ t.uuidString tenantID
  | .memberships issuer subject => "mem:" ++ sha256Hex (issuer ++ "\x00" ++ subject)
  | .activeTenants => "active-tenants"

def Call.hashedText : Call → Option String
  | .resolve rawKey scope => some (rawKey ++ "\x00" ++ scope.text)
  | .memberships issuer subject => some (issuer ++ "\x00" ++ subject)
  | .resolveByTenantID _ => none
  | .activeTenants => none

/-- A call of a run on the cache. An issuer is a configured URL, which has no NUL. -/
structure CacheCall (t : KeyTexts) where
  call : Call
  nulFree : ∀ issuer subject, call = .memberships issuer subject → '\x00' ∉ issuer.toList
  hashed : ∀ text ∈ call.hashedText, text ∈ t.hashed

/-- The two times to live, in nanoseconds. -/
structure Cache where
  ttl : Int
  negTTL : Int

def newCache (ttl : Int) : Cache where
  ttl := ttl
  negTTL := if ttl.tdiv 4 < second then second else ttl.tdiv 4

/-- What the store answers to a call. -/
def Store.answer (s : Store) : Call → Answer
  | .resolve rawKey scope => { resolved := s.lookupByRawAPIKey rawKey scope }
  | .resolveByTenantID tenantID => { resolved := s.lookupByTenantID tenantID }
  | .memberships issuer subject => { memberships := s.listMemberships issuer subject }
  | .activeTenants => { tenants := s.listActiveTenants }

/-- For how long an answer is cached. -/
def Cache.ttlOf (c : Cache) : Call → Answer → Int
  | .resolve _ _, a => if a.resolved.isSome then c.ttl else c.negTTL
  | .resolveByTenantID _, a => if a.resolved.isSome then c.ttl else c.negTTL
  | .memberships _ _, a => if a.memberships.length = 0 then c.negTTL else c.ttl
  | .activeTenants, _ => c.negTTL

/-- `UPDATE api_keys SET revoked_at = now() WHERE id = $1 AND revoked_at IS NULL`. -/
def Store.revokeAPIKey (s : Store) (keyID : UUID) (at_ : Int) : Store :=
  { s with apiKeys := s.apiKeys.map (fun k =>
      if k.id = keyID ∧ k.revokedAt = none then { k with revokedAt := some at_ } else k) }

/-- `DELETE FROM tenant_members WHERE tenant_id = $1 AND issuer = $2 AND subject = $3`. -/
def Store.removeMember (s : Store) (tenantID : UUID) (issuer subject : String) : Store :=
  { s with members := s.members.filter (fun m =>
      ¬ (m.tenantID = tenantID ∧ m.issuer = issuer ∧ m.subject = subject)) }

section Keys

theorem notMem_scope_text (scope : Scope) : '\x00' ∉ scope.text.toList := by
  cases scope <;> decide

theorem Scope.text_injective : Function.Injective Scope.text := by
  intro a b h
  cases a <;> cases b <;> first | rfl | exact absurd h (by decide)

theorem nul_split {a b c d : String} (h : a ++ "\x00" ++ b = c ++ "\x00" ++ d) :
    a.toList ++ '\x00' :: b.toList = c.toList ++ '\x00' :: d.toList := by
  have hlist := congrArg String.toList h
  simpa using hlist

/-- A raw key may contain a NUL; the last one is that before the scope. -/
theorem rawKey_scope_injective {rawKey rawKey' : String} {scope scope' : Scope}
    (h : rawKey ++ "\x00" ++ scope.text = rawKey' ++ "\x00" ++ scope'.text) : rawKey = rawKey' ∧ scope = scope' := by
  have hreverse := congrArg reverse (nul_split h)
  simp only [reverse_append, reverse_cons, append_assoc, singleton_append] at hreverse
  have hfree : ∀ scope : Scope, '\x00' ∉ scope.text.toList.reverse := by
    intro scope hmem
    exact notMem_scope_text scope (mem_reverse.mp hmem)
  obtain ⟨hscope, hraw⟩ := (delimited.append_cons_eq_iff (hfree scope) (hfree scope')).mp hreverse
  exact ⟨String.toList_injective (reverse_injective hraw),
    Scope.text_injective (String.toList_injective (reverse_injective hscope))⟩

theorem issuer_subject_injective {issuer issuer' subject subject' : String} (hissuer : '\x00' ∉ issuer.toList)
    (hissuer' : '\x00' ∉ issuer'.toList) (h : issuer ++ "\x00" ++ subject = issuer' ++ "\x00" ++ subject') :
    issuer = issuer' ∧ subject = subject' := by
  obtain ⟨hissuer, hsubject⟩ := (delimited.append_cons_eq_iff hissuer hissuer').mp (nul_split h)
  exact ⟨String.toList_injective hissuer, String.toList_injective hsubject⟩

theorem sha256Hex_ne (s : String) {text : String} (h : ':' ∈ text.toList ∨ '-' ∈ text.toList) : sha256Hex s ≠ text := by
  have hdigit : ∀ n : Fin 16, Nat.digitChar n ≠ ':' ∧ Nat.digitChar n ≠ '-' := by decide
  have hhex : ∀ c ∈ (sha256Hex s).toList, c ≠ ':' ∧ c ≠ '-' := by
    intro c hc
    rw [sha256Hex, String.toList_ofList, gobytes.hexString, mem_flatMap] at hc
    obtain ⟨b, -, hc⟩ := hc
    have hb := b.toNat_lt
    rcases mem_pair.mp hc with rfl | rfl
    · exact hdigit ⟨b.toNat / 16, by omega⟩
    · exact hdigit ⟨b.toNat % 16, by omega⟩
  rintro rfl
  rcases h with h | h
  · exact (hhex _ h).1 rfl
  · exact (hhex _ h).2 rfl

variable (t : KeyTexts)

theorem KeyTexts.key_marked {call : Call} (h : ∀ rawKey scope, call ≠ .resolve rawKey scope) :
    ':' ∈ (t.key call).toList ∨ '-' ∈ (t.key call).toList := by
  cases call with
  | resolve rawKey scope => exact absurd rfl (h rawKey scope)
  | resolveByTenantID tenantID | memberships issuer subject => exact .inl (by simp [KeyTexts.key])
  | activeTenants => exact .inr (by simp [KeyTexts.key])

/-- Different calls are cached under different keys. -/
theorem KeyTexts.key_injective : Function.Injective (fun call : CacheCall t => t.key call.call) := by
  rintro ⟨call, hcall, hhashed⟩ ⟨call', hcall', hhashed'⟩ h
  have heq : call = call' := by
    have hhead := congrArg (fun s : String => s.toList.head?) h
    cases call with
    | resolve rawKey scope =>
      cases call' with
      | resolve rawKey' scope' =>
        obtain ⟨rfl, rfl⟩ := rawKey_scope_injective (t.sha256Hex_injOn (hhashed _ rfl) (hhashed' _ rfl) h)
        rfl
      | resolveByTenantID | memberships | activeTenants => exact absurd h (sha256Hex_ne _ (t.key_marked (by simp)))
    | resolveByTenantID tenantID =>
      cases call' with
      | resolve => exact absurd h.symm (sha256Hex_ne _ (t.key_marked (by simp)))
      | resolveByTenantID tenantID' => rw [t.uuidString_injective ((String.append_right_inj _).mp h)]
      | memberships | activeTenants => simp [KeyTexts.key] at hhead
    | memberships issuer subject =>
      cases call' with
      | resolve => exact absurd h.symm (sha256Hex_ne _ (t.key_marked (by simp)))
      | resolveByTenantID | activeTenants => simp [KeyTexts.key] at hhead
      | memberships issuer' subject' =>
        have hpair := t.sha256Hex_injOn (hhashed _ rfl) (hhashed' _ rfl) ((String.append_right_inj _).mp h)
        obtain ⟨rfl, rfl⟩ := issuer_subject_injective (hcall _ _ rfl) (hcall' _ _ rfl) hpair
        rfl
    | activeTenants =>
      cases call' with
      | resolve => exact absurd h.symm (sha256Hex_ne _ (t.key_marked (by simp)))
      | resolveByTenantID | memberships => simp [KeyTexts.key] at hhead
      | activeTenants => rfl
  subst heq
  rfl

end Keys

/-- The cache in front of the store. -/
def Cache.inFrontOf (c : Cache) (t : KeyTexts) : TtlCache Store (CacheCall t) String Answer where
  key := fun call => t.key call.call
  key_injective := t.key_injective
  answer := fun s call => s.answer call.call
  ttl := fun call a => c.ttlOf call.call a

end argvio.tenant
