import Argvio.Allowlist.Families
import Argvio.Consent.Exact

open gostrings
open argvio.allowlist

namespace argvio.consent

/-- Every kept key under the prefix of a family, unless it is a standard resource
attribute or an attribute of its own, is covered by a family of the event's list. -/
def FamilyKeysMatch (s : Schema) (allowedAttributes : List String) (kept : AttrMap) : Prop :=
  ∀ fam k, s.IsFamily fam → (cutPrefix k (trimSuffix fam "*")).isSome → k ∈ kept →
    s.isStandardResourceAttribute k = false → (k ∈ s.attributes → s.IsFamily k) →
    ∃ g ∈ allowedAttributes, s.FamilyCovers g k

/-- The record carries the bare key of a listed family, such as `cli.dim.*`, with
a value the family accepts and within the effective tier, and no listed family
covers that key. -/
def CarriesBareFamily (s : Schema) (allowedAttributes : List String) (effectiveRank : Int) (attrs : AttrMap) : Prop :=
  ∃ fam ∈ allowedAttributes, ∃ d v minRank, hasSuffix fam familySuffix = true ∧ s.attributes.lookup fam = some d ∧
    s.isStandardResourceAttribute fam = false ∧ attrs.lookup fam = some v ∧ checkAttribute d v = .ok () ∧
    s.tierRank d.minTier = some minRank ∧ minRank ≤ effectiveRank ∧
    ¬ ∃ g ∈ allowedAttributes, s.FamilyCovers g fam

theorem cutPrefix_self_isSome {fam : String} (h : hasSuffix fam familySuffix = true) :
    (cutPrefix fam (trimSuffix fam "*")).isSome = true := by
  obtain ⟨lead, rfl⟩ := exists_family_lead h
  rw [trimSuffix_append, Option.isSome_iff_exists]
  exact ⟨"*", cutPrefix_eq_some_iff.mpr rfl⟩

/-- A kept key is on the event's list by its own name or is covered by a family
of the list; it is the first that bypasses the `key_pattern`. -/
theorem familyKeysMatch_iff {compile : RegexpCompiler} {file : SchemaFile} {s : Schema}
    (hschema : finalize compile file = .ok s) {allowedAttributes : List String} (hkeys : s.Defines allowedAttributes)
    {r : Int} {attrs : AttrMap} {acc : Acceptance} (hexact : acc.Exact s allowedAttributes r attrs) :
    FamilyKeysMatch s allowedAttributes acc.keptAttributes ↔ ¬ CarriesBareFamily s allowedAttributes r attrs := by
  constructor
  · rintro hmatch ⟨fam, hfam, d, v, minRank, hsuffix, hd, hstd, hv, hcheck, hmin, hle, hnone⟩
    have htier : fam ≠ tierAttrKey := by
      rintro rfl
      exact absurd hsuffix (by decide)
    have hdef : s.attrDefFor fam = some d := by simp [Schema.attrDefFor, hd]
    have hkept := (hexact.kept_iff fam v htier).mpr
      ⟨hv, .inr ⟨.inl hfam, d, minRank, hdef, hcheck, hmin, hle⟩⟩
    have hmem : fam ∈ acc.keptAttributes := AList.lookup_isSome.mp (by simp [hkept])
    exact hnone (hmatch fam fam ⟨hsuffix, d, hd⟩ (cutPrefix_self_isSome hsuffix) hmem hstd
      (fun _ => ⟨hsuffix, d, hd⟩))
  · intro hbare fam k _ _ hmem hstd hown
    obtain ⟨v, hv⟩ := Option.isSome_iff_exists.mp (AList.lookup_isSome.mpr hmem)
    have htier : k ≠ tierAttrKey := by
      rintro rfl
      exact hexact.tier_not_kept hmem
    obtain ⟨hsent, hkeeps⟩ := (hexact.kept_iff k v htier).mp hv
    rcases hkeeps with ⟨_, hstandard⟩ | ⟨hallowed, d, minRank, hdef, hcheck, hmin, hle⟩
    · rw [hstd] at hstandard
      cases hstandard
    rcases hallowed with hlisted | ⟨g, hg, hglisted⟩
    · -- Listed by name: the key is an attribute, so it can only be a family's own key.
      obtain ⟨d', hd'⟩ := hkeys k hlisted
      have hd : d' = d := by simpa [Schema.attrDefFor, hd'] using hdef
      subst hd
      obtain ⟨hsuffix, _⟩ := hown (AList.lookup_isSome.mp (by simp [hd']))
      by_contra hnone
      exact hbare ⟨k, hlisted, d', v, minRank, hsuffix, hd', hstd, hsent, hcheck, hmin, hle, hnone⟩
    · exact ⟨g, hglisted, familyCovers_of_familyOf hschema hg⟩

end argvio.consent
