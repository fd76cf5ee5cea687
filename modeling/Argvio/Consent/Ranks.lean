import Argvio.Allowlist.Accepted
import Argvio.Consent.Tier

open argvio.allowlist List

namespace argvio.consent

variable {compile : RegexpCompiler} {file : SchemaFile} {s : Schema} {name : String}

theorem finalize_tierRanks (h : finalize compile file = .ok s) :
    s.consentTiers = file.consentTiers ∧ s.tierRanks = tierIndex file.consentTiers := by
  obtain ⟨_, _, _, hranks, htiers, _⟩ := finalize_ok h
  exact ⟨htiers, hranks⟩

variable {r : Int} {t : Tier}

section Accepted

variable (h : finalize compile file = .ok s)

include h

/-- A rank comes from a listed tier. -/
theorem mem_consentTiers_of_tierRank (hr : s.tierRank name = some r) : ⟨name, r⟩ ∈ file.consentTiers := by
  obtain ⟨_, hranks⟩ := finalize_tierRanks h
  unfold Schema.tierRank at hr
  rw [hranks] at hr
  obtain ⟨t, ht, heq⟩ := mem_map.mp (GoMap.mem_of_lookup_putAll hr)
  cases heq
  exact ht

/-- Every listed tier has a rank, that of the last tier of its name. -/
theorem exists_tierRank_of_mem (ht : t ∈ file.consentTiers) : ∃ r, s.tierRank t.name = some r := by
  obtain ⟨_, hranks⟩ := finalize_tierRanks h
  rw [← Option.ne_none_iff_exists']
  unfold Schema.tierRank
  rw [hranks]
  intro hnone
  unfold tierIndex at hnone
  rw [GoMap.lookup_putAll, AList.lookup_empty, Option.or_none, lookup_eq_none_iff] at hnone
  have hmem : (t.name, t.rank) ∈ (file.consentTiers.map (fun t => (t.name, t.rank))).reverse :=
    mem_reverse.mpr (mem_map.mpr ⟨t, ht, rfl⟩)
  exact absurd (hnone _ hmem) (by simp)

/-- With distinct names the index holds the rank of every listed tier. -/
theorem tierRank_of_mem (hnames : (file.consentTiers.map Tier.name).Nodup) (ht : t ∈ file.consentTiers) :
    s.tierRank t.name = some t.rank := by
  obtain ⟨r, hr⟩ := exists_tierRank_of_mem h ht
  have hmem := mem_consentTiers_of_tierRank h hr
  have heq : t = ⟨t.name, r⟩ := inj_on_of_nodup_map hnames ht hmem rfl
  rw [hr, heq]

/-- The name given to the rank of a known tier is that of a listed tier. -/
theorem tierNameForRank_mem (hr : s.tierRank name = some r) : ⟨tierNameForRank s r, r⟩ ∈ file.consentTiers := by
  obtain ⟨htiers, _⟩ := finalize_tierRanks h
  have hmem := mem_consentTiers_of_tierRank h hr
  unfold tierNameForRank
  rw [htiers]
  cases hfind : file.consentTiers.find? (fun t => t.rank = r) with
  | none =>
    have hnone := find?_eq_none.mp hfind ⟨name, r⟩ hmem
    simp at hnone
  | some t =>
    have hrank : t.rank = r := by simpa using find?_some hfind
    rw [← hrank]
    exact mem_of_find?_eq_some hfind

/-- With distinct names the effective tier's name has the effective rank. -/
theorem tierRank_tierNameForRank (hnames : (file.consentTiers.map Tier.name).Nodup) (hr : s.tierRank name = some r) :
    s.tierRank (tierNameForRank s r) = some r :=
  tierRank_of_mem h hnames (tierNameForRank_mem h hr)

end Accepted

end argvio.consent
