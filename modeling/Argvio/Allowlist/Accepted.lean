import Argvio.GoTypes
import Argvio.Allowlist.Finalize

open gostrings List

namespace argvio.allowlist

/-- What a schema satisfies once `finalize` has accepted its file. The lookups
and the consent filter rely on nothing else. -/
structure Schema.Valid (s : Schema) : Prop where
  attr_key : ∀ {k d}, s.attributes.lookup k = some d → d.key = k
  minTier_known : ∀ {k d}, s.attributes.lookup k = some d → ∃ r, s.tierRank d.minTier = some r
  family_defined : ∀ {f}, f ∈ s.families → s.attributes.lookup f.key = some f

/-- Every key of the list is a defined attribute. -/
def Schema.Defines (s : Schema) (keys : List String) : Prop :=
  ∀ k ∈ keys, ∃ d, s.attributes.lookup k = some d

theorem checkAttrRefs_eq_ok_iff {attributes : GoMap String AttrDef} {owner : AttrOwner} {keys : List String} :
    checkAttrRefs attributes owner keys = .ok () ↔ ∀ k ∈ keys, ∃ d, attributes.lookup k = some d := by
  induction keys with
  | nil => simp [checkAttrRefs, pure, Except.pure]
  | cons k keys ih =>
    cases hk : attributes.lookup k with
    | none => simp [checkAttrRefs, hk, throw, throwThe, MonadExceptOf.throw]
    | some d => simp [checkAttrRefs, hk, ih]

variable {compile : RegexpCompiler} {tierRanks : GoMap String Int} {file : SchemaFile} {s : Schema} {name : String}

/-- An accepted attribute carries its own key and names a known tier. -/
theorem finalizeAttribute_ok {k : String} {spec : AttrSpec} {d : AttrDef}
    (h : finalizeAttribute compile tierRanks k spec = .ok d) :
    d.key = k ∧ d.toAttrSpec = spec ∧ ∃ r, tierRanks.lookup d.minTier = some r := by
  unfold finalizeAttribute at h
  cases hr : tierRanks.lookup spec.minTier with
  | none => simp [hr] at h
  | some r =>
    simp only [hr] at h
    rw [Except.bind_eq_ok_iff] at h
    obtain ⟨pattern, _, h⟩ := h
    rw [Except.bind_eq_ok_iff] at h
    obtain ⟨keyPattern, _, h⟩ := h
    cases h
    exact ⟨rfl, rfl, r, hr⟩

/-- What the attribute loop maintains: entries carry their key and a known tier,
and every collected family is the definition stored under its key. -/
def AttributesValid (tierRanks : GoMap String Int) (attributes : GoMap String AttrDef)
    (families : List AttrDef) : Prop :=
  (∀ k d, attributes.lookup k = some d → d.key = k ∧ ∃ r, tierRanks.lookup d.minTier = some r) ∧
    ∀ f ∈ families, attributes.lookup f.key = some f

theorem AttributesValid.insert {attributes : GoMap String AttrDef} {families : List AttrDef}
    (hvalid : AttributesValid tierRanks attributes families) {k : String} (hfresh : k ∉ attributes) {d : AttrDef}
    (hkey : d.key = k) (htier : ∃ r, tierRanks.lookup d.minTier = some r) :
    AttributesValid tierRanks (attributes.insert k d)
      (if hasSuffix k familySuffix then families ++ [d] else families) := by
  obtain ⟨hentries, hfamilies⟩ := hvalid
  have hold : ∀ f ∈ families, (attributes.insert k d).lookup f.key = some f := by
    intro f hf
    have hlookup := hfamilies f hf
    have hne : f.key ≠ k := by
      intro heq
      rw [heq, AList.lookup_eq_none.mpr hfresh] at hlookup
      cases hlookup
    rw [AList.lookup_insert_ne hne, hlookup]
  refine ⟨?_, ?_⟩
  · intro k' d' hlookup
    by_cases hk : k' = k
    · subst hk
      rw [AList.lookup_insert] at hlookup
      cases hlookup
      exact ⟨hkey, htier⟩
    · rw [AList.lookup_insert_ne hk] at hlookup
      exact hentries k' d' hlookup
  · intro f hf
    split at hf
    · rcases mem_append.mp hf with hf | hf
      · exact hold f hf
      · rw [mem_singleton.mp hf, hkey, AList.lookup_insert]
    · exact hold f hf

theorem finalizeAttributes_valid {entries : List (Σ _ : String, AttrSpec)}
    {attributes attributes' : GoMap String AttrDef} {families families' : List AttrDef} (hnodup : entries.NodupKeys)
    (hfresh : ∀ k ∈ entries.keys, k ∉ attributes) (hvalid : AttributesValid tierRanks attributes families)
    (h : finalizeAttributes compile tierRanks entries attributes families = .ok (attributes', families')) :
    AttributesValid tierRanks attributes' families' := by
  induction entries generalizing attributes families with
  | nil =>
    cases h
    exact hvalid
  | cons e rest ih =>
    obtain ⟨k, spec⟩ := e
    unfold finalizeAttributes at h
    rw [Except.bind_eq_ok_iff] at h
    obtain ⟨d, hd, h⟩ := h
    obtain ⟨hkey, _, htier⟩ := finalizeAttribute_ok hd
    refine ih (nodupKeys_of_nodupKeys_cons hnodup) ?_ (hvalid.insert (hfresh k (by simp)) hkey htier) h
    intro k' hk'
    rw [AList.mem_insert, not_or]
    refine ⟨?_, hfresh k' (by simp [hk'])⟩
    rintro rfl
    exact notMem_keys_of_nodupKeys_cons hnodup hk'

section Finalized

variable (h : finalize compile file = .ok s)

include h

/-- The parts `finalize` puts together, each from its own step. -/
theorem finalize_ok :
    ∃ families, finalizeAttributes compile s.tierRanks file.attributes.entries ∅ [] =
        .ok (s.attributes, families) ∧
      s.families = families.insertionSort (fun a b => familyLe a b) ∧
      s.tierRanks = tierIndex file.consentTiers ∧ s.consentTiers = file.consentTiers ∧
      s.spans = file.spans ∧
      s.metricsByName = GoMap.putAll ∅ (file.metrics.map (fun m => (m.name, m))) ∧
      s.logsByName = GoMap.putAll ∅ (file.logs.map (fun l => (l.eventName, l))) ∧
      (∀ m ∈ file.metrics, checkMetric s.attributes m = .ok ()) ∧
      (∀ sp ∈ file.spans, checkAttrRefs s.attributes (.span sp.namePattern) sp.allowedAttributes = .ok ()) ∧
      (∀ l ∈ file.logs, checkAttrRefs s.attributes (.log l.eventName) l.allowedAttributes = .ok ()) := by
  unfold finalize at h
  split at h
  · cases h
  simp only [Except.bind_eq_ok_iff] at h
  obtain ⟨⟨attributes, families⟩, hattributes, _, hmetrics, _, hspans, _, hlogs, h⟩ := h
  cases h
  exact ⟨families, hattributes, rfl, rfl, rfl, rfl, rfl, rfl, Except.forM_eq_ok_iff.mp hmetrics,
    Except.forM_eq_ok_iff.mp hspans, Except.forM_eq_ok_iff.mp hlogs⟩

theorem finalize_valid : s.Valid := by
  obtain ⟨families, hattributes, hfamilies, _⟩ := finalize_ok h
  have hvalid : AttributesValid s.tierRanks s.attributes families :=
    finalizeAttributes_valid file.attributes.nodupKeys (by simp) (by simp [AttributesValid]) hattributes
  refine ⟨fun hlookup => (hvalid.1 _ _ hlookup).1, fun hlookup => (hvalid.1 _ _ hlookup).2, ?_⟩
  intro f hf
  rw [hfamilies, mem_insertionSort] at hf
  exact hvalid.2 f hf

theorem finalize_metric_defines {m : MetricDef} (hm : s.metricByName name = some m) :
    s.Defines m.allowedAttributes := by
  obtain ⟨_, _, _, _, _, _, hindex, _, hmetrics, _⟩ := finalize_ok h
  unfold Schema.metricByName at hm
  rw [hindex] at hm
  obtain ⟨m', hmem, heq⟩ := mem_map.mp (GoMap.mem_of_lookup_putAll hm)
  cases heq
  have hcheck := hmetrics _ hmem
  unfold checkMetric at hcheck
  rw [Except.bind_eq_ok_iff] at hcheck
  obtain ⟨_, hrefs, _⟩ := hcheck
  exact checkAttrRefs_eq_ok_iff.mp hrefs

theorem finalize_log_defines {l : LogDef} (hl : s.logEventByName name = some l) : s.Defines l.allowedAttributes := by
  obtain ⟨_, _, _, _, _, _, _, hindex, _, _, hrefs⟩ := finalize_ok h
  unfold Schema.logEventByName at hl
  rw [hindex] at hl
  obtain ⟨l', hmem, heq⟩ := mem_map.mp (GoMap.mem_of_lookup_putAll hl)
  cases heq
  exact checkAttrRefs_eq_ok_iff.mp (hrefs _ hmem)

end Finalized

section Allowed

/-- The key is on an event's list by its own name or through its family. -/
def Schema.AllowedFor (s : Schema) (keys : List String) (k : String) : Prop :=
  k ∈ keys ∨ ∃ fam, s.familyOf k = some fam ∧ fam ∈ keys

variable {s : Schema} {keys : List String} {k : String}

theorem Schema.isAllowed_iff : s.isAllowed (allowedSet keys) k = true ↔ s.AllowedFor keys k := by
  unfold Schema.isAllowed Schema.AllowedFor
  by_cases hown : k ∈ keys
  · simp [allowedSet, hown]
  · cases hfam : s.familyOf k <;> simp [allowedSet, hown]

/-- A family is found among the collected ones, so it has a definition. -/
theorem Schema.Valid.attrDefFor_of_familyOf (hvalid : s.Valid) {k fam : String} (hfam : s.familyOf k = some fam) :
    ∃ d, s.attributes.lookup fam = some d ∧ s.attrDefFor k = some { d with key := k } := by
  have hown : s.attributes.lookup k = none := by
    cases hlookup : s.attributes.lookup k with
    | none => rfl
    | some d => simp [Schema.familyOf, hlookup] at hfam
  have hfind := hfam
  simp only [Schema.familyOf, hown, Option.map_eq_some_iff] at hfind
  obtain ⟨f, hf, hkey⟩ := hfind
  have hdefined := hvalid.family_defined (mem_of_find?_eq_some hf)
  rw [hkey] at hdefined
  exact ⟨f, hdefined, by simp [Schema.attrDefFor, hown, hfam, hdefined]⟩

/-- Neither fallback of the consent filter is reachable for an allowed key: it
has a definition, and the definition's tier has a rank. -/
theorem Schema.Valid.attrDefFor_of_allowed (hvalid : s.Valid) (hkeys : s.Defines keys)
    (hallowed : s.AllowedFor keys k) : ∃ d r, s.attrDefFor k = some d ∧ s.tierRank d.minTier = some r := by
  rcases hallowed with hown | ⟨fam, hfam, _⟩
  · obtain ⟨d, hd⟩ := hkeys k hown
    obtain ⟨r, hr⟩ := hvalid.minTier_known hd
    exact ⟨d, r, by simp [Schema.attrDefFor, hd], hr⟩
  · obtain ⟨d, hd, hdef⟩ := hvalid.attrDefFor_of_familyOf hfam
    obtain ⟨r, hr⟩ := hvalid.minTier_known hd
    exact ⟨_, r, hdef, hr⟩

end Allowed

end argvio.allowlist
