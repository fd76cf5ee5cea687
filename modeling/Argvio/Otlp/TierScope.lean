import Argvio.Otlp.LogRuns

open argvio.allowlist argvio.consent

namespace argvio.otlp

variable {p : Pipeline} {m : AttrList} {resource rec : AttrList}

variable {maxKeyLen maxValLen : Int} {k : String} {t : String}

theorem mem_survivors_iff {a : AttrValue} :
    a ∈ survivors maxKeyLen maxValLen m k ↔
      ∃ v, (k, v) ∈ m ∧ extractAttr maxKeyLen maxValLen k v = some a := by
  unfold survivors
  rw [List.mem_filterMap]
  constructor
  · rintro ⟨⟨k', v⟩, hmem, hextract⟩
    obtain ⟨hm, hk⟩ := List.mem_filter.mp hmem
    have hkey : k' = k := by simpa using hk
    subst hkey
    exact ⟨v, hm, hextract⟩
  · rintro ⟨v, hm, hextract⟩
    exact ⟨(k, v), List.mem_filter.mpr ⟨hm, by simp⟩, hextract⟩

/-- Only a string value is extracted as a string, and unchanged. -/
theorem extractAttr_eq_str {v : Value} (h : extractAttr maxKeyLen maxValLen k v = some (.str t)) : v = .str t := by
  unfold extractAttr at h
  split at h
  · cases h
  cases v with
  | str s =>
    simp only [extractValue] at h
    split at h
    · cases h
    · cases h
      rfl
  | slice items =>
    simp only [extractValue, Option.map_eq_some_iff] at h
    obtain ⟨_, _, hstrs⟩ := h
    cases hstrs
  | empty | bool b | int n | double x | map entries | bytes data => cases h

/-- The record is rejected, or evaluated under a known tier that its own
attribute list declares. -/
def Pipeline.HonoursOwnTier (p : Pipeline) (resource rec : AttrList) (d : EventDef) : Prop :=
  (∃ reason, p.resolveAndEvaluate resource rec d = .error reason) ∨
    ∃ declared, p.resolve resource rec = .ok declared ∧
      p.resolveAndEvaluate resource rec d = p.evaluate d declared ∧
      (tierAttrKey, .str declared.tier) ∈ rec ∧ ∃ r, p.schema.tierRank declared.tier = some r

/-- The tier declarations of a list that survive extraction. -/
def Pipeline.declarations (p : Pipeline) (m : AttrList) : List AttrValue :=
  survivors p.bounds.maxAttributeKeyLength p.bounds.maxAttributeStringValueLength m tierAttrKey

/-- The resource scope supplies a tier of its own that the schema knows. -/
def Pipeline.ResourceSuppliesTier (p : Pipeline) (resource : AttrList) : Prop :=
  ∃ t r, (p.declarations resource).getLast? = some (.str t) ∧ p.schema.tierRank t = some r

private theorem extractAttrs_of_length_le {maxCount : Int} (maxKeyLen maxValLen : Int)
    (hlength : (m.length : Int) ≤ maxCount) :
    ∃ kept dropped, extractAttrs m maxCount maxKeyLen maxValLen = some (kept, dropped) := by
  cases hextract : extractAttrs m maxCount maxKeyLen maxValLen with
  | none =>
    have hmany := extractAttrs_eq_none_iff.mp hextract
    omega
  | some kept => exact ⟨kept.1, kept.2, rfl⟩

/-- Within the count bounds, the last surviving declaration of the record scope
decides, and that of the resource scope only when none survives there. -/
theorem resolve_tier_iff (hresource : (resource.length : Int) ≤ p.bounds.maxAttributeCount)
    (hrecord : (rec.length : Int) ≤ p.bounds.maxAttributeCount) (t : String) :
    (∃ declared, p.resolve resource rec = .ok declared ∧ declared.tier = t) ↔
      (p.declarations rec).getLast?.or (p.declarations resource).getLast? = some (.str t) ∧
        ∃ r, p.schema.tierRank t = some r := by
  obtain ⟨resourceAttrs, dropped, hres⟩ := extractAttrs_of_length_le p.bounds.maxAttributeKeyLength
    p.bounds.maxAttributeStringValueLength hresource
  obtain ⟨recordAttrs, dropped', hrec⟩ := extractAttrs_of_length_le p.bounds.maxAttributeKeyLength
    p.bounds.maxAttributeStringValueLength hrecord
  have htier := @resolveTier_eq_ok_iff p.schema resourceAttrs recordAttrs t
  rw [lookup_extractAttrs hres, lookup_extractAttrs hrec] at htier
  unfold Pipeline.declarations
  rw [← htier]
  unfold Pipeline.resolve
  simp only [hres, hrec]
  cases resolveTier p.schema resourceAttrs recordAttrs <;> simp

private theorem length_le_of_resolve {declared : Declared} (h : p.resolve resource rec = .ok declared) :
    (resource.length : Int) ≤ p.bounds.maxAttributeCount ∧ (rec.length : Int) ≤ p.bounds.maxAttributeCount := by
  obtain ⟨_, _, _, _, hres, hrec, _⟩ := resolve_eq_ok h
  constructor
  · by_contra hmany
    rw [extractAttrs_eq_none_iff.mpr (by omega)] at hres
    cases hres
  · by_contra hmany
    rw [extractAttrs_eq_none_iff.mpr (by omega)] at hrec
    cases hrec

/-- A record that is rejected before evaluation, or whose tier is its own, is
treated as it declares. -/
theorem honoursOwnTier_of_resolve (d : EventDef)
    (h : ∀ declared, p.resolve resource rec = .ok declared → (tierAttrKey, .str declared.tier) ∈ rec) :
    p.HonoursOwnTier resource rec d := by
  cases hresolve : p.resolve resource rec with
  | error reason => exact .inl ⟨reason, by simp [Pipeline.resolveAndEvaluate, hresolve, bind, Except.bind]⟩
  | ok declared =>
    obtain ⟨_, _, _, _, _, _, htier, _⟩ := resolve_eq_ok hresolve
    refine .inr ⟨declared, hresolve, ?_, h declared hresolve, (resolveTier_eq_ok_iff.mp htier).2⟩
    simp [Pipeline.resolveAndEvaluate, hresolve, bind, Except.bind]

theorem str_mem_declarations_iff :
    .str t ∈ p.declarations m ↔ (tierAttrKey, .str t) ∈ m ∧
      extractAttr p.bounds.maxAttributeKeyLength p.bounds.maxAttributeStringValueLength tierAttrKey (.str t) =
        some (.str t) := by
  unfold Pipeline.declarations
  rw [mem_survivors_iff]
  constructor
  · rintro ⟨v, hmem, hextract⟩
    cases extractAttr_eq_str hextract
    exact ⟨hmem, hextract⟩
  · rintro ⟨hmem, hextract⟩
    exact ⟨_, hmem, hextract⟩

/-- The pipeline for a tenant whose ceiling is a given tier. -/
def Pipeline.stripAt (p : Pipeline) (tier : String) : Pipeline :=
  { p with
    tenant := { p.tenant with
      config := { p.tenant.config with tierCeiling := tier, tierEnforcementMode := .strip } } }

/-- Under a ceiling equal to the declared tier, an event that requires nothing is
accepted. -/
theorem stripAt_accepts {declared : Declared} {r : Int}
    (hresolve : (p.stripAt declared.tier).resolve resource rec = .ok declared)
    (hrank : p.schema.tierRank declared.tier = some r) :
    ∃ out, (p.stripAt declared.tier).resolveAndEvaluate resource rec { found := true } = .ok out := by
  have haccepts : ∃ out, (p.stripAt declared.tier).evaluate { found := true } declared = .ok out := by
    rw [evaluate_accepts_iff]
    exact (evaluateEvent_accepts_iff rfl hrank).mpr ⟨rfl, r, hrank, fun h => by cases h.1⟩
  obtain ⟨out, hout⟩ := haccepts
  exact ⟨out, by simpa [Pipeline.resolveAndEvaluate, hresolve, bind, Except.bind] using hout⟩

/-- A record scope that carries the tier key is rejected or evaluated under its
own tier, for every tenant and event, exactly when the key is absent from it, a
scope has too many attributes, a declaration of the record survives extraction,
or the resource has no usable tier to fall back to. -/
theorem honoursOwnTier_iff (p : Pipeline) (resource rec : AttrList) :
    (tierAttrKey ∈ rec.map Prod.fst →
      ∀ tenant d, { p with tenant := tenant }.HonoursOwnTier resource rec d) ↔
    tierAttrKey ∉ rec.map Prod.fst ∨ (resource.length : Int) > p.bounds.maxAttributeCount ∨
      (rec.length : Int) > p.bounds.maxAttributeCount ∨ p.declarations rec ≠ [] ∨
      ¬ p.ResourceSuppliesTier resource := by
  constructor
  · intro hhonours
    by_contra hnot
    simp only [not_or, not_not, ne_eq, not_lt] at hnot
    obtain ⟨hkey, hresource, hrecord, hnone, t, r, hlast, hrank⟩ := hnot
    have hlookup : (p.declarations rec).getLast?.or (p.declarations resource).getLast? = some (.str t) := by
      rw [hnone, hlast]
      rfl
    obtain ⟨declared, hresolve, rfl⟩ :=
      (resolve_tier_iff (p := p.stripAt t) hresource hrecord t).mpr ⟨hlookup, r, hrank⟩
    obtain ⟨out, hout⟩ := stripAt_accepts hresolve hrank
    have hhonoured : (p.stripAt declared.tier).HonoursOwnTier resource rec { found := true } := hhonours hkey _ _
    rcases hhonoured with ⟨reason, hrejected⟩ | ⟨declared', hresolve', _, hmem, _⟩
    · rw [hout] at hrejected
      cases hrejected
    rw [hresolve] at hresolve'
    cases hresolve'
    -- The resource's value survives extraction, so the same value would in the record.
    have hextract := (str_mem_declarations_iff.mp (List.mem_of_getLast? hlast)).2
    have hsurvives : .str declared.tier ∈ p.declarations rec := str_mem_declarations_iff.mpr ⟨hmem, hextract⟩
    rw [hnone] at hsurvives
    cases hsurvives
  · rintro hcond hkey tenant d
    apply honoursOwnTier_of_resolve
    intro declared hresolve
    obtain ⟨hresource, hrecord⟩ := length_le_of_resolve hresolve
    obtain ⟨hdeclared, r, hrank⟩ :=
      (resolve_tier_iff hresource hrecord declared.tier).mp ⟨declared, hresolve, rfl⟩
    change (p.declarations rec).getLast?.or (p.declarations resource).getLast? = _ at hdeclared
    cases hlast : (p.declarations rec).getLast? with
    | some a =>
      rw [hlast, Option.some_or] at hdeclared
      cases hdeclared
      exact (str_mem_declarations_iff.mp (List.mem_of_getLast? hlast)).1
    | none =>
      rw [hlast, Option.none_or] at hdeclared
      rcases hcond with habsent | hmany | hmany | hsome | hresourceTier
      · exact absurd hkey habsent
      · dsimp only at hresource
        omega
      · dsimp only at hrecord
        omega
      · exact absurd (List.getLast?_eq_none_iff.mp hlast) hsome
      · exact absurd ⟨declared.tier, r, hdeclared, hrank⟩ hresourceTier

/-- A record whose own declaration has an unsupported value is evaluated under
the tier of its resource. -/
theorem honoursOwnTier_fails_for_empty_value :
    tierAttrKey ∈ ([(tierAttrKey, .empty)] : AttrList).map Prod.fst ∧
      ¬ samplePipeline.HonoursOwnTier [(tierAttrKey, .str "full")] [(tierAttrKey, .empty)] { found := true } := by
  refine ⟨by decide, ?_⟩
  rintro (⟨reason, hrejected⟩ | ⟨declared, _, _, hmem, _⟩)
  · have haccepted : (samplePipeline.resolveAndEvaluate [(tierAttrKey, .str "full")] [(tierAttrKey, .empty)]
        { found := true }).isOk = true := by decide
    rw [hrejected] at haccepted
    cases haccepted
  · simp at hmem

end argvio.otlp
