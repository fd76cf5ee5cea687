import Argvio.Otlp.DimFold

open gostrings
open argvio.allowlist argvio.consent argvio.storage

namespace argvio.otlp

/-- The attributes a point's label is made from. -/
def IsDimAttr (k : String) : Prop :=
  (dimKey k).isSome = true ∨ k ∈ ["cli.counter.label", "cli.measure.label", "cli.value.label"]

/-- A schema whose dimension and label attributes are strings with identifier
patterns. The keys its dimensions can have are identifiers too, apart from the `*`
of the family's own key. -/
structure IdentifierPatterns (s : Schema) : Prop where
  value : ∀ k d, IsDimAttr k → s.attrDefFor k = some d →
    d.type = .string ∧ ∃ re, d.compiledPattern = some re ∧ ∀ v, re.matchString v = true → isIdentifier v = true
  key : ∀ k key d, dimKey k = some key → s.attrDefFor k = some d → isIdentifier key = true ∨ key = "*"

/-- Such a schema where no dimension or label attribute is a standard resource
attribute, which is stored without a check. -/
structure IdentifierDims (s : Schema) : Prop extends IdentifierPatterns s where
  checked : ∀ k, IsDimAttr k → s.isStandardResourceAttribute k = false

theorem dimClean_of_key {key : String} (h : isIdentifier key = true ∨ key = "*") : DimClean key := by
  rcases h with h | rfl
  · exact dimClean_of_isIdentifier h
  · exact ⟨by decide, by decide⟩

theorem ne_empty_of_isIdentifier {s : String} (h : isIdentifier s = true) : s ≠ "" := by
  rintro rfl
  cases h

/-- Such a schema keeps dimension and label attributes only as identifiers. -/
theorem IdentifierDims.of_kept {s : Schema} (hdims : IdentifierDims s) {allowedAttributes : List String} {r : Int}
    {attrs : AttrMap} {acc : Acceptance} (hexact : acc.Exact s allowedAttributes r attrs) {k : String} {v : AttrValue}
    (hk : IsDimAttr k) (hkept : acc.keptAttributes.lookup k = some v) :
    ∃ t d, v = .str t ∧ isIdentifier t = true ∧ s.attrDefFor k = some d := by
  have htier : k ≠ tierAttrKey := by
    rintro rfl
    exact hexact.tier_not_kept (AList.lookup_isSome.mp (by simp [hkept]))
  obtain ⟨_, hkeeps⟩ := (hexact.kept_iff k v htier).mp hkept
  rcases hkeeps with ⟨_, hstandard⟩ | ⟨_, d, _, hdef, hcheck, _⟩
  · rw [hdims.checked k hk] at hstandard
    cases hstandard
  obtain ⟨hstring, re, hre, hpattern⟩ := hdims.value k d hk hdef
  unfold checkAttribute at hcheck
  rw [hstring] at hcheck
  cases v with
  | str t =>
    simp only [checkString, hre] at hcheck
    split at hcheck
    · cases hcheck
    split at hcheck
    · cases hcheck
    split at hcheck
    · rename_i hmatch
      exact ⟨t, d, rfl, hpattern t hmatch, hdef⟩
    · cases hcheck
  | int n | bool b | double x | strs items => cases hcheck

theorem vendorMetrics_labelAttr {metric : String} {vm : VendorMetric} (h : vendorMetrics metric = some vm) :
    vendorLabelAttr metric = vm.labelAttr ∧
      vm.labelAttr ∈ ["cli.counter.label", "cli.measure.label", "cli.value.label"] := by
  unfold vendorMetrics at h
  unfold vendorLabelAttr
  by_cases hcounter : metric = "cli.counter"
  · rw [if_pos hcounter] at h ⊢
    cases h
    exact ⟨rfl, by decide⟩
  rw [if_neg hcounter] at h ⊢
  by_cases hmeasure : metric = "cli.measure"
  · rw [if_pos hmeasure] at h ⊢
    cases h
    exact ⟨rfl, by decide⟩
  rw [if_neg hmeasure] at h ⊢
  by_cases hvalue : metric = "cli.value"
  · rw [if_pos hvalue] at h ⊢
    cases h
    exact ⟨rfl, by decide⟩
  · rw [if_neg hvalue] at h
    cases h

/-- A vendor data point that gets through the allowlist, the tenant's catalog and
the folding of its dimensions. -/
structure VendorPoint (p : Pipeline) (catalog : Catalog) where
  metric : String
  vendor : VendorMetric
  isVendor : vendorMetrics metric = some vendor
  resource : AttrList
  record : AttrList
  acc : Acceptance
  structDropped : List String
  evaluated : p.resolveAndEvaluate resource record (p.metricEventDef metric) = .ok (acc, structDropped)
  checked : AttrMap
  checks : p.checkCatalog catalog metric acc.keptAttributes acc.effectiveTier = .ok checked
  folded : AttrMap
  folds : p.foldDims metric checked (structDropped ++ acc.droppedKeys) = .ok folded

namespace VendorPoint

/-- Runs the three stages on a data point. -/
def run (p : Pipeline) (catalog : Catalog) (metric : String) (resource record : AttrList) :
    Option (VendorPoint p catalog) :=
  match hvendor : vendorMetrics metric with
  | none => none
  | some vendor =>
    match hevaluated : p.resolveAndEvaluate resource record (p.metricEventDef metric) with
    | .error _ => none
    | .ok (acc, structDropped) =>
      match hchecks : p.checkCatalog catalog metric acc.keptAttributes acc.effectiveTier with
      | .error _ => none
      | .ok checked =>
        match hfolds : p.foldDims metric checked (structDropped ++ acc.droppedKeys) with
        | .error _ => none
        | .ok folded =>
          some ⟨metric, vendor, hvendor, resource, record, acc, structDropped, hevaluated, checked, hchecks, folded, hfolds⟩

variable {p : Pipeline} {catalog : Catalog} (point : VendorPoint p catalog)

variable {point} in
theorem run_eq_some {metric : String} {resource record : AttrList}
    (h : run p catalog metric resource record = some point) :
    point.metric = metric ∧ point.resource = resource ∧ point.record = record := by
  unfold run at h
  split at h
  · cases h
  split at h
  · cases h
  split at h
  · cases h
  split at h
  · cases h
  · cases h
    exact ⟨rfl, rfl, rfl⟩

/-- The label the point is stored with. -/
def label : String := strOrEmpty point.folded point.vendor.labelAttr

/-- The plain label the allowlist and the catalog let through, if any. -/
def plain : Option String := plainLabel point.checked point.vendor.labelAttr

/-- What the point has under a dimension key when its dimensions are folded. -/
def dim (key : String) : Option AttrValue := point.checked.lookup (attrDimPrefix ++ key)

/-- The catalog rule the point is checked against. -/
def rule : Option CatalogRule :=
  catalog.lookup ⟨strOrEmpty point.acc.keptAttributes attrServiceName,
    strOrEmpty point.acc.keptAttributes point.vendor.nameAttr⟩

/-- Whether the catalog lets a dimension through: without a rule it lets all. -/
def declares (key : String) : Bool := point.rule.all (fun rule => key ∈ rule.dims)

theorem labelAttr_eq : vendorLabelAttr point.metric = point.vendor.labelAttr :=
  (vendorMetrics_labelAttr point.isVendor).1

theorem isDimAttr_labelAttr : IsDimAttr point.vendor.labelAttr := .inr (vendorMetrics_labelAttr point.isVendor).2

theorem dimKey_labelAttr : dimKey point.vendor.labelAttr = none := by
  have hlabel := (vendorMetrics_labelAttr point.isVendor).2
  simp only [List.mem_cons, List.not_mem_nil, or_false] at hlabel
  rcases hlabel with h | h | h <;> rw [h] <;> decide

theorem append_ne_labelAttr (key : String) : attrDimPrefix ++ key ≠ point.vendor.labelAttr := by
  intro heq
  have hlabel := point.dimKey_labelAttr
  rw [← heq, dimKey_append] at hlabel
  cases hlabel

/-- What it takes to get through the catalog, and what comes out of it. -/
theorem checks_cases :
    point.rule = none ∧ p.tenant.config.strictMetrics = false ∧ point.checked = point.acc.keptAttributes ∨
      ∃ rule, point.rule = some rule ∧ rule.kind = point.vendor.kind ∧
        p.belowMinTier rule point.acc.effectiveTier = false ∧
        point.checked = stripUndeclared rule point.vendor.labelAttr point.acc.keptAttributes := by
  have h := point.checks
  unfold Pipeline.checkCatalog at h
  rw [point.isVendor] at h
  dsimp only at h
  unfold VendorPoint.rule
  cases hrule : catalog.lookup (⟨strOrEmpty point.acc.keptAttributes attrServiceName,
      strOrEmpty point.acc.keptAttributes point.vendor.nameAttr⟩ : CatalogKey) with
  | none =>
    rw [hrule] at h
    dsimp only at h
    split at h
    · cases h
    · rename_i hstrict
      exact .inl ⟨rfl, Bool.eq_false_iff.mpr hstrict, (Except.ok.inj h).symm⟩
  | some rule =>
    rw [hrule] at h
    dsimp only at h
    split at h
    · cases h
    rename_i hkind
    split at h
    · cases h
    · rename_i htier
      exact .inr ⟨rule, rfl, not_not.mp hkind, Bool.eq_false_iff.mpr htier, (Except.ok.inj h).symm⟩

/-- The catalog drops the dimensions its rule does not declare and leaves the rest. -/
theorem lookup_checked :
    (∀ key, point.dim key =
      if point.declares key then point.acc.keptAttributes.lookup (attrDimPrefix ++ key) else none) ∧
    point.checked.lookup point.vendor.labelAttr =
      if point.declares dimLabelKey then point.acc.keptAttributes.lookup point.vendor.labelAttr else none := by
  unfold VendorPoint.dim VendorPoint.declares
  rcases point.checks_cases with ⟨hrule, _, hchecked⟩ | ⟨rule, hrule, _, _, hchecked⟩
  · rw [hrule, hchecked]
    simp
  · rw [hrule, hchecked]
    refine ⟨fun key => ?_, ?_⟩
    · simpa using lookup_stripUndeclared_dim rule point.dimKey_labelAttr point.acc.keptAttributes key
    · simpa using lookup_stripUndeclared_label rule point.dimKey_labelAttr point.acc.keptAttributes

/-- No dimension attribute was dropped before the catalog. -/
theorem fold_cases :
    (∀ k ∈ point.structDropped ++ point.acc.droppedKeys, dimKey k = none) ∧
      ((sentDims point.checked).keys = [] ∧ point.folded = point.checked ∨
        FoldedInto p point.vendor.labelAttr point.checked point.folded) := by
  have hne : vendorLabelAttr point.metric ≠ "" := by
    intro hempty
    have hmem := (vendorMetrics_labelAttr point.isVendor).2
    rw [← point.labelAttr_eq, hempty] at hmem
    exact absurd hmem (by decide)
  have hcases := foldDims_eq_ok hne point.folds
  rwa [point.labelAttr_eq] at hcases

/-- A dimension of an accepted point is dropped nowhere before the catalog. -/
theorem not_dropped (key : String) : attrDimPrefix ++ key ∉ point.structDropped ++ point.acc.droppedKeys := by
  intro hmem
  have hnone := point.fold_cases.1 _ hmem
  rw [dimKey_append] at hnone
  cases hnone

/-- A label attribute that gets this far is the plain label. -/
theorem strOrEmpty_labelAttr : strOrEmpty point.checked point.vendor.labelAttr = point.plain.getD "" := by
  unfold strOrEmpty VendorPoint.plain plainLabel
  cases hlabel : point.checked.lookup point.vendor.labelAttr with
  | none => rfl
  | some v =>
    cases v with
    | str label =>
      dsimp only
      by_cases hempty : label = ""
      · rw [if_pos hempty, hempty]
        rfl
      · rw [if_neg hempty]
        rfl
    | _ => rfl

theorem lookup_pointDims (key : String) :
    (pointDims point.vendor.labelAttr point.checked).lookup key =
      if key = dimLabelKey ∧ point.plain ≠ none then point.plain else (point.dim key).map dimText := by
  have hplain : plainLabel point.checked point.vendor.labelAttr = point.plain := rfl
  unfold VendorPoint.dim
  rw [← lookup_sentDims]
  unfold pointDims
  rw [hplain]
  cases point.plain with
  | none => simp
  | some l =>
    dsimp only
    by_cases hkey : key = dimLabelKey
    · subst hkey
      simp
    · rw [AList.lookup_insert_ne hkey]
      simp [hkey]

/-- Without dimensions the point keeps its plain label, and otherwise its label is
the tuple of all its dimensions. -/
theorem label_cases :
    (∀ key, point.dim key = none) ∧ point.label = point.plain.getD "" ∧ point.folded = point.checked ∨
      FoldedInto p point.vendor.labelAttr point.checked point.folded ∧
        point.label = formatDims (pointDims point.vendor.labelAttr point.checked) ∧
        (pointDims point.vendor.labelAttr point.checked).keys ≠ [] := by
  rcases point.fold_cases.2 with ⟨hnil, hfolded⟩ | hinto
  · refine .inl ⟨sentDims_keys_eq_nil_iff.mp hnil, ?_, hfolded⟩
    unfold VendorPoint.label
    rw [hfolded, point.strOrEmpty_labelAttr]
  refine .inr ⟨hinto, ?_, ?_⟩
  · unfold VendorPoint.label strOrEmpty
    rw [hinto.stored, AList.lookup_insert]
  intro hnil
  apply hinto.sent
  rw [List.eq_nil_iff_forall_not_mem] at hnil ⊢
  intro key hmem
  apply hnil key
  rw [← AList.mem_keys, ← AList.lookup_isSome] at hmem ⊢
  rw [point.lookup_pointDims]
  split
  · rename_i hlabel
    exact Option.isSome_iff_ne_none.mpr hlabel.2
  · rwa [lookup_sentDims] at hmem

/-- A label that holds a dimension is a tuple. -/
theorem isTuple_label {key : String} (h : point.dim key ≠ none) : isTuple point.label = true := by
  rcases point.label_cases with ⟨hnone, _⟩ | ⟨_, hlabel, hne⟩
  · exact absurd (hnone key) h
  · rw [hlabel]
    exact containsChar_formatDims hne

theorem dimKey_of_mem_folded {k : String} (hk : k ∈ point.folded) : dimKey k = none := by
  by_contra hsome
  obtain ⟨key, hkey⟩ := Option.ne_none_iff_exists'.mp hsome
  obtain rfl := dimKey_eq_some_iff.mp hkey
  rcases point.label_cases with ⟨hnone, _, hfolded⟩ | ⟨hinto, _⟩
  · rw [hfolded] at hk
    exact AList.lookup_eq_none.mp (hnone key) hk
  · rw [hinto.stored, ← AList.lookup_isSome, AList.lookup_insert_ne (point.append_ne_labelAttr key),
      GoMap.lookup_keep, hkey] at hk
    simp at hk

section Accepted

variable {compile : RegexpCompiler} {file : SchemaFile} (hschema : finalize compile file = .ok p.schema)

include hschema

theorem exact : ∃ r attrs, point.acc.Exact p.schema (p.metricEventDef point.metric).allowedAttributes r attrs := by
  obtain ⟨declared, _, _, hacc⟩ := resolveAndEvaluate_eq_ok point.evaluated
  obtain ⟨_, _, hexact⟩ := exact_of_evaluateEvent (finalize_valid hschema)
    (defines_metricEventDef hschema point.metric) hacc
  exact ⟨_, _, hexact⟩

/-- A dimension was sent in one of the scopes exactly when the allowlist kept it. -/
theorem mem_kept_iff (key : String) : attrDimPrefix ++ key ∈ point.acc.keptAttributes ↔
    ∃ v, (attrDimPrefix ++ key, v) ∈ point.record ∨ (attrDimPrefix ++ key, v) ∈ point.resource := by
  have hvalid := finalize_valid hschema
  have hkeys := defines_metricEventDef hschema point.metric
  constructor
  · exact sent_of_mem_kept hvalid hkeys point.evaluated
  · rintro ⟨v, hv⟩
    exact mem_kept_of_sent hvalid hkeys point.evaluated (ne_tierAttrKey_of_dimKey (dimKey_append key))
      (point.not_dropped key) hv

variable (hdims : IdentifierDims p.schema)

include hdims

/-- The dimensions of an accepted point are identifiers. -/
theorem dim_cases (key : String) : point.dim key = none ∨
    ∃ v d, point.dim key = some (.str v) ∧ isIdentifier v = true ∧
      point.acc.keptAttributes.lookup (attrDimPrefix ++ key) = some (.str v) ∧
      p.schema.attrDefFor (attrDimPrefix ++ key) = some d := by
  obtain ⟨r, attrs, hexact⟩ := point.exact hschema
  rw [point.lookup_checked.1 key]
  split
  · cases hkept : point.acc.keptAttributes.lookup (attrDimPrefix ++ key) with
    | none => exact .inl rfl
    | some a =>
      have hattr : IsDimAttr (attrDimPrefix ++ key) := .inl (by simp [dimKey_append])
      obtain ⟨v, d, rfl, hident, hdef⟩ := hdims.of_kept hexact hattr hkept
      exact .inr ⟨v, d, rfl, hident, rfl, hdef⟩
  · exact .inl rfl

theorem isIdentifier_plain {l : String} (h : point.plain = some l) : isIdentifier l = true := by
  obtain ⟨r, attrs, hexact⟩ := point.exact hschema
  unfold VendorPoint.plain plainLabel at h
  split at h
  · rename_i label hlabel
    split at h
    · cases h
    cases h
    rw [point.lookup_checked.2] at hlabel
    split at hlabel
    · obtain ⟨t, _, heq, hident, _⟩ := hdims.of_kept hexact point.isDimAttr_labelAttr hlabel
      cases heq
      exact hident
    · cases hlabel
  · cases h

theorem cleanDims_pointDims : CleanDims (pointDims point.vendor.labelAttr point.checked) := by
  intro key v hv
  rw [point.lookup_pointDims] at hv
  split at hv
  · rename_i hlabel
    rw [hlabel.1]
    exact ⟨⟨by decide, by decide⟩, dimClean_of_isIdentifier (point.isIdentifier_plain hschema hdims hv)⟩
  rcases point.dim_cases hschema hdims key with hnone | ⟨w, d, hdim, hident, _, hdef⟩
  · rw [hnone] at hv
    cases hv
  · rw [hdim] at hv
    cases hv
    exact ⟨dimClean_of_key (hdims.key _ _ d (dimKey_append key) hdef), dimClean_of_isIdentifier hident⟩

/-- Reading the stored label back gives the dimensions and the plain label. -/
theorem lookup_parseDims_label (key : String) : (parseDims point.label).lookup key =
    if key = dimLabelKey ∧ point.plain ≠ none then point.plain else (point.dim key).map dimText := by
  rcases point.label_cases with ⟨hnone, hlabel, _⟩ | ⟨_, hlabel, hne⟩
  · rw [hnone key, hlabel]
    cases hplain : point.plain with
    | none => simp [parseDims]
    | some l =>
      have hident := point.isIdentifier_plain hschema hdims hplain
      rw [Option.getD_some,
        lookup_parseDims_plain (ne_empty_of_isIdentifier hident) (dimClean_of_isIdentifier hident) key]
      simp
  · rw [hlabel, lookup_parseDims_formatDims (point.cleanDims_pointDims hschema hdims).readable hne, point.lookup_pointDims]

theorem length_parseDims_label_le {key : String} (h : point.dim key ≠ none) :
    ((parseDims point.label).keys.length : Int) ≤ p.metricCaps.dims := by
  rcases point.label_cases with ⟨hnone, _⟩ | ⟨hinto, hlabel, hne⟩
  · exact absurd (hnone key) h
  have hsame := GoMap.same_of_lookup
    (lookup_parseDims_formatDims (point.cleanDims_pointDims hschema hdims).readable hne)
  have hlength : (parseDims point.label).keys.length =
      (pointDims point.vendor.labelAttr point.checked).keys.length := by
    rw [hlabel]
    simpa [AList.keys, List.keys] using hsame.length_eq
  rw [hlength]
  exact hinto.bounded

end Accepted

end VendorPoint

end argvio.otlp
