import Argvio.Otlp.V1Dims

open argvio.allowlist argvio.consent argvio.storage

namespace argvio.otlp

namespace VendorPoint

variable {p : Pipeline} {catalog : Catalog} (point : VendorPoint p catalog)

variable {compile : RegexpCompiler} {file : SchemaFile}

/-- The effective tier of an accepted point is a tier of the schema. -/
theorem exists_tierRank_effectiveTier (hschema : finalize compile file = .ok p.schema) :
    ∃ got, p.schema.tierRank point.acc.effectiveTier = some got := by
  obtain ⟨r, hr, hname⟩ := resolveAndEvaluate_effectiveTier point.evaluated
  obtain ⟨name, hknown⟩ := tierRank_of_effectiveRank hr
  have hname : point.acc.effectiveTier = tierNameForRank p.schema r := hname
  rw [hname]
  exact exists_tierRank_of_mem hschema (tierNameForRank_mem hschema hknown)

/-- The dimensions a point is stored with are among those its rule declares. -/
theorem declares_of_mem_label (hschema : finalize compile file = .ok p.schema) (hdims : IdentifierDims p.schema)
    {key : String} (hkey : key ∈ parseDims point.label) : point.declares key = true := by
  by_contra hundeclared
  have hdim : point.dim key = none := by rw [point.lookup_checked.1 key, if_neg hundeclared]
  rw [← AList.lookup_isSome, point.lookup_parseDims_label hschema hdims, hdim] at hkey
  split at hkey
  · rename_i hlabel
    -- The plain label is let through under the key `label` only.
    apply hlabel.2
    unfold VendorPoint.plain plainLabel
    rw [point.lookup_checked.2, ← hlabel.1, if_neg hundeclared]
  · cases hkey

end VendorPoint

theorem le_of_belowMinTier_eq_false {p : Pipeline} {rule : CatalogRule} {tier : String} {want got : Int}
    (h : p.belowMinTier rule tier = false) (hset : rule.minTier ≠ "")
    (hwant : p.schema.tierRank rule.minTier = some want) (hgot : p.schema.tierRank tier = some got) : want ≤ got := by
  unfold Pipeline.belowMinTier at h
  rw [if_neg hset, hwant, hgot] at h
  simpa using h

/-- The catalog governs what is stored: a point with a rule has the rule's kind and
a tier the rule allows, keeps every dimension the rule declares and, where
dimensions are identifiers, is stored with no other. -/
theorem catalog_governs {compile : RegexpCompiler} {file : SchemaFile} {p : Pipeline}
    (hschema : finalize compile file = .ok p.schema) {catalog : Catalog} (point : VendorPoint p catalog) :
    (∀ rule, point.rule = some rule →
      rule.kind = point.vendor.kind ∧
      (∀ want, rule.minTier ≠ "" → p.schema.tierRank rule.minTier = some want →
        ∃ got, p.schema.tierRank point.acc.effectiveTier = some got ∧ want ≤ got) ∧
      (IdentifierDims p.schema → ∀ key ∈ parseDims point.label, key ∈ rule.dims) ∧
      (∀ key ∈ rule.dims, point.checked.lookup (attrDimPrefix ++ key) =
        point.acc.keptAttributes.lookup (attrDimPrefix ++ key)) ∧
      (dimLabelKey ∈ rule.dims → point.checked.lookup point.vendor.labelAttr =
        point.acc.keptAttributes.lookup point.vendor.labelAttr)) ∧
    (point.rule = none →
      p.tenant.config.strictMetrics = false ∧ point.checked = point.acc.keptAttributes) := by
  rcases point.checks_cases with ⟨hnone, hstrict, hchecked⟩ | ⟨rule, hrule, hkind, htier, _⟩
  · refine ⟨fun rule hrule => ?_, fun _ => ⟨hstrict, hchecked⟩⟩
    rw [hnone] at hrule
    cases hrule
  refine ⟨fun rule' hrule' => ?_, fun hnone => ?_⟩
  · rw [hrule] at hrule'
    cases hrule'
    have hdeclares : ∀ key, point.declares key = true ↔ key ∈ rule.dims := by
      intro key
      simp [VendorPoint.declares, hrule]
    refine ⟨hkind, ?_, ?_, ?_, ?_⟩
    · intro want hset hwant
      obtain ⟨got, hgot⟩ := point.exists_tierRank_effectiveTier hschema
      exact ⟨got, hgot, le_of_belowMinTier_eq_false htier hset hwant hgot⟩
    · intro hdims key hkey
      exact (hdeclares key).mp (point.declares_of_mem_label hschema hdims hkey)
    · intro key hkey
      have hdim := point.lookup_checked.1 key
      rwa [if_pos ((hdeclares key).mpr hkey)] at hdim
    · intro hlabel
      have hplain := point.lookup_checked.2
      rwa [if_pos ((hdeclares dimLabelKey).mpr hlabel)] at hplain
  · rw [hrule] at hnone
    cases hnone

/-- A catalog that declares one counter. -/
def scansCatalog (rule : CatalogRule) : Catalog := GoMap.putAll ∅ [(⟨"", "scans"⟩, rule)]

theorem catalog_governs_severity :
    ∃ point : VendorPoint v1Pipeline (scansCatalog ⟨"counter", ["severity"], "anonymous"⟩),
      point.rule = some ⟨"counter", ["severity"], "anonymous"⟩ ∧ point.label = "severity=high" ∧
        ∀ key ∈ parseDims point.label, key ∈ ["severity"] := by
  have hrun : (VendorPoint.run v1Pipeline (scansCatalog ⟨"counter", ["severity"], "anonymous"⟩) "cli.counter" []
      (counterRecord "cli.dim.severity" ++ [("cli.counter.label", .str "nightly")])).any
        (fun point => point.rule = some ⟨"counter", ["severity"], "anonymous"⟩ ∧
          point.label = "severity=high") = true := by
    decide +kernel
  obtain ⟨point, _, hpoint⟩ := (Option.any_eq_true _ _).mp hrun
  obtain ⟨hrule, hlabel⟩ := decide_eq_true_eq.mp hpoint
  have hdims : IdentifierDims v1Pipeline.schema := identifierDims_v1 v1Patterns_v1Compile finalize_v1File rfl
  exact ⟨point, hrule, hlabel, ((catalog_governs finalize_v1File point).1 _ hrule).2.2.1 hdims⟩

/-- A schema whose label attribute has no pattern. -/
def freeLabelFile : SchemaFile where
  supportedSignalTypes := ["metrics"]
  standardResourceAttributes := ["service.name"]
  consentTiers := [⟨"anonymous", 0⟩]
  attributes := GoMap.putAll ∅ [
    ("cli.counter.name", { type := .string, minTier := "anonymous" }),
    ("cli.counter.label", { type := .string, minTier := "anonymous" })]
  metrics := [{ name := "cli.counter", type := .sum, allowedAttributes := ["cli.counter.name", "cli.counter.label"] }]
  spans := []
  logs := []

def freeLabelSchema : Schema := (finalize sampleCompile freeLabelFile).toOption.get rfl

def freeLabelPipeline : Pipeline :=
  { samplePipeline with
    schema := freeLabelSchema
    tenant := { samplePipeline.tenant with config := { samplePipeline.tenant.config with tierCeiling := "anonymous" } } }

/-- Under such a schema a plain label can read back as a dimension that the rule
does not declare. -/
theorem free_label_read_as_undeclared :
    finalize sampleCompile freeLabelFile = .ok freeLabelPipeline.schema ∧
      ∃ point : VendorPoint freeLabelPipeline (scansCatalog ⟨"counter", ["label"], ""⟩),
        point.record = [(tierAttrKey, .str "anonymous"), ("cli.counter.name", .str "scans"),
          ("cli.counter.label", .str "os=linux")] ∧
        point.rule = some ⟨"counter", ["label"], ""⟩ ∧ point.label = "os=linux" ∧
        "os" ∈ parseDims point.label ∧ "os" ∉ ["label"] := by
  have hrun : (VendorPoint.run freeLabelPipeline (scansCatalog ⟨"counter", ["label"], ""⟩) "cli.counter" []
      [(tierAttrKey, .str "anonymous"), ("cli.counter.name", .str "scans"),
        ("cli.counter.label", .str "os=linux")]).any
        (fun point => point.rule = some ⟨"counter", ["label"], ""⟩ ∧ point.label = "os=linux") = true := by
    decide +kernel
  obtain ⟨point, hpoint, heval⟩ := (Option.any_eq_true _ _).mp hrun
  obtain ⟨hrule, hlabel⟩ := decide_eq_true_eq.mp heval
  obtain ⟨_, _, hrecord⟩ := VendorPoint.run_eq_some hpoint
  refine ⟨rfl, point, hrecord, hrule, hlabel, ?_, by decide⟩
  rw [hlabel]
  decide

end argvio.otlp
