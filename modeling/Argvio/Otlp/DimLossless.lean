import Argvio.Otlp.V1Dims

open argvio.allowlist argvio.consent argvio.storage

namespace argvio.otlp

namespace VendorPoint

variable {p : Pipeline} {catalog : Catalog} (point : VendorPoint p catalog)

/-- No attribute list of the point repeats a key. -/
structure UniqueKeys : Prop where
  resource : (point.resource.map Prod.fst).Nodup
  record : (point.record.map Prod.fst).Nodup

/-- The value sent for a dimension, in the record or else in the resource. -/
def sent (key : String) : Option Value := sentValue point.resource point.record (attrDimPrefix ++ key)

/-- The dimension map of the point: every dimension that was sent, and the plain
label under the key `label`. -/
def dims (key : String) : Option String :=
  match point.sent key with
  | some (.str v) => some v
  | some _ => none
  | none => if key = dimLabelKey then point.plain else none

variable {point} {compile : RegexpCompiler} {file : SchemaFile} (hschema : finalize compile file = .ok p.schema)
  (hdims : IdentifierDims p.schema) (hunique : point.UniqueKeys) (hrule : point.rule = none)

include hschema hdims hunique hrule

/-- Every dimension that was sent is there, as it was sent. -/
theorem sent_cases (key : String) : point.sent key = none ∧ point.dim key = none ∨
    ∃ v, point.sent key = some (.str v) ∧ point.dim key = some (.str v) := by
  have hdeclares : point.declares key = true := by simp [VendorPoint.declares, hrule]
  have hkept := lookup_kept_of_sent (finalize_valid hschema) (defines_metricEventDef hschema point.metric)
    point.evaluated (ne_tierAttrKey_of_dimKey (dimKey_append key)) (point.not_dropped key) hunique.resource
    hunique.record
  have hdim := point.lookup_checked.1 key
  rw [hdeclares, if_pos rfl] at hdim
  cases hsent : point.sent key with
  | none =>
    unfold VendorPoint.sent at hsent
    rw [hsent] at hkept
    exact .inl ⟨rfl, hdim.trans hkept⟩
  | some w =>
    have hmem : (attrDimPrefix ++ key, w) ∈ point.record ∨ (attrDimPrefix ++ key, w) ∈ point.resource := by
      rcases Option.or_eq_some_iff.mp hsent with hrecord | ⟨_, hresource⟩
      · obtain ⟨l₁, l₂, hsplit, _⟩ := List.lookup_eq_some_iff.mp hrecord
        exact .inl (by simp [hsplit])
      · obtain ⟨l₁, l₂, hsplit, _⟩ := List.lookup_eq_some_iff.mp hresource
        exact .inr (by simp [hsplit])
    have hin := AList.lookup_isSome.mpr ((point.mem_kept_iff hschema key).mpr ⟨w, hmem⟩)
    rcases point.dim_cases hschema hdims key with hnone | ⟨v, _, hdim', _, hkept', _⟩
    · rw [← hdim, hnone] at hin
      cases hin
    rw [hkept'] at hkept
    obtain ⟨w', hw', hextract⟩ := Option.bind_eq_some_iff.mp hkept.symm
    have heq : w' = w := Option.some.inj (hw'.symm.trans hsent)
    rw [heq] at hextract
    rw [extractAttr_eq_str hextract]
    exact .inr ⟨v, rfl, hdim'⟩

/-- The stored label reads back as the dimension map of the point. -/
theorem lookup_parseDims_eq_dims (key : String) : (parseDims point.label).lookup key = point.dims key := by
  rw [point.lookup_parseDims_label hschema hdims]
  unfold VendorPoint.dims
  rcases sent_cases hschema hdims hunique hrule key with ⟨hsent, hdim⟩ | ⟨v, hsent, hdim⟩
  · rw [hsent, hdim]
    by_cases hkey : key = dimLabelKey
    · cases hplain : point.plain with
      | none => simp
      | some l => simp [hkey]
    · simp [hkey]
  · -- A dimension sent under the key `label` rules out a plain label.
    have hclash : ¬ (key = dimLabelKey ∧ point.plain ≠ none) := by
      rintro ⟨rfl, hplain⟩
      rcases point.label_cases with ⟨hnone, _⟩ | ⟨hinto, _⟩
      · rw [hnone] at hdim
        cases hdim
      · have hnone := hinto.unclashed hplain
        unfold VendorPoint.dim at hdim
        rw [lookup_sentDims, hdim] at hnone
        cases hnone
    rw [hsent, hdim, if_neg hclash]
    rfl

end VendorPoint

/-- Folding loses nothing: a point that would lose a dimension is rejected, so the
label of an accepted one reads back as everything that was sent. -/
theorem foldDims_lossless {compile : RegexpCompiler} {file : SchemaFile} {p : Pipeline}
    (hschema : finalize compile file = .ok p.schema) (hdims : IdentifierDims p.schema) {catalog : Catalog}
    (point : VendorPoint p catalog) (hunique : point.UniqueKeys) (hrule : point.rule = none) :
    (∀ key v, point.sent key = some v → ∃ t, v = .str t) ∧
      (∀ key, (parseDims point.label).lookup key = point.dims key) ∧
      ((∃ key, point.sent key ≠ none) → ((parseDims point.label).keys.length : Int) ≤ p.metricCaps.dims) ∧
      (∀ k ∈ point.folded, dimKey k = none) ∧
      ∀ (p' : Pipeline) (catalog' : Catalog) (other : VendorPoint p' catalog'), p'.schema = p.schema →
        other.UniqueKeys → other.rule = none → point.dims ≠ other.dims → point.label ≠ other.label := by
  have hcases := VendorPoint.sent_cases hschema hdims hunique hrule
  have hparsed := VendorPoint.lookup_parseDims_eq_dims hschema hdims hunique hrule
  refine ⟨?_, hparsed, ?_, fun k hk => point.dimKey_of_mem_folded hk, ?_⟩
  · intro key v hv
    rcases hcases key with ⟨hnone, _⟩ | ⟨t, hsent, _⟩
    · rw [hnone] at hv
      cases hv
    · rw [hsent] at hv
      cases hv
      exact ⟨t, rfl⟩
  · rintro ⟨key, hkey⟩
    rcases hcases key with ⟨hnone, _⟩ | ⟨t, _, hdim⟩
    · exact absurd hnone hkey
    have hthere : point.dim key ≠ none := by
      rw [hdim]
      exact Option.some_ne_none _
    exact point.length_parseDims_label_le hschema hdims hthere
  · intro p' catalog' other hsame hunique' hrule' hne heq
    apply hne
    funext key
    have hother : (parseDims other.label).lookup key = other.dims key := by
      rw [← hsame] at hschema hdims
      exact VendorPoint.lookup_parseDims_eq_dims hschema hdims hunique' hrule' key
    rw [← hparsed, ← hother, heq]

theorem foldDims_lossless_severity :
    ∃ point : VendorPoint v1Pipeline ∅, point.record = counterRecord "cli.dim.severity" ∧ point.UniqueKeys ∧
      point.label = "severity=high" ∧ ∀ key, (parseDims point.label).lookup key = point.dims key := by
  obtain ⟨point, hpoint, hlabel⟩ := (Option.any_eq_true _ _).mp v1_counter_points.1
  obtain ⟨_, hresource, hrecord⟩ := VendorPoint.run_eq_some hpoint
  have hunique : point.UniqueKeys := by
    refine ⟨?_, ?_⟩
    · rw [hresource]
      exact List.nodup_nil
    · rw [hrecord]
      decide
  have hdims : IdentifierDims v1Pipeline.schema := identifierDims_v1 v1Patterns_v1Compile finalize_v1File rfl
  obtain ⟨_, hparsed, _⟩ := foldDims_lossless finalize_v1File hdims point hunique rfl
  exact ⟨point, hrecord, hunique, decide_eq_true_eq.mp hlabel, hparsed⟩

/-- The attributes of the taxonomy, where the label of counters is a standard resource attribute
instead of one that counters allow. -/
def standardLabelFile : SchemaFile :=
  { v1File with
    standardResourceAttributes := ["cli.counter.label"]
    metrics := [{ name := "cli.counter", type := .sum, allowedAttributes := ["cli.counter.name"] }]
    spans := []
    logs := [] }

theorem isSome_finalize_standardLabelFile : (finalize v1Compile standardLabelFile).toOption.isSome = true := by
  decide +kernel

def standardLabelPipeline : Pipeline :=
  { samplePipeline with schema := (finalize v1Compile standardLabelFile).toOption.get isSome_finalize_standardLabelFile }

/-- A standard resource attribute is stored without a check, so that a plain label sent in the
resource can read back as a dimension that was not sent. -/
theorem standard_label_read_as_dimension :
    finalize v1Compile standardLabelFile = .ok standardLabelPipeline.schema ∧
      IdentifierPatterns standardLabelPipeline.schema ∧
      ∃ point : VendorPoint standardLabelPipeline ∅, point.UniqueKeys ∧ point.rule = none ∧ point.label = "os=linux" ∧
        (parseDims point.label).lookup "os" = some "linux" ∧ point.dims "os" = none := by
  have hschema : finalize v1Compile standardLabelFile = .ok standardLabelPipeline.schema :=
    Except.eq_ok_of_isSome isSome_finalize_standardLabelFile
  have hrun : (VendorPoint.run standardLabelPipeline ∅ "cli.counter" [("cli.counter.label", .str "os=linux")]
      [(tierAttrKey, .str "anonymous"), ("cli.counter.name", .str "scans")]).any
        (fun point => point.rule = none ∧ point.label = "os=linux") = true := by
    decide +kernel
  obtain ⟨point, hpoint, heval⟩ := (Option.any_eq_true _ _).mp hrun
  obtain ⟨hrule, hlabel⟩ := decide_eq_true_eq.mp heval
  obtain ⟨_, hresource, hrecord⟩ := VendorPoint.run_eq_some hpoint
  refine ⟨hschema, identifierPatterns_v1 v1Patterns_v1Compile hschema rfl, point, ⟨?_, ?_⟩, hrule, hlabel, ?_, ?_⟩
  · rw [hresource]
    decide
  · rw [hrecord]
    decide
  · rw [hlabel]
    decide
  · unfold VendorPoint.dims VendorPoint.sent
    rw [hresource, hrecord]
    rfl

end argvio.otlp
