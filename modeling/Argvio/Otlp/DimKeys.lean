import Argvio.Consent.FamilyKeys
import Argvio.Otlp.V1Dims
import Argvio.Storage.DimQuery

open argvio.allowlist argvio.consent argvio.storage

namespace argvio.otlp

/-- A client that sends an attribute under the bare key of the dimension family
gets the dimension `*`. -/
def VendorPoint.SendsBareFamily {p : Pipeline} {catalog : Catalog} (point : VendorPoint p catalog) : Prop :=
  ∃ v, (dimFamily, v) ∈ point.record ∨ (dimFamily, v) ∈ point.resource

variable {compile : RegexpCompiler} {catalog : Catalog} {p : Pipeline}

/-- A point keeps the bare key as a dimension when it was sent and is declared. -/
theorem VendorPoint.dim_star_iff {file : SchemaFile} (hschema : finalize compile file = .ok p.schema)
    (point : VendorPoint p catalog) : point.dim "*" ≠ none ↔ point.SendsBareFamily ∧ point.declares "*" = true := by
  have hsent := point.mem_kept_iff hschema "*"
  rw [← dimFamily_eq] at hsent
  rw [point.lookup_checked.1, ← dimFamily_eq]
  by_cases hdeclares : point.declares "*" = true
  · rw [if_pos hdeclares, ne_eq, AList.lookup_eq_none, not_not, hsent]
    exact (and_iff_left hdeclares).symm
  · rw [if_neg hdeclares]
    exact iff_of_false (fun hne => hne rfl) (fun hand => hdeclares hand.2)

theorem v1_label_keys_iff (hpatterns : V1Patterns compile) (hschema : finalize compile v1File = .ok p.schema)
    (point : VendorPoint p catalog) :
    (isTuple point.label = true → ∀ key ∈ parseDims point.label, ({ groupBy := [key] } : DimQuery).validate = .ok ()) ↔
      ¬ (point.SendsBareFamily ∧ point.declares "*" = true) := by
  have hdims := identifierDims_v1 hpatterns hschema rfl
  rw [← point.dim_star_iff hschema]
  constructor
  · intro hkeys hdim
    have hparsed := point.lookup_parseDims_label hschema hdims "*"
    rw [if_neg (fun hand => absurd hand.1 (by decide))] at hparsed
    have hmem : "*" ∈ parseDims point.label := by
      rw [← AList.lookup_isSome, hparsed, Option.isSome_map]
      exact Option.isSome_iff_ne_none.mpr hdim
    have hvalid := validate_groupBy_iff.mp (hkeys (point.isTuple_label hdim) "*" hmem)
    exact absurd hvalid (by decide)
  · intro hstar _ key hkey
    apply validate_groupBy_iff.mpr
    rw [← AList.lookup_isSome, point.lookup_parseDims_label hschema hdims] at hkey
    split at hkey
    · rename_i hlabel
      rw [hlabel.1]
      decide
    rcases point.dim_cases hschema hdims key with hnone | ⟨v, d, hdim, _, _, hdef⟩
    · rw [hnone] at hkey
      cases hkey
    · rcases v1_dimKey hpatterns hschema rfl hdef with hshort | rfl
      · exact hshort
      · exact absurd (by simp [hdim]) hstar

/-- Stored dimension keys match the family's `key_pattern` exactly as long as the
bare key of a family, which the allowed list and the definitions hold by name, is
not sent itself. -/
theorem dimension_keys_match_iff (compile : RegexpCompiler) :
    (∀ (file : SchemaFile) (s : Schema), finalize compile file = .ok s →
      ∀ (owner : AttrOwner) (d : EventDef), checkAttrRefs s.attributes owner d.allowedAttributes = .ok () →
      ∀ (declared ceiling : String) (ceilingRank : Int) (mode : EnforcementMode) (attrs : AttrMap) (acc : Acceptance),
        s.tierRank ceiling = some ceilingRank → evaluateEvent s d declared ceiling mode attrs = .ok acc →
        (FamilyKeysMatch s d.allowedAttributes acc.keptAttributes ↔
          ¬ CarriesBareFamily s d.allowedAttributes (min ((s.tierRank declared).getD 0) ceilingRank) attrs)) ∧
    (∀ (p : Pipeline), V1Patterns compile → finalize compile v1File = .ok p.schema →
      ∀ (catalog : Catalog) (point : VendorPoint p catalog),
        ((isTuple point.label = true → ∀ key ∈ parseDims point.label,
            ({ groupBy := [key] } : DimQuery).validate = .ok ()) ↔
          ¬ (point.SendsBareFamily ∧ point.declares "*" = true))) := by
  refine ⟨?_, fun p hpatterns hschema catalog point => v1_label_keys_iff hpatterns hschema point⟩
  intro file s hschema owner d hrefs declared ceiling ceilingRank mode attrs acc hceiling hacc
  have hkeys : s.Defines d.allowedAttributes := checkAttrRefs_eq_ok_iff.mp hrefs
  obtain ⟨c, hc, hexact⟩ := exact_of_evaluateEvent (finalize_valid hschema) hkeys hacc
  rw [hceiling] at hc
  cases hc
  exact familyKeysMatch_iff hschema hkeys hexact

theorem dimension_keys_match_iff_severity :
    ∃ point : VendorPoint v1Pipeline ∅, point.record = counterRecord "cli.dim.severity" ∧
      isTuple point.label = true ∧ ∀ key ∈ parseDims point.label,
        ({ groupBy := [key] } : DimQuery).validate = .ok () := by
  obtain ⟨point, hpoint, hlabel⟩ := (Option.any_eq_true _ _).mp v1_counter_points.1
  have htuple : isTuple point.label = true := by
    rw [decide_eq_true_eq.mp hlabel]
    decide
  obtain ⟨_, hresource, hrecord⟩ := VendorPoint.run_eq_some hpoint
  have hbare : ¬ point.SendsBareFamily := by
    rintro ⟨v, hv⟩
    rw [hresource, hrecord] at hv
    simp [counterRecord, dimFamily, tierAttrKey] at hv
  have hiff := (dimension_keys_match_iff v1Compile).2 v1Pipeline v1Patterns_v1Compile finalize_v1File ∅ point
  exact ⟨point, hrecord, htuple, hiff.mpr (fun h => hbare h.1) htuple⟩

/-- Sent under the bare key of the family, a dimension is kept although no family
covers its key, and stored under the key `*`, which no query can name. -/
theorem v1_stores_bare_family_key :
    ∃ point : VendorPoint v1Pipeline ∅, point.record = counterRecord "cli.dim.*" ∧ point.label = "*=high" ∧
      ¬ FamilyKeysMatch v1Schema (v1Pipeline.metricEventDef "cli.counter").allowedAttributes
        point.acc.keptAttributes ∧
      "*" ∈ parseDims point.label ∧
      ({ groupBy := ["*"] } : DimQuery).validate = .error (.invalidGroupBy "*") := by
  obtain ⟨point, hpoint, hlabel⟩ := (Option.any_eq_true _ _).mp v1_counter_points.2
  rw [decide_eq_true_eq] at hlabel
  obtain ⟨_, _, hrecord⟩ := VendorPoint.run_eq_some hpoint
  refine ⟨point, hrecord, hlabel.1, ?_, by rw [hlabel.1]; decide, by decide⟩
  have hdims : IdentifierDims v1Schema := identifierDims_v1 v1Patterns_v1Compile finalize_v1File rfl
  have hattr : IsDimAttr dimFamily := .inl (by decide)
  have huncovered (fam : String) : ¬ v1Schema.FamilyCovers fam dimFamily := by
    intro hcovers
    obtain ⟨_, key, hkey, hshort⟩ := v1_familyCovers v1Patterns_v1Compile finalize_v1File rfl hcovers
    rw [dimFamily_eq, dimKey_append] at hkey
    cases hkey
    exact absurd hshort (by decide)
  have hfamily : v1Schema.IsFamily dimFamily := by
    obtain ⟨r, attrs, hexact⟩ := point.exact finalize_v1File
    obtain ⟨v, hv⟩ := Option.isSome_iff_exists.mp (AList.lookup_isSome.mpr hlabel.2)
    obtain ⟨_, d, _, _, hdef⟩ := hdims.of_kept hexact hattr hv
    rcases attrDefFor_cases finalize_v1File hdef with hown | ⟨fam, _, hcovers, _⟩
    · exact ⟨by decide, d, hown⟩
    · exact absurd hcovers (huncovered fam)
  intro hmatch
  obtain ⟨fam, _, hcovers⟩ := hmatch dimFamily dimFamily hfamily (cutPrefix_self_isSome hfamily.1) hlabel.2
    (hdims.checked dimFamily hattr) (fun _ => hfamily)
  exact huncovered fam hcovers

end argvio.otlp
