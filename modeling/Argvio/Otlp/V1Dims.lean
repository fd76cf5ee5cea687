import Argvio.Allowlist.V1
import Argvio.Otlp.VendorPoints

open gostrings
open argvio.allowlist argvio.consent

namespace argvio.otlp

/-- The key of the dimension family. -/
def dimFamily : String := "cli.dim.*"

theorem dimFamily_eq : dimFamily = attrDimPrefix ++ "*" := by decide

section V1

variable {compile : RegexpCompiler} {file : SchemaFile} {s : Schema} (hpatterns : V1Patterns compile)
  (hschema : finalize compile file = .ok s) (hfile : file.attributes = v1File.attributes)

/-- What the taxonomy says of its dimension and label attributes and of its only
family. -/
theorem v1Attributes_dims : ∀ e ∈ v1Attributes,
    (hasSuffix e.1 familySuffix = true → e.1 = dimFamily ∧ e.2.keyPattern = dimKeyPattern) ∧
      ((dimKey e.1).isSome = true → e.1 = dimFamily) ∧
      ((dimKey e.1).isSome = true ∨ e.1 ∈ ["cli.counter.label", "cli.measure.label", "cli.value.label"] →
        e.2.type = .string ∧ e.2.pattern = identifierPattern) := by
  decide +kernel

theorem v1_standard : ∀ k ∈ v1File.standardResourceAttributes,
    (dimKey k).isSome = false ∧ k ∉ ["cli.counter.label", "cli.measure.label", "cli.value.label"] := by
  decide

include hschema hfile in
theorem v1_mem_attributes {k : String} {d : AttrDef} (hd : s.attributes.lookup k = some d) :
    ∃ spec, (k, spec) ∈ v1Attributes ∧ finalizeAttribute compile s.tierRanks k spec = .ok d := by
  obtain ⟨spec, hspec, hfinal⟩ := (finalize_lookup_iff hschema).mp hd
  rw [hfile] at hspec
  exact ⟨spec, GoMap.mem_of_lookup_putAll hspec, hfinal⟩

include hpatterns hschema hfile

/-- The own attributes among the dimension and label attributes hold identifiers. -/
theorem v1_own_pattern {k : String} {d : AttrDef} (hk : IsDimAttr k) (hd : s.attributes.lookup k = some d) :
    d.type = .string ∧ d.compiledPattern = some ⟨isIdentifier⟩ := by
  obtain ⟨spec, hmem, hfinal⟩ := v1_mem_attributes hschema hfile hd
  obtain ⟨hstring, hpattern⟩ := (v1Attributes_dims _ hmem).2.2 hk
  have hcompiled := (finalizeAttribute_patterns hfinal).1
  have hspec := (finalizeAttribute_ok hfinal).2.1
  have htype : d.type = .string := by rw [hspec, hstring]
  refine ⟨htype, ?_⟩
  have hne : identifierPattern ≠ "" := by decide
  unfold compilePattern at hcompiled
  rw [hpattern, if_neg hne, hstring, if_neg (by simp), hpatterns.identifier] at hcompiled
  exact (Except.ok.inj hcompiled).symm

/-- The only family is that of the dimensions; it covers the keys under its prefix
whose remainder is a short identifier. -/
theorem v1_familyCovers {fam k : String} (h : s.FamilyCovers fam k) :
    fam = dimFamily ∧ ∃ key, dimKey k = some key ∧ isShortIdentifier key = true := by
  obtain ⟨⟨hsuffix, _⟩, d, hd, hcovers⟩ := h
  obtain ⟨spec, hmem, hfinal⟩ := v1_mem_attributes hschema hfile hd
  obtain ⟨rfl, hpattern⟩ := (v1Attributes_dims _ hmem).1 hsuffix
  have hcompiled := (finalizeAttribute_patterns hfinal).2
  have hkey : d.key = dimFamily := (finalizeAttribute_ok hfinal).1
  have hne : dimKeyPattern ≠ "" := by decide
  unfold compileKeyPattern at hcompiled
  dsimp only at hcompiled
  rw [hpattern, hsuffix, if_neg (by simp [hne]), if_neg (by simp), if_pos rfl, hpatterns.dimKey] at hcompiled
  have hre := (Except.ok.inj hcompiled).symm
  have hlead : trimSuffix dimFamily "*" = attrDimPrefix := by decide
  unfold Schema.familyCovers at hcovers
  rw [hkey, hlead, hre] at hcovers
  cases hdim : dimKey k with
  | none =>
    unfold dimKey at hdim
    rw [hdim] at hcovers
    cases hcovers
  | some key =>
    unfold dimKey at hdim
    rw [hdim] at hcovers
    exact ⟨rfl, key, rfl, hcovers⟩

/-- A dimension the taxonomy defines has a short identifier as its key, or is the
family itself. -/
theorem v1_dimKey {key : String} {d : AttrDef} (hd : s.attrDefFor (attrDimPrefix ++ key) = some d) :
    isShortIdentifier key = true ∨ key = "*" := by
  have hdim := dimKey_append key
  rcases attrDefFor_cases hschema hd with hown | ⟨fam, _, hcovers, _⟩
  · obtain ⟨spec, hmem, _⟩ := v1_mem_attributes hschema hfile hown
    have hkey : attrDimPrefix ++ key = dimFamily := (v1Attributes_dims _ hmem).2.1 (by simp [hdim])
    rw [hkey, dimFamily_eq, dimKey_append] at hdim
    exact .inr (Option.some.inj hdim).symm
  · obtain ⟨_, key', hkey', hshort⟩ := v1_familyCovers hpatterns hschema hfile hcovers
    rw [hdim] at hkey'
    cases hkey'
    exact .inl hshort

theorem identifierPatterns_v1 : IdentifierPatterns s where
  value := by
    intro k d hk hd
    rcases attrDefFor_cases hschema hd with hown | ⟨fam, d', hcovers, hd', rfl⟩
    · obtain ⟨htype, hpattern⟩ := v1_own_pattern hpatterns hschema hfile hk hown
      exact ⟨htype, _, hpattern, fun v hv => hv⟩
    · obtain ⟨rfl, _⟩ := v1_familyCovers hpatterns hschema hfile hcovers
      obtain ⟨htype, hpattern⟩ := v1_own_pattern hpatterns hschema hfile (.inl (by decide)) hd'
      exact ⟨htype, _, hpattern, fun v hv => hv⟩
  key := by
    intro k key d hk hd
    rw [dimKey_eq_some_iff.mp hk] at hd
    rcases v1_dimKey hpatterns hschema hfile hd with hshort | hstar
    · unfold isShortIdentifier at hshort
      rw [Bool.and_eq_true] at hshort
      exact .inl hshort.1
    · exact .inr hstar

omit hfile in
theorem identifierDims_v1 (hfile : file = v1File) : IdentifierDims s where
  toIdentifierPatterns := identifierPatterns_v1 hpatterns hschema (congrArg SchemaFile.attributes hfile)
  checked := by
    subst hfile
    intro k hk
    unfold Schema.isStandardResourceAttribute
    rw [finalize_standardResSet hschema, decide_eq_false_iff_not, List.mem_toFinset]
    intro hmem
    obtain ⟨hnone, hlabel⟩ := v1_standard k hmem
    rcases hk with hdim | hin
    · rw [hnone] at hdim
      cases hdim
    · exact hlabel hin

end V1

/-- The sample tenant with the taxonomy v1. -/
def v1Pipeline : Pipeline := { samplePipeline with schema := v1Schema }

/-- A counter data point with one dimension. -/
def counterRecord (dimension : String) : AttrList :=
  [(tierAttrKey, .str "anonymous"), ("cli.counter.name", .str "scans"), (dimension, .str "high")]

/-- What the pipeline makes of two such points. -/
theorem v1_counter_points :
    (VendorPoint.run v1Pipeline ∅ "cli.counter" [] (counterRecord "cli.dim.severity")).any
        (fun point => point.label = "severity=high") = true ∧
      (VendorPoint.run v1Pipeline ∅ "cli.counter" [] (counterRecord "cli.dim.*")).any
        (fun point => point.label = "*=high" ∧ dimFamily ∈ point.acc.keptAttributes) = true := by
  decide +kernel

end argvio.otlp
