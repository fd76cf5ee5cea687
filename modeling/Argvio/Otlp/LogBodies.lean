import Argvio.Otlp.LogRuns

open argvio.allowlist argvio.consent argvio.storage

namespace argvio.otlp

variable {p : Pipeline} {resource : AttrList} {scope : InstrumentationScope} {rec : LogRecord} {row : LogRow}

/-- Whether an event's entry is marked `drop_body`. -/
def Pipeline.dropsBody (p : Pipeline) (eventName : String) : Bool :=
  match p.schema.logEventByName eventName with
  | some l => l.dropBody
  | none => false

theorem logBody_ne_none_iff {tier : String} : p.logBody rec tier ≠ none ↔
    (p.schema.tierRank "full").getD 0 ≤ (p.schema.tierRank tier).getD 0 ∧ p.dropsBody rec.eventName = false ∧
      p.ext.asString rec.body ≠ "" := by
  have hbody : p.logBody rec tier =
      if (p.schema.tierRank tier).getD 0 ≥ (p.schema.tierRank "full").getD 0 ∧ p.dropsBody rec.eventName = false then
        strPtrOrNil (p.ext.asString rec.body) else none := rfl
  rw [hbody]
  unfold strPtrOrNil
  split
  · rename_i hstored
    simp [hstored.1, hstored.2]
  · rename_i hdropped
    refine iff_of_false (not_not_intro rfl) ?_
    rintro ⟨hrank, hdrops, _⟩
    exact hdropped ⟨hrank, hdrops⟩

theorem processLogRecord_body (hrow : p.processLogRecord resource scope rec = .ok row) :
    ∃ r, p.effectiveRank resource rec.attributes = some r ∧ row.body = p.logBody rec (tierNameForRank p.schema r) := by
  unfold Pipeline.processLogRecord at hrow
  split at hrow
  · cases hout : p.resolveAndEvaluate resource rec.attributes (p.logEventDef rec.eventName) with
    | error reason =>
      rw [hout] at hrow
      cases hrow
    | ok out =>
      rw [hout] at hrow
      cases hrow
      obtain ⟨r, hr, hname⟩ := resolveAndEvaluate_effectiveTier hout
      exact ⟨r, hr, congrArg (p.logBody rec) hname⟩
  · cases hrow

/-- The bodies stored are those of records at the tier "full" or above exactly when the
schema has that tier, or the record has no body to store anyway. -/
theorem body_only_at_full_iff {compile : RegexpCompiler} {file : SchemaFile}
    (hschema : finalize compile file = .ok p.schema) (hnames : (file.consentTiers.map Tier.name).Nodup)
    (hrow : p.processLogRecord resource scope rec = .ok row) :
    (row.body ≠ none → ∃ r fullRank, p.effectiveRank resource rec.attributes = some r ∧
        p.schema.tierRank "full" = some fullRank ∧ fullRank ≤ r ∧ p.dropsBody rec.eventName = false) ↔
      (∃ t ∈ file.consentTiers, t.name = "full") ∨
        (∃ r, p.effectiveRank resource rec.attributes = some r ∧ r < 0) ∨ p.dropsBody rec.eventName = true ∨
        p.ext.asString rec.body = "" := by
  obtain ⟨r, hr, hbody⟩ := processLogRecord_body hrow
  obtain ⟨name, hknown⟩ := tierRank_of_effectiveRank hr
  rw [hbody, logBody_ne_none_iff, tierRank_tierNameForRank hschema hnames hknown, hr]
  cases hfull : p.schema.tierRank "full" with
  | some fullRank =>
    have hlisted := mem_consentTiers_of_tierRank hschema hfull
    refine iff_of_true ?_ (.inl ⟨_, hlisted, rfl⟩)
    rintro ⟨hrank, hdrops, _⟩
    exact ⟨r, fullRank, rfl, rfl, hrank, hdrops⟩
  | none =>
    have hmissing : ¬ ∃ t ∈ file.consentTiers, t.name = "full" := by
      rintro ⟨t, ht, hname⟩
      obtain ⟨fullRank, hfullRank⟩ := exists_tierRank_of_mem hschema ht
      rw [hname, hfull] at hfullRank
      cases hfullRank
    -- The missing rank reads as 0, so what decides is the sign of the effective rank.
    rw [or_iff_right hmissing]
    constructor
    · intro honly
      by_contra hstored
      simp only [Option.some.injEq, exists_eq_left', not_or, Bool.not_eq_true, not_lt] at hstored
      obtain ⟨hrank, hdrops, htext⟩ := hstored
      obtain ⟨_, _, _, hdefined, _⟩ := honly ⟨hrank, hdrops, htext⟩
      cases hdefined
    · rintro hnone ⟨hrank, hdrops, htext⟩
      rcases hnone with ⟨r', hr', hneg⟩ | hdrops' | htext'
      · cases hr'
        exact absurd hrank (not_le.mpr hneg)
      · rw [hdrops] at hdrops'
        cases hdrops'
      · exact absurd htext' htext

theorem body_only_at_full_basic : ∃ row,
    samplePipeline.processLogRecord [] ⟨"", ""⟩ (sampleLogRecord "/home/a" "x") = .ok row ∧
      (row.body ≠ none → ∃ r fullRank, samplePipeline.effectiveRank [] (sampleLogRecord "/home/a" "x").attributes = some r ∧
        samplePipeline.schema.tierRank "full" = some fullRank ∧ fullRank ≤ r ∧
        samplePipeline.dropsBody "cli.error" = false) := by
  obtain ⟨row, hrow⟩ : ∃ row,
      samplePipeline.processLogRecord [] ⟨"", ""⟩ (sampleLogRecord "/home/a" "x") = .ok row := ⟨_, rfl⟩
  refine ⟨row, hrow, (body_only_at_full_iff finalize_sampleFile (by decide) hrow).mpr (.inl ?_)⟩
  exact ⟨⟨"full", 2⟩, by decide, rfl⟩

/-- A schema of two tiers, neither of them "full". -/
def twoTierFile : SchemaFile where
  supportedSignalTypes := ["logs"]
  standardResourceAttributes := []
  consentTiers := [⟨"anonymous", 0⟩, ⟨"basic", 1⟩]
  attributes := ∅
  metrics := []
  spans := []
  logs := [{ eventName := "cli.error", allowedAttributes := [] }]

def twoTierPipeline : Pipeline :=
  { samplePipeline with
    schema := (finalize sampleCompile twoTierFile).toOption.get rfl
    tenant := { samplePipeline.tenant with config := { tierCeiling := "anonymous", tierEnforcementMode := .strip } } }

/-- At the lowest of the two tiers the body is stored. -/
theorem body_stored_without_full : finalize sampleCompile twoTierFile = .ok twoTierPipeline.schema ∧
    twoTierPipeline.effectiveRank [] (sampleLogRecord "/home/a" "x").attributes = some 0 ∧
      ∃ row, twoTierPipeline.processLogRecord [] ⟨"", ""⟩ (sampleLogRecord "/home/a" "x") = .ok row ∧
        row.body = some "x" :=
  ⟨rfl, rfl, _, rfl, rfl⟩

end argvio.otlp
