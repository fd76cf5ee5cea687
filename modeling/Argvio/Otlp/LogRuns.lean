import Argvio.Consent.Ranks
import Argvio.Otlp.TwoRuns

open argvio.allowlist argvio.consent argvio.storage

namespace argvio.otlp

/-- Two log records of one resource that differ only in data above the effective
tier: values of withheld attributes, and the body below the tier "full". -/
structure Pipeline.LogAgree (p : Pipeline) (resource : AttrList) (rec rec' : LogRecord) : Prop where
  rest : rec' = { rec with body := rec'.body, attributes := rec'.attributes }
  attributes : AgreeOutside (p.Withheld (p.logEventDef rec.eventName) resource rec.attributes)
    rec.attributes rec'.attributes
  body : rec.body = rec'.body ∨ ∃ r fullRank, p.effectiveRank resource rec.attributes = some r ∧
    p.schema.tierRank "full" = some fullRank ∧ r < fullRank

variable {p : Pipeline} {resource m : AttrList}

/-- The effective rank is the rank of a named tier. -/
theorem tierRank_of_effectiveRank {r : Int} (hr : p.effectiveRank resource m = some r) :
    ∃ name, p.schema.tierRank name = some r := by
  unfold Pipeline.effectiveRank at hr
  split at hr
  · cases hr
  rename_i declared _
  split at hr
  · rename_i declaredRank ceilingRank hdeclared hceiling
    cases hr
    rcases min_choice declaredRank ceilingRank with hmin | hmin
    · exact ⟨declared.tier, by rw [hmin, hdeclared]⟩
    · exact ⟨p.tenant.config.tierCeiling, by rw [hmin, hceiling]⟩
  · cases hr

/-- An accepted record carries the name found for its effective rank. -/
theorem resolveAndEvaluate_effectiveTier {d : EventDef} {out : Acceptance × List String}
    (hout : p.resolveAndEvaluate resource m d = .ok out) :
    ∃ r, p.effectiveRank resource m = some r ∧ out.1.effectiveTier = tierNameForRank p.schema r := by
  have hagree : AgreeOutside (fun _ => False) m m := ⟨List.Perm.refl _, fun _ _ => rfl⟩
  have hself := resolveAndEvaluate_agree p d hagree (fun k hk => (hk.elim : p.Withheld d resource m k))
  rw [hout] at hself
  exact hself.2.2

/-- Below the tier "full" no body is stored. -/
theorem logBody_eq_none (rec : LogRecord) {tier : String} {r fullRank : Int} (htier : p.schema.tierRank tier = some r)
    (hfull : p.schema.tierRank "full" = some fullRank) (hlt : r < fullRank) : p.logBody rec tier = none := by
  have hnot : ¬ r ≥ fullRank := by omega
  simp only [Pipeline.logBody, htier, hfull, Option.getD_some, hnot, false_and, if_false]

/-- Data above the effective tier never influences a stored log: the two records
are rejected for the same reason or stored as the same row, so they also give
the same install event and the same discoveries. -/
theorem processLogRecord_noninterference {compile : RegexpCompiler} {file : SchemaFile} {p : Pipeline}
    (hschema : finalize compile file = .ok p.schema) (hnames : (file.consentTiers.map Tier.name).Nodup)
    (resource : AttrList) (scope : InstrumentationScope) {rec rec' : LogRecord}
    (hagree : p.LogAgree resource rec rec') :
    p.processLogRecord resource scope rec = p.processLogRecord resource scope rec' ∧
      (p.processLogRecord resource scope rec).map installEventFromLog =
        (p.processLogRecord resource scope rec').map installEventFromLog ∧
      (p.processLogRecord resource scope rec).map discoveryEventsFromLog =
        (p.processLogRecord resource scope rec').map discoveryEventsFromLog := by
  obtain ⟨hrest, hattributes, hbody⟩ := hagree
  have heq : p.processLogRecord resource scope rec = p.processLogRecord resource scope rec' := by
    rw [hrest]
    unfold Pipeline.processLogRecord
    dsimp only
    split
    · refine (resolveAndEvaluate_agree p _ hattributes (fun k hk => hk)).map_eq ?_
      rintro out out' ⟨htier, hkept, r, hr, hname⟩
      refine buildLogRow_same p rec rec'.body rec'.attributes scope htier hkept ?_
      rcases hbody with hbody | ⟨r', fullRank, hr', hfull, hlt⟩
      · simp only [Pipeline.logBody, hbody]
      have hrank : r' = r := by simpa [hr'] using hr
      subst hrank
      obtain ⟨name, hknown⟩ := tierRank_of_effectiveRank hr
      have heffective := tierRank_tierNameForRank hschema hnames hknown
      rw [hname, logBody_eq_none _ heffective hfull hlt, logBody_eq_none _ heffective hfull hlt]
    · rfl
  exact ⟨heq, by rw [heq], by rw [heq]⟩

/-- A tenant of the sample schema whose ceiling is the tier "full". -/
def samplePipeline : Pipeline where
  schema := sampleSchema
  tenant :=
    { tenant := { id := 1, slug := "acme", name := "Acme", status := .active }
      config := { tierCeiling := "full", tierEnforcementMode := .strip }
      apiKey := none }
  bounds :=
    { maxBatchSize := 1000, maxAttributeCount := 64, maxAttributeKeyLength := 128,
      maxAttributeStringValueLength := 4096, maxTimestampSkewPast := 1000, maxTimestampSkewFuture := 1000 }
  now := 0
  ext :=
    { asString := fun | .str s => s | _ => ""
      microsToMillis := fun us => .finite (us / 1000) }

/-- A record declared "basic" that carries an error message and a body. -/
def sampleLogRecord (message body : String) : LogRecord where
  timestamp := 0
  traceID := 0
  spanID := 0
  severityNumber := 9
  severityText := "INFO"
  eventName := "cli.error"
  body := .str body
  attributes := [(tierAttrKey, .str "basic"), ("cli.error.message", .str message)]

theorem processLogRecord_noninterference_below_full :
    samplePipeline.LogAgree [] (sampleLogRecord "/home/a" "x") (sampleLogRecord "/home/b" "y") ∧
      samplePipeline.processLogRecord [] ⟨"", ""⟩ (sampleLogRecord "/home/a" "x") =
        samplePipeline.processLogRecord [] ⟨"", ""⟩ (sampleLogRecord "/home/b" "y") := by
  have hrank : samplePipeline.effectiveRank [] (sampleLogRecord "/home/a" "x").attributes = some 1 := by decide
  have hagree : samplePipeline.LogAgree [] (sampleLogRecord "/home/a" "x") (sampleLogRecord "/home/b" "y") := by
    refine ⟨rfl, ⟨List.Perm.refl _, ?_⟩, .inr ⟨1, 2, hrank, by decide, by decide⟩⟩
    intro k hvisible
    by_cases hk : k = "cli.error.message"
    · subst hk
      refine absurd (.inl ⟨by decide, by decide, ?_⟩) hvisible
      exact ⟨_, 2, 1, rfl, by decide, hrank, by decide⟩
    · simp [sampleLogRecord, List.filter, Ne.symm hk]
  exact ⟨hagree, (processLogRecord_noninterference finalize_sampleFile (by decide) [] ⟨"", ""⟩ hagree).1⟩

end argvio.otlp
