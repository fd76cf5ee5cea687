import Argvio.Otlp.LogRuns

open argvio.allowlist argvio.consent argvio.storage

namespace argvio.otlp

/-- Two spans of one resource that differ only in the status message and in the
values of attributes above the effective tier. -/
structure Pipeline.SpanAgree (p : Pipeline) (resource : AttrList) (span span' : Span) : Prop where
  rest : span' = { span with statusMessage := span'.statusMessage, attributes := span'.attributes }
  attributes : AgreeOutside (p.AboveTier resource span.attributes) span.attributes span'.attributes

/-- The span gets past every check: its start is inside the window, a pattern
matches its name, its tier resolves, and the ceiling does not reject it. -/
def Pipeline.Admissible (p : Pipeline) (resource : AttrList) (span : Span) : Prop :=
  checkTimestamp span.startTimestamp p.now p.bounds.maxTimestampSkewPast p.bounds.maxTimestampSkewFuture = true ∧
    (∃ sp, p.schema.matchingSpanDef span.name = some sp) ∧
    ∃ declared declaredRank ceilingRank, p.resolve resource span.attributes = .ok declared ∧
      p.schema.tierRank declared.tier = some declaredRank ∧
      p.schema.tierRank p.tenant.config.tierCeiling = some ceilingRank ∧
      ¬ (p.tenant.config.tierEnforcementMode = .reject ∧ declaredRank > ceilingRank)

theorem strPtrOrNil_inj {a b : String} : strPtrOrNil a = strPtrOrNil b ↔ a = b := by
  unfold strPtrOrNil
  by_cases ha : a = ""
  · by_cases hb : b = ""
    · simp [ha, hb]
    · simp [ha, hb, Ne.symm hb]
  · by_cases hb : b = ""
    · simp [ha, hb]
    · simp [ha, hb]

/-- The status message is stored as sent, whatever the tier. -/
theorem processSpan_statusMessage {p : Pipeline} {resource : AttrList} {scope : InstrumentationScope}
    {span : Span} {row : TraceRow} (h : p.processSpan resource scope span = .ok row) :
    row.statusMessage = strPtrOrNil span.statusMessage := by
  unfold Pipeline.processSpan at h
  split at h
  · cases houtcome : p.resolveAndEvaluate resource span.attributes (p.spanEventDef span.name) with
    | error reason =>
      rw [houtcome] at h
      cases h
    | ok out =>
      rw [houtcome] at h
      cases h
      rfl
  · cases h

variable (p : Pipeline)

variable (resource : AttrList) (scope : InstrumentationScope) (name : String) (span : Span)

/-- Changing the status message changes that column and nothing else. -/
theorem processSpan_with_statusMessage (message : String) :
    p.processSpan resource scope { span with statusMessage := message } =
      (p.processSpan resource scope span).map (fun row =>
        { row with statusMessage := strPtrOrNil message }) := by
  unfold Pipeline.processSpan
  dsimp only
  split
  · cases p.resolveAndEvaluate resource span.attributes (p.spanEventDef span.name) with
    | error reason => rfl
    | ok out => simp only [Except.map, Pipeline.buildTraceRow]
  · rfl

/-- Apart from the status message the two spans have the same outcome. -/
theorem processSpan_agree {resource : AttrList} {span span' : Span} (hagree : p.SpanAgree resource span span') :
    p.processSpan resource scope { span with statusMessage := span'.statusMessage } =
      p.processSpan resource scope span' := by
  obtain ⟨hrest, hattributes⟩ := hagree
  rw [hrest]
  unfold Pipeline.processSpan
  dsimp only
  split
  · refine (resolveAndEvaluate_agree p (p.spanEventDef span.name) hattributes
      (fun k hk => .inl hk)).map_eq ?_
    rintro out out' ⟨htier, hkept, _⟩
    exact buildTraceRow_same p { span with statusMessage := span'.statusMessage } span'.attributes scope
      htier hkept
  · rfl

theorem spanEventDef_found_iff :
    (p.spanEventDef name).found = true ↔ ∃ sp, p.schema.matchingSpanDef name = some sp := by
  unfold Pipeline.spanEventDef
  cases p.schema.matchingSpanDef name <;> simp

theorem spanEventDef_requiredAttributes : (p.spanEventDef name).requiredAttributes = [] := by
  unfold Pipeline.spanEventDef
  split
  · rfl
  · rfl

theorem processSpan_accepts_iff :
    (∃ row, p.processSpan resource scope span = .ok row) ↔ p.Admissible resource span := by
  unfold Pipeline.processSpan Pipeline.Admissible
  split
  · rename_i hwindow
    rw [Except.exists_map_eq_ok_iff]
    unfold Pipeline.resolveAndEvaluate
    cases hresolve : p.resolve resource span.attributes with
    | error reason => simp [bind, Except.bind]
    | ok declared =>
      obtain ⟨_, _, _, _, _, _, htier, _⟩ := resolve_eq_ok hresolve
      obtain ⟨_, declaredRank, hrank⟩ := resolveTier_eq_ok_iff.mp htier
      change (∃ out, p.evaluate (p.spanEventDef span.name) declared = .ok out) ↔ _
      rw [evaluate_accepts_iff,
        evaluateEvent_accepts_iff (spanEventDef_requiredAttributes p span.name) hrank,
        spanEventDef_found_iff]
      constructor
      · rintro ⟨hfound, ceilingRank, hceiling, hmode⟩
        exact ⟨hwindow, hfound, declared, declaredRank, ceilingRank, rfl, hrank, hceiling, hmode⟩
      · rintro ⟨_, hfound, declared', declaredRank', ceilingRank, heq, hrank', hceiling, hmode⟩
        cases heq
        rw [hrank] at hrank'
        cases hrank'
        exact ⟨hfound, ceilingRank, hceiling, hmode⟩
  · rename_i hwindow
    simp [hwindow]

/-- The two spans are stored alike exactly when their status messages are equal
or the span is not stored at all, at every tier and so also below "full". -/
theorem processSpan_eq_iff_statusMessage_eq (p : Pipeline) {resource : AttrList}
    (scope : InstrumentationScope) {span span' : Span} (hagree : p.SpanAgree resource span span') :
    p.processSpan resource scope span = p.processSpan resource scope span' ↔
      span.statusMessage = span'.statusMessage ∨ ¬ p.Admissible resource span := by
  have hrest := processSpan_agree p scope hagree
  constructor
  · intro heq
    by_cases hadmissible : p.Admissible resource span
    · obtain ⟨row, hrow⟩ := (processSpan_accepts_iff p resource scope span).mpr hadmissible
      have hmessage := processSpan_statusMessage hrow
      have hmessage' := processSpan_statusMessage (heq.symm.trans hrow)
      exact .inl (strPtrOrNil_inj.mp (hmessage.symm.trans hmessage'))
    · exact .inr hadmissible
  · rintro (hmessage | hrejected)
    · rw [← hrest, ← hmessage]
    cases hspan : p.processSpan resource scope span with
    | error reason =>
      rw [← hrest, processSpan_with_statusMessage, hspan]
      rfl
    | ok row => exact absurd ((processSpan_accepts_iff p resource scope span).mp ⟨row, hspan⟩) hrejected

/-- A span declared "basic" with a status message and an error text. -/
def sampleSpan (message errorText : String) : Span where
  traceID := 1
  spanID := 1
  parentSpanID := 0
  name := "cli.run"
  kind := 1
  startTimestamp := 0
  endTimestamp := 5000000
  statusCode := 2
  statusMessage := message
  attributes := [(tierAttrKey, .str "basic"), ("cli.error.message", .str errorText)]

theorem processSpan_eq_of_same_statusMessage :
    samplePipeline.SpanAgree [] (sampleSpan "failed" "/home/a") (sampleSpan "failed" "/home/b") ∧
      samplePipeline.processSpan [] ⟨"", ""⟩ (sampleSpan "failed" "/home/a") =
        samplePipeline.processSpan [] ⟨"", ""⟩ (sampleSpan "failed" "/home/b") := by
  have hrank : samplePipeline.effectiveRank [] (sampleSpan "failed" "/home/a").attributes = some 1 := by decide
  have hagree : samplePipeline.SpanAgree [] (sampleSpan "failed" "/home/a") (sampleSpan "failed" "/home/b") := by
    refine ⟨rfl, List.Perm.refl _, ?_⟩
    intro k hvisible
    by_cases hk : k = "cli.error.message"
    · subst hk
      refine absurd ⟨by decide, by decide, ?_⟩ hvisible
      exact ⟨_, 2, 1, rfl, by decide, hrank, by decide⟩
    · simp [sampleSpan, List.filter, Ne.symm hk]
  exact ⟨hagree, (processSpan_eq_iff_statusMessage_eq samplePipeline ⟨"", ""⟩ hagree).mpr (.inl rfl)⟩

/-- Below "full" the free text of the status message reaches the stored span. -/
theorem processSpan_stores_statusMessage_below_full :
    finalize sampleCompile sampleFile = .ok samplePipeline.schema ∧
      (sampleFile.consentTiers.map Tier.name).Nodup ∧
      samplePipeline.SpanAgree [] (sampleSpan "open /home/a" "") (sampleSpan "open /home/b" "") ∧
      samplePipeline.effectiveRank [] (sampleSpan "open /home/a" "").attributes = some 1 ∧
      samplePipeline.schema.tierRank "full" = some 2 ∧
      samplePipeline.processSpan [] ⟨"", ""⟩ (sampleSpan "open /home/a" "") ≠
        samplePipeline.processSpan [] ⟨"", ""⟩ (sampleSpan "open /home/b" "") := by
  have hstored : (samplePipeline.processSpan [] ⟨"", ""⟩ (sampleSpan "open /home/a" "")).toOption.map
      TraceRow.statusMessage = some (some "open /home/a") := by decide
  have hstored' : (samplePipeline.processSpan [] ⟨"", ""⟩ (sampleSpan "open /home/b" "")).toOption.map
      TraceRow.statusMessage = some (some "open /home/b") := by decide
  refine ⟨finalize_sampleFile, by decide, ⟨rfl, List.Perm.refl _, fun _ _ => rfl⟩, by decide, by decide, ?_⟩
  intro heq
  rw [heq, hstored'] at hstored
  exact absurd hstored (by decide)

end argvio.otlp
