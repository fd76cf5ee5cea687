import Argvio.Otlp.Export

open argvio.storage List

namespace argvio.otlp

open Pipeline

section Payload

variable {α β ε ρ : Type}

theorem Payload.length_collect {f : AttrList → InstrumentationScope → α → List β} {size : α → Nat}
    (hsize : ∀ resource scope a, (f resource scope a).length = size a) (payload : Payload α) :
    (payload.collect f).length = payload.count size := by
  simp [Payload.collect, Payload.count, length_flatMap, hsize]

theorem Payload.length_collect_singleton (f : AttrList → InstrumentationScope → α → β) (payload : Payload α) :
    (payload.collect (fun resource scope a => [f resource scope a])).length = payload.count (fun _ => 1) := by
  apply Payload.length_collect
  intro resource scope a
  rfl

/-- The loops count every leaf when their body counts those of one item. -/
theorem Payload.counts_fold {step : AttrList → InstrumentationScope → Ledger ε ρ → α → Ledger ε ρ}
    {f : AttrList → InstrumentationScope → α → List (Except ε ρ)}
    (hstep : ∀ resource scope l verdicts a, l.Counts verdicts →
      (step resource scope l a).Counts (verdicts ++ f resource scope a)) (payload : Payload α) :
    (payload.fold step {}).Counts (payload.collect f) := by
  refine Ledger.Counts.foldl (fun l verdicts group hgroup => ?_) payload Ledger.Counts.empty
  refine Ledger.Counts.foldl (fun l verdicts sg hsg => ?_) group.scopes hgroup
  exact Ledger.Counts.foldl (hstep group.resource sg.scope) sg.items hsg

/-- The loops of a signal whose items are its leaves. -/
theorem Payload.counts_record (verdict : AttrList → InstrumentationScope → α → Except ε ρ) (payload : Payload α) :
    (payload.fold (fun resource scope (l : Ledger ε ρ) a => l.record (verdict resource scope a)) {}).Counts
      (payload.collect (fun resource scope a => [verdict resource scope a])) :=
  payload.counts_fold (fun resource scope _ _ a hl => hl.record (verdict resource scope a))

end Payload

section Verdicts

variable (p : Pipeline) (catalog : Catalog) (resource : AttrList) (scope : InstrumentationScope) (metric : Metric)

/-- What becomes of one point of a sum. -/
def Pipeline.sumVerdict (dp : NumberDataPoint) : Except MetricReason MetricRow :=
  if (p.metricDef metric.name).monotonic ∧ validMonotonicValue dp = false then .error .monotonicValue
  else p.processNumberDataPoint catalog resource scope metric .sum dp

/-- What becomes of one point of a histogram. -/
def Pipeline.histogramVerdict (dp : HistogramDataPoint) : Except MetricReason MetricRow :=
  match checkHistogramPoint (p.metricDef metric.name) dp with
  | some reason => .error reason
  | none => p.processHistogramDataPoint catalog resource scope metric dp

/-- What becomes of each data point of a metric. -/
def Pipeline.pointVerdicts : List (Except MetricReason MetricRow) :=
  match checkMetricShape (p.metricDef metric.name) metric with
  | some reason => (replicate (metricDataPointCount metric.data) reason).map .error
  | none =>
    match metric.data with
    | .sum _ points => points.map (p.sumVerdict catalog resource scope metric)
    | .gauge points => points.map (p.processNumberDataPoint catalog resource scope metric .gauge)
    | .histogram _ points => points.map (p.histogramVerdict catalog resource scope metric)
    | data => (replicate (metricPointCount data) (.unsupportedType data.typeText)).map .error

theorem length_pointVerdicts :
    (p.pointVerdicts catalog resource scope metric).length = metricDataPointCount metric.data := by
  unfold pointVerdicts
  split
  · simp
  · cases metric.data <;> simp [metricDataPointCount]

variable {p catalog resource scope metric} {l : Ledger MetricReason MetricRow}
  {verdicts : List (Except MetricReason MetricRow)}

theorem counts_recordSumPoint (h : l.Counts verdicts) (dp : NumberDataPoint) :
    (p.recordSumPoint catalog resource scope metric l dp).Counts
      (verdicts ++ [p.sumVerdict catalog resource scope metric dp]) := by
  unfold recordSumPoint sumVerdict
  split
  · exact h.reject [.monotonicValue] _
  · exact h.record _

theorem counts_recordHistogramPoint (h : l.Counts verdicts) (dp : HistogramDataPoint) :
    (p.recordHistogramPoint catalog resource scope metric l dp).Counts
      (verdicts ++ [p.histogramVerdict catalog resource scope metric dp]) := by
  unfold recordHistogramPoint histogramVerdict
  cases checkHistogramPoint (p.metricDef metric.name) dp with
  | some reason => exact h.reject [reason] _
  | none => exact h.record _

/-- A loop over points that counts each point counts them all. -/
theorem counts_points {γ : Type} {step : Ledger MetricReason MetricRow → γ → Ledger MetricReason MetricRow}
    {verdict : γ → Except MetricReason MetricRow}
    (hstep : ∀ l verdicts dp, l.Counts verdicts → (step l dp).Counts (verdicts ++ [verdict dp]))
    (h : l.Counts verdicts) (points : List γ) : (points.foldl step l).Counts (verdicts ++ points.map verdict) := by
  have hfold := h.foldl hstep points
  rwa [← map_eq_flatMap] at hfold

theorem counts_recordMetric (h : l.Counts verdicts) :
    (p.recordMetric catalog resource scope l metric).Counts
      (verdicts ++ p.pointVerdicts catalog resource scope metric) := by
  have hunsupported (n : Nat) (reason : MetricReason) :
      (l.reject n reason).Counts (verdicts ++ (replicate n reason).map .error) := by
    have hreject := h.reject (replicate n reason) reason
    rwa [length_replicate] at hreject
  unfold recordMetric pointVerdicts
  cases checkMetricShape (p.metricDef metric.name) metric with
  | some reason => exact hunsupported _ reason
  | none =>
    dsimp only
    cases metric.data with
    | sum _ points => exact counts_points (fun _ _ dp hl => counts_recordSumPoint hl dp) h points
    | gauge points =>
      refine counts_points (fun _ _ dp hl => ?_) h points
      exact hl.record (p.processNumberDataPoint catalog resource scope metric .gauge dp)
    | histogram _ points => exact counts_points (fun _ _ dp hl => counts_recordHistogramPoint hl dp) h points
    | _ => exact hunsupported _ _

end Verdicts

/-- The attributes the vocabulary caps may rewrite. -/
def cappedAttrs : List String :=
  [attrErrorReason, "cli.counter.name", "cli.counter.label", "cli.measure.name", "cli.measure.label", "cli.value.name",
    "cli.value.label"]

/-- The same data point, up to names, labels and reasons stored as `other`. -/
structure SamePoint (r r' : MetricRow) : Prop where
  columns : { r' with datapointAttributes := ∅ } = { r with datapointAttributes := ∅ }
  attributes : ∀ k ∉ cappedAttrs, r'.datapointAttributes.lookup k = r.datapointAttributes.lookup k

/-- The same log record, up to an error reason stored as `other`. -/
structure SameLog (r r' : LogRow) : Prop where
  columns : { r' with logAttributes := ∅ } = { r with logAttributes := ∅ }
  attributes : ∀ k, k ≠ attrErrorReason → r'.logAttributes.lookup k = r.logAttributes.lookup k

theorem SamePoint.refl (r : MetricRow) : SamePoint r r := ⟨rfl, fun _ _ => rfl⟩

theorem SamePoint.trans {r₁ r₂ r₃ : MetricRow} (h₁ : SamePoint r₁ r₂) (h₂ : SamePoint r₂ r₃) : SamePoint r₁ r₃ :=
  ⟨h₂.columns.trans h₁.columns, fun k hk => (h₂.attributes k hk).trans (h₁.attributes k hk)⟩

/-- Each row of a batch for the same data point as before, in the same order. -/
def SamePoints : List MetricRow → List MetricRow → Prop := List.Forall₂ SamePoint

theorem SamePoints.refl (rows : List MetricRow) : SamePoints rows rows :=
  forall₂_same.mpr (fun r _ => SamePoint.refl r)

theorem SamePoints.map {rows rows' : List MetricRow} (h : SamePoints rows rows') {f : MetricRow → MetricRow}
    (hf : ∀ r, SamePoint r (f r)) : SamePoints rows (rows'.map f) := by
  refine forall₂_map_right_iff.mpr (List.Forall₂.imp ?_ h)
  intro r r' hsame
  exact hsame.trans (hf r')

section Instrument

variable {inst : VendorInstrument} (hname : inst.nameAttr ∈ cappedAttrs) (hlabel : inst.labelAttr ∈ cappedAttrs)

include hlabel in
theorem foldDimValues_same (adm : DimAdmission) (r : MetricRow) : SamePoint r (inst.foldDimValues adm r).1 := by
  unfold VendorInstrument.foldDimValues
  split
  · exact SamePoint.refl r
  dsimp only
  split
  · split
    · exact SamePoint.refl r
    · refine ⟨rfl, fun k hk => Finmap.lookup_insert_of_ne _ ?_⟩
      exact fun heq => hk (heq ▸ hlabel)
  · exact SamePoint.refl r

include hname hlabel in
theorem rewrite_same (adm : CounterAdmission) (r : MetricRow) : SamePoint r (inst.rewrite adm r) := by
  have hneName {k : String} (hk : k ∉ cappedAttrs) : k ≠ inst.nameAttr := fun heq => hk (heq ▸ hname)
  have hneLabel {k : String} (hk : k ∉ cappedAttrs) : k ≠ inst.labelAttr := fun heq => hk (heq ▸ hlabel)
  unfold VendorInstrument.rewrite
  split
  · exact SamePoint.refl r
  dsimp only
  split
  · refine ⟨rfl, fun k hk => ?_⟩
    rw [Finmap.lookup_erase_ne (hneLabel hk), Finmap.lookup_insert_of_ne _ (hneName hk)]
  · split
    · exact ⟨rfl, fun k hk => Finmap.lookup_erase_ne (hneLabel hk)⟩
    · split
      · exact ⟨rfl, fun k hk => Finmap.lookup_insert_of_ne _ (hneLabel hk)⟩
      · exact SamePoint.refl r

include hname hlabel in
theorem capVendorInstrument_same {rows rows' : List MetricRow} (h : SamePoints rows rows') (p : Pipeline)
    (v : Vocabulary) : SamePoints rows (p.capVendorInstrument rows' inst v).1 := by
  have hdims : SamePoints rows (p.capDimValues rows' inst v).1 := by
    unfold capDimValues
    dsimp only
    split
    · exact h
    split
    · exact h
    · rw [map_map]
      exact h.map (fun r => foldDimValues_same hlabel _ r)
  unfold capVendorInstrument
  dsimp only
  split
  · exact hdims
  · exact hdims.map (fun r => rewrite_same hname hlabel _ r)

end Instrument

/-- The caps keep the batch's data points, each in its place. -/
theorem capMetrics_same (p : Pipeline) (rows : List MetricRow) (s : Vocabularies) :
    SamePoints rows (p.capMetrics rows s).1 := by
  have hreasons : SamePoints rows (rows.map (fun r =>
      { r with datapointAttributes :=
          (p.capErrorReasons (rows.map MetricRow.datapointAttributes) s.reasons).1 r.datapointAttributes })) := by
    refine (SamePoints.refl rows).map (fun r => ⟨rfl, fun k hk => lookup_capErrorReasons ?_ p _ _ _⟩)
    rintro rfl
    exact hk (by decide)
  have hcounter : p.counterInstrument.nameAttr ∈ cappedAttrs ∧ p.counterInstrument.labelAttr ∈ cappedAttrs := by
    simp [counterInstrument, cappedAttrs]
  have hmeasure : p.measureInstrument.nameAttr ∈ cappedAttrs ∧ p.measureInstrument.labelAttr ∈ cappedAttrs := by
    simp [measureInstrument, cappedAttrs]
  have hvalue : p.valueInstrument.nameAttr ∈ cappedAttrs ∧ p.valueInstrument.labelAttr ∈ cappedAttrs := by
    simp [valueInstrument, cappedAttrs]
  have hcounters := capVendorInstrument_same hcounter.1 hcounter.2 hreasons p s.counters
  have hmeasures := capVendorInstrument_same hmeasure.1 hmeasure.2 hcounters p s.measures
  simp only [capMetrics, capCounters, capMeasures, capValues]
  exact capVendorInstrument_same hvalue.1 hvalue.2 hmeasures p s.values

/-- What an export did accounts for everything that was sent: each leaf has one
verdict, and either the accepted ones are in the table, one row each and in order,
or the export failed and no table of a signal has changed. -/
structure Accounted {ε ρ : Type} (out : Exported ε × Store) (store : Store) (sent : Nat)
    (verdicts : List (Except ε ρ)) (table : Store → List ρ) (same : ρ → ρ → Prop) : Prop where
  leaves : verdicts.length = sent
  total : out.1.err = none → out.1.accepted + out.1.rejected = sent
  rows : out.1.err = none → ∃ rows, table out.2 = table store ++ rows ∧ (rows.length : Int) = out.1.accepted ∧
    List.Forall₂ same (verdicts.filterMap Except.toOption) rows
  unchanged : out.1.err ≠ none →
    out.2.metrics = store.metrics ∧ out.2.logs = store.logs ∧ out.2.traces = store.traces

section Accounted

variable {ε ρ : Type} {store after : Store} {sent : Nat} {verdicts : List (Except ε ρ)} {table : Store → List ρ}
  {same : ρ → ρ → Prop}

theorem Accounted.of_err {out : Exported ε} (hleaves : verdicts.length = sent) (herr : out.err ≠ none)
    (htables : after.metrics = store.metrics ∧ after.logs = store.logs ∧ after.traces = store.traces) :
    Accounted (out, after) store sent verdicts table same :=
  ⟨hleaves, fun h => absurd h herr, fun h => absurd h herr, fun _ => htables⟩

/-- A refused request leaves the store as it is. -/
theorem Accounted.refused (hleaves : verdicts.length = sent) (err : ProcessError) :
    Accounted (.refused err, store) store sent verdicts table same :=
  .of_err hleaves (Option.some_ne_none _) ⟨rfl, rfl, rfl⟩

/-- A batch that could not be stored may leave its mark on the vocabularies only. -/
theorem Accounted.failed (hleaves : verdicts.length = sent) (err : String) (vocabularies : Vocabularies) :
    Accounted (.failed sent err, { store with vocabularies := vocabularies }) store sent verdicts table same :=
  .of_err hleaves (Option.some_ne_none _) ⟨rfl, rfl, rfl⟩

theorem Accounted.of_done {l : Ledger ε ρ} (hcounts : l.Counts verdicts) (hleaves : verdicts.length = sent)
    {rows : List ρ} (htable : table after = table store ++ rows) (hsame : List.Forall₂ same l.rows rows) :
    Accounted (.done l, after) store sent verdicts table same := by
  have hlength := hsame.length_eq
  have haccepted := hcounts.accepted
  have htotal := hcounts.total
  refine ⟨hleaves, fun _ => ?_, fun _ => ⟨rows, htable, ?_, ?_⟩, fun h => absurd rfl h⟩
  · rw [← hleaves]
    exact htotal
  · dsimp only [Exported.done]
    omega
  · rw [← hcounts.rows]
    exact hsame

/-- A batch of which nothing is accepted stores nothing. -/
theorem Accounted.of_empty {l : Ledger ε ρ} (hcounts : l.Counts verdicts) (hleaves : verdicts.length = sent)
    (hempty : l.rows = []) : Accounted (.done l, store) store sent verdicts table same := by
  refine Accounted.of_done hcounts hleaves (append_nil _).symm ?_
  rw [hempty]
  exact .nil

end Accounted

section Exports

variable (p : Pipeline) (db : Answers) (store : Store)

/-- The catalog rules a request works with. -/
def Answers.rules : Catalog :=
  match loadCatalog db.catalog with
  | .ok rules => rules
  | .error _ => ∅

theorem processMetrics_accounted (md : Payload Metric) :
    Accounted (p.processMetrics db md store) store (dataPointCount md) (md.collect (p.pointVerdicts db.rules))
      Store.metrics SamePoint := by
  have hleaves := md.length_collect (length_pointVerdicts p db.rules)
  have hcounts : (md.fold (p.recordMetric db.rules) {}).Counts (md.collect (p.pointVerdicts db.rules)) :=
    md.counts_fold (by
      intro resource scope l verdicts metric hl
      exact counts_recordMetric hl)
  unfold processMetrics
  split
  · exact .refused hleaves _
  split
  · exact .refused hleaves _
  cases hcatalog : loadCatalog db.catalog with
  | error err => exact .refused hleaves _
  | ok catalog =>
    have hrules : db.rules = catalog := by simp [Answers.rules, hcatalog]
    rw [hrules] at hcounts hleaves ⊢
    dsimp only
    split
    · rename_i hempty
      exact .of_empty hcounts hleaves hempty
    cases db.caps with
    | some fault => exact .failed hleaves _ _
    | none =>
      cases db.insert with
      | some err => exact .failed hleaves _ _
      | none => exact .of_done hcounts hleaves rfl (capMetrics_same p _ store.vocabularies)

theorem processLogs_accounted (ld : Payload LogRecord) :
    Accounted (p.processLogs db ld store) store (logRecordCount ld)
      (ld.collect (fun resource scope rec => [p.processLogRecord resource scope rec])) Store.logs SameLog := by
  have hleaves := ld.length_collect_singleton p.processLogRecord
  have hcounts := ld.counts_record p.processLogRecord
  unfold processLogs
  split
  · exact .refused hleaves _
  split
  · exact .refused hleaves _
  dsimp only
  split
  · rename_i hempty
    exact .of_empty hcounts hleaves hempty
  cases db.caps with
  | some fault => exact .failed hleaves _ _
  | none =>
    cases db.insert with
    | some err => exact .failed hleaves _ _
    | none =>
      refine .of_done hcounts hleaves rfl (forall₂_map_right_iff.mpr (forall₂_same.mpr ?_))
      intro r _
      exact ⟨rfl, fun k hk => lookup_capErrorReasons hk p _ _ _⟩

theorem processTraces_accounted (td : Payload Span) :
    Accounted (p.processTraces db td store) store (spanCount td)
      (td.collect (fun resource scope span => [p.processSpan resource scope span])) Store.traces Eq := by
  have hleaves := td.length_collect_singleton p.processSpan
  have hcounts := td.counts_record p.processSpan
  unfold processTraces
  split
  · exact .refused hleaves _
  split
  · exact .refused hleaves _
  dsimp only
  split
  · rename_i hempty
    exact .of_empty hcounts hleaves hempty
  · cases db.insert with
    | some err => exact .failed hleaves _ _
    | none => exact .of_done hcounts hleaves rfl (forall₂_same.mpr (fun _ _ => rfl))

end Exports

/-- Whatever is sent and whatever the database answers, the exports of the three
signals account for every data point, log record and span. -/
theorem exports_account_for_every_leaf (p : Pipeline) (db : Answers) (store : Store) :
    (∀ md : Payload Metric, Accounted (p.processMetrics db md store) store (dataPointCount md)
      (md.collect (p.pointVerdicts db.rules)) Store.metrics SamePoint) ∧
    (∀ ld : Payload LogRecord, Accounted (p.processLogs db ld store) store (logRecordCount ld)
      (ld.collect (fun resource scope rec => [p.processLogRecord resource scope rec])) Store.logs SameLog) ∧
    (∀ td : Payload Span, Accounted (p.processTraces db td store) store (spanCount td)
      (td.collect (fun resource scope span => [p.processSpan resource scope span])) Store.traces Eq) :=
  ⟨processMetrics_accounted p db store, processLogs_accounted p db store, processTraces_accounted p db store⟩

end argvio.otlp
