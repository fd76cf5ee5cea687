import Argvio.Otlp.Accounting
import Argvio.Otlp.HistogramPoints

open argvio.allowlist argvio.storage

namespace argvio.otlp

/-- A data point of a metric of a supported type. -/
inductive DataPoint where
  | number (dp : NumberDataPoint)
  | histogram (dp : HistogramDataPoint)

/-- What is stored in the value column for a point. -/
def DataPoint.value : DataPoint → Option GoFloat
  | .number dp => some dp.value.float
  | .histogram _ => none

def MetricData.points : MetricData → List DataPoint
  | .sum _ points => points.map .number
  | .gauge points => points.map .number
  | .histogram _ points => points.map .histogram
  | _ => []

/-- The type a metric was sent with, if it is a supported one. -/
def MetricData.type? : MetricData → Option MetricType
  | .sum _ _ => some .sum
  | .gauge _ => some .gauge
  | .histogram _ _ => some .histogram
  | _ => none

/-- The metrics of a payload with their resources and scopes. -/
def Payload.leaves {α : Type} (payload : Payload α) : List (AttrList × InstrumentationScope × α) :=
  payload.collect (fun resource scope a => [(resource, scope, a)])

theorem Payload.mem_collect {α β : Type} {f : AttrList → InstrumentationScope → α → List β} {payload : Payload α}
    {b : β} : b ∈ payload.collect f ↔
      ∃ resource scope a, (resource, scope, a) ∈ payload.leaves ∧ b ∈ f resource scope a := by
  unfold Payload.leaves Payload.collect
  simp only [List.mem_flatMap, List.mem_singleton, Prod.mk.injEq]
  constructor
  · rintro ⟨group, hgroup, sg, hsg, a, ha, hb⟩
    exact ⟨_, _, a, ⟨group, hgroup, sg, hsg, a, ha, rfl, rfl, rfl⟩, hb⟩
  · rintro ⟨_, _, a, ⟨group, hgroup, sg, hsg, _, ha, rfl, rfl, rfl⟩, hb⟩
    exact ⟨group, hgroup, sg, hsg, a, ha, hb⟩

section Point

variable (p : Pipeline) (catalog : Catalog) (resource : AttrList) (scope : InstrumentationScope) (metric : Metric)

/-- What becomes of one data point of a metric. -/
def Pipeline.pointVerdict (point : DataPoint) : Except MetricReason MetricRow :=
  match checkMetricShape (p.metricDef metric.name) metric with
  | some reason => .error reason
  | none =>
    match metric.data, point with
    | .sum _ _, .number dp => p.sumVerdict catalog resource scope metric dp
    | .gauge _, .number dp => p.processNumberDataPoint catalog resource scope metric .gauge dp
    | .histogram _ _, .histogram dp => p.histogramVerdict catalog resource scope metric dp
    | data, _ => .error (.unsupportedType data.typeText)

variable {p catalog resource scope metric} {point : DataPoint} {row : MetricRow}

theorem ok_mem_pointVerdicts : .ok row ∈ p.pointVerdicts catalog resource scope metric ↔
    ∃ point ∈ metric.data.points, p.pointVerdict catalog resource scope metric point = .ok row := by
  unfold Pipeline.pointVerdicts Pipeline.pointVerdict
  cases checkMetricShape (p.metricDef metric.name) metric with
  | some reason => simp
  | none => cases metric.data <;> simp [MetricData.points]

/-- The row of an accepted data point, and what its acceptance says of the point. -/
structure Pipeline.RowOf (p : Pipeline) (metric : Metric) (point : DataPoint) (row : MetricRow) : Prop where
  shape : checkMetricShape (p.metricDef metric.name) metric = none
  name : row.metricName = metric.name
  type : metric.data.type? = some row.metricType
  value : row.value = point.value
  monotonic : row.metricType ≠ .gauge → (p.metricDef metric.name).monotonic = true → ∀ v ∈ point.value, IsDuration v

theorem validMonotonicValue_iff (dp : NumberDataPoint) :
    validMonotonicValue dp = true ↔ IsDuration dp.value.float := by
  unfold validMonotonicValue
  rw [← validDuration_iff]
  cases dp.value with
  | empty | int n => simp [NumberValue.float, validDuration, GoFloat.le]
  | double x => simp [NumberValue.float]

theorem exists_admitted {α : Type} {admitted : Except MetricReason α} {f : α → MetricRow}
    (hrow : admitted.map f = .ok row) : ∃ a, row = f a := by
  cases admitted with
  | error reason => cases hrow
  | ok a =>
    cases hrow
    exact ⟨a, rfl⟩

theorem rowOf_pointVerdict (hrow : p.pointVerdict catalog resource scope metric point = .ok row) :
    p.RowOf metric point row := by
  unfold Pipeline.pointVerdict at hrow
  cases hshape : checkMetricShape (p.metricDef metric.name) metric with
  | some reason =>
    rw [hshape] at hrow
    cases hrow
  | none =>
    rw [hshape] at hrow
    dsimp only at hrow
    split at hrow
    · rename_i dp hdata
      unfold Pipeline.sumVerdict at hrow
      split at hrow
      · cases hrow
      rename_i hvalid
      obtain ⟨admitted, rfl⟩ := exists_admitted hrow
      refine ⟨hshape, rfl, by rw [hdata]; rfl, rfl, fun _ hmonotonic v hv => ?_⟩
      cases hv
      rw [← validMonotonicValue_iff]
      simpa [hmonotonic] using hvalid
    · rename_i dp hdata
      obtain ⟨admitted, rfl⟩ := exists_admitted hrow
      exact ⟨hshape, rfl, by rw [hdata]; rfl, rfl, fun hne => absurd rfl hne⟩
    · rename_i dp hdata
      unfold Pipeline.histogramVerdict at hrow
      split at hrow
      · cases hrow
      · obtain ⟨admitted, rfl⟩ := exists_admitted hrow
        exact ⟨hshape, rfl, by rw [hdata]; rfl, rfl, nofun⟩
    · cases hrow

/-- A metric that passes the check of its shape is of the declared type, if its entry
declares a temporality. -/
theorem type_of_checkMetricShape {d : MetricDef} (hshape : checkMetricShape d metric = none)
    (htemporality : d.temporality ≠ .unset) : metric.data.type? = some d.type ∧ d.type ≠ .gauge := by
  unfold checkMetricShape at hshape
  rw [if_neg htemporality] at hshape
  split at hshape
  · cases hshape
  split at hshape
  · rename_i htype hdata
    rw [htype, hdata]
    exact ⟨rfl, nofun⟩
  · rename_i htype hdata
    rw [htype, hdata]
    exact ⟨rfl, nofun⟩
  · cases hshape

end Point

/-- A stored row is what its allowlist entry declares. -/
structure Pipeline.Conforms (p : Pipeline) (row : MetricRow) : Prop where
  type : row.metricType = (p.metricDef row.metricName).type
  value : (p.metricDef row.metricName).monotonic = true → ∀ v ∈ row.value, IsDuration v

/-- A data point was sent as its allowlist entry declares it: with the declared type, and,
for a gauge marked monotonic, with a finite value that is not negative. -/
structure Pipeline.SentAsDeclared (p : Pipeline) (metric : Metric) (point : DataPoint) : Prop where
  type : metric.data.type? = some (p.metricDef metric.name).type
  value : (p.metricDef metric.name).type = .gauge → (p.metricDef metric.name).monotonic = true →
    ∀ v ∈ point.value, IsDuration v

section Rows

variable {p : Pipeline} {metric : Metric} {point : DataPoint} {row row' : MetricRow}

theorem conforms_iff_sentAsDeclared (hrow : p.RowOf metric point row) :
    p.Conforms row ↔ p.SentAsDeclared metric point := by
  obtain ⟨hshape, hname, htype, hvalue, hmonotonic⟩ := hrow
  constructor
  · rintro ⟨hdeclared, hvalid⟩
    rw [hname] at hdeclared hvalid
    rw [hvalue] at hvalid
    exact ⟨by rw [htype, hdeclared], fun _ => hvalid⟩
  rintro ⟨hdeclared, hvalid⟩
  rw [htype, Option.some.injEq] at hdeclared
  refine ⟨by rw [hname, hdeclared], ?_⟩
  rw [hname, hvalue]
  intro hentry
  by_cases hgauge : row.metricType = .gauge
  · exact hvalid (hdeclared.symm.trans hgauge) hentry
  · exact hmonotonic hgauge hentry

theorem conforms_of_temporality (hrow : p.RowOf metric point row)
    (htemporality : (p.metricDef row.metricName).temporality ≠ .unset) : p.Conforms row := by
  rw [hrow.name] at htemporality
  obtain ⟨htype, hgauge⟩ := type_of_checkMetricShape hrow.shape htemporality
  exact (conforms_iff_sentAsDeclared hrow).mpr ⟨htype, fun h => absurd h hgauge⟩

theorem SamePoint.metricName (hsame : SamePoint row row') : row'.metricName = row.metricName := by
  have hname := congrArg MetricRow.metricName hsame.columns
  exact hname

/-- The caps change neither the type nor the value of a row. -/
theorem SamePoint.conforms_iff (hsame : SamePoint row row') : p.Conforms row' ↔ p.Conforms row := by
  have hname := hsame.metricName
  have htype := congrArg MetricRow.metricType hsame.columns
  have hvalue := congrArg MetricRow.value hsame.columns
  dsimp only at htype hvalue
  constructor
  · rintro ⟨hdeclared, hvalid⟩
    rw [hname, htype] at hdeclared
    rw [hname, hvalue] at hvalid
    exact ⟨hdeclared, hvalid⟩
  · rintro ⟨hdeclared, hvalid⟩
    rw [← hname, ← htype] at hdeclared
    rw [← hname, ← hvalue] at hvalid
    exact ⟨hdeclared, hvalid⟩

/-- What the caps do not change holds of the stored rows exactly when it holds of the accepted ones. -/
theorem forall_stored_iff {P : MetricRow → Prop} (hP : ∀ row row', SamePoint row row' → (P row' ↔ P row))
    {accepted rows : List MetricRow} (hrows : List.Forall₂ SamePoint accepted rows) :
    (∀ row ∈ rows, P row) ↔ ∀ row ∈ accepted, P row := by
  induction hrows with
  | nil => simp
  | cons hrow _ ih => rw [List.forall_mem_cons, List.forall_mem_cons, ih, hP _ _ hrow]

end Rows

section Export

variable {p : Pipeline} {db : Answers} {md : Payload Metric} {store : Store}

/-- The rows of the accepted points of an export. -/
theorem mem_accepted_iff {catalog : Catalog} {row : MetricRow} :
    row ∈ (md.collect (p.pointVerdicts catalog)).filterMap Except.toOption ↔
      ∃ resource scope metric, (resource, scope, metric) ∈ md.leaves ∧
        ∃ point ∈ metric.data.points, p.pointVerdict catalog resource scope metric point = .ok row := by
  rw [Ledger.mem_filterMap_toOption, Payload.mem_collect]
  simp only [ok_mem_pointVerdicts]

/-- Rows of a metric with a declared temporality always conform. All rows of an export do
exactly when every accepted point was sent as its entry declares it. -/
theorem stored_rows_conform_iff (hdone : (p.processMetrics db md store).1.err = none) :
    ∃ rows, (p.processMetrics db md store).2.metrics = store.metrics ++ rows ∧
      (∀ row ∈ rows, (p.metricDef row.metricName).temporality ≠ .unset → p.Conforms row) ∧
      ((∀ row ∈ rows, p.Conforms row) ↔
        ∀ resource scope metric, (resource, scope, metric) ∈ md.leaves → ∀ point ∈ metric.data.points,
          (∃ row, p.pointVerdict db.rules resource scope metric point = .ok row) → p.SentAsDeclared metric point) := by
  obtain ⟨rows, hstored, _, hsame⟩ := (processMetrics_accounted p db store md).rows hdone
  refine ⟨rows, hstored, ?_, ?_⟩
  · rw [forall_stored_iff (fun row row' hpoint => by rw [hpoint.metricName, hpoint.conforms_iff]) hsame]
    intro row hrow htemporality
    obtain ⟨resource, scope, metric, _, point, _, hverdict⟩ := mem_accepted_iff.mp hrow
    exact conforms_of_temporality (rowOf_pointVerdict hverdict) htemporality
  rw [forall_stored_iff (fun row row' hpoint => hpoint.conforms_iff) hsame]
  constructor
  · rintro hconforms resource scope metric hmetric point hpoint ⟨row, hverdict⟩
    have hmem := mem_accepted_iff.mpr ⟨resource, scope, metric, hmetric, point, hpoint, hverdict⟩
    exact (conforms_iff_sentAsDeclared (rowOf_pointVerdict hverdict)).mp (hconforms row hmem)
  · intro hsent row hrow
    obtain ⟨resource, scope, metric, hmetric, point, hpoint, hverdict⟩ := mem_accepted_iff.mp hrow
    exact (conforms_iff_sentAsDeclared (rowOf_pointVerdict hverdict)).mpr
      (hsent resource scope metric hmetric point hpoint ⟨row, hverdict⟩)

end Export

/-- A monotonic sum without a declared temporality, as the shipped taxonomy has them. -/
def invocationsDef : MetricDef where
  name := "cli.command.invocations"
  type := .sum
  unit := "1"
  monotonic := true
  allowedAttributes := ["cli.command.name"]

def invocationsPipeline : Pipeline :=
  { samplePipeline with
    schema := (finalize consent.sampleCompile { consent.sampleFile with metrics := [invocationsDef] }).toOption.get rfl }

/-- An export of one metric with that name. -/
def invocations (data : MetricData) : Payload Metric :=
  [⟨[], [⟨⟨"", ""⟩, [⟨"cli.command.invocations", "1", data⟩]⟩]⟩]

def invocationsPoint (n : Int) : NumberDataPoint where
  timestamp := 0
  attributes := [(consent.tierAttrKey, .str "basic")]
  value := .int n

/-- The tables before the first export. -/
def Store.empty : Store where
  vocabularies := .empty
  metrics := []
  logs := []
  traces := []
  installs := ⟨fun _ => none, []⟩
  discoveries := ∅

theorem stored_rows_conform_sum : ∃ rows,
    (invocationsPipeline.processMetrics {} (invocations (.sum .delta [invocationsPoint 3])) .empty).2.metrics =
      [] ++ rows ∧ ∀ row ∈ rows, invocationsPipeline.Conforms row := by
  obtain ⟨rows, hrows, _, hiff⟩ := stored_rows_conform_iff
    (show (invocationsPipeline.processMetrics {} (invocations (.sum .delta [invocationsPoint 3])) .empty).1.err = none
      by decide +kernel)
  refine ⟨rows, hrows, hiff.mpr ?_⟩
  intro resource scope metric hmetric point hpoint _
  cases List.mem_singleton.mp hmetric
  exact ⟨rfl, nofun⟩

/-- A gauge of the value -1 is stored under the name of a monotonic sum. -/
theorem gauge_stored_as_monotonic_sum :
    (invocationsPipeline.metricDef "cli.command.invocations").type = .sum ∧
      (invocationsPipeline.metricDef "cli.command.invocations").monotonic = true ∧
      (invocationsPipeline.processMetrics {} (invocations (.gauge [invocationsPoint (-1)])) .empty).2.metrics.map
          (fun row => (row.metricName, row.metricType, row.value)) =
        [("cli.command.invocations", .gauge, some (.finite (-1)))] := by
  decide +kernel

end argvio.otlp
