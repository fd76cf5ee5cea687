import Argvio.Otlp.RowHistories
import Argvio.Otlp.Server

open argvio.storage

namespace argvio.otlp

/-- The calls of the database an export makes before its rows are stored. The last two of
an instrument write `folded_dim_values` and, once the names are touched, its labels. -/
inductive DbStep where
  | reasons
  | dims (i : Vendor)
  | foldedDims (i : Vendor)
  | names (i : Vendor)
  | touchLabels (i : Vendor)
  | insert
  deriving DecidableEq

/-- The instruments whose caps come before those of another. -/
def Vendor.before : Vendor → List Vendor
  | .counter => []
  | .measure => [.counter]
  | .value => [.counter, .measure]

def Vendor.kinds (i : Vendor) : List FoldKind := [.dim i, .name i, .label i]

variable {i j : Vendor}

@[simp] theorem Vendor.dim_mem_kinds : FoldKind.dim j ∈ i.kinds ↔ j = i := by
  simp [Vendor.kinds]

@[simp] theorem Vendor.name_mem_kinds : FoldKind.name j ∈ i.kinds ↔ j = i := by
  simp [Vendor.kinds]

@[simp] theorem Vendor.label_mem_kinds : FoldKind.label j ∈ i.kinds ↔ j = i := by
  simp [Vendor.kinds]

/-- The counters already written when a step of a metric export fails. -/
def DbStep.recorded : DbStep → List FoldKind
  | .reasons => []
  | .dims i | .foldedDims i => .reason :: i.before.flatMap Vendor.kinds
  | .names i | .touchLabels i => .reason :: i.before.flatMap Vendor.kinds ++ [.dim i]
  | .insert => .reason :: [Vendor.counter, .measure, .value].flatMap Vendor.kinds

section Until

variable (p : Pipeline) (rows : List MetricRow) (s : Vocabularies)

/-- An instrument's vocabulary after its caps. -/
def Pipeline.capped (i : Vendor) : Vocabulary :=
  (p.capVendorInstrument (p.rowsFor rows s i) (i.instrument p) (s.vocabulary i)).2

/-- The vocabularies with the caps before those of an instrument made, and `v` as its own. -/
def Pipeline.cappedUpTo (i : Vendor) (v : Vocabulary) : Vocabularies :=
  let reasons := (p.capErrorReasons (rows.map MetricRow.datapointAttributes) s.reasons).2
  match i with
  | .counter => { s with reasons, counters := v }
  | .measure => { s with reasons, counters := p.capped rows s .counter, measures := v }
  | .value => { reasons, counters := p.capped rows s .counter, measures := p.capped rows s .measure, values := v }

/-- What is committed when a step of a metric export fails. A transaction is rolled back;
the calls before it stay. -/
def Pipeline.capMetricsUntil : DbStep → Vocabularies
  | .reasons => s
  | .dims i => p.cappedUpTo rows s i (s.vocabulary i)
  | .foldedDims i => p.cappedUpTo rows s i { s.vocabulary i with
      dims := (admitDims (s.vocabulary i).dims (p.dimCall ((i.instrument p).keys (p.rowsFor rows s i)))).2 }
  | .names i => p.cappedUpTo rows s i (p.dimmed rows s i).2
  | .touchLabels i => p.cappedUpTo rows s i { (p.dimmed rows s i).2 with
      tables := touchNames (p.dimmed rows s i).2.tables (p.nameCall (i.instrument p) (p.dimmed rows s i).1) }
  | .insert => (p.capMetrics rows s).2

variable {p rows s} {i : Vendor}

theorem vocabulary_cappedUpTo (i j : Vendor) (v : Vocabulary) : (p.cappedUpTo rows s i v).vocabulary j =
    if j ∈ i.before then p.capped rows s j else if j = i then v else s.vocabulary j := by
  cases i <;> cases j <;> simp [Pipeline.cappedUpTo, Vocabularies.vocabulary, Vendor.before]

theorem reasons_cappedUpTo (i : Vendor) (v : Vocabulary) : (p.cappedUpTo rows s i v).reasons =
    (p.capErrorReasons (rows.map MetricRow.datapointAttributes) s.reasons).2 := by
  cases i <;> rfl

theorem overflow_capped (j : Vendor) : (s.vocabulary j).tables.overflow.Adds (p.capped rows s j).tables.overflow
    (p.replacedCount rows s (.name j)) (p.replacedCount rows s (.label j)) (p.replacedCount rows s (.dim j)) := by
  unfold Pipeline.capped
  exact overflow_capVendorInstrument p rows s j

variable (p rows) in
/-- What is added to the overflow row of each instrument when the caps up to some of an
instrument's own have been made. -/
theorem overflow_cappedUpTo {v : Vocabulary} {dims : Int}
    (hv : (s.vocabulary i).tables.overflow.Adds v.tables.overflow 0 0 dims) (j : Vendor) :
    (s.vocabulary j).tables.overflow.Adds ((p.cappedUpTo rows s i v).vocabulary j).tables.overflow
      (if j ∈ i.before then p.replacedCount rows s (.name j) else 0)
      (if j ∈ i.before then p.replacedCount rows s (.label j) else 0)
      (if j ∈ i.before then p.replacedCount rows s (.dim j) else if j = i then dims else 0) := by
  rw [vocabulary_cappedUpTo]
  by_cases hbefore : j ∈ i.before
  · simp only [if_pos hbefore]
    exact overflow_capped j
  simp only [if_neg hbefore]
  by_cases hj : j = i
  · subst hj
    simpa using hv
  · simp only [if_neg hj]
    exact .zero _

variable (p rows) in
theorem folded_cappedUpTo {v : Vocabulary} {dims : Int}
    (hv : (s.vocabulary i).tables.overflow.Adds v.tables.overflow 0 0 dims) (kind : FoldKind) :
    (p.cappedUpTo rows s i v).folded kind = s.folded kind +
      if kind ∈ FoldKind.reason :: i.before.flatMap Vendor.kinds then (p.replacedCount rows s kind : Int)
      else if kind = .dim i then dims else 0 := by
  have hadds := overflow_cappedUpTo p rows hv
  cases kind with
  | reason =>
    have hcount := foldedCount_eq p rows s
    rw [← reasons_cappedUpTo i v] at hcount
    simpa [Vocabularies.folded] using hcount
  | dim j => simpa [Vocabularies.folded] using (hadds j).foldedDimValues
  | name j => simpa [Vocabularies.folded] using (hadds j).foldedNames
  | label j => simpa [Vocabularies.folded] using (hadds j).foldedLabels

theorem vocabulary_capMetrics_snd (j : Vendor) : (p.capMetrics rows s).2.vocabulary j = p.capped rows s j := by
  rw [capMetrics_eq]
  cases j <;> simp only [Vocabularies.vocabulary, Pipeline.capped, Vendor.instrument]

/-- After a whole export each counter has grown by the rows with a value replaced. -/
theorem folded_capMetrics (kind : FoldKind) :
    (p.capMetrics rows s).2.folded kind = s.folded kind + (p.replacedCount rows s kind : Int) := by
  have hadds : ∀ j, (s.vocabulary j).tables.overflow.Adds ((p.capMetrics rows s).2.vocabulary j).tables.overflow
      (p.replacedCount rows s (.name j)) (p.replacedCount rows s (.label j)) (p.replacedCount rows s (.dim j)) := by
    intro j
    rw [vocabulary_capMetrics_snd]
    exact overflow_capped j
  cases kind with
  | reason =>
    have hreasons : (p.capMetrics rows s).2.reasons =
        (p.capErrorReasons (rows.map MetricRow.datapointAttributes) s.reasons).2 := by rw [capMetrics_eq]
    unfold Vocabularies.folded
    rw [hreasons]
    exact foldedCount_eq p rows s
  | dim j => exact (hadds j).foldedDimValues
  | name j => exact (hadds j).foldedNames
  | label j => exact (hadds j).foldedLabels

theorem FoldKind.mem_recorded_insert (kind : FoldKind) : kind ∈ DbStep.insert.recorded := by
  cases kind with
  | reason => decide
  | dim i | name i | label i => cases i <;> decide

theorem overflow_touchNames (t : Tables) (c : AdmitCall) : (touchNames t c).overflow = t.overflow := rfl

/-- A failed export leaves the counters with what was counted before the failure. -/
theorem folded_capMetricsUntil (step : DbStep) (kind : FoldKind) :
    (p.capMetricsUntil rows s step).folded kind = s.folded kind +
      if kind ∈ step.recorded then (p.replacedCount rows s kind : Int) else 0 := by
  have hdimmed : ∀ (i : Vendor) (v : Vocabulary),
      (s.vocabulary i).tables.overflow.Adds v.tables.overflow 0 0 (p.replacedCount rows s (.dim i)) →
      (p.cappedUpTo rows s i v).folded kind = s.folded kind +
        if kind ∈ (DbStep.names i).recorded then (p.replacedCount rows s kind : Int) else 0 := by
    intro i v hv
    rw [folded_cappedUpTo p rows hv]
    unfold DbStep.recorded
    by_cases hkind : kind = .dim i
    · subst hkind
      simp
    · simp [hkind]
  cases step with
  | reasons => exact (Int.add_zero _).symm
  | dims i =>
    have hfolded := folded_cappedUpTo p rows (Overflow.Adds.zero (s.vocabulary i).tables.overflow) kind
    rw [ite_self] at hfolded
    exact hfolded
  | foldedDims i =>
    have hfolded := folded_cappedUpTo p rows (v := { s.vocabulary i with
      dims := (admitDims (s.vocabulary i).dims (p.dimCall ((i.instrument p).keys (p.rowsFor rows s i)))).2 })
      (Overflow.Adds.zero (s.vocabulary i).tables.overflow) kind
    rw [ite_self] at hfolded
    exact hfolded
  | names i => exact hdimmed i _ (overflow_dimmed p rows s i)
  | touchLabels i =>
    refine hdimmed i _ ?_
    dsimp only
    rw [overflow_touchNames]
    exact overflow_dimmed p rows s i
  | insert =>
    rw [if_pos kind.mem_recorded_insert]
    exact folded_capMetrics kind

end Until

section Accepted

variable (p : Pipeline) (db : Answers) (store : Store)

/-- The rows of a metric export that pass all checks, none if the whole export is refused. -/
def Pipeline.acceptedPoints (catalog : Option (Except String Catalog)) (md : Payload Metric) : List MetricRow :=
  if p.schema.isKnownSignalType "metrics" = false ∨ dataPointCount md > p.bounds.maxBatchSize then []
  else
    match loadCatalog catalog with
    | .error _ => []
    | .ok catalog => (md.fold (p.recordMetric catalog) {} : Ledger MetricReason MetricRow).rows

def Pipeline.acceptedRecords (ld : Payload LogRecord) : List LogRow :=
  if p.schema.isKnownSignalType "logs" = false ∨ logRecordCount ld > p.bounds.maxBatchSize then []
  else
    (ld.fold (fun resource scope l rec => l.record (p.processLogRecord resource scope rec)) {} :
      Ledger Reason LogRow).rows

/-- A stored log record, its error reason decided. -/
def Pipeline.rewriteLog (rows : List LogRow) (t : ErrorReasons) (r : LogRow) : LogRow :=
  { r with logAttributes := (p.capErrorReasons (rows.map LogRow.logAttributes) t).1 r.logAttributes }

/-- How an export of some rows ends: with nothing to store, with a cap or the insert that failed, or with the rows
stored. What changes are the vocabularies and the table of the rows. -/
inductive Ends (db : Answers) {ρ : Type} (rows : List ρ) (capped : Vocabularies) (stored : List ρ)
    (old new : Vocabularies × List ρ) : Option ProcessError → Prop where
  | nothing {err : Option ProcessError} : rows = [] → new = old → Ends db rows capped stored old new err
  | capFailed {fault : Fault Vocabularies} {err : ProcessError} : db.caps = some fault → new = (fault.left, old.2) →
      Ends db rows capped stored old new (some err)
  | insertFailed {reason : String} {err : ProcessError} : db.insert = some reason → new = (capped, old.2) →
      Ends db rows capped stored old new (some err)
  | done : db.caps = none → db.insert = none → new = (capped, old.2 ++ stored) →
      Ends db rows capped stored old new none

/-- What a metric export does to the vocabularies and to the stored points. -/
theorem processMetrics_effect (md : Payload Metric) :
    let rows := p.acceptedPoints db.catalog md
    let out := p.processMetrics db md store
    let capped := p.capMetrics rows store.vocabularies
    out.2.logs = store.logs ∧ Ends db rows capped.2 capped.1 (store.vocabularies, store.metrics)
      (out.2.vocabularies, out.2.metrics) out.1.err := by
  dsimp only
  unfold Pipeline.acceptedPoints Pipeline.processMetrics
  by_cases hknown : p.schema.isKnownSignalType "metrics" = false
  · rw [if_pos hknown, if_pos (.inl hknown)]
    exact ⟨rfl, .nothing rfl rfl⟩
  by_cases hsize : dataPointCount md > p.bounds.maxBatchSize
  · rw [if_neg hknown, if_pos hsize, if_pos (.inr hsize)]
    exact ⟨rfl, .nothing rfl rfl⟩
  rw [if_neg hknown, if_neg hsize, if_neg (not_or.mpr ⟨hknown, hsize⟩)]
  cases loadCatalog db.catalog with
  | error err => exact ⟨rfl, .nothing rfl rfl⟩
  | ok catalog =>
    dsimp only
    generalize (md.fold (p.recordMetric catalog) {} : Ledger MetricReason MetricRow) = l
    by_cases hrows : l.rows = []
    · rw [if_pos hrows]
      exact ⟨rfl, .nothing hrows rfl⟩
    rw [if_neg hrows]
    cases hcaps : db.caps with
    | some fault => exact ⟨rfl, .capFailed hcaps rfl⟩
    | none =>
      cases hinsert : db.insert with
      | some err => exact ⟨rfl, .insertFailed hinsert rfl⟩
      | none => exact ⟨rfl, .done hcaps hinsert rfl⟩

theorem processLogs_effect (ld : Payload LogRecord) :
    let rows := p.acceptedRecords ld
    let out := p.processLogs db ld store
    let capped := { store.vocabularies with
      reasons := (p.capErrorReasons (rows.map LogRow.logAttributes) store.vocabularies.reasons).2 }
    out.2.metrics = store.metrics ∧ Ends db rows capped (rows.map (p.rewriteLog rows store.vocabularies.reasons))
      (store.vocabularies, store.logs) (out.2.vocabularies, out.2.logs) out.1.err := by
  dsimp only
  unfold Pipeline.acceptedRecords Pipeline.processLogs
  by_cases hknown : p.schema.isKnownSignalType "logs" = false
  · rw [if_pos hknown, if_pos (.inl hknown)]
    exact ⟨rfl, .nothing rfl rfl⟩
  by_cases hsize : logRecordCount ld > p.bounds.maxBatchSize
  · rw [if_neg hknown, if_pos hsize, if_pos (.inr hsize)]
    exact ⟨rfl, .nothing rfl rfl⟩
  rw [if_neg hknown, if_neg hsize, if_neg (not_or.mpr ⟨hknown, hsize⟩)]
  dsimp only
  generalize (ld.fold (fun resource scope l rec => l.record (p.processLogRecord resource scope rec)) {} :
    Ledger Reason LogRow) = l
  by_cases hrows : l.rows = []
  · rw [if_pos hrows]
    exact ⟨rfl, .nothing hrows rfl⟩
  rw [if_neg hrows]
  cases hcaps : db.caps with
  | some fault => exact ⟨rfl, .capFailed hcaps rfl⟩
  | none =>
    cases hinsert : db.insert with
    | some err => exact ⟨rfl, .insertFailed hinsert rfl⟩
    | none => exact ⟨rfl, .done hcaps hinsert rfl⟩

theorem processTraces_effect (td : Payload Span) :
    (p.processTraces db td store).2.vocabularies = store.vocabularies ∧
      (p.processTraces db td store).2.metrics = store.metrics ∧ (p.processTraces db td store).2.logs = store.logs := by
  unfold Pipeline.processTraces
  split
  · exact ⟨rfl, rfl, rfl⟩
  split
  · exact ⟨rfl, rfl, rfl⟩
  dsimp only
  split
  · exact ⟨rfl, rfl, rfl⟩
  · split <;> exact ⟨rfl, rfl, rfl⟩

end Accepted

end argvio.otlp
