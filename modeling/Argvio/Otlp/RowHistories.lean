import Argvio.Otlp.Replaced

open argvio.storage List

namespace argvio.otlp

open FoldKind

/-- The vocabulary caps of a metric export, in the order in which they are made. -/
inductive CapStage where
  | reasons
  | dims (i : Vendor)
  | names (i : Vendor)
  deriving DecidableEq

def CapStage.all : List CapStage :=
  [.reasons, .dims .counter, .names .counter, .dims .measure, .names .measure, .dims .value, .names .value]

/-- The caps made before one of them. -/
def CapStage.before (stage : CapStage) : List CapStage := CapStage.all.takeWhile (· ≠ stage)

/-- The cap whose work a counter counts. -/
def FoldKind.stage : FoldKind → CapStage
  | .reason => .reasons
  | .dim i => .dims i
  | .name i => .names i
  | .label i => .names i

section Rewriting

variable (p : Pipeline) (rows : List MetricRow) (s : Vocabularies)

def Pipeline.reasonRewrite (r : MetricRow) : MetricRow :=
  { r with datapointAttributes :=
      (p.capErrorReasons (rows.map MetricRow.datapointAttributes) s.reasons).1 r.datapointAttributes }

/-- The rows of an export when their turn comes at an instrument. -/
def Pipeline.rowsFor : Vendor → List MetricRow
  | .counter => rows.map (p.reasonRewrite rows s)
  | .measure => (p.capCounters (rows.map (p.reasonRewrite rows s)) s.counters).1
  | .value => (p.capMeasures (p.capCounters (rows.map (p.reasonRewrite rows s)) s.counters).1 s.measures).1

/-- The rows and the vocabulary of an instrument once its dimension values are decided. -/
def Pipeline.dimmed (i : Vendor) : List MetricRow × Vocabulary :=
  p.capDimValues (p.rowsFor rows s i) (i.instrument p) (s.vocabulary i)

/-- What a cap makes of one row of the export. -/
def Pipeline.rewriting : CapStage → MetricRow → MetricRow
  | .reasons => p.reasonRewrite rows s
  | .dims i => p.dimRewrite (p.rowsFor rows s i) (i.instrument p) (s.vocabulary i)
  | .names i => p.nameRewrite (p.dimmed rows s i).1 (i.instrument p) (p.dimmed rows s i).2.tables

/-- The rows of an export when a cap is made. -/
def Pipeline.rowsAt : CapStage → List MetricRow
  | .reasons => rows
  | .dims i => p.rowsFor rows s i
  | .names i => (p.dimmed rows s i).1

/-- The versions of a row from the one accepted to the one that is inserted. -/
def Pipeline.history (r : MetricRow) : List MetricRow := versions (CapStage.all.map (p.rewriting rows s)) r

/-- The rows of an export with a value of a kind replaced. -/
def Pipeline.replacedCount (kind : FoldKind) : Nat := rows.countP (fun r => kind.replacedIn (p.history rows s r))

end Rewriting

/-- A row after some rewritings. -/
def applyAll (fs : List (MetricRow → MetricRow)) (r : MetricRow) : MetricRow := fs.foldl (fun r f => f r) r

section Rows

variable {p : Pipeline} {rows : List MetricRow} {s : Vocabularies}

theorem getLast_versions (fs : List (MetricRow → MetricRow)) (r : MetricRow) :
    (versions fs r).getLast? = some (applyAll fs r) := by
  induction fs generalizing r with
  | nil => rfl
  | cons f fs ih =>
    have hne : versions fs (f r) ≠ [] := by cases fs <;> simp [versions]
    unfold versions
    rw [getLast?_cons_of_ne_nil hne, ih]
    rfl

theorem rowsAt_names (i : Vendor) :
    p.rowsAt rows s (.names i) = (p.rowsAt rows s (.dims i)).map (p.rewriting rows s (.dims i)) :=
  capDimValues_rows

theorem capVendorInstrument_rowsFor (i : Vendor) :
    (p.capVendorInstrument (p.rowsFor rows s i) (i.instrument p) (s.vocabulary i)).1 =
      (p.rowsAt rows s (.names i)).map (p.rewriting rows s (.names i)) := capVendorInstrument_rows

theorem map_applyAll_append (stages : List CapStage) (stage : CapStage) :
    (rows.map (applyAll (stages.map (p.rewriting rows s)))).map (p.rewriting rows s stage) =
      rows.map (applyAll ((stages ++ [stage]).map (p.rewriting rows s))) := by
  rw [map_map]
  apply map_congr_left
  intro r _
  simp [applyAll]

/-- When a cap is made, the rows have been rewritten by the caps before it. -/
theorem rowsAt_eq (stage : CapStage) :
    p.rowsAt rows s stage = rows.map (applyAll (stage.before.map (p.rewriting rows s))) := by
  have hstep : ∀ stage next : CapStage, next.before = stage.before ++ [stage] →
      p.rowsAt rows s next = (p.rowsAt rows s stage).map (p.rewriting rows s stage) →
      p.rowsAt rows s stage = rows.map (applyAll (stage.before.map (p.rewriting rows s))) →
      p.rowsAt rows s next = rows.map (applyAll (next.before.map (p.rewriting rows s))) := by
    intro stage next hbefore hrows hstage
    rw [hrows, hstage, map_applyAll_append, hbefore]
  have hreasons : p.rowsAt rows s .reasons = rows.map (applyAll (CapStage.reasons.before.map (p.rewriting rows s))) :=
    (map_id rows).symm
  have hcounter := hstep .reasons (.dims .counter) (by decide) rfl hreasons
  have hcounter' := hstep _ (.names .counter) (by decide) (rowsAt_names .counter) hcounter
  have hmeasure := hstep _ (.dims .measure) (by decide) (capVendorInstrument_rowsFor .counter) hcounter'
  have hmeasure' := hstep _ (.names .measure) (by decide) (rowsAt_names .measure) hmeasure
  have hvalue := hstep _ (.dims .value) (by decide) (capVendorInstrument_rowsFor .measure) hmeasure'
  have hvalue' := hstep _ (.names .value) (by decide) (rowsAt_names .value) hvalue
  cases stage with
  | reasons => exact hreasons
  | dims i =>
    cases i with
    | counter => exact hcounter
    | measure => exact hmeasure
    | value => exact hvalue
  | names i =>
    cases i with
    | counter => exact hcounter'
    | measure => exact hmeasure'
    | value => exact hvalue'

/-- A metric export in terms of the rows that come to each instrument. -/
theorem capMetrics_eq (p : Pipeline) (rows : List MetricRow) (s : Vocabularies) :
    p.capMetrics rows s =
      ((p.capVendorInstrument (p.rowsFor rows s .value) p.valueInstrument s.values).1,
        { reasons := (p.capErrorReasons (rows.map MetricRow.datapointAttributes) s.reasons).2
          counters := (p.capVendorInstrument (p.rowsFor rows s .counter) p.counterInstrument s.counters).2
          measures := (p.capVendorInstrument (p.rowsFor rows s .measure) p.measureInstrument s.measures).2
          values := (p.capVendorInstrument (p.rowsFor rows s .value) p.valueInstrument s.values).2 }) := by
  have hreasons : p.reasonRewrite rows s = fun r => { r with datapointAttributes :=
      (p.capErrorReasons (rows.map MetricRow.datapointAttributes) s.reasons).1 r.datapointAttributes } := rfl
  simp only [Pipeline.capMetrics, Pipeline.rowsFor, Pipeline.capCounters, Pipeline.capMeasures, Pipeline.capValues,
    hreasons]

variable (p rows s) in
/-- The rows that are inserted are the last versions of the rows accepted. -/
theorem capMetrics_rows :
    (p.capMetrics rows s).1.map some = rows.map (fun r => (p.history rows s r).getLast?) := by
  have hlast : (p.capMetrics rows s).1 = (p.rowsAt rows s (.names .value)).map (p.rewriting rows s (.names .value)) := by
    rw [capMetrics_eq]
    dsimp only
    exact capVendorInstrument_rowsFor .value
  have hall : (CapStage.names .value).before ++ [.names .value] = CapStage.all := by decide
  rw [hlast, rowsAt_eq, map_applyAll_append, hall, map_map]
  apply map_congr_left
  intro r _
  exact (getLast_versions _ r).symm

end Rows

section Kept

variable {p : Pipeline} {rows : List MetricRow} {s : Vocabularies} {i j : Vendor}

theorem key_reasonRewrite (i : Vendor) (r : MetricRow) : i.key (p.reasonRewrite rows s r) = i.key r := by
  obtain ⟨-, hname, hlabel⟩ := i.attrs_ne
  unfold Vendor.key Pipeline.reasonRewrite
  rw [str_capErrorReasons _ _ _ hname, str_capErrorReasons _ _ _ hlabel]

theorem dimRewrite_cases (p : Pipeline) (rows : List MetricRow) (i : Vendor) (v : Vocabulary) (r : MetricRow) :
    p.dimRewrite rows (i.instrument p) v r = r ∨
      r.metricName = i.metric ∧ ∃ label, isTuple label = true ∧
        p.dimRewrite rows (i.instrument p) v r = (i.instrument p).relabel r label := by
  have hcases := dimRewrite_relabels p rows (i.instrument p) v r
  rw [Vendor.instrument_metric] at hcases
  exact hcases.imp_right fun h => ⟨h.1, h.2.2⟩

theorem errorReason_of_lookup {a a' : Attrs} (h : a'.lookup attrErrorReason = a.lookup attrErrorReason) :
    errorReason a' = errorReason a := by
  unfold errorReason
  rw [h]

section Reasons

variable (i : Vendor) (rows : List MetricRow)

theorem errorReason_dimRewrite (v : Vocabulary) (r : MetricRow) :
    errorReason (p.dimRewrite rows (i.instrument p) v r).datapointAttributes = errorReason r.datapointAttributes := by
  rcases dimRewrite_cases p rows i v r with hkept | ⟨-, label, -, hlabel⟩
  · rw [hkept]
  rw [hlabel]
  apply errorReason_of_lookup
  unfold VendorInstrument.relabel
  rw [Vendor.instrument_labelAttr]
  exact Finmap.lookup_insert_of_ne _ i.attrs_ne.2.2.symm

theorem errorReason_nameRewrite (t : Tables) (r : MetricRow) :
    errorReason (p.nameRewrite rows (i.instrument p) t r).datapointAttributes = errorReason r.datapointAttributes := by
  obtain ⟨-, hname, hlabel⟩ := i.attrs_ne
  apply errorReason_of_lookup
  unfold Pipeline.nameRewrite VendorInstrument.rewrite
  simp only [Vendor.instrument_nameAttr, Vendor.instrument_labelAttr]
  split
  · rfl
  split
  · rw [Finmap.lookup_erase_ne hlabel.symm, Finmap.lookup_insert_of_ne _ hname.symm]
  split
  · exact Finmap.lookup_erase_ne hlabel.symm
  · split
    · exact Finmap.lookup_insert_of_ne _ hlabel.symm
    · rfl

/-- The cap on dimension values of an instrument replaces no name, and no label by `other`. -/
theorem dimRewrite_kept (v : Vocabulary) :
    (name i).KeptBy (p.dimRewrite rows (i.instrument p) v) ∧
      (label i).KeptBy (p.dimRewrite rows (i.instrument p) v) := by
  constructor
  · refine keptBy_name fun r _ => ?_
    rcases dimRewrite_cases p rows i v r with hkept | ⟨-, label, -, hlabel⟩
    · rw [hkept]
    rw [hlabel]
    unfold Vendor.key VendorInstrument.relabel
    rw [Vendor.instrument_labelAttr]
    exact str_insert_ne i.attrs_ne.1
  · intro r
    rcases dimRewrite_cases p rows i v r with hkept | ⟨-, label, htuple, hlabel⟩
    · rw [hkept]
      simp [replaced]
    · have hnot : (i.key (p.dimRewrite rows (i.instrument p) v r)).label ≠ counterOther := by
        rw [hlabel, ← Vendor.vendorKey_eq p, label_relabel]
        rintro rfl
        exact absurd htuple (by decide)
      simp [replaced, hnot]

/-- The caps on names and labels of an instrument leave no tuple with a new value in it. -/
theorem nameRewrite_kept (t : Tables) : (dim i).KeptBy (p.nameRewrite rows (i.instrument p) t) := by
  have htuple : isTuple "" = false ∧ isTuple counterOther = false := by decide
  intro r
  by_cases hr : r.metricName = i.metric
  · have hlabel : (i.key (p.nameRewrite rows (i.instrument p) t r)).label = "" ∨
        (i.key (p.nameRewrite rows (i.instrument p) t r)).label = counterOther ∨
        (i.key (p.nameRewrite rows (i.instrument p) t r)).label = (i.key r).label := by
      unfold Pipeline.nameRewrite
      rw [← Vendor.vendorKey_eq p, ← Vendor.vendorKey_eq p, rewrite_key (hr.trans (i.instrument_metric p).symm)]
      grind
    rcases hlabel with hlabel | hlabel | hlabel
    · simp [replaced, hlabel, dimReplaced, htuple]
    · simp [replaced, hlabel, dimReplaced, htuple]
    · simp [replaced, hlabel, dimReplaced_self]
  · simp [replaced, hr]

end Reasons

theorem dimRewrite_of_ne {r : MetricRow} (hr : r.metricName ≠ j.metric) (rows : List MetricRow) (v : Vocabulary) :
    p.dimRewrite rows (j.instrument p) v r = r := by
  rcases dimRewrite_cases p rows j v r with hkept | ⟨hmetric, -⟩
  · exact hkept
  · exact absurd hmetric hr

theorem nameRewrite_of_ne {r : MetricRow} (hr : r.metricName ≠ j.metric) (rows : List MetricRow) (t : Tables) :
    p.nameRewrite rows (j.instrument p) t r = r := by
  unfold Pipeline.nameRewrite VendorInstrument.rewrite
  rw [if_pos (by simpa using hr)]

/-- Each kind of value is replaced by one cap only. -/
theorem FoldKind.keptBy_rewriting {kind : FoldKind} {stage : CapStage} (hne : stage ≠ kind.stage) :
    kind.KeptBy (p.rewriting rows s stage) := by
  have hother : ∀ {i j : Vendor} {r : MetricRow}, j ≠ i → r.metricName = i.metric → r.metricName ≠ j.metric := by
    intro i j r hij hr hj
    exact hij (Vendor.metric_injective (hj.symm.trans hr))
  cases stage with
  | reasons =>
    cases kind with
    | reason => exact absurd rfl hne
    | dim i => exact (keptBy_of_eq fun r _ => key_reasonRewrite i r).1
    | name i => exact (keptBy_of_eq fun r _ => key_reasonRewrite i r).2.1
    | label i => exact (keptBy_of_eq fun r _ => key_reasonRewrite i r).2.2
  | dims j =>
    have hkey : ∀ i, j ≠ i → ∀ r, r.metricName = i.metric → i.key (p.rewriting rows s (.dims j) r) = i.key r :=
      fun i hij r hr => congrArg i.key (dimRewrite_of_ne (hother hij hr) _ _)
    cases kind with
    | reason => exact keptBy_reason (errorReason_dimRewrite j _ _)
    | dim i => exact (keptBy_of_eq (hkey i fun heq => hne (congrArg _ heq))).1
    | name i =>
      by_cases hij : j = i
      · subst hij
        exact (dimRewrite_kept j _ _).1
      · exact (keptBy_of_eq (hkey i hij)).2.1
    | label i =>
      by_cases hij : j = i
      · subst hij
        exact (dimRewrite_kept j _ _).2
      · exact (keptBy_of_eq (hkey i hij)).2.2
  | names j =>
    have hkey : ∀ i, j ≠ i → ∀ r, r.metricName = i.metric → i.key (p.rewriting rows s (.names j) r) = i.key r :=
      fun i hij r hr => congrArg i.key (nameRewrite_of_ne (hother hij hr) _ _)
    cases kind with
    | reason => exact keptBy_reason (errorReason_nameRewrite j _ _)
    | dim i =>
      by_cases hij : j = i
      · subst hij
        exact nameRewrite_kept j _ _
      · exact (keptBy_of_eq (hkey i hij)).1
    | name i => exact (keptBy_of_eq (hkey i fun heq => hne (congrArg _ heq))).2.1
    | label i => exact (keptBy_of_eq (hkey i fun heq => hne (congrArg _ heq))).2.2

/-- The caps before and after one of them. -/
theorem CapStage.split (stage : CapStage) :
    ∃ after, CapStage.all = stage.before ++ stage :: after ∧ stage ∉ stage.before ∧ stage ∉ after := by
  refine ⟨(CapStage.all.dropWhile (· ≠ stage)).tail, ?_⟩
  cases stage with
  | reasons => decide
  | dims i | names i => cases i <;> decide

/-- The rows with a value of a kind replaced, counted where its cap is made. -/
theorem replacedCount_eq (kind : FoldKind) : p.replacedCount rows s kind =
    (p.rowsAt rows s kind.stage).countP (fun r => kind.replaced r (p.rewriting rows s kind.stage r)) := by
  obtain ⟨after, hall, hbefore, hafter⟩ := kind.stage.split
  rw [rowsAt_eq, countP_map]
  unfold Pipeline.replacedCount Pipeline.history
  rw [hall]
  apply countP_congr
  intro r _
  rw [map_append, map_cons, replacedIn_versions]
  · rfl
  · intro g hg
    obtain ⟨stage, hstage, rfl⟩ := mem_map.mp hg
    exact keptBy_rewriting (ne_of_mem_of_not_mem hstage hbefore)
  · intro g hg
    obtain ⟨stage, hstage, rfl⟩ := mem_map.mp hg
    exact keptBy_rewriting (ne_of_mem_of_not_mem hstage hafter)

end Kept

section Counters

variable (p : Pipeline) (rows : List MetricRow) (s : Vocabularies)

theorem replacedCount_reason : p.replacedCount rows s .reason =
    (rows.map MetricRow.datapointAttributes).countP (fun a =>
      reasonReplaced a ((p.capErrorReasons (rows.map MetricRow.datapointAttributes) s.reasons).1 a)) := by
  rw [replacedCount_eq, countP_map]
  rfl

theorem foldedCount_eq : (p.capErrorReasons (rows.map MetricRow.datapointAttributes) s.reasons).2.foldedCount =
    s.folded .reason + (p.replacedCount rows s .reason : Int) := by
  rw [foldedCount_capErrorReasons, replacedCount_reason]
  rfl

theorem overflow_dimmed (i : Vendor) : (s.vocabulary i).tables.overflow.Adds (p.dimmed rows s i).2.tables.overflow
    0 0 (p.replacedCount rows s (.dim i)) := by
  obtain ⟨dims, last, htables⟩ :=
    capDimValues_tables p (p.rowsFor rows s i) (i.instrument p) (s.vocabulary i)
  have hdims : (p.dimmed rows s i).2.tables.overflow.foldedDimValues = _ := foldedDimValues_capDimValues p _ i _
  refine ⟨?_, ?_, hdims.trans ?_⟩
  · unfold Pipeline.dimmed
    rw [htables]
    exact (Int.add_zero _).symm
  · unfold Pipeline.dimmed
    rw [htables]
    exact (Int.add_zero _).symm
  · rw [replacedCount_eq]
    rfl

theorem overflow_capVendorInstrument (i : Vendor) : (s.vocabulary i).tables.overflow.Adds
    (p.capVendorInstrument (p.rowsFor rows s i) (i.instrument p) (s.vocabulary i)).2.tables.overflow
    (p.replacedCount rows s (.name i)) (p.replacedCount rows s (.label i)) (p.replacedCount rows s (.dim i)) := by
  have hdims := overflow_dimmed p rows s i
  have hnames := overflow_nameRewrite p (p.dimmed rows s i).1 i (p.dimmed rows s i).2.tables
  have htables : (p.capVendorInstrument (p.rowsFor rows s i) (i.instrument p) (s.vocabulary i)).2.tables =
      (admitVocabulary (p.dimmed rows s i).2.tables (p.nameCall (i.instrument p) (p.dimmed rows s i).1)).2 :=
    capVendorInstrument_tables
  have hname : p.replacedCount rows s (.name i) = (p.dimmed rows s i).1.countP (fun r => (name i).replaced r
      (p.nameRewrite (p.dimmed rows s i).1 (i.instrument p) (p.dimmed rows s i).2.tables r)) := replacedCount_eq _
  have hlabel : p.replacedCount rows s (.label i) = (p.dimmed rows s i).1.countP (fun r => (label i).replaced r
      (p.nameRewrite (p.dimmed rows s i).1 (i.instrument p) (p.dimmed rows s i).2.tables r)) := replacedCount_eq _
  rw [htables, hname, hlabel]
  refine ⟨?_, ?_, ?_⟩
  · rw [hnames.foldedNames, hdims.foldedNames, Int.add_zero]
  · rw [hnames.foldedLabels, hdims.foldedLabels, Int.add_zero]
  · rw [hnames.foldedDimValues, hdims.foldedDimValues, Int.add_zero]

theorem rowsFor_measure : p.rowsFor rows s .measure =
    (p.capVendorInstrument (p.rowsFor rows s .counter) (Vendor.counter.instrument p) s.counters).1 := rfl

theorem rowsFor_value : p.rowsFor rows s .value =
    (p.capVendorInstrument (p.rowsFor rows s .measure) (Vendor.measure.instrument p) s.measures).1 := rfl

theorem keys_rowsFor (i : Vendor) : (i.instrument p).keys (p.rowsFor rows s i) = (i.instrument p).keys rows := by
  have hreasons : ∀ i : Vendor, (i.instrument p).keys (rows.map (p.reasonRewrite rows s)) = (i.instrument p).keys rows :=
    fun i => keys_capErrorReasons i _ _
  have hne : ∀ {i j : Vendor}, i ≠ j → (i.instrument p).metric ≠ (j.instrument p).metric := by
    intro i j hij heq
    rw [Vendor.instrument_metric, Vendor.instrument_metric] at heq
    exact hij (Vendor.metric_injective heq)
  cases i with
  | counter => exact hreasons .counter
  | measure =>
    have hcounters := keys_capVendorInstrument_of_ne (p := p) (p.rowsFor rows s .counter) s.counters
      (hne (i := .measure) (j := .counter) (by decide))
    rw [rowsFor_measure, hcounters]
    exact hreasons .measure
  | value =>
    have hmeasures := keys_capVendorInstrument_of_ne (p := p) (p.rowsFor rows s .measure) s.measures
      (hne (i := .value) (j := .measure) (by decide))
    have hcounters := keys_capVendorInstrument_of_ne (p := p) (p.rowsFor rows s .counter) s.counters
      (hne (i := .value) (j := .counter) (by decide))
    rw [rowsFor_value, hmeasures, rowsFor_measure, hcounters]
    exact hreasons .value

end Counters

section Fits

/-- Every new value of a kind that a metric export brings has room under its cap. -/
def Vocabularies.Fits (s : Vocabularies) (p : Pipeline) (rows : List MetricRow) : FoldKind → Prop
  | .reason => s.reasons.Fits p.reasonLimit (rows.filterMap (fun r => errorReason r.datapointAttributes))
  | .dim i => DimsFit (s.vocabulary i).dims p.metricCaps.dimValues (((i.instrument p).keys rows).flatMap dimValueKeys)
  | .name i => (s.vocabulary i).tables.NamesFit (i.instrument p).nameLimit ((i.instrument p).keys rows)
  | .label i => (s.vocabulary i).tables.LabelsFit (i.instrument p).labelLimit ((i.instrument p).keys rows)

variable {p : Pipeline} {rows : List MetricRow} {s : Vocabularies} {i : Vendor}

theorem replacedCount_reason_eq_zero_iff : p.replacedCount rows s .reason = 0 ↔ s.Fits p rows .reason := by
  rw [replacedCount_reason, countP_reasonReplaced_eq_zero_iff, filterMap_map]
  rfl

theorem replacedCount_dim_eq_zero_iff : p.replacedCount rows s (.dim i) = 0 ↔ s.Fits p rows (.dim i) := by
  have hfit := countP_dim_eq_zero_iff p (p.rowsFor rows s i) i (s.vocabulary i)
  rw [keys_rowsFor] at hfit
  rw [replacedCount_eq]
  exact hfit

theorem names_dimmed : (p.dimmed rows s i).2.tables.names = (s.vocabulary i).tables.names := capDimValues_names

theorem labels_dimmed : (p.dimmed rows s i).2.tables.labels = (s.vocabulary i).tables.labels := by
  obtain ⟨dims, last, htables⟩ :=
    capDimValues_tables p (p.rowsFor rows s i) (i.instrument p) (s.vocabulary i)
  unfold Pipeline.dimmed
  rw [htables]

theorem replacedCount_name_eq_zero_iff : p.replacedCount rows s (.name i) = 0 ↔ s.Fits p rows (.name i) := by
  have hfit := countP_name_eq_zero_iff p (p.dimmed rows s i).1 i (p.dimmed rows s i).2.tables
  have hsent : ((i.instrument p).keys (p.dimmed rows s i).1).map CounterKey.name =
      ((i.instrument p).keys rows).map CounterKey.name := by
    rw [← keys_rowsFor p rows s i]
    exact capDimValues_sent
  unfold Tables.NamesFit Tables.freshNames at hfit
  rw [hsent, names_dimmed] at hfit
  rw [replacedCount_eq]
  exact hfit

/-- Rows whose dimension values and names all have room keep their labels exactly when
those have room. -/
theorem replacedCount_label_eq_zero_iff (hdims : p.replacedCount rows s (.dim i) = 0)
    (hnames : p.replacedCount rows s (.name i) = 0) :
    p.replacedCount rows s (.label i) = 0 ↔ s.Fits p rows (.label i) := by
  have hroom := (folded_admitDims_eq_zero_iff (t := (s.vocabulary i).dims)
    (c := p.dimCall ((i.instrument p).keys (p.rowsFor rows s i))) rfl).mpr
      (by rw [keys_rowsFor]; exact replacedCount_dim_eq_zero_iff.mp hdims)
  have hrows : (p.dimmed rows s i).1 = p.rowsFor rows s i := by
    unfold Pipeline.dimmed
    rw [capDimValues_rows, dimRewrite_of_room hroom, map_id]
  rw [replacedCount_eq] at hnames
  have hfit := countP_label_eq_zero_iff p (p.dimmed rows s i).1 i (p.dimmed rows s i).2.tables hnames
  have hkeys : (i.instrument p).keys (p.dimmed rows s i).1 = (i.instrument p).keys rows := by rw [hrows, keys_rowsFor]
  unfold Tables.LabelsFit Tables.freshLabels Tables.labelsOf at hfit
  rw [labels_dimmed, hkeys] at hfit
  rw [replacedCount_eq]
  exact hfit

end Fits

end argvio.otlp
