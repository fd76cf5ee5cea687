import Argvio.Otlp.DimRows
import Argvio.Otlp.LogRuns

open argvio.storage

namespace argvio.otlp

open Pipeline

/-- The three vendor instruments. -/
inductive Vendor where
  | counter
  | measure
  | value
  deriving DecidableEq

def Vendor.instrument (p : Pipeline) : Vendor → VendorInstrument
  | .counter => p.counterInstrument
  | .measure => p.measureInstrument
  | .value => p.valueInstrument

def Vocabularies.vocabulary (s : Vocabularies) : Vendor → Vocabulary
  | .counter => s.counters
  | .measure => s.measures
  | .value => s.values

section Export

variable {p : Pipeline} {rows : List MetricRow} {s : Vocabularies}

theorem str_capErrorReasons (attrs : List Attrs) (t : ErrorReasons) (a : Attrs) {k : String}
    (hk : k ≠ attrErrorReason) : Attrs.str ((p.capErrorReasons attrs t).1 a) k = a.str k := by
  unfold Attrs.str
  rw [lookup_capErrorReasons hk]

theorem instrument_attrs_ne (p : Pipeline) (i : Vendor) :
    (i.instrument p).nameAttr ≠ attrErrorReason ∧ (i.instrument p).labelAttr ≠ attrErrorReason := by
  cases i with
  | counter => simp [Vendor.instrument, counterInstrument, attrErrorReason]
  | measure => simp [Vendor.instrument, measureInstrument, attrErrorReason]
  | value => simp [Vendor.instrument, valueInstrument, attrErrorReason]

theorem keys_capErrorReasons (i : Vendor) (attrs : List Attrs) (t : ErrorReasons) :
    (i.instrument p).keys (rows.map (fun r =>
      { r with datapointAttributes := (p.capErrorReasons attrs t).1 r.datapointAttributes })) =
      (i.instrument p).keys rows := by
  apply keys_map
  · exact fun r => rfl
  intro r _
  unfold vendorKey
  obtain ⟨hname, hlabel⟩ := instrument_attrs_ne p i
  rw [str_capErrorReasons _ _ _ hname, str_capErrorReasons _ _ _ hlabel]

theorem rewrite_metricName (inst : VendorInstrument) (adm : CounterAdmission) (r : MetricRow) :
    (inst.rewrite adm r).metricName = r.metricName := by
  unfold VendorInstrument.rewrite
  dsimp only
  split
  · rfl
  split
  · rfl
  · split
    · rfl
    · split <;> rfl

/-- One instrument's caps leave the rows of another as they are. -/
theorem keys_capVendorInstrument_of_ne (rows : List MetricRow) {inst other : VendorInstrument} (v : Vocabulary)
    (hne : other.metric ≠ inst.metric) :
    other.keys (p.capVendorInstrument rows inst v).1 = other.keys rows := by
  have hdims : other.keys (p.capDimValues rows inst v).1 = other.keys rows := by
    unfold capDimValues
    dsimp only
    split
    · rfl
    split
    · rfl
    rw [List.map_map]
    refine keys_map (foldDimValues_metricName _) (fun r hr => ?_) rows
    have hr' : r.metricName ≠ inst.metric := by rwa [hr]
    simp [VendorInstrument.foldDimValues, hr']
  rw [← hdims]
  unfold capVendorInstrument
  dsimp only
  split
  · rfl
  · refine keys_map (rewrite_metricName inst _) (fun r hr => ?_) _
    have hr' : r.metricName ≠ inst.metric := by rwa [hr]
    simp [VendorInstrument.rewrite, hr']

/-- What an export does to one vocabulary is the work of that instrument's cap,
on rows with the names and labels that came in. -/
theorem vocabulary_capMetrics (p : Pipeline) (rows : List MetricRow) (s : Vocabularies) (i : Vendor) :
    ∃ rows', (i.instrument p).keys rows' = (i.instrument p).keys rows ∧
      (p.capMetrics rows s).2.vocabulary i =
        (p.capVendorInstrument rows' (i.instrument p) (s.vocabulary i)).2 := by
  let rows₀ := rows.map (fun r => { r with
    datapointAttributes :=
      (p.capErrorReasons (rows.map MetricRow.datapointAttributes) s.reasons).1 r.datapointAttributes })
  let rows₁ := (p.capCounters rows₀ s.counters).1
  let rows₂ := (p.capMeasures rows₁ s.measures).1
  have hreasons : ∀ i : Vendor, (i.instrument p).keys rows₀ = (i.instrument p).keys rows :=
    fun i => keys_capErrorReasons i _ _
  cases i with
  | counter => exact ⟨rows₀, hreasons .counter, rfl⟩
  | measure =>
    have hcounters : p.measureInstrument.keys rows₁ = p.measureInstrument.keys rows₀ :=
      keys_capVendorInstrument_of_ne rows₀ s.counters
        (by simp [measureInstrument, counterInstrument])
    refine ⟨rows₁, hcounters.trans (hreasons .measure), ?_⟩
    simp only [Vocabularies.vocabulary, capMetrics, capMeasures, Vendor.instrument, rows₁, rows₀]
  | value =>
    have hcounters : p.valueInstrument.keys rows₁ = p.valueInstrument.keys rows₀ :=
      keys_capVendorInstrument_of_ne rows₀ s.counters
        (by simp [valueInstrument, counterInstrument])
    have hmeasures : p.valueInstrument.keys rows₂ = p.valueInstrument.keys rows₁ :=
      keys_capVendorInstrument_of_ne rows₁ s.measures
        (by simp [valueInstrument, measureInstrument])
    refine ⟨rows₂, (hmeasures.trans hcounters).trans (hreasons .value), ?_⟩
    simp only [Vocabularies.vocabulary, capMetrics, capValues, Vendor.instrument, rows₂, rows₁, rows₀]

end Export

/-- One successful metric export: the rows it accepts and when it arrives. -/
structure Export where
  now : Int
  rows : List MetricRow

def Pipeline.capExport (p : Pipeline) (s : Vocabularies) (e : Export) : Vocabularies :=
  ({ p with now := e.now }.capMetrics e.rows s).2

/-- A tenant's vocabularies after a run of exports, from empty tables on. -/
def Pipeline.runExports (p : Pipeline) (exports : List Export) : Vocabularies :=
  exports.foldl p.capExport .empty

/-- The dimension rows belong to names of the vocabulary, so the cap on names
bounds them too. -/
def DimsBounded (v : Vocabulary) (nameLimit : Int) : Prop :=
  DimsOwned v ∧ ((v.dims.keys.image DimValueKey.name).card : Int) ≤ nameLimit

section Runs

variable {p : Pipeline} {i : Vendor} {exports : List Export}

theorem runExports_append (p : Pipeline) (done : List Export) (e : Export) :
    p.runExports (done ++ [e]) = p.capExport (p.runExports done) e := by
  simp [runExports]

theorem instrument_nameLimit_pos (p : Pipeline) (i : Vendor) : 0 < (i.instrument p).nameLimit := by
  cases i <;> exact pickCap_pos _ _ (by decide)

theorem dimsOwned_capExport_iff {s : Vocabularies} {e : Export} (howned : DimsOwned (s.vocabulary i)) :
    DimsOwned ((p.capExport s e).vocabulary i) ↔
      DimNamesFit (s.vocabulary i) (i.instrument p).nameLimit ((i.instrument p).keys e.rows) := by
  obtain ⟨rows, hkeys, hvocabulary⟩ := vocabulary_capMetrics { p with now := e.now } e.rows s i
  unfold capExport
  rw [hvocabulary, dimsOwned_capVendorInstrument_iff howned, hkeys]
  cases i <;> rfl

theorem card_names_runExports (p : Pipeline) (i : Vendor) (exports : List Export) :
    ((p.runExports exports).vocabulary i).tables.names.keys.card ≤ (i.instrument p).nameLimit.toNat := by
  induction exports using List.reverseRecOn with
  | nil => cases i <;> exact Nat.zero_le _
  | append_singleton done e ih =>
    rw [runExports_append]
    obtain ⟨rows, _, hvocabulary⟩ := vocabulary_capMetrics { p with now := e.now } e.rows (p.runExports done) i
    unfold capExport
    rw [hvocabulary]
    apply card_names_capVendorInstrument ih
    have hpos := instrument_nameLimit_pos p i
    have hsame : (i.instrument { p with now := e.now }).nameLimit = (i.instrument p).nameLimit := by cases i <;> rfl
    omega

theorem dimsBounded_of_owned (howned : DimsOwned ((p.runExports exports).vocabulary i)) :
    DimsBounded ((p.runExports exports).vocabulary i) (i.instrument p).nameLimit := by
  refine ⟨howned, ?_⟩
  have hsubset : ((p.runExports exports).vocabulary i).dims.keys.image DimValueKey.name ⊆
      ((p.runExports exports).vocabulary i).tables.names.keys := by
    intro name hname
    obtain ⟨d, hd, rfl⟩ := Finset.mem_image.mp hname
    exact howned d hd
  have hcard := Finset.card_le_card hsubset
  have hnames := card_names_runExports p i exports
  have hpos := instrument_nameLimit_pos p i
  omega

theorem dimsOwned_runExports (hfit : ∀ done e, done ++ [e] <+: exports →
      DimNamesFit ((p.runExports done).vocabulary i) (i.instrument p).nameLimit ((i.instrument p).keys e.rows)) :
    DimsOwned ((p.runExports exports).vocabulary i) := by
  induction exports using List.reverseRecOn with
  | nil =>
    intro d hd
    cases i <;> cases hd
  | append_singleton done e ih =>
    have howned := ih fun earlier e' hdone => hfit earlier e' (hdone.trans (List.prefix_append _ _))
    rw [runExports_append, dimsOwned_capExport_iff howned]
    exact hfit done e (List.prefix_refl _)

/-- After every export of a run the dimension rows are bounded by the names,
exactly when no export brings a dimension value under a new name that no longer
fits under the cap. -/
theorem dims_bounded_iff (p : Pipeline) (i : Vendor) (exports : List Export) :
    (∀ done, done <+: exports → DimsBounded ((p.runExports done).vocabulary i) (i.instrument p).nameLimit) ↔
      ∀ done e, done ++ [e] <+: exports →
        DimNamesFit ((p.runExports done).vocabulary i) (i.instrument p).nameLimit
          ((i.instrument p).keys e.rows) := by
  constructor
  · intro hbounded done e hdone
    have hbefore := (hbounded done ((List.prefix_append _ _).trans hdone)).1
    have hafter := (hbounded (done ++ [e]) hdone).1
    rw [runExports_append] at hafter
    exact (dimsOwned_capExport_iff hbefore).mp hafter
  · intro hfit done hdone
    apply dimsBounded_of_owned
    apply dimsOwned_runExports
    intro earlier e hearlier
    exact hfit earlier e (hearlier.trans hdone)

end Runs

/-- A tenant with room for one counter name. -/
def oneCounterPipeline : Pipeline :=
  { samplePipeline with
    tenant := { samplePipeline.tenant with
      config := { samplePipeline.tenant.config with metricCaps := { maxCounterNames := some 1 } } } }

/-- The row of a counter data point with one dimension. -/
def counterRow (name check : String) : Option MetricRow :=
  (oneCounterPipeline.foldDims "cli.counter"
      ((AList.singleton "cli.counter.name" (.str name)).insert "cli.dim.check" (.str check)) []).toOption.map
    (fun kept => { metricName := "cli.counter", datapointAttributes := kept.toFinmap })

/-- One export with two new names for one free slot: the values of the name that
is folded stay behind. -/
theorem dims_unbounded_past_name_cap :
    ∃ first second, counterRow "build" "bola" = some first ∧ counterRow "deploy" "idor" = some second ∧
      (oneCounterPipeline.runExports [{ now := 0, rows := [first, second] }]).counters.tables.names.keys = {"build"} ∧
      (oneCounterPipeline.runExports [{ now := 0, rows := [first, second] }]).counters.dims.keys =
        {⟨"build", "check", "bola"⟩, ⟨"deploy", "check", "idor"⟩} ∧
      ¬ DimsBounded ((oneCounterPipeline.runExports [{ now := 0, rows := [first, second] }]).vocabulary .counter)
        (Vendor.counter.instrument oneCounterPipeline).nameLimit := by
  refine ⟨_, _, rfl, rfl, by decide, by decide, ?_⟩
  rintro ⟨howned, _⟩
  exact absurd (howned ⟨"deploy", "check", "idor"⟩ (by decide)) (by decide)

end argvio.otlp
