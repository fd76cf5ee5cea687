import Argvio.Otlp.FoldedRows
import Argvio.Storage.Settled

open argvio.storage List

namespace argvio.otlp

/-- The vocabulary of an instrument after one call of its caps. -/
def Pipeline.capCall (p : Pipeline) (inst : VendorInstrument) (v : Vocabulary) (e : Export) : Vocabulary :=
  ({ p with now := e.now }.capVendorInstrument e.rows inst v).2

/-- The vocabulary of an instrument after a run of calls under the same limits. -/
def Pipeline.runCaps (p : Pipeline) (inst : VendorInstrument) (calls : List Export) (v : Vocabulary) : Vocabulary :=
  calls.foldl (p.capCall inst) v

/-- What later calls under the same limits leave as it is. -/
structure VocabularySettles (inst : VendorInstrument) (valueLimit : Int) (v v' : Vocabulary) : Prop where
  tables : v.tables.Settles inst.nameLimit inst.labelLimit v'.tables
  dims : DimsSettle valueLimit v.dims v'.dims

section Runs

variable {p : Pipeline} {inst : VendorInstrument} {v v' v'' : Vocabulary} {rows : List MetricRow}

theorem VocabularySettles.trans {valueLimit : Int} (h : VocabularySettles inst valueLimit v v')
    (h' : VocabularySettles inst valueLimit v' v'') : VocabularySettles inst valueLimit v v'' :=
  ⟨h.tables.trans h'.tables, h.dims.trans h'.dims⟩

/-- The cap on dimension values leaves the names and labels alone. -/
theorem settles_capDimValues (p : Pipeline) (rows : List MetricRow) (inst : VendorInstrument) (v : Vocabulary) :
    v.tables.Settles inst.nameLimit inst.labelLimit (p.capDimValues rows inst v).2.tables := by
  obtain ⟨dims, last, htables⟩ := capDimValues_tables p rows inst v
  rw [htables]
  exact ⟨⟨Finset.Subset.refl _, Finset.Subset.refl _⟩, fun _ => rfl, fun _ _ => rfl⟩

theorem settles_nameCall (p : Pipeline) (inst : VendorInstrument) (rows : List MetricRow) (t : Tables) :
    t.Settles inst.nameLimit inst.labelLimit (admitVocabulary t (p.nameCall inst rows)).2 :=
  settles_admitVocabulary t (p.nameCall inst rows)

theorem settles_capVendorInstrument (p : Pipeline) (rows : List MetricRow) (inst : VendorInstrument) (v : Vocabulary) :
    VocabularySettles inst p.metricCaps.dimValues v (p.capVendorInstrument rows inst v).2 where
  tables := by
    rw [capVendorInstrument_tables]
    exact (settles_capDimValues p rows inst v).trans (settles_nameCall p inst _ _)
  dims := by
    rw [capVendorInstrument_dims]
    exact settles_admitDims v.dims (p.dimCall (inst.keys rows))

theorem settles_runCaps (p : Pipeline) (inst : VendorInstrument) (calls : List Export) (v : Vocabulary) :
    VocabularySettles inst p.metricCaps.dimValues v (p.runCaps inst calls v) := by
  induction calls generalizing v with
  | nil => exact ⟨.refl _ _ _, .refl _ _⟩
  | cons e calls ih => exact (settles_capVendorInstrument { p with now := e.now } e.rows inst v).trans (ih _)

end Runs

/-- Two calls decide alike on what both of them contain: dimension values, names,
labels under a kept name, and with them whole rows and whole batches. -/
structure DecidedAlike (inst : VendorInstrument) (p : Pipeline) (rows : List MetricRow) (v : Vocabulary)
    (p' : Pipeline) (rows' : List MetricRow) (v' : Vocabulary) : Prop where
  values : ∀ d ∈ (inst.keys rows).flatMap dimValueKeys, d ∈ (inst.keys rows').flatMap dimValueKeys →
    (d ∈ (admitDims v.dims (p.dimCall (inst.keys rows))).1.values ↔
      d ∈ (admitDims v'.dims (p'.dimCall (inst.keys rows'))).1.values)
  names : ∀ k ∈ inst.keys (p.capDimValues rows inst v).1, ∀ k' ∈ inst.keys (p'.capDimValues rows' inst v').1,
    k'.name = k.name →
    (k.name ∈ (p.nameAdmission rows inst v).names ↔ k'.name ∈ (p'.nameAdmission rows' inst v').names)
  labels : ∀ k ∈ inst.keys (p.capDimValues rows inst v).1, k ∈ inst.keys (p'.capDimValues rows' inst v').1 →
    k.Labelled → k.name ∈ (p.nameAdmission rows inst v).names →
    (k ∈ (p.nameAdmission rows inst v).labels ↔ k ∈ (p'.nameAdmission rows' inst v').labels)
  stored : ∀ r ∈ rows, r ∈ rows' → p.storedRow rows inst v r = p'.storedRow rows' inst v' r
  batch : rows' = rows → (p'.capVendorInstrument rows' inst v').1 = (p.capVendorInstrument rows inst v).1

section Stable

variable {p p' : Pipeline} {inst : VendorInstrument} {v v' : Vocabulary} {rows rows' : List MetricRow} {r : MetricRow}

theorem key_mem_capDimValues (hr : r ∈ rows) (hmetric : r.metricName = inst.metric) :
    vendorKey (p.dimRewrite rows inst v r).datapointAttributes inst ∈ inst.keys (p.capDimValues rows inst v).1 := by
  rw [capDimValues_rows]
  exact key_mem_keys (mem_map_of_mem hr) (metricName_dimRewrite.trans hmetric)

/-- A row is rewritten by what is decided about its own name and label. -/
theorem rewrite_congr {adm adm' : CounterAdmission}
    (hname : (vendorKey r.datapointAttributes inst).name ∈ adm.names ↔
      (vendorKey r.datapointAttributes inst).name ∈ adm'.names)
    (hlabel : (vendorKey r.datapointAttributes inst).name ∈ adm.names →
      (vendorKey r.datapointAttributes inst).Labelled →
      (vendorKey r.datapointAttributes inst ∈ adm.labels ↔ vendorKey r.datapointAttributes inst ∈ adm'.labels)) :
    inst.rewrite adm r = inst.rewrite adm' r := by
  unfold VendorInstrument.rewrite CounterKey.Labelled at *
  dsimp only
  by_cases hadmitted : (vendorKey r.datapointAttributes inst).name ∈ adm.names
  · by_cases hother : (vendorKey r.datapointAttributes inst).name = counterOther
    · simp only [hname]
      simp only [hother, if_true]
    have hfold : ((vendorKey r.datapointAttributes inst).label ≠ "" ∧
        (vendorKey r.datapointAttributes inst).label ≠ counterOther ∧
        vendorKey r.datapointAttributes inst ∉ adm.labels) ↔
        ((vendorKey r.datapointAttributes inst).label ≠ "" ∧
        (vendorKey r.datapointAttributes inst).label ≠ counterOther ∧
        vendorKey r.datapointAttributes inst ∉ adm'.labels) := by
      have hsame := hlabel hadmitted
      grind
    simp only [hname, hfold]
  · rw [if_pos hadmitted, if_pos (hname.not.mp hadmitted)]

/-- Whether or not anything of the batch is past the cap, a row is folded by the
values the batch admits. -/
theorem dimRewrite_eq_foldDimValues (hr : r ∈ rows) :
    p.dimRewrite rows inst v r = (inst.foldDimValues (admitDims v.dims (p.dimCall (inst.keys rows))).1 r).1 := by
  by_cases hroom : (admitDims v.dims (p.dimCall (inst.keys rows))).1.folded = 0
  · rw [dimRewrite_of_room hroom]
    rcases foldDimValues_cases inst (admitDims v.dims (p.dimCall (inst.keys rows))).1 r with
      ⟨hkept, -⟩ | ⟨hmetric, htuple, hpast, -⟩
    · rw [hkept]
      rfl
    · obtain ⟨e, he⟩ := exists_mem_of_ne_nil _ hpast
      obtain ⟨hentry, hnot⟩ := mem_filter.mp he
      have hvalue := mem_dimValueKeys htuple hentry
      refine absurd ?_ (of_decide_eq_true hnot)
      exact mem_values_of_room rfl hroom (mem_flatMap.mpr ⟨_, key_mem_keys hr hmetric, hvalue⟩)
  · exact if_neg hroom

section Series

theorem counts_nameCall (p : Pipeline) (inst : VendorInstrument) (rows : List MetricRow) :
    (p.nameCall inst rows).counts = GoMap.tally (inst.keys rows) := rfl

theorem nameLimit_nameCall : (p'.nameCall inst rows').nameLimit = (p.nameCall inst rows).nameLimit := rfl

theorem labelLimit_nameCall : (p'.nameCall inst rows').labelLimit = (p.nameCall inst rows).labelLimit := rfl

variable {t t' : Tables} (hrun : (admitVocabulary t (p.nameCall inst rows)).2.Settles inst.nameLimit inst.labelLimit t')
include hrun

theorem names_stable_nameCall {k k' : CounterKey} (hk : k ∈ inst.keys rows) (hk' : k' ∈ inst.keys rows')
    (hsame : k'.name = k.name) :
    k.name ∈ (admitVocabulary t (p.nameCall inst rows)).1.names ↔
      k'.name ∈ (admitVocabulary t' (p'.nameCall inst rows')).1.names :=
  names_stable (counts_nameCall p inst rows) (counts_nameCall p' inst rows') nameLimit_nameCall labelLimit_nameCall
    hrun hk hk' hsame

theorem labels_stable_nameCall {k : CounterKey} (hk : k ∈ inst.keys rows) (hk' : k ∈ inst.keys rows')
    (hlabelled : k.Labelled) : k.name ∈ (admitVocabulary t (p.nameCall inst rows)).1.names →
      (k ∈ (admitVocabulary t (p.nameCall inst rows)).1.labels ↔
        k ∈ (admitVocabulary t' (p'.nameCall inst rows')).1.labels) :=
  labels_stable (counts_nameCall p inst rows) (counts_nameCall p' inst rows') nameLimit_nameCall labelLimit_nameCall
    hrun hk hk' hlabelled

end Series

section Later

-- `p'` caps `rows'` after `p` has capped `rows`, and under the same limits.
variable (hlimit : p'.metricCaps.dimValues = p.metricCaps.dimValues)
  (hrun : VocabularySettles inst p.metricCaps.dimValues (p.capVendorInstrument rows inst v).2 v')
include hlimit hrun

theorem values_stable {d : DimValueKey} (hd : d ∈ (inst.keys rows).flatMap dimValueKeys)
    (hd' : d ∈ (inst.keys rows').flatMap dimValueKeys) :
    d ∈ (admitDims v.dims (p.dimCall (inst.keys rows))).1.values ↔
      d ∈ (admitDims v'.dims (p'.dimCall (inst.keys rows'))).1.values := by
  have hdims := hrun.dims
  rw [capVendorInstrument_dims] at hdims
  exact dims_stable rfl rfl hlimit hdims hd hd'

theorem dimRewrite_stable (hr : r ∈ rows) (hr' : r ∈ rows') :
    p.dimRewrite rows inst v r = p'.dimRewrite rows' inst v' r := by
  rw [dimRewrite_eq_foldDimValues hr, dimRewrite_eq_foldDimValues hr', foldDimValues_eq, foldDimValues_eq]
  by_cases hmetric : r.metricName = inst.metric
  · by_cases htuple : isTuple (vendorKey r.datapointAttributes inst).label = true
    · have hpast : inst.pastDims (admitDims v.dims (p.dimCall (inst.keys rows))).1 r =
          inst.pastDims (admitDims v'.dims (p'.dimCall (inst.keys rows'))).1 r := by
        refine filter_congr fun e he => decide_eq_decide.mpr (not_congr ?_)
        have hvalue := mem_dimValueKeys htuple he
        exact values_stable hlimit hrun (mem_flatMap.mpr ⟨_, key_mem_keys hr hmetric, hvalue⟩)
          (mem_flatMap.mpr ⟨_, key_mem_keys hr' hmetric, hvalue⟩)
      rw [hpast]
    · rw [if_neg htuple, if_neg htuple]
  · rw [if_pos hmetric, if_pos hmetric]

omit hlimit in
theorem tables_settle : (admitVocabulary (p.capDimValues rows inst v).2.tables
    (p.nameCall inst (p.capDimValues rows inst v).1)).2.Settles inst.nameLimit inst.labelLimit
      (p'.capDimValues rows' inst v').2.tables := by
  have htables := hrun.tables
  rw [capVendorInstrument_tables] at htables
  exact htables.trans (settles_capDimValues p' rows' inst v')

omit hlimit in
theorem nameAdmission_names_stable {k k' : CounterKey} (hk : k ∈ inst.keys (p.capDimValues rows inst v).1)
    (hk' : k' ∈ inst.keys (p'.capDimValues rows' inst v').1) (hsame : k'.name = k.name) :
    k.name ∈ (p.nameAdmission rows inst v).names ↔ k'.name ∈ (p'.nameAdmission rows' inst v').names := by
  unfold Pipeline.nameAdmission
  exact names_stable_nameCall (tables_settle hrun) hk hk' hsame

omit hlimit in
theorem nameAdmission_labels_stable {k : CounterKey} (hk : k ∈ inst.keys (p.capDimValues rows inst v).1)
    (hk' : k ∈ inst.keys (p'.capDimValues rows' inst v').1) (hlabelled : k.Labelled) :
    k.name ∈ (p.nameAdmission rows inst v).names →
      (k ∈ (p.nameAdmission rows inst v).labels ↔ k ∈ (p'.nameAdmission rows' inst v').labels) := by
  unfold Pipeline.nameAdmission
  exact labels_stable_nameCall (tables_settle hrun) hk hk' hlabelled

theorem storedRow_stable (hr : r ∈ rows) (hr' : r ∈ rows') :
    p.storedRow rows inst v r = p'.storedRow rows' inst v' r := by
  by_cases hmetric : r.metricName = inst.metric
  · have hk := key_mem_capDimValues (p := p) (v := v) hr hmetric
    have hk' := key_mem_capDimValues (p := p') (v := v') hr' hmetric
    rw [← dimRewrite_stable hlimit hrun hr hr'] at hk'
    rw [storedRow_eq, storedRow_eq, ← dimRewrite_stable hlimit hrun hr hr']
    refine rewrite_congr (nameAdmission_names_stable hrun hk hk' rfl) fun hname hlabelled => ?_
    exact nameAdmission_labels_stable hrun hk hk' hlabelled hname
  · rw [(rowOutcome hr).other_metric hmetric, (rowOutcome hr').other_metric hmetric]

theorem decidedAlike : DecidedAlike inst p rows v p' rows' v' where
  values := fun _ hd hd' => values_stable hlimit hrun hd hd'
  names := fun _ hk _ hk' hsame => nameAdmission_names_stable hrun hk hk' hsame
  labels := fun _ hk hk' hlabelled => nameAdmission_labels_stable hrun hk hk' hlabelled
  stored := fun _ hr hr' => storedRow_stable hlimit hrun hr hr'
  batch := by
    rintro rfl
    rw [capVendorInstrument_storedRow, capVendorInstrument_storedRow]
    exact map_congr_left fun r hr => (storedRow_stable hlimit hrun hr hr).symm

end Later

end Stable

/-- What a call admitted or folded, every later call of a run under the same limits
admits or folds too, so that rows sent again are stored as they were. -/
theorem runCaps_stable (p : Pipeline) (inst : VendorInstrument) (v : Vocabulary) (before between : List Export)
    (e e' : Export) :
    DecidedAlike inst { p with now := e.now } e.rows (p.runCaps inst before v)
      { p with now := e'.now } e'.rows (p.runCaps inst (before ++ e :: between) v) := by
  have hlater : p.runCaps inst (before ++ e :: between) v =
      p.runCaps inst between ({ p with now := e.now }.capVendorInstrument e.rows inst (p.runCaps inst before v)).2 :=
    foldl_append
  rw [hlater]
  exact decidedAlike rfl (settles_runCaps p inst between _)

end argvio.otlp
