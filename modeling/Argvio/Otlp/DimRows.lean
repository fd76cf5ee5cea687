import Argvio.Otlp.Instruments
import Argvio.Storage.Sequential

open argvio.allowlist argvio.storage

namespace argvio.otlp

section Keys

variable {inst : VendorInstrument} {f : MetricRow → MetricRow}

/-- A rewriting of rows that keeps an instrument's rows and what `g` reads of
their keys. -/
theorem map_keys_map {α : Type} {g : CounterKey → α} (hmetric : ∀ r, (f r).metricName = r.metricName)
    (hkey : ∀ r, r.metricName = inst.metric →
      g (vendorKey (f r).datapointAttributes inst) = g (vendorKey r.datapointAttributes inst))
    (rows : List MetricRow) : (inst.keys (rows.map f)).map g = (inst.keys rows).map g := by
  induction rows with
  | nil => rfl
  | cons r rows ih =>
    unfold VendorInstrument.keys at ih ⊢
    by_cases hr : r.metricName = inst.metric
    · simp only [List.map_cons, List.filter_cons, hmetric, hr, decide_true, if_true, hkey r hr]
      exact congrArg _ ih
    · simpa [hmetric, hr] using ih

theorem keys_map (hmetric : ∀ r, (f r).metricName = r.metricName)
    (hkey : ∀ r, r.metricName = inst.metric →
      vendorKey (f r).datapointAttributes inst = vendorKey r.datapointAttributes inst)
    (rows : List MetricRow) : inst.keys (rows.map f) = inst.keys rows := by
  have hmap := map_keys_map (g := id) hmetric hkey rows
  simpa using hmap

theorem str_insert_ne {a : Attrs} {k k' : String} {v : AttrValue} (h : k' ≠ k) :
    Attrs.str (a.insert k v) k' = a.str k' := by
  unfold Attrs.str
  rw [Finmap.lookup_insert_of_ne a h]

end Keys

section Instrument

variable {p : Pipeline} {rows : List MetricRow} {inst : VendorInstrument} {v : Vocabulary}

variable (adm : DimAdmission) {d : DimValueKey} (r : MetricRow)

theorem foldDimValues_metricName : (inst.foldDimValues adm r).1.metricName = r.metricName := by
  unfold VendorInstrument.foldDimValues
  split
  · rfl
  dsimp only
  split
  · split <;> rfl
  · rfl

theorem foldDimValues_name :
    (vendorKey (inst.foldDimValues adm r).1.datapointAttributes inst).name =
      (vendorKey r.datapointAttributes inst).name := by
  unfold VendorInstrument.foldDimValues
  split
  · rfl
  dsimp only
  split
  · split
    · rfl
    · exact str_insert_ne inst.attrs_ne
  · rfl

/-- The admission of an export's dimension values. -/
def Pipeline.dimCall (p : Pipeline) (ks : List CounterKey) : DimCall where
  counts := GoMap.tally (ks.flatMap dimValueKeys)
  limit := p.metricCaps.dimValues
  now := p.now

theorem capDimValues_dims : (p.capDimValues rows inst v).2.dims = (admitDims v.dims (p.dimCall (inst.keys rows))).2 := by
  unfold Pipeline.capDimValues
  dsimp only
  split
  · rename_i hempty
    have hkeys : (p.dimCall (inst.keys rows)).keys = [] := by
      simp [DimCall.keys, Pipeline.dimCall, hempty]
    simp [admitDims, hkeys]
  · split
    · rfl
    · unfold Vocabulary.recordFoldedDims
      split <;> rfl

theorem capDimValues_names : (p.capDimValues rows inst v).2.tables.names = v.tables.names := by
  unfold Pipeline.capDimValues
  dsimp only
  split
  · rfl
  split
  · rfl
  · unfold Vocabulary.recordFoldedDims
    split <;> rfl

theorem capDimValues_sent : (inst.keys (p.capDimValues rows inst v).1).map CounterKey.name =
    (inst.keys rows).map CounterKey.name := by
  unfold Pipeline.capDimValues
  dsimp only
  split
  · rfl
  split
  · rfl
  · rw [List.map_map]
    exact map_keys_map (foldDimValues_metricName _) (fun r _ => foldDimValues_name _ r) rows

theorem capVendorInstrument_dims :
    (p.capVendorInstrument rows inst v).2.dims = (admitDims v.dims (p.dimCall (inst.keys rows))).2 := by
  rw [← capDimValues_dims]
  unfold Pipeline.capVendorInstrument
  dsimp only
  split <;> rfl

/-- The call of `admit` an export makes once its dimension values are decided. -/
def Pipeline.nameCall (p : Pipeline) (inst : VendorInstrument) (rows : List MetricRow) : AdmitCall where
  counts := GoMap.tally (inst.keys rows)
  nameLimit := inst.nameLimit
  labelLimit := inst.labelLimit
  now := p.now

theorem capVendorInstrument_tables : (p.capVendorInstrument rows inst v).2.tables =
    (admitVocabulary (p.capDimValues rows inst v).2.tables (p.nameCall inst (p.capDimValues rows inst v).1)).2 := by
  unfold Pipeline.capVendorInstrument
  dsimp only
  split
  · rename_i hempty
    have hnames : (p.nameCall inst (p.capDimValues rows inst v).1).names = [] := by
      simp [AdmitCall.names, Pipeline.nameCall, hempty]
    simp [admitVocabulary, hnames]
  · rfl

/-- After an export the names are those from before and the new ones with room. -/
theorem mem_names_capVendorInstrument {name : String} :
    name ∈ (p.capVendorInstrument rows inst v).2.tables.names.keys ↔ name ∈ v.tables.names.keys ∨
      name ∈ v.tables.freshNames ((inst.keys rows).map CounterKey.name) ∧
        v.tables.HasRoomFor inst.nameLimit ((inst.keys rows).map CounterKey.name) name := by
  rw [capVendorInstrument_tables, mem_names_admitVocabulary rfl, capDimValues_sent]
  simp only [Tables.freshNames, Tables.HasRoomFor, capDimValues_names]
  rfl

/-- A value goes with its name: every dimension row's name has a row of its own. -/
def DimsOwned (v : Vocabulary) : Prop := ∀ d ∈ v.dims.keys, d.name ∈ v.tables.names.keys

/-- Every new name of an export that carries a dimension value, other than
`other`, still fits under the cap on names. -/
def DimNamesFit (v : Vocabulary) (nameLimit : Int) (ks : List CounterKey) : Prop :=
  ∀ k ∈ ks, k.name ≠ counterOther → (∃ d ∈ dimValueKeys k, d.value ≠ counterOther) →
    k.name ∉ v.tables.names.keys → v.tables.HasRoomFor nameLimit (ks.map CounterKey.name) k.name

theorem name_of_mem_dimValueKeys {k : CounterKey} (h : d ∈ dimValueKeys k) : d.name = k.name := by
  unfold dimValueKeys at h
  split at h
  · obtain ⟨e, _, rfl⟩ := List.mem_map.mp h
    rfl
  · cases h

theorem mem_keys_dimCall {ks : List CounterKey} : d ∈ (p.dimCall ks).keys ↔
    ∃ k ∈ ks, d ∈ dimValueKeys k ∧ d.value ≠ counterOther ∧ k.name ≠ counterOther := by
  rw [DimCall.mem_keys]
  unfold Pipeline.dimCall
  rw [GoMap.mem_keys_tally, List.mem_flatMap]
  constructor
  · rintro ⟨⟨k, hk, hd⟩, hvalue, hname⟩
    rw [name_of_mem_dimValueKeys hd] at hname
    exact ⟨k, hk, hd, hvalue, hname⟩
  · rintro ⟨k, hk, hd, hvalue, hname⟩
    rw [← name_of_mem_dimValueKeys hd] at hname
    exact ⟨⟨k, hk, hd⟩, hvalue, hname⟩

theorem metricCaps_dimValues_pos (p : Pipeline) : 0 < p.metricCaps.dimValues := pickCap_pos _ _ (by decide)

theorem dimsOwned_of_fit (howned : DimsOwned v) (hfit : DimNamesFit v inst.nameLimit (inst.keys rows)) :
    DimsOwned (p.capVendorInstrument rows inst v).2 := by
  intro d hd
  rw [mem_names_capVendorInstrument]
  rw [capVendorInstrument_dims] at hd
  by_cases hold : d ∈ v.dims.keys
  · exact .inl (howned d hold)
  by_cases hname : d.name ∈ v.tables.names.keys
  · exact .inl hname
  -- A row that is new under a name that is new: the export carries both.
  obtain ⟨k, hk, hdim, hvalue, hother⟩ := mem_keys_dimCall.mp (mem_keys_of_mem_admitDims hd hold)
  rw [name_of_mem_dimValueKeys hdim] at hname ⊢
  refine .inr ⟨?_, hfit k hk hother ⟨d, hdim, hvalue⟩ hname⟩
  unfold Tables.freshNames
  rw [Finset.mem_sdiff, Finset.mem_erase, List.mem_toFinset]
  exact ⟨⟨hother, List.mem_map_of_mem hk⟩, hname⟩

theorem fit_of_dimsOwned (howned : DimsOwned v) (hafter : DimsOwned (p.capVendorInstrument rows inst v).2) :
    DimNamesFit v inst.nameLimit (inst.keys rows) := by
  rintro k hk hother ⟨d, hdim, hvalue⟩ hnew
  have hdname := name_of_mem_dimValueKeys hdim
  have hsent : d ∈ (p.dimCall (inst.keys rows)).keys := mem_keys_dimCall.mpr ⟨k, hk, hdim, hvalue, hother⟩
  -- No row of the new name is there yet, so its values have the whole cap to themselves.
  have hempty : ∀ row ∈ v.dims.keys, row.name ≠ d.name := by
    intro row hrow heq
    apply hnew
    rw [← hdname, ← heq]
    exact howned row hrow
  obtain ⟨row, hrow, hrowName⟩ := exists_mem_admitDims (metricCaps_dimValues_pos p) hsent hempty
  have hkept := hafter row (by rw [capVendorInstrument_dims]; exact hrow)
  rw [hrowName, hdname, mem_names_capVendorInstrument] at hkept
  exact (hkept.resolve_left hnew).2

/-- An export keeps every dimension row's name in the table of names exactly when
the new names that carry dimension values fit. -/
theorem dimsOwned_capVendorInstrument_iff (howned : DimsOwned v) :
    DimsOwned (p.capVendorInstrument rows inst v).2 ↔ DimNamesFit v inst.nameLimit (inst.keys rows) :=
  ⟨fit_of_dimsOwned howned, dimsOwned_of_fit howned⟩

theorem card_names_capVendorInstrument {bound : Nat} (hnames : v.tables.names.keys.card ≤ bound)
    (hlimit : inst.nameLimit ≤ bound) : (p.capVendorInstrument rows inst v).2.tables.names.keys.card ≤ bound := by
  rw [capVendorInstrument_tables]
  apply card_names_admitVocabulary
  · rw [capDimValues_names]
    exact hnames
  · exact hlimit

end Instrument

end argvio.otlp
