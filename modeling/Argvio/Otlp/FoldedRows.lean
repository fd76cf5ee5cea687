import Argvio.Otlp.Replaced
import Argvio.Storage.CallOrder

open List
open argvio.storage

namespace argvio.otlp

/-- The order in which one run of the caps visits its maps: the dimension values
of the batch, its series, and the dimensions of the row at each position. -/
structure MapOrder where
  values : GoMap DimValueKey Int → GoMap DimValueKey Int
  series : GoMap CounterKey Int → GoMap CounterKey Int
  dims : Nat → GoMap String String → GoMap String String
  values_same : ∀ m, GoMap.Same (values m) m
  series_same : ∀ m, GoMap.Same (series m) m
  dims_same : ∀ i m, GoMap.Same (dims i m) m

/-- Each map in the order in which its keys were inserted. -/
def MapOrder.insertion : MapOrder where
  values := id
  series := id
  dims := fun _ => id
  values_same := fun _ => .refl _
  series_same := fun _ => .refl _
  dims_same := fun _ _ => .refl _

/-- `foldDimValues` with the row's dimensions visited in a given order. -/
def VendorInstrument.foldDimValuesIn (visit : GoMap String String → GoMap String String) (inst : VendorInstrument)
    (adm : DimAdmission) (r : MetricRow) : MetricRow × Bool :=
  if r.metricName ≠ inst.metric then (r, false)
  else
    let k := vendorKey r.datapointAttributes inst
    if isTuple k.label then
      let dims := visit (parseDims k.label)
      let past := dims.entries.filter (fun e => ⟨k.name, e.1, e.2⟩ ∉ adm.values)
      if past = [] then (r, false)
      else
        let folded := past.foldl (fun dims e => dims.insert e.1 counterOther) dims
        ({ r with datapointAttributes := r.datapointAttributes.insert inst.labelAttr (.str (formatDims folded)) }, true)
    else (r, false)

/-- `capDimValues` with its maps visited in a given order. -/
def Pipeline.capDimValuesIn (o : MapOrder) (p : Pipeline) (rows : List MetricRow) (inst : VendorInstrument)
    (v : Vocabulary) : List MetricRow × Vocabulary :=
  let counts := o.values (GoMap.tally ((inst.keys rows).flatMap dimValueKeys))
  if counts.keys = [] then (rows, v)
  else
    let admitted := admitDims v.dims { counts, limit := p.metricCaps.dimValues, now := p.now }
    if admitted.1.folded = 0 then (rows, { v with dims := admitted.2 })
    else
      let folded := rows.mapIdx (fun i r => inst.foldDimValuesIn (o.dims i) admitted.1 r)
      (folded.map Prod.fst, { v with dims := admitted.2 }.recordFoldedDims (folded.countP Prod.snd) p.now)

/-- `capVendorInstrument` with its maps visited in a given order. -/
def Pipeline.capVendorInstrumentIn (o : MapOrder) (p : Pipeline) (rows : List MetricRow) (inst : VendorInstrument)
    (v : Vocabulary) : List MetricRow × Vocabulary :=
  let dimmed := p.capDimValuesIn o rows inst v
  let counts := o.series (GoMap.tally (inst.keys dimmed.1))
  if counts.keys = [] then dimmed
  else
    let admitted := admitVocabulary dimmed.2.tables
      { counts, nameLimit := inst.nameLimit, labelLimit := inst.labelLimit, now := p.now }
    (dimmed.1.map (inst.rewrite admitted.1), { dimmed.2 with tables := admitted.2 })

section Order

variable {p : Pipeline} {rows rows' : List MetricRow} {inst : VendorInstrument} {v : Vocabulary}

variable {dims dims' : GoMap String String} (o : MapOrder)

theorem formatDims_eq_of_same (h : GoMap.Same dims dims') : formatDims dims = formatDims dims' := by
  unfold formatDims
  rw [insertionSort_eq_of_perm h.keys_perm]
  simp only [GoMap.Same.lookup_eq h]

theorem replaceDims_same {past past' : List ((_ : String) × String)} (hdims : GoMap.Same dims dims')
    (hpast : past.Perm past') : GoMap.Same (replaceDims dims past) (replaceDims dims' past') := by
  apply GoMap.same_of_lookup
  intro k
  rw [lookup_replaceDims, lookup_replaceDims, hdims.lookup_eq]
  simp only [(hpast.map Sigma.fst).mem_iff]

theorem foldDimValuesIn_eq {visit : GoMap String String → GoMap String String} (hvisit : ∀ m, GoMap.Same (visit m) m)
    (adm : DimAdmission) (r : MetricRow) : inst.foldDimValuesIn visit adm r = inst.foldDimValues adm r := by
  let k := vendorKey r.datapointAttributes inst
  have hpast : ((visit (parseDims k.label)).entries.filter
      (fun e => (⟨k.name, e.1, e.2⟩ : DimValueKey) ∉ adm.values)).Perm (inst.pastDims adm r) :=
    (hvisit _).filter _
  have hformat := formatDims_eq_of_same (replaceDims_same (hvisit (parseDims k.label)) hpast)
  have hnil : (visit (parseDims k.label)).entries.filter
      (fun e => (⟨k.name, e.1, e.2⟩ : DimValueKey) ∉ adm.values) = [] ↔ inst.pastDims adm r = [] := by
    rw [← length_eq_zero_iff, hpast.length_eq, length_eq_zero_iff]
  have heq : inst.foldDimValuesIn visit adm r =
      if r.metricName ≠ inst.metric then (r, false)
      else if isTuple k.label then
        if (visit (parseDims k.label)).entries.filter
          (fun e => (⟨k.name, e.1, e.2⟩ : DimValueKey) ∉ adm.values) = [] then (r, false)
        else (inst.relabel r (formatDims (replaceDims (visit (parseDims k.label))
          ((visit (parseDims k.label)).entries.filter
            (fun e => (⟨k.name, e.1, e.2⟩ : DimValueKey) ∉ adm.values)))), true)
      else (r, false) := rfl
  rw [heq, foldDimValues_eq, hformat]
  simp only [hnil]
  rfl

theorem keys_perm (h : rows'.Perm rows) : (inst.keys rows').Perm (inst.keys rows) := (h.filter _).map _

/-- However the batch is ordered and visited, its dimension values are decided alike. -/
theorem capDimValuesIn_eq (h : rows'.Perm rows) :
    p.capDimValuesIn o rows' inst v = (rows'.map (p.dimRewrite rows inst v), (p.capDimValues rows inst v).2) := by
  let counts := o.values (GoMap.tally ((inst.keys rows').flatMap dimValueKeys))
  have hsame : GoMap.Same counts (GoMap.tally ((inst.keys rows).flatMap dimValueKeys)) :=
    (o.values_same _).trans (GoMap.tally_same ((keys_perm h).flatMap_right _))
  have hcall : DimCall.Same { counts, limit := p.metricCaps.dimValues, now := p.now } (p.dimCall (inst.keys rows)) :=
    ⟨hsame, rfl, rfl⟩
  have hadmit := hcall.admitDims_eq v.dims
  unfold Pipeline.capDimValuesIn
  dsimp only
  by_cases hempty : counts.keys = []
  · have hcap : p.capDimValues rows inst v = (rows, v) := if_pos (hsame.keys_eq_nil_iff.mp hempty)
    have hroom : (admitDims v.dims (p.dimCall (inst.keys rows))).1.folded = 0 := by
      rw [← hadmit]
      simp [admitDims, DimCall.keys, hempty]
    rw [if_pos hempty, hcap, dimRewrite_of_room hroom, map_id]
  rw [if_neg hempty, hadmit]
  rcases capDimValues_cases p rows inst v with ⟨hfolded, hcap⟩ | ⟨hfolded, hcap⟩
  · rw [if_pos hfolded, hcap, dimRewrite_of_room hfolded, map_id]
  have hvisit : rows'.mapIdx (fun i r => inst.foldDimValuesIn (o.dims i)
      (admitDims v.dims (p.dimCall (inst.keys rows))).1 r) =
      rows'.map (inst.foldDimValues (admitDims v.dims (p.dimCall (inst.keys rows))).1) := by
    simp only [foldDimValuesIn_eq (o.dims_same _)]
    apply ext_getElem <;> simp
  rw [if_neg hfolded, hcap, hvisit, (h.map _).countP_eq, map_map]
  simp [Pipeline.dimRewrite, hfolded, Function.comp_def]

/-- What the caps of an instrument make of one row of a batch. -/
def Pipeline.storedRow (p : Pipeline) (rows : List MetricRow) (inst : VendorInstrument) (v : Vocabulary)
    (r : MetricRow) : MetricRow :=
  p.nameRewrite (p.capDimValues rows inst v).1 inst (p.capDimValues rows inst v).2.tables (p.dimRewrite rows inst v r)

theorem capVendorInstrument_storedRow :
    (p.capVendorInstrument rows inst v).1 = rows.map (p.storedRow rows inst v) := by
  rw [capVendorInstrument_rows]
  refine (congrArg (map _) capDimValues_rows).trans ?_
  rw [map_map]
  rfl

/-- However the batch is ordered and visited, each row is stored alike. -/
theorem capVendorInstrumentIn_eq (h : rows'.Perm rows) :
    p.capVendorInstrumentIn o rows' inst v =
      (rows'.map (p.storedRow rows inst v), (p.capVendorInstrument rows inst v).2) := by
  have hrows : (rows'.map (p.dimRewrite rows inst v)).Perm (p.capDimValues rows inst v).1 := by
    rw [capDimValues_rows]
    exact h.map _
  let counts := o.series (GoMap.tally (inst.keys (rows'.map (p.dimRewrite rows inst v))))
  have hsame : GoMap.Same counts (GoMap.tally (inst.keys (p.capDimValues rows inst v).1)) :=
    (o.series_same _).trans (GoMap.tally_same (keys_perm hrows))
  unfold Pipeline.capVendorInstrumentIn
  rw [capDimValuesIn_eq o h]
  dsimp only
  by_cases hempty : counts.keys = []
  · have hcap : p.capVendorInstrument rows inst v = p.capDimValues rows inst v :=
      if_pos (hsame.keys_eq_nil_iff.mp hempty)
    rw [if_pos hempty, hcap]
    refine Prod.ext (map_congr_left fun r hr => ?_) rfl
    have hmetric : (p.dimRewrite rows inst v r).metricName ≠ inst.metric := by
      intro hmetric
      have hkey : vendorKey (p.dimRewrite rows inst v r).datapointAttributes inst ∈
          inst.keys (p.capDimValues rows inst v).1 := by
        refine mem_map_of_mem (mem_filter.mpr ⟨?_, decide_eq_true hmetric⟩)
        exact hrows.subset (mem_map_of_mem hr)
      have hmem := GoMap.mem_keys_tally.mpr hkey
      rw [hsame.keys_eq_nil_iff.mp hempty] at hmem
      cases hmem
    exact (if_pos hmetric).symm
  · have hcall : AdmitCall.Same
        { counts, nameLimit := inst.nameLimit, labelLimit := inst.labelLimit, now := p.now }
        (p.nameCall inst (p.capDimValues rows inst v).1) := ⟨hsame, rfl, rfl, rfl⟩
    have hcap : p.capVendorInstrument rows inst v = (_, _) := if_neg (hsame.keys_eq_nil_iff.not.mp hempty)
    rw [if_neg hempty, hcap, hcall.admitVocabulary_eq, map_map]
    rfl

theorem capVendorInstrumentIn_insertion :
    p.capVendorInstrumentIn .insertion rows inst v = p.capVendorInstrument rows inst v := by
  rw [capVendorInstrumentIn_eq .insertion (List.Perm.refl rows), ← capVendorInstrument_storedRow]

end Order

/-- The name of an instrument's row became `other`, and its label is gone. -/
def VendorInstrument.nameFolded (inst : VendorInstrument) (r r' : MetricRow) : Bool :=
  r.metricName = inst.metric ∧ (vendorKey r.datapointAttributes inst).name ≠ counterOther ∧
    (vendorKey r'.datapointAttributes inst).name = counterOther ∧
    (r'.datapointAttributes.lookup inst.labelAttr).isNone

/-- The label of an instrument's row became `other`, under the name it had. -/
def VendorInstrument.labelFolded (inst : VendorInstrument) (r r' : MetricRow) : Bool :=
  r.metricName = inst.metric ∧ (vendorKey r'.datapointAttributes inst).name = (vendorKey r.datapointAttributes inst).name ∧
    (vendorKey r.datapointAttributes inst).label ≠ counterOther ∧
    (vendorKey r'.datapointAttributes inst).label = counterOther

/-- The row under the name `other`, without a label. -/
def VendorInstrument.otherRow (inst : VendorInstrument) (r : MetricRow) : MetricRow :=
  { r with datapointAttributes :=
      (r.datapointAttributes.insert inst.nameAttr (.str counterOther)).erase inst.labelAttr }

/-- The row without its label. -/
def VendorInstrument.unlabelled (inst : VendorInstrument) (r : MetricRow) : MetricRow :=
  { r with datapointAttributes := r.datapointAttributes.erase inst.labelAttr }

/-- What a row becomes: only the attributes its folds speak of differ. -/
structure RowOutcome (inst : VendorInstrument) (past : List ((_ : String) × String)) (r dimmed stored : MetricRow) :
    Prop where
  other_metric : r.metricName ≠ inst.metric → stored = r
  name_folded : inst.nameFolded r stored = true → stored = inst.otherRow r
  label_folded : inst.labelFolded r stored = true → stored = inst.relabel r counterOther
  named_other : r.metricName = inst.metric → (vendorKey r.datapointAttributes inst).name = counterOther →
    stored = inst.unlabelled r
  names_kept : inst.nameFolded r stored = false → inst.labelFolded r stored = false →
    (vendorKey r.datapointAttributes inst).name ≠ counterOther → stored = dimmed
  values_folded : inst.valuesFolded r dimmed = true →
    dimmed = inst.relabel r (formatDims (replaceDims (parseDims (vendorKey r.datapointAttributes inst).label) past))
  values_kept : inst.valuesFolded r dimmed = false → dimmed = r

section Outcome

variable {p : Pipeline} {rows : List MetricRow} {inst : VendorInstrument} {v : Vocabulary} {r : MetricRow}

theorem metricName_dimRewrite : (p.dimRewrite rows inst v r).metricName = r.metricName := by
  rcases dimRewrite_relabels p rows inst v r with hkept | ⟨-, -, label, -, hlabel⟩
  · rw [hkept]
  · rw [hlabel]
    rfl

theorem name_dimRewrite : (vendorKey (p.dimRewrite rows inst v r).datapointAttributes inst).name =
    (vendorKey r.datapointAttributes inst).name := by
  rcases dimRewrite_relabels p rows inst v r with hkept | ⟨-, -, label, -, hlabel⟩
  · rw [hkept]
  · rw [hlabel]
    exact str_insert_ne inst.attrs_ne

/-- A label is `other` after the cap on dimension values when it was before. -/
theorem label_dimRewrite_iff : (vendorKey (p.dimRewrite rows inst v r).datapointAttributes inst).label = counterOther ↔
    (vendorKey r.datapointAttributes inst).label = counterOther := by
  have htuple : ∀ label, isTuple label = true → label ≠ counterOther := by
    rintro label h rfl
    exact absurd h (by decide)
  rcases dimRewrite_relabels p rows inst v r with hkept | ⟨-, hbefore, label, hafter, hlabel⟩
  · rw [hkept]
  · rw [hlabel, label_relabel]
    exact iff_of_false (htuple label hafter) (htuple _ hbefore)

/-- The decision of the batch on names and labels. -/
@[irreducible] def Pipeline.nameAdmission (p : Pipeline) (rows : List MetricRow) (inst : VendorInstrument) (v : Vocabulary) :
    CounterAdmission :=
  (admitVocabulary (p.capDimValues rows inst v).2.tables (p.nameCall inst (p.capDimValues rows inst v).1)).1

theorem storedRow_eq : p.storedRow rows inst v r =
    inst.rewrite (p.nameAdmission rows inst v) (p.dimRewrite rows inst v r) := by
  unfold Pipeline.storedRow Pipeline.nameAdmission
  rfl

/-- The name and label a row of the instrument is stored with. -/
theorem storedRow_key (hr : r.metricName = inst.metric) :
    let k := vendorKey (p.dimRewrite rows inst v r).datapointAttributes inst
    vendorKey (p.storedRow rows inst v r).datapointAttributes inst =
      if k.name ∉ (p.nameAdmission rows inst v).names then ⟨counterOther, ""⟩
      else if k.name = counterOther then ⟨k.name, ""⟩
      else if k.label ≠ "" ∧ k.label ≠ counterOther ∧ k ∉ (p.nameAdmission rows inst v).labels then
        ⟨k.name, counterOther⟩
      else k := by
  rw [storedRow_eq]
  exact rewrite_key (metricName_dimRewrite.trans hr)

theorem other_mem_nameAdmission : counterOther ∈ (p.nameAdmission rows inst v).names := by
  unfold Pipeline.nameAdmission
  generalize p.nameCall inst (p.capDimValues rows inst v).1 = call
  exact counterOther_mem_admitVocabulary (p.capDimValues rows inst v).2.tables call

theorem otherRow_relabel (label : String) : inst.otherRow (inst.relabel r label) = inst.otherRow r := by
  have hattrs : ((r.datapointAttributes.insert inst.labelAttr (.str label)).insert inst.nameAttr
      (.str counterOther)).erase inst.labelAttr =
      (r.datapointAttributes.insert inst.nameAttr (.str counterOther)).erase inst.labelAttr := by
    apply Finmap.ext_lookup
    intro k
    by_cases hlabel : k = inst.labelAttr
    · rw [hlabel, Finmap.lookup_erase, Finmap.lookup_erase]
    rw [Finmap.lookup_erase_ne hlabel, Finmap.lookup_erase_ne hlabel]
    by_cases hname : k = inst.nameAttr
    · rw [hname, Finmap.lookup_insert, Finmap.lookup_insert]
    · rw [Finmap.lookup_insert_of_ne _ hname, Finmap.lookup_insert_of_ne _ hname,
        Finmap.lookup_insert_of_ne _ hlabel]
  unfold VendorInstrument.otherRow VendorInstrument.relabel
  rw [hattrs]

theorem otherRow_dimRewrite : inst.otherRow (p.dimRewrite rows inst v r) = inst.otherRow r := by
  rcases dimRewrite_relabels p rows inst v r with hkept | ⟨-, -, label, -, hlabel⟩
  · rw [hkept]
  · rw [hlabel, otherRow_relabel]

theorem relabel_dimRewrite (label : String) :
    inst.relabel (p.dimRewrite rows inst v r) label = inst.relabel r label := by
  rcases dimRewrite_relabels p rows inst v r with hkept | ⟨-, -, tuple, -, hlabel⟩
  · rw [hkept]
  · rw [hlabel]
    unfold VendorInstrument.relabel
    rw [Finmap.insert_insert]

/-- The four things the caps on names and labels do to a row of the instrument. -/
theorem storedRow_cases (hr : r.metricName = inst.metric) :
    let k := vendorKey (p.dimRewrite rows inst v r).datapointAttributes inst
    let adm := p.nameAdmission rows inst v
    p.storedRow rows inst v r =
      if k.name ∉ adm.names then inst.otherRow r
      else if k.name = counterOther then inst.unlabelled (p.dimRewrite rows inst v r)
      else if k.label ≠ "" ∧ k.label ≠ counterOther ∧ k ∉ adm.labels then inst.relabel r counterOther
      else p.dimRewrite rows inst v r := by
  dsimp only
  rw [storedRow_eq, ← otherRow_dimRewrite (p := p) (v := v), ← relabel_dimRewrite (p := p) (v := v)]
  exact if_neg (not_not_intro (metricName_dimRewrite.trans hr))

/-- A name is folded when the batch does not admit it. -/
theorem nameFolded_iff : inst.nameFolded r (p.storedRow rows inst v r) = true ↔
    r.metricName = inst.metric ∧ (vendorKey r.datapointAttributes inst).name ∉ (p.nameAdmission rows inst v).names := by
  have hother : counterOther ∈ (p.nameAdmission rows inst v).names := other_mem_nameAdmission
  unfold VendorInstrument.nameFolded
  rw [decide_eq_true_eq]
  refine and_congr_right fun hr => ?_
  have hkey : vendorKey (p.storedRow rows inst v r).datapointAttributes inst = _ := storedRow_key hr
  have hrow : p.storedRow rows inst v r = _ := storedRow_cases hr
  rw [name_dimRewrite] at hkey hrow
  constructor
  · rintro ⟨hname, hstored, -⟩ hadmitted
    rw [hkey, if_neg (not_not_intro hadmitted), if_neg hname] at hstored
    split at hstored
    · exact hname hstored
    · exact hname (name_dimRewrite.symm.trans hstored)
  · intro hfolded
    refine ⟨fun hname => hfolded (hname ▸ hother), ?_, ?_⟩
    · rw [hkey, if_pos hfolded]
    · rw [hrow, if_pos hfolded]
      simp [VendorInstrument.otherRow]

/-- A label is folded when its name is kept and the batch does not admit it. -/
theorem labelFolded_iff : inst.labelFolded r (p.storedRow rows inst v r) = true ↔
    r.metricName = inst.metric ∧
      let k := vendorKey (p.dimRewrite rows inst v r).datapointAttributes inst
      k.name ∈ (p.nameAdmission rows inst v).names ∧ k.Labelled ∧ k ∉ (p.nameAdmission rows inst v).labels := by
  have hempty : ("" : String) ≠ counterOther := by decide
  unfold VendorInstrument.labelFolded CounterKey.Labelled
  rw [decide_eq_true_eq]
  refine and_congr_right fun hr => ?_
  have hname : (vendorKey (p.dimRewrite rows inst v r).datapointAttributes inst).name =
      (vendorKey r.datapointAttributes inst).name := name_dimRewrite
  have hlabel : (vendorKey (p.dimRewrite rows inst v r).datapointAttributes inst).label = counterOther ↔
      (vendorKey r.datapointAttributes inst).label = counterOther := label_dimRewrite_iff
  dsimp only
  rw [storedRow_key hr]
  generalize vendorKey (p.dimRewrite rows inst v r).datapointAttributes inst = k at hname hlabel ⊢
  grind

theorem foldedNames_nameCall (p : Pipeline) (inst : VendorInstrument) (rows : List MetricRow) (t : Tables) :
    let adm := (admitVocabulary t (p.nameCall inst rows)).1
    adm.foldedNames = (rows.countP (fun r => r.metricName = inst.metric ∧
      (vendorKey r.datapointAttributes inst).name ∉ adm.names) : Int) := by
  dsimp only
  rw [foldedNames_admitVocabulary rfl, countP_keys]

theorem foldedLabels_nameCall (p : Pipeline) (inst : VendorInstrument) (rows : List MetricRow) (t : Tables) :
    let adm := (admitVocabulary t (p.nameCall inst rows)).1
    adm.foldedLabels = (rows.countP (fun r => r.metricName = inst.metric ∧
      (vendorKey r.datapointAttributes inst).name ∈ adm.names ∧ (vendorKey r.datapointAttributes inst).Labelled ∧
        vendorKey r.datapointAttributes inst ∉ adm.labels) : Int) := by
  dsimp only
  rw [foldedLabels_admitVocabulary rfl, countP_keys]

theorem countP_capDimValues (q : MetricRow → Bool) :
    (p.capDimValues rows inst v).1.countP q = rows.countP (fun r => q (p.dimRewrite rows inst v r)) := by
  rw [capDimValues_rows, countP_map]
  rfl

variable (p rows inst v) in
theorem countP_nameFolded : (rows.countP (fun r => inst.nameFolded r (p.storedRow rows inst v r)) : Int) =
    (p.nameAdmission rows inst v).foldedNames := by
  have hfolded := foldedNames_nameCall p inst (p.capDimValues rows inst v).1 (p.capDimValues rows inst v).2.tables
  dsimp only at hfolded
  rw [countP_capDimValues, ← Pipeline.nameAdmission] at hfolded
  rw [hfolded]
  refine congrArg Nat.cast (countP_congr fun r _ => ?_)
  rw [nameFolded_iff, decide_eq_true_eq, metricName_dimRewrite, name_dimRewrite]

variable (p rows inst v) in
theorem countP_labelFolded : (rows.countP (fun r => inst.labelFolded r (p.storedRow rows inst v r)) : Int) =
    (p.nameAdmission rows inst v).foldedLabels := by
  have hfolded := foldedLabels_nameCall p inst (p.capDimValues rows inst v).1 (p.capDimValues rows inst v).2.tables
  dsimp only at hfolded
  rw [countP_capDimValues, ← Pipeline.nameAdmission] at hfolded
  rw [hfolded]
  refine congrArg Nat.cast (countP_congr fun r _ => ?_)
  rw [labelFolded_iff, decide_eq_true_eq, metricName_dimRewrite]

theorem dimRewrite_of_valuesFolded (hfolded : inst.valuesFolded r (p.dimRewrite rows inst v r) = true) :
    p.dimRewrite rows inst v r =
      inst.relabel r (formatDims (replaceDims (parseDims (vendorKey r.datapointAttributes inst).label)
        (inst.pastDims (admitDims v.dims (p.dimCall (inst.keys rows))).1 r))) := by
  have hself : inst.valuesFolded r r = false := by simp [VendorInstrument.valuesFolded, dimReplaced_self]
  unfold Pipeline.dimRewrite at hfolded ⊢
  dsimp only at hfolded ⊢
  split at hfolded
  · rw [hself] at hfolded
    cases hfolded
  rename_i hsome
  rcases foldDimValues_cases inst (admitDims v.dims (p.dimCall (inst.keys rows))).1 r with
    ⟨hkept, -⟩ | ⟨-, -, -, hfold⟩
  · rw [hkept, hself] at hfolded
    cases hfolded
  · rw [if_neg hsome, hfold]

theorem dimRewrite_of_not_valuesFolded (hr : r ∈ rows)
    (hkept : inst.valuesFolded r (p.dimRewrite rows inst v r) = false) : p.dimRewrite rows inst v r = r := by
  unfold Pipeline.dimRewrite at hkept ⊢
  dsimp only at hkept ⊢
  split at hkept
  · rename_i hroom
    rw [if_pos hroom]
  rename_i hsome
  rw [if_neg hsome]
  rcases foldDimValues_cases inst (admitDims v.dims (p.dimCall (inst.keys rows))).1 r with
    ⟨hleft, -⟩ | ⟨-, -, -, hfold⟩
  · rw [hleft]
  · rw [← foldDimValues_snd hr, hfold] at hkept
    cases hkept

/-- A row named `other` keeps its dimension values: they are always admitted. -/
theorem dimRewrite_of_other (hr : r ∈ rows) (hname : (vendorKey r.datapointAttributes inst).name = counterOther) :
    p.dimRewrite rows inst v r = r := by
  unfold Pipeline.dimRewrite
  dsimp only
  split
  · rfl
  rcases foldDimValues_cases inst (admitDims v.dims (p.dimCall (inst.keys rows))).1 r with
    ⟨hkept, -⟩ | ⟨hmetric, htuple, hpast, -⟩
  · rw [hkept]
  obtain ⟨e, he⟩ := exists_mem_of_ne_nil _ hpast
  obtain ⟨hentry, hnot⟩ := mem_filter.mp he
  have hvalue := mem_dimValueKeys htuple hentry
  refine absurd ?_ (of_decide_eq_true hnot)
  exact (mem_values_admitDims rfl (mem_flatMap.mpr ⟨_, key_mem_keys hr hmetric, hvalue⟩)).mpr (.inr (.inl hname))

/-- Every row of a batch becomes what its folds say, and nothing else. -/
theorem rowOutcome (hr : r ∈ rows) :
    RowOutcome inst (inst.pastDims (admitDims v.dims (p.dimCall (inst.keys rows))).1 r) r
      (p.dimRewrite rows inst v r) (p.storedRow rows inst v r) where
  other_metric := by
    intro hmetric
    have hdimmed : p.dimRewrite rows inst v r = r :=
      (dimRewrite_relabels p rows inst v r).resolve_right fun h => hmetric h.1
    rw [storedRow_eq, hdimmed]
    exact if_pos hmetric
  name_folded := by
    intro hfolded
    obtain ⟨hmetric, hname⟩ := nameFolded_iff.mp hfolded
    rw [storedRow_cases hmetric, name_dimRewrite, if_pos hname]
  label_folded := by
    intro hfolded
    obtain ⟨hmetric, hname, ⟨hother, hlabel⟩, hnot⟩ := labelFolded_iff.mp hfolded
    rw [storedRow_cases hmetric, if_neg (not_not_intro hname), if_neg hother, if_pos ⟨hlabel.1, hlabel.2, hnot⟩]
  named_other := by
    intro hmetric hname
    have hadmitted : counterOther ∈ (p.nameAdmission rows inst v).names := other_mem_nameAdmission
    rw [storedRow_cases hmetric, name_dimRewrite, hname, if_neg (not_not_intro hadmitted), if_pos rfl,
      dimRewrite_of_other hr hname]
  names_kept := by
    intro hnameKept hlabelKept hother
    by_cases hmetric : r.metricName = inst.metric
    · have hname : (vendorKey r.datapointAttributes inst).name ∈ (p.nameAdmission rows inst v).names := by
        by_contra hnot
        rw [nameFolded_iff.mpr ⟨hmetric, hnot⟩] at hnameKept
        cases hnameKept
      have hsame : (vendorKey (p.dimRewrite rows inst v r).datapointAttributes inst).name =
          (vendorKey r.datapointAttributes inst).name := name_dimRewrite
      rw [← hsame] at hname hother
      rw [storedRow_cases hmetric, if_neg (not_not_intro hname), if_neg hother, if_neg]
      rintro ⟨hempty, hlabel, hnot⟩
      rw [labelFolded_iff.mpr ⟨hmetric, hname, ⟨hother, hempty, hlabel⟩, hnot⟩] at hlabelKept
      cases hlabelKept
    · rw [storedRow_eq]
      exact if_pos fun h => hmetric (metricName_dimRewrite.symm.trans h)
  values_folded := dimRewrite_of_valuesFolded
  values_kept := dimRewrite_of_not_valuesFolded hr

variable (p rows inst v) in
theorem foldedDimValues_capVendorInstrument :
    (p.capVendorInstrument rows inst v).2.tables.overflow.foldedDimValues = v.tables.overflow.foldedDimValues +
      (rows.countP (fun r => inst.valuesFolded r (p.dimRewrite rows inst v r)) : Int) := by
  have hnames : (p.capDimValues rows inst v).2.tables.overflow.Adds _ _ _ 0 :=
    overflow_admitVocabulary (c := p.nameCall inst (p.capDimValues rows inst v).1) rfl
  rw [capVendorInstrument_tables, hnames.foldedDimValues, Int.add_zero, foldedDimValues_eq]

/-- The fold counts of an instrument's caps are the rows each of them rewrote, the
other rows stay as they are, and neither the order of the batch nor that of any
map matters to a row. -/
theorem capVendorInstrument_folds (p : Pipeline) (rows : List MetricRow) (inst : VendorInstrument) (v : Vocabulary) :
    (p.capVendorInstrument rows inst v).1 = rows.map (p.storedRow rows inst v) ∧
      (∀ (o : MapOrder) (rows' : List MetricRow), rows'.Perm rows →
        p.capVendorInstrumentIn o rows' inst v =
          (rows'.map (p.storedRow rows inst v), (p.capVendorInstrument rows inst v).2)) ∧
      (rows.countP (fun r => inst.nameFolded r (p.storedRow rows inst v r)) : Int) =
        (p.nameAdmission rows inst v).foldedNames ∧
      (rows.countP (fun r => inst.labelFolded r (p.storedRow rows inst v r)) : Int) =
        (p.nameAdmission rows inst v).foldedLabels ∧
      (p.capVendorInstrument rows inst v).2.tables.overflow.foldedDimValues = v.tables.overflow.foldedDimValues +
        (rows.countP (fun r => inst.valuesFolded r (p.dimRewrite rows inst v r)) : Int) ∧
      ∀ r ∈ rows, RowOutcome inst (inst.pastDims (admitDims v.dims (p.dimCall (inst.keys rows))).1 r) r
        (p.dimRewrite rows inst v r) (p.storedRow rows inst v r) :=
  ⟨capVendorInstrument_storedRow, fun o _ h => capVendorInstrumentIn_eq o h, countP_nameFolded p rows inst v,
    countP_labelFolded p rows inst v, foldedDimValues_capVendorInstrument p rows inst v, fun _ hr => rowOutcome hr⟩

end Outcome

end argvio.otlp
