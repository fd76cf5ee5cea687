import Argvio.Otlp.DimRuns
import Argvio.Storage.DimCodec
import Argvio.Storage.FoldCounts

open List
open argvio.storage

namespace argvio.otlp

section Vendor

def Vendor.metric : Vendor → String
  | .counter => "cli.counter"
  | .measure => "cli.measure"
  | .value => "cli.value"

def Vendor.nameAttr : Vendor → String
  | .counter => "cli.counter.name"
  | .measure => "cli.measure.name"
  | .value => "cli.value.name"

def Vendor.labelAttr : Vendor → String
  | .counter => "cli.counter.label"
  | .measure => "cli.measure.label"
  | .value => "cli.value.label"

/-- The name and label of a row, read as one of an instrument. -/
def Vendor.key (i : Vendor) (r : MetricRow) : CounterKey :=
  ⟨r.datapointAttributes.str i.nameAttr, r.datapointAttributes.str i.labelAttr⟩

variable (p : Pipeline) (i : Vendor)

theorem Vendor.vendorKey_eq (r : MetricRow) :
    vendorKey r.datapointAttributes (i.instrument p) = i.key r := by
  cases i <;> rfl

@[simp] theorem Vendor.instrument_metric : (i.instrument p).metric = i.metric := by
  cases i <;> rfl

@[simp] theorem Vendor.instrument_nameAttr : (i.instrument p).nameAttr = i.nameAttr := by
  cases i <;> rfl

@[simp] theorem Vendor.instrument_labelAttr : (i.instrument p).labelAttr = i.labelAttr := by
  cases i <;> rfl

theorem Vendor.metric_injective : Function.Injective Vendor.metric := by
  intro i j
  cases i <;> cases j <;> simp [Vendor.metric]

theorem Vendor.attrs_ne :
    i.nameAttr ≠ i.labelAttr ∧ i.nameAttr ≠ attrErrorReason ∧ i.labelAttr ≠ attrErrorReason := by
  cases i <;> simp [Vendor.nameAttr, Vendor.labelAttr, attrErrorReason]

end Vendor

/-- What an overflow counter counts. -/
inductive FoldKind where
  | reason
  | dim (i : Vendor)
  | name (i : Vendor)
  | label (i : Vendor)
  deriving DecidableEq

/-- The overflow counters of a tenant: `folded_count` of the reasons, and
`folded_dim_values`, `folded_names` and `folded_labels` of each instrument. -/
def Vocabularies.folded (s : Vocabularies) : FoldKind → Int
  | .reason => s.reasons.foldedCount
  | .dim i => (s.vocabulary i).tables.overflow.foldedDimValues
  | .name i => (s.vocabulary i).tables.overflow.foldedNames
  | .label i => (s.vocabulary i).tables.overflow.foldedLabels

/-- An error reason has become `other`. -/
def reasonReplaced (a a' : Attrs) : Bool :=
  errorReason a ≠ some errorReasonOther ∧ errorReason a' = some errorReasonOther

/-- A dimension value of a tuple has become `other`. -/
def dimReplaced (label label' : String) : Bool :=
  isTuple label' && (parseDims label).entries.any (fun e =>
    e.2 ≠ counterOther ∧ (parseDims label').lookup e.1 = some counterOther)

/-- A step from one version of a row to the next replaces a value by `other`. -/
def FoldKind.replaced (r r' : MetricRow) : FoldKind → Bool
  | .reason => reasonReplaced r.datapointAttributes r'.datapointAttributes
  | .dim i => r.metricName = i.metric ∧ dimReplaced (i.key r).label (i.key r').label
  | .name i => r.metricName = i.metric ∧ (i.key r).name ≠ counterOther ∧ (i.key r').name = counterOther
  | .label i => r.metricName = i.metric ∧ (i.key r).label ≠ counterOther ∧ (i.key r').label = counterOther

/-- The versions a row goes through when it is rewritten time after time. -/
def versions : List (MetricRow → MetricRow) → MetricRow → List MetricRow
  | [], r => [r]
  | f :: fs, r => r :: versions fs (f r)

/-- Some step of a row's history replaces a value by `other`. -/
def FoldKind.replacedIn (kind : FoldKind) : List MetricRow → Bool
  | r :: r' :: rest => kind.replaced r r' || kind.replacedIn (r' :: rest)
  | _ => false

theorem reasonReplaced_of_eq {a a' : Attrs} (h : errorReason a' = errorReason a) : reasonReplaced a a' = false := by
  unfold reasonReplaced
  rw [h]
  simp

theorem dimReplaced_self (label : String) : dimReplaced label label = false := by
  unfold dimReplaced
  rw [Bool.and_eq_false_iff]
  right
  rw [any_eq_false]
  intro e he
  have hlookup : (parseDims label).lookup e.1 = some e.2 := AList.mem_lookup_iff.mpr he
  simp [hlookup]

/-- A rewriting of rows that replaces no value of a kind. -/
def FoldKind.KeptBy (kind : FoldKind) (f : MetricRow → MetricRow) : Prop := ∀ r, kind.replaced r (f r) = false

section Kept

variable {f : MetricRow → MetricRow}

theorem FoldKind.keptBy_reason (h : ∀ r, errorReason (f r).datapointAttributes = errorReason r.datapointAttributes) :
    FoldKind.reason.KeptBy f := fun r => reasonReplaced_of_eq (h r)

variable {i : Vendor} {kind : FoldKind}

theorem FoldKind.keptBy_name (h : ∀ r, r.metricName = i.metric → (i.key (f r)).name = (i.key r).name) :
    (FoldKind.name i).KeptBy f := by
  intro r
  unfold FoldKind.replaced
  by_cases hr : r.metricName = i.metric
  · simp [h r hr]
  · simp [hr]

/-- A rewriting that leaves the rows of an instrument alone keeps its values. -/
theorem FoldKind.keptBy_of_eq (h : ∀ r, r.metricName = i.metric → i.key (f r) = i.key r) :
    (FoldKind.dim i).KeptBy f ∧ (FoldKind.name i).KeptBy f ∧ (FoldKind.label i).KeptBy f := by
  refine ⟨fun r => ?_, fun r => ?_, fun r => ?_⟩
  all_goals
    unfold FoldKind.replaced
    by_cases hr : r.metricName = i.metric
    · simp [h r hr, dimReplaced_self]
    · simp [hr]

theorem FoldKind.replacedIn_versions_cons (kind : FoldKind) (f : MetricRow → MetricRow)
    (fs : List (MetricRow → MetricRow)) (r : MetricRow) :
    kind.replacedIn (versions (f :: fs) r) = (kind.replaced r (f r) || kind.replacedIn (versions fs (f r))) := by
  cases fs <;> rfl

theorem FoldKind.replacedIn_of_kept {fs : List (MetricRow → MetricRow)} (hkept : ∀ g ∈ fs, kind.KeptBy g)
    (r : MetricRow) : kind.replacedIn (versions fs r) = false := by
  induction fs generalizing r with
  | nil => rfl
  | cons g fs ih =>
    rw [FoldKind.replacedIn_versions_cons, hkept g mem_cons_self r,
      ih (fun g' hg' => hkept g' (mem_cons_of_mem g hg')), Bool.false_or]

/-- When one rewriting alone can replace a value of a kind, a row's history replaces one
exactly when that rewriting does. -/
theorem FoldKind.replacedIn_versions {before after : List (MetricRow → MetricRow)}
    (hbefore : ∀ g ∈ before, kind.KeptBy g) (hafter : ∀ g ∈ after, kind.KeptBy g) (r : MetricRow) :
    kind.replacedIn (versions (before ++ f :: after) r) =
      kind.replaced (before.foldl (fun r g => g r) r) (f (before.foldl (fun r g => g r) r)) := by
  induction before generalizing r with
  | nil =>
    rw [nil_append, FoldKind.replacedIn_versions_cons, FoldKind.replacedIn_of_kept hafter, Bool.or_false]
    rfl
  | cons g before ih =>
    rw [cons_append, FoldKind.replacedIn_versions_cons, hbefore g mem_cons_self r, Bool.false_or,
      ih (fun g' hg' => hbefore g' (mem_cons_of_mem g hg'))]
    rfl

end Kept

section Reasons

variable (p : Pipeline) (attrs : List Attrs) (t : ErrorReasons)

/-- The cap on the reasons of a batch. -/
def Pipeline.reasonLimit : Int :=
  if p.bounds.maxErrorReasonsPerTenant ≤ 0 then defaultMaxErrorReasons else p.bounds.maxErrorReasonsPerTenant

def Pipeline.reasonCall : ReasonCall where
  counts := GoMap.tally (attrs.filterMap errorReason)
  limit := p.reasonLimit
  now := p.now

variable {p attrs t}

theorem errorReasonOther_mem_admitErrorReasons (c : ReasonCall) :
    errorReasonOther ∈ (admitErrorReasons t c).1.reasons := by
  unfold admitErrorReasons
  split
  · simp
  · dsimp only
    split <;> simp

theorem reasonReplaced_foldErrorReason {adm : ReasonAdmission} (hother : errorReasonOther ∈ adm.reasons) (a : Attrs) :
    reasonReplaced a (foldErrorReason adm a) = ((errorReason a).map (fun r => decide (r ∉ adm.reasons))).getD false := by
  cases hreason : errorReason a with
  | none => simp [foldErrorReason, hreason, reasonReplaced]
  | some r =>
    by_cases hr : r ∈ adm.reasons
    · simp [foldErrorReason, hreason, hr, reasonReplaced_of_eq]
    have hne : r ≠ errorReasonOther := by
      rintro rfl
      exact hr hother
    have hfolded : errorReason (a.insert attrErrorReason (.str errorReasonOther)) = some errorReasonOther := by
      simp [errorReason, Finmap.lookup_insert]
    simp [foldErrorReason, hreason, hr, reasonReplaced, hne, hfolded]

theorem names_reasonCall_of_empty (hempty : (GoMap.tally (attrs.filterMap errorReason)).keys = []) :
    (p.reasonCall attrs).names = [] := by
  simp [ReasonCall.names, Pipeline.reasonCall, hempty]

theorem capErrorReasons_snd :
    (p.capErrorReasons attrs t).2 = (admitErrorReasons t (p.reasonCall attrs)).2 := by
  unfold Pipeline.capErrorReasons
  dsimp only
  split
  · rename_i hempty
    simp [admitErrorReasons, names_reasonCall_of_empty hempty]
  · rfl

theorem capErrorReasons_fst {a : Attrs} (ha : a ∈ attrs) :
    (p.capErrorReasons attrs t).1 a = foldErrorReason (admitErrorReasons t (p.reasonCall attrs)).1 a := by
  unfold Pipeline.capErrorReasons
  dsimp only
  split
  · rename_i hempty
    have hnone : errorReason a = none := by
      rw [Option.eq_none_iff_forall_not_mem]
      intro r hreason
      have hmem := GoMap.mem_keys_tally.mpr (mem_filterMap.mpr ⟨a, ha, hreason⟩)
      rw [hempty] at hmem
      cases hmem
    simp [foldErrorReason, hnone]
  · rfl

theorem countP_reasonReplaced (p : Pipeline) (attrs : List Attrs) (t : ErrorReasons) :
    (attrs.countP (fun a => reasonReplaced a ((p.capErrorReasons attrs t).1 a)) : Int) =
      (admitErrorReasons t (p.reasonCall attrs)).1.folded := by
  have hcounts : (p.reasonCall attrs).counts = GoMap.tally (attrs.filterMap errorReason) := rfl
  rw [folded_admitErrorReasons hcounts, countP_filterMap]
  congr 1
  apply countP_congr
  intro a ha
  rw [capErrorReasons_fst ha, reasonReplaced_foldErrorReason (errorReasonOther_mem_admitErrorReasons _)]

/-- The counter of a cap on reasons grows by the records whose reason it replaces. -/
theorem foldedCount_capErrorReasons (p : Pipeline) (attrs : List Attrs) (t : ErrorReasons) :
    (p.capErrorReasons attrs t).2.foldedCount =
      t.foldedCount + (attrs.countP (fun a => reasonReplaced a ((p.capErrorReasons attrs t).1 a)) : Int) := by
  have hcases := admitErrorReasons_cases (t := t) (c := p.reasonCall attrs) rfl
  rw [capErrorReasons_snd, hcases.2.1, ← hcases.1, countP_reasonReplaced]

theorem countP_reasonReplaced_eq_zero_iff :
    attrs.countP (fun a => reasonReplaced a ((p.capErrorReasons attrs t).1 a)) = 0 ↔
      t.Fits p.reasonLimit (attrs.filterMap errorReason) := by
  have hfits := folded_admitErrorReasons_eq_zero_iff (t := t) (c := p.reasonCall attrs) rfl
  rw [← countP_reasonReplaced, Int.natCast_eq_zero] at hfits
  exact hfits

end Reasons

section Attrs

variable {a : Attrs} {k k' value : String}

@[simp] theorem str_insert_self : Attrs.str (a.insert k (.str value)) k = value := by
  unfold Attrs.str
  rw [Finmap.lookup_insert]

@[simp] theorem str_erase_self : Attrs.str (a.erase k) k = "" := by
  unfold Attrs.str
  rw [Finmap.lookup_erase]

theorem str_erase_ne (h : k' ≠ k) : Attrs.str (a.erase k) k' = a.str k' := by
  unfold Attrs.str
  rw [Finmap.lookup_erase_ne h]

end Attrs

section Dims

/-- The dimensions of a row once those past the cap are stored as `other`. -/
def replaceDims (dims : GoMap String String) (past : List ((_ : String) × String)) : GoMap String String :=
  past.foldl (fun dims e => dims.insert e.1 counterOther) dims

theorem lookup_replaceDims (past : List ((_ : String) × String)) (dims : GoMap String String) (k : String) :
    (replaceDims dims past).lookup k = if k ∈ past.map Sigma.fst then some counterOther else dims.lookup k := by
  have hput : replaceDims dims past = GoMap.putAll dims ((past.map Sigma.fst).map (fun k => (k, counterOther))) := by
    simp [replaceDims, GoMap.putAll, foldl_map]
  rw [hput, GoMap.lookup_putAll_map]

variable {past : List ((_ : String) × String)}

theorem readableDims_replaceDims {dims : GoMap String String} (h : ReadableDims dims) (hpast : past ⊆ dims.entries) :
    ReadableDims (replaceDims dims past) := by
  intro k v hlookup
  rw [lookup_replaceDims] at hlookup
  split at hlookup
  · rename_i hk
    obtain ⟨e, he, rfl⟩ := mem_map.mp hk
    have hkey : dims.lookup e.1 = some e.2 := AList.mem_lookup_iff.mpr (hpast he)
    cases hlookup
    exact ⟨(h _ _ hkey).1, by decide⟩
  · exact h k v hlookup

theorem keys_replaceDims_ne_nil (dims : GoMap String String) (hne : past ≠ []) :
    (replaceDims dims past).keys ≠ [] := by
  obtain ⟨e, he⟩ := exists_mem_of_ne_nil past hne
  apply ne_nil_of_mem (a := e.1)
  rw [← AList.mem_keys, ← AList.lookup_isSome, lookup_replaceDims, if_pos (mem_map_of_mem he)]
  rfl

/-- A tuple with some of its values replaced has a dimension value that became `other`. -/
theorem dimReplaced_replaceDims {label : String} (htuple : isTuple label = true)
    (hpast : past ⊆ (parseDims label).entries) (hne : past ≠ []) (hother : ∀ e ∈ past, e.2 ≠ counterOther) :
    dimReplaced label (formatDims (replaceDims (parseDims label) past)) = true := by
  have hkeys := keys_replaceDims_ne_nil (parseDims label) hne
  have hreadable := readableDims_replaceDims (readableDims_parseDims htuple) hpast
  obtain ⟨e, he⟩ := exists_mem_of_ne_nil past hne
  unfold dimReplaced
  rw [Bool.and_eq_true]
  refine ⟨containsChar_formatDims hkeys, any_eq_true.mpr ⟨e, hpast he, ?_⟩⟩
  rw [lookup_parseDims_formatDims hreadable hkeys, lookup_replaceDims, if_pos (mem_map_of_mem he)]
  simp [hother e he]

variable {p : Pipeline} {rows : List MetricRow} {inst : VendorInstrument} {v : Vocabulary}

/-- What the cap on dimension values makes of one row of a batch. -/
def Pipeline.dimRewrite (p : Pipeline) (rows : List MetricRow) (inst : VendorInstrument) (v : Vocabulary)
    (r : MetricRow) : MetricRow :=
  let adm := (admitDims v.dims (p.dimCall (inst.keys rows))).1
  if adm.folded = 0 then r else (inst.foldDimValues adm r).1

/-- The values of a row that a decision does not admit. -/
def VendorInstrument.pastDims (inst : VendorInstrument) (adm : DimAdmission) (r : MetricRow) :
    List ((_ : String) × String) :=
  let k := vendorKey r.datapointAttributes inst
  (parseDims k.label).entries.filter (fun e => (⟨k.name, e.1, e.2⟩ : DimValueKey) ∉ adm.values)

/-- The row with `label` as its label. -/
def VendorInstrument.relabel (inst : VendorInstrument) (r : MetricRow) (label : String) : MetricRow :=
  { r with datapointAttributes := r.datapointAttributes.insert inst.labelAttr (.str label) }

theorem foldDimValues_eq (inst : VendorInstrument) (adm : DimAdmission) (r : MetricRow) :
    inst.foldDimValues adm r =
      if r.metricName ≠ inst.metric then (r, false)
      else if isTuple (vendorKey r.datapointAttributes inst).label then
        if inst.pastDims adm r = [] then (r, false)
        else (inst.relabel r (formatDims (replaceDims (parseDims (vendorKey r.datapointAttributes inst).label)
          (inst.pastDims adm r))), true)
      else (r, false) := rfl

/-- Either a row is left alone, and all its values are admitted, or its tuple is written
anew with `other` for those that are not. -/
theorem foldDimValues_cases (inst : VendorInstrument) (adm : DimAdmission) (r : MetricRow) :
    (inst.foldDimValues adm r = (r, false) ∧
      (r.metricName = inst.metric → ∀ d ∈ dimValueKeys (vendorKey r.datapointAttributes inst), d ∈ adm.values)) ∨
    (r.metricName = inst.metric ∧ isTuple (vendorKey r.datapointAttributes inst).label = true ∧
      inst.pastDims adm r ≠ [] ∧
      inst.foldDimValues adm r = (inst.relabel r (formatDims (replaceDims
        (parseDims (vendorKey r.datapointAttributes inst).label) (inst.pastDims adm r))), true)) := by
  rw [foldDimValues_eq]
  by_cases hr : r.metricName = inst.metric
  · rw [if_neg (not_not_intro hr)]
    by_cases htuple : isTuple (vendorKey r.datapointAttributes inst).label = true
    · rw [if_pos htuple]
      by_cases hpast : inst.pastDims adm r = []
      · rw [if_pos hpast]
        refine .inl ⟨rfl, fun _ d hd => ?_⟩
        unfold dimValueKeys at hd
        rw [if_pos htuple] at hd
        obtain ⟨e, he, rfl⟩ := mem_map.mp hd
        simpa using filter_eq_nil_iff.mp hpast e he
      · rw [if_neg hpast]
        exact .inr ⟨hr, htuple, hpast, rfl⟩
    · rw [if_neg htuple]
      refine .inl ⟨rfl, fun _ d hd => ?_⟩
      unfold dimValueKeys at hd
      rw [if_neg htuple] at hd
      cases hd
  · rw [if_pos hr]
    exact .inl ⟨rfl, fun h => absurd h hr⟩

theorem label_relabel (inst : VendorInstrument) (r : MetricRow) (label : String) :
    (vendorKey (inst.relabel r label).datapointAttributes inst).label = label := str_insert_self

theorem key_mem_keys {r : MetricRow} (hr : r ∈ rows) (hmetric : r.metricName = inst.metric) :
    vendorKey r.datapointAttributes inst ∈ inst.keys rows :=
  mem_map_of_mem (mem_filter.mpr ⟨hr, decide_eq_true hmetric⟩)

theorem mem_dimValueKeys {k : CounterKey} (htuple : isTuple k.label = true) {e : (_ : String) × String}
    (he : e ∈ (parseDims k.label).entries) : ⟨k.name, e.1, e.2⟩ ∈ dimValueKeys k := by
  unfold dimValueKeys
  rw [if_pos htuple]
  exact mem_map_of_mem he

/-- A row is marked as folded exactly when one of its values has become `other`. -/
theorem foldDimValues_marks {adm : DimAdmission} {r : MetricRow}
    (hother : ∀ d ∈ dimValueKeys (vendorKey r.datapointAttributes inst), d.value = counterOther → d ∈ adm.values) :
    (inst.foldDimValues adm r).2 = dimReplaced (vendorKey r.datapointAttributes inst).label
      (vendorKey (inst.foldDimValues adm r).1.datapointAttributes inst).label := by
  rcases foldDimValues_cases inst adm r with ⟨hkept, -⟩ | ⟨hr, htuple, hpast, hfold⟩
  · rw [hkept, dimReplaced_self]
  rw [hfold, label_relabel]
  refine (dimReplaced_replaceDims htuple (filter_subset_self _) hpast ?_).symm
  intro e he hvalue
  obtain ⟨hentry, hnot⟩ := mem_filter.mp he
  exact of_decide_eq_true hnot (hother _ (mem_dimValueKeys htuple hentry) hvalue)

/-- Either the batch has room for all its values and only the table of values changes, or
the rows past the cap are rewritten and counted. -/
theorem capDimValues_cases (p : Pipeline) (rows : List MetricRow) (inst : VendorInstrument) (v : Vocabulary) :
    let admitted := admitDims v.dims (p.dimCall (inst.keys rows))
    (admitted.1.folded = 0 ∧ p.capDimValues rows inst v = (rows, { v with dims := admitted.2 })) ∨
    (admitted.1.folded ≠ 0 ∧ p.capDimValues rows inst v =
      ((rows.map (inst.foldDimValues admitted.1)).map Prod.fst,
        { v with dims := admitted.2 }.recordFoldedDims
          ((rows.map (inst.foldDimValues admitted.1)).countP Prod.snd) p.now)) := by
  dsimp only
  unfold Pipeline.capDimValues
  by_cases hempty : (GoMap.tally ((inst.keys rows).flatMap dimValueKeys)).keys = []
  · have hkeys : (p.dimCall (inst.keys rows)).keys = [] := by simp [DimCall.keys, Pipeline.dimCall, hempty]
    left
    simp [hempty, admitDims, hkeys]
  · simp only [if_neg hempty]
    by_cases hfolded : (admitDims v.dims (p.dimCall (inst.keys rows))).1.folded = 0
    · exact .inl ⟨hfolded, if_pos hfolded⟩
    · exact .inr ⟨hfolded, if_neg hfolded⟩

theorem dimRewrite_of_room (hfolded : (admitDims v.dims (p.dimCall (inst.keys rows))).1.folded = 0) :
    p.dimRewrite rows inst v = id := funext fun _ => if_pos hfolded

theorem capDimValues_rows : (p.capDimValues rows inst v).1 = rows.map (p.dimRewrite rows inst v) := by
  rcases capDimValues_cases p rows inst v with ⟨hfolded, hcap⟩ | ⟨hfolded, hcap⟩
  · rw [hcap, dimRewrite_of_room hfolded, map_id]
  · rw [hcap, map_map]
    simp [Pipeline.dimRewrite, hfolded, Function.comp_def]

/-- The cap on dimension values leaves a row alone or gives a row of the instrument
another tuple in place of its own. -/
theorem dimRewrite_relabels (p : Pipeline) (rows : List MetricRow) (inst : VendorInstrument) (v : Vocabulary)
    (r : MetricRow) :
    p.dimRewrite rows inst v r = r ∨
      r.metricName = inst.metric ∧ isTuple (vendorKey r.datapointAttributes inst).label = true ∧
        ∃ label, isTuple label = true ∧ p.dimRewrite rows inst v r = inst.relabel r label := by
  unfold Pipeline.dimRewrite
  dsimp only
  split
  · exact .inl rfl
  rcases foldDimValues_cases inst (admitDims v.dims (p.dimCall (inst.keys rows))).1 r with
    ⟨hkept, -⟩ | ⟨hmetric, htuple, hpast, hfold⟩
  · rw [hkept]
    exact .inl rfl
  · rw [hfold]
    exact .inr ⟨hmetric, htuple, _, containsChar_formatDims (keys_replaceDims_ne_nil _ hpast), rfl⟩

/-- The cap on dimension values leaves the names and labels, and what was folded of them,
as they are. -/
theorem capDimValues_tables (p : Pipeline) (rows : List MetricRow) (inst : VendorInstrument) (v : Vocabulary) :
    ∃ dims last, (p.capDimValues rows inst v).2.tables =
    { v.tables with overflow := { v.tables.overflow with foldedDimValues := dims, lastFoldedAt := last } } := by
  rcases capDimValues_cases p rows inst v with ⟨-, hcap⟩ | ⟨-, hcap⟩
  · rw [hcap]
    exact ⟨_, _, rfl⟩
  · rw [hcap]
    unfold Vocabulary.recordFoldedDims
    split
    · exact ⟨_, _, rfl⟩
    · exact ⟨_, _, rfl⟩

/-- `other` is admitted as a value of any row of the batch. -/
theorem other_mem_values {r : MetricRow} (hr : r ∈ rows) (hmetric : r.metricName = inst.metric) :
    ∀ d ∈ dimValueKeys (vendorKey r.datapointAttributes inst), d.value = counterOther →
      d ∈ (admitDims v.dims (p.dimCall (inst.keys rows))).1.values := by
  intro d hd hvalue
  exact (mem_values_admitDims rfl (mem_flatMap.mpr ⟨_, key_mem_keys hr hmetric, hd⟩)).mpr (.inl hvalue)

/-- A value in the tuple of an instrument's row has become `other`. -/
def VendorInstrument.valuesFolded (inst : VendorInstrument) (r r' : MetricRow) : Bool :=
  r.metricName = inst.metric ∧
    dimReplaced (vendorKey r.datapointAttributes inst).label (vendorKey r'.datapointAttributes inst).label

theorem FoldKind.dim_replaced (p : Pipeline) (i : Vendor) (r r' : MetricRow) :
    (FoldKind.dim i).replaced r r' = (i.instrument p).valuesFolded r r' := by
  unfold FoldKind.replaced VendorInstrument.valuesFolded
  rw [Vendor.vendorKey_eq, Vendor.vendorKey_eq, Vendor.instrument_metric]

/-- The mark of a row of the batch says whether a value of it was folded. -/
theorem foldDimValues_snd {r : MetricRow} (hr : r ∈ rows) :
    let adm := (admitDims v.dims (p.dimCall (inst.keys rows))).1
    (inst.foldDimValues adm r).2 = inst.valuesFolded r (inst.foldDimValues adm r).1 := by
  dsimp only
  unfold VendorInstrument.valuesFolded
  by_cases hmetric : r.metricName = inst.metric
  · rw [foldDimValues_marks (other_mem_values hr hmetric)]
    simp [hmetric]
  · rw [foldDimValues_eq, if_pos hmetric]
    simp [hmetric]

/-- The counter of a cap on dimension values grows by the rows with a value it folds. -/
theorem foldedDimValues_eq (p : Pipeline) (rows : List MetricRow) (inst : VendorInstrument) (v : Vocabulary) :
    (p.capDimValues rows inst v).2.tables.overflow.foldedDimValues =
      v.tables.overflow.foldedDimValues +
        (rows.countP (fun r => inst.valuesFolded r (p.dimRewrite rows inst v r)) : Int) := by
  rcases capDimValues_cases p rows inst v with ⟨hfolded, hcap⟩ | ⟨hfolded, hcap⟩
  · have hnone : rows.countP (fun r => inst.valuesFolded r (p.dimRewrite rows inst v r)) = 0 := by
      rw [countP_eq_zero, dimRewrite_of_room hfolded]
      intro r _
      simp [VendorInstrument.valuesFolded, dimReplaced_self]
    rw [hcap, hnone]
    simp
  · have hmarks : (rows.map (inst.foldDimValues (admitDims v.dims (p.dimCall (inst.keys rows))).1)).countP Prod.snd =
        rows.countP (fun r => inst.valuesFolded r (p.dimRewrite rows inst v r)) := by
      rw [countP_map]
      apply countP_congr
      intro r hr
      have hrewrite : p.dimRewrite rows inst v r =
          (inst.foldDimValues (admitDims v.dims (p.dimCall (inst.keys rows))).1 r).1 := if_neg hfolded
      rw [hrewrite, ← foldDimValues_snd hr]
      rfl
    rw [hcap, hmarks]
    unfold Vocabulary.recordFoldedDims
    split
    · dsimp only
      omega
    · rfl

theorem foldedDimValues_capDimValues (p : Pipeline) (rows : List MetricRow) (i : Vendor) (v : Vocabulary) :
    (p.capDimValues rows (i.instrument p) v).2.tables.overflow.foldedDimValues =
      v.tables.overflow.foldedDimValues +
        (rows.countP (fun r => (FoldKind.dim i).replaced r (p.dimRewrite rows (i.instrument p) v r)) : Int) := by
  simp only [FoldKind.dim_replaced p]
  exact foldedDimValues_eq p rows (i.instrument p) v

/-- No row has a value replaced exactly when the batch's new values have room. -/
theorem countP_dim_eq_zero_iff (p : Pipeline) (rows : List MetricRow) (i : Vendor) (v : Vocabulary) :
    rows.countP (fun r => (FoldKind.dim i).replaced r (p.dimRewrite rows (i.instrument p) v r)) = 0 ↔
      DimsFit v.dims p.metricCaps.dimValues (((i.instrument p).keys rows).flatMap dimValueKeys) := by
  have hfit := folded_admitDims_eq_zero_iff (t := v.dims) (c := p.dimCall ((i.instrument p).keys rows)) rfl
  constructor
  · intro hnone
    by_contra hover
    have hfolded := hfit.not.mpr hover
    obtain ⟨d, hd, hnot⟩ := exists_notMem_values (t := v.dims) (c := p.dimCall ((i.instrument p).keys rows)) rfl hover
    obtain ⟨k, hk, hdim⟩ := mem_flatMap.mp hd
    obtain ⟨r, hr, rfl⟩ := mem_map.mp hk
    obtain ⟨hrow, hmetric⟩ := mem_filter.mp hr
    have hmetric := of_decide_eq_true hmetric
    -- The row that carries a value without room is rewritten.
    have hmarks := foldDimValues_marks (other_mem_values (p := p) (v := v) hrow hmetric)
    rcases foldDimValues_cases (i.instrument p) (admitDims v.dims (p.dimCall ((i.instrument p).keys rows))).1 r with
      ⟨-, hall⟩ | ⟨-, -, -, hfold⟩
    · exact hnot (hall hmetric d hdim)
    have hrewrite : p.dimRewrite rows (i.instrument p) v r = ((i.instrument p).foldDimValues
        (admitDims v.dims (p.dimCall ((i.instrument p).keys rows))).1 r).1 := if_neg hfolded
    rw [Vendor.vendorKey_eq, Vendor.vendorKey_eq, ← hrewrite, congrArg Prod.snd hfold] at hmarks
    rw [Vendor.instrument_metric] at hmetric
    refine countP_eq_zero.mp hnone r hrow ?_
    simp [FoldKind.replaced, hmetric, ← hmarks]
  · intro hroom
    rw [countP_eq_zero]
    intro r _
    simp [Pipeline.dimRewrite, hfit.mpr hroom, FoldKind.replaced, dimReplaced_self]

end Dims

section Names

variable {p : Pipeline} {rows : List MetricRow} {inst : VendorInstrument} {t : Tables}

/-- What the caps on names and labels make of one row of a batch. -/
def Pipeline.nameRewrite (p : Pipeline) (rows : List MetricRow) (inst : VendorInstrument) (t : Tables)
    (r : MetricRow) : MetricRow := inst.rewrite (admitVocabulary t (p.nameCall inst rows)).1 r

theorem capVendorInstrument_rows {v : Vocabulary} : (p.capVendorInstrument rows inst v).1 =
    (p.capDimValues rows inst v).1.map
      (p.nameRewrite (p.capDimValues rows inst v).1 inst (p.capDimValues rows inst v).2.tables) := by
  unfold Pipeline.capVendorInstrument
  dsimp only
  split
  · rename_i hempty
    have hnone : ∀ r ∈ (p.capDimValues rows inst v).1, r.metricName ≠ inst.metric := by
      intro r hr hmetric
      have hmem := GoMap.mem_keys_tally.mpr (key_mem_keys hr hmetric)
      rw [hempty] at hmem
      cases hmem
    refine (map_id' _).symm.trans (map_congr_left fun r hr => ?_)
    exact (if_pos (hnone r hr)).symm
  · rfl

theorem counterOther_mem_admitVocabulary (t : Tables) (c : AdmitCall) :
    counterOther ∈ (admitVocabulary t c).1.names := by
  unfold admitVocabulary
  split
  · simp
  dsimp only
  split
  · simp [AdmitCall.allAdmitted]
  · simp [AdmitCall.plan, AdmitCall.keptNameSet]

/-- The four things a decision does to a row of its instrument. -/
theorem rewrite_key {adm : CounterAdmission} {r : MetricRow} (hr : r.metricName = inst.metric) :
    let k := vendorKey r.datapointAttributes inst
    vendorKey (inst.rewrite adm r).datapointAttributes inst =
      if k.name ∉ adm.names then ⟨counterOther, ""⟩
      else if k.name = counterOther then ⟨k.name, ""⟩
      else if k.label ≠ "" ∧ k.label ≠ counterOther ∧ k ∉ adm.labels then ⟨k.name, counterOther⟩
      else k := by
  have hne := inst.attrs_ne
  dsimp only
  unfold VendorInstrument.rewrite
  rw [if_neg (not_not_intro hr)]
  dsimp only
  split
  · simp [vendorKey, str_erase_ne hne]
  split
  · simp [vendorKey, str_erase_ne hne]
  · split
    · simp [vendorKey, str_insert_ne hne]
    · rfl

theorem countP_keys (inst : VendorInstrument) (rows : List MetricRow) (q : CounterKey → Prop) [DecidablePred q] :
    (inst.keys rows).countP (fun k => q k) =
      rows.countP (fun r => r.metricName = inst.metric ∧ q (vendorKey r.datapointAttributes inst)) := by
  unfold VendorInstrument.keys
  rw [countP_map, countP_filter]
  apply countP_congr
  intro r _
  simp [and_comm]

variable {i : Vendor} {adm : CounterAdmission}

theorem name_replaced_iff (hother : counterOther ∈ adm.names) (r : MetricRow) :
    (FoldKind.name i).replaced r ((i.instrument p).rewrite adm r) = true ↔
      r.metricName = (i.instrument p).metric ∧ (vendorKey r.datapointAttributes (i.instrument p)).name ∉ adm.names := by
  unfold FoldKind.replaced
  rw [decide_eq_true_eq, ← Vendor.vendorKey_eq p, ← Vendor.vendorKey_eq p, ← Vendor.instrument_metric p]
  refine and_congr_right fun hr => ?_
  rw [rewrite_key hr]
  grind

theorem label_replaced_iff (r : MetricRow) :
    (FoldKind.label i).replaced r ((i.instrument p).rewrite adm r) = true ↔
      r.metricName = (i.instrument p).metric ∧ (vendorKey r.datapointAttributes (i.instrument p)).name ∈ adm.names ∧
        (vendorKey r.datapointAttributes (i.instrument p)).Labelled ∧
        vendorKey r.datapointAttributes (i.instrument p) ∉ adm.labels := by
  have hempty : ("" : String) ≠ counterOther := by decide
  unfold FoldKind.replaced CounterKey.Labelled
  rw [decide_eq_true_eq, ← Vendor.vendorKey_eq p, ← Vendor.vendorKey_eq p, ← Vendor.instrument_metric p]
  refine and_congr_right fun hr => ?_
  rw [rewrite_key hr]
  grind

section Counts

variable (p : Pipeline) (rows : List MetricRow) (i : Vendor) (t : Tables)

theorem countP_name_replaced :
    (rows.countP (fun r => (FoldKind.name i).replaced r (p.nameRewrite rows (i.instrument p) t r)) : Int) =
      (admitVocabulary t (p.nameCall (i.instrument p) rows)).1.foldedNames := by
  rw [foldedNames_admitVocabulary rfl, countP_keys]
  congr 1
  apply countP_congr
  intro r _
  rw [decide_eq_true_eq]
  exact name_replaced_iff (counterOther_mem_admitVocabulary t _) r

theorem countP_label_replaced :
    (rows.countP (fun r => (FoldKind.label i).replaced r (p.nameRewrite rows (i.instrument p) t r)) : Int) =
      (admitVocabulary t (p.nameCall (i.instrument p) rows)).1.foldedLabels := by
  rw [foldedLabels_admitVocabulary rfl, countP_keys]
  congr 1
  apply countP_congr
  intro r _
  rw [decide_eq_true_eq]
  exact label_replaced_iff r

/-- The counters of the caps on names and labels grow by the rows whose name or label they
replace. -/
theorem overflow_nameRewrite :
    t.overflow.Adds (admitVocabulary t (p.nameCall (i.instrument p) rows)).2.overflow
      (rows.countP (fun r => (FoldKind.name i).replaced r (p.nameRewrite rows (i.instrument p) t r)))
      (rows.countP (fun r => (FoldKind.label i).replaced r (p.nameRewrite rows (i.instrument p) t r))) 0 := by
  rw [countP_name_replaced, countP_label_replaced]
  exact overflow_admitVocabulary rfl

theorem countP_name_eq_zero_iff :
    rows.countP (fun r => (FoldKind.name i).replaced r (p.nameRewrite rows (i.instrument p) t r)) = 0 ↔
      t.NamesFit (i.instrument p).nameLimit ((i.instrument p).keys rows) := by
  have hfit := foldedNames_eq_zero_iff (t := t) (c := p.nameCall (i.instrument p) rows) rfl
  rw [← countP_name_replaced, Int.natCast_eq_zero] at hfit
  exact hfit

theorem countP_label_eq_zero_iff
    (hnames : rows.countP (fun r => (FoldKind.name i).replaced r (p.nameRewrite rows (i.instrument p) t r)) = 0) :
    rows.countP (fun r => (FoldKind.label i).replaced r (p.nameRewrite rows (i.instrument p) t r)) = 0 ↔
      t.LabelsFit (i.instrument p).labelLimit ((i.instrument p).keys rows) := by
  have hnone : (admitVocabulary t (p.nameCall (i.instrument p) rows)).1.foldedNames = 0 := by
    rw [← countP_name_replaced, hnames]
    rfl
  have hfit := foldedLabels_eq_zero_iff rfl hnone
  rw [← countP_label_replaced, Int.natCast_eq_zero] at hfit
  exact hfit

end Counts

end Names

end argvio.otlp
