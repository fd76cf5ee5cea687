import Argvio.Storage.FoldCounts

open List Finset

namespace argvio.storage

open AdmitCall

section Names

variable {t t' t'' : Tables} {c : AdmitCall} {ks : List CounterKey} {k : CounterKey} {name : String}

/-- A name of the batch is admitted when it has a row after the call. -/
theorem mem_names_iff_row (hcounts : c.counts = GoMap.tally ks) (hk : k ∈ ks) :
    k.name ∈ (admitVocabulary t c).1.names ↔
      k.name = counterOther ∨ k.name ∈ (admitVocabulary t c).2.names.keys := by
  rw [(answers_admitVocabulary hcounts).names k hk, (keys_admitVocabulary t c).1]
  have hsent := mem_names_iff hcounts hk
  have hknown : k.name ∈ (Counted.of t c).known.names ↔ k.name ∈ c.names ∧ k.name ∈ t.names.keys := by
    change k.name ∈ c.names.toFinset ∩ t.names.keys ↔ _
    rw [mem_inter, mem_toFinset]
  change k.name ∈ c.keptNameSet (.of t c) ↔ _
  unfold keptNameSet
  simp only [Finset.mem_union, Finset.mem_singleton, Finset.mem_inter, mem_toFinset, hknown]
  grind

theorem mem_keptNames_and_labelsFor (hcounts : c.counts = GoMap.tally ks) (hk : k ∈ ks) (hlabelled : k.Labelled)
    (hname : k.name ∈ (admitVocabulary t c).1.names) :
    k.name ∈ c.keptNames (.of t c) ∧ k.label ∈ c.labelsFor k.name := by
  rw [mem_keptNames _ hcounts hk hlabelled, mem_labelsFor hcounts]
  exact ⟨((answers_admitVocabulary hcounts).names k hk).mp hname, hk, hlabelled.2⟩

/-- A label under a kept name is admitted when it has a row after the call. -/
theorem mem_labels_iff_row (hcounts : c.counts = GoMap.tally ks) (hk : k ∈ ks) (hlabelled : k.Labelled)
    (hname : k.name ∈ (admitVocabulary t c).1.names) :
    k ∈ (admitVocabulary t c).1.labels ↔ k ∈ (admitVocabulary t c).2.labels.keys := by
  obtain ⟨hkept, hlabel⟩ := mem_keptNames_and_labelsFor hcounts hk hlabelled hname
  have hknown : k.label ∈ c.knownLabels (.of t c) k.name ↔ k ∈ t.labels.keys := by
    unfold knownLabels
    rw [Finset.mem_filter, mem_toFinset]
    change _ ∧ k ∈ c.pairs.toFinset ∩ t.labels.keys ↔ _
    rw [mem_inter, mem_toFinset]
    exact ⟨fun h => h.2.2, fun h => ⟨hlabel, mem_pairs hcounts hk hlabelled, h⟩⟩
  rw [(answers_admitVocabulary hcounts).labels k hk hlabelled, (keys_admitVocabulary t c).2]
  change k ∈ (c.knownPairs (.of t c)).toFinset ∪ (c.addLabels (.of t c)).toFinset ↔ _
  rw [mem_union, mem_union, mem_toFinset, mem_knownPairs, hknown]
  simp [hkept, hlabel]

theorem labelsOf_admitVocabulary (t : Tables) (c : AdmitCall) (name : String) :
    (admitVocabulary t c).2.labelsOf name =
      t.labelsOf name ∪ (c.addLabels (.of t c)).toFinset.filter (fun key => key.name = name) := by
  unfold Tables.labelsOf
  rw [(keys_admitVocabulary t c).2, filter_union]

/-- What later calls under the same limits leave as it is: every row, and all of a
vocabulary that is full. -/
structure Tables.Settles (nameLimit labelLimit : Int) (t t' : Tables) : Prop where
  within : t.Within t'
  names : nameLimit ≤ t.names.keys.card → t'.names.keys = t.names.keys
  labels : ∀ name, labelLimit ≤ (t.labelsOf name).card → t'.labelsOf name = t.labelsOf name

theorem Tables.Settles.refl (nameLimit labelLimit : Int) (t : Tables) : t.Settles nameLimit labelLimit t where
  within := ⟨Finset.Subset.refl _, Finset.Subset.refl _⟩
  names := fun _ => rfl
  labels := fun _ _ => rfl

theorem Tables.Settles.trans {nameLimit labelLimit : Int} (h : t.Settles nameLimit labelLimit t')
    (h' : t'.Settles nameLimit labelLimit t'') : t.Settles nameLimit labelLimit t'' where
  within := ⟨h.within.names.trans h'.within.names, h.within.labels.trans h'.within.labels⟩
  names := by
    intro hfull
    have hsame := h.names hfull
    rw [h'.names (by rw [hsame]; exact hfull), hsame]
  labels := by
    intro name hfull
    have hsame := h.labels name hfull
    rw [h'.labels name (by rw [hsame]; exact hfull), hsame]

theorem settles_admitVocabulary (t : Tables) (c : AdmitCall) :
    t.Settles c.nameLimit c.labelLimit (admitVocabulary t c).2 where
  within := by
    obtain ⟨hnames, hlabels⟩ := keys_admitVocabulary t c
    constructor
    · rw [hnames]
      exact subset_union_left
    · rw [hlabels]
      exact subset_union_left
  names := by
    intro hfull
    have hroom : c.nameLimit - t.names.keys.card ≤ 0 := by omega
    have hplan : (c.planNames (.of t c)).1 = [] := planCapped_of_full hroom
    rw [(keys_admitVocabulary t c).1, hplan]
    simp
  labels := by
    intro name hfull
    have hnone : (c.addLabels (.of t c)).toFinset.filter (fun key => key.name = name) = ∅ := by
      rw [filter_eq_empty_iff]
      rintro key hkey rfl
      have hroom : c.labelLimit - (t.labelsOf key.name).card ≤ 0 := by omega
      have hplan : (c.planLabels (.of t c) key.name).1 = [] := planCapped_of_full hroom
      have hlabel := (mem_addLabels (mem_toFinset.mp hkey)).1
      rw [hplan] at hlabel
      cases hlabel
    rw [labelsOf_admitVocabulary, hnone, union_empty]

/-- A name is folded only when the names are full after the call. -/
theorem names_full_of_folded (hcounts : c.counts = GoMap.tally ks) (hk : k ∈ ks)
    (hfolded : k.name ∉ (admitVocabulary t c).1.names) :
    c.nameLimit ≤ (admitVocabulary t c).2.names.keys.card := by
  rw [mem_names_iff_row hcounts hk, not_or] at hfolded
  obtain ⟨hother, hout⟩ := hfolded
  refine le_card_of_left_out Function.injective_id (t.names.known c.names) c.nameCount c.nodup_names ?_
    (settles_admitVocabulary t c).within.names ?_ ((mem_names_iff hcounts hk).mpr hother) hout
  · intro name hname
    simp [CappedTable.known, hname]
  · intro name hname
    rw [(keys_admitVocabulary t c).1]
    exact mem_union_right _ (mem_toFinset.mpr hname)

/-- A label under a kept name is folded only when its name is full after the call. -/
theorem labels_full_of_folded (hcounts : c.counts = GoMap.tally ks) (hk : k ∈ ks) (hlabelled : k.Labelled)
    (hname : k.name ∈ (admitVocabulary t c).1.names) (hfolded : k ∉ (admitVocabulary t c).1.labels) :
    c.labelLimit ≤ ((admitVocabulary t c).2.labelsOf k.name).card := by
  obtain ⟨hkept, hlabel⟩ := mem_keptNames_and_labelsFor hcounts hk hlabelled hname
  rw [mem_labels_iff_row hcounts hk hlabelled hname] at hfolded
  have hsubset : t.labelsOf k.name ⊆ (admitVocabulary t c).2.labelsOf k.name := by
    rw [labelsOf_admitVocabulary]
    exact subset_union_left
  have hinjective : Function.Injective (fun label => (⟨k.name, label⟩ : CounterKey)) :=
    fun _ _ h => congrArg CounterKey.label h
  refine le_card_of_left_out hinjective (c.knownLabels (.of t c) k.name) (c.labelCount k.name)
    (c.nodup_labelsFor k.name) ?_ hsubset ?_ hlabel (fun h => hfolded (mem_filter.mp h).1)
  · intro label hsent
    have hpair := (mem_labelsFor hcounts).mp hsent
    have hasked := mem_pairs hcounts hpair.1 ⟨hlabelled.1, hpair.2⟩
    unfold knownLabels Tables.labelsOf
    rw [Finset.mem_filter, Finset.mem_filter, mem_toFinset]
    change _ ∧ _ ∈ c.pairs.toFinset ∩ t.labels.keys ↔ _
    simp [hsent, hasked]
  · intro label hplanned
    rw [labelsOf_admitVocabulary]
    refine mem_union_right _ (mem_filter.mpr ⟨mem_toFinset.mpr ?_, rfl⟩)
    exact (mem_addLabels_iff _).mpr ⟨hkept, hplanned⟩

end Names

section Stable

variable {t t' : Tables} {c c' : AdmitCall} {ks ks' : List CounterKey} {k : CounterKey}

section Settled

variable (hcounts : c.counts = GoMap.tally ks) (hcounts' : c'.counts = GoMap.tally ks')
  (hnameLimit : c'.nameLimit = c.nameLimit) (hlabelLimit : c'.labelLimit = c.labelLimit)
  (hrun : (admitVocabulary t c).2.Settles c.nameLimit c.labelLimit t') (hk : k ∈ ks)

include hcounts hcounts' hnameLimit hlabelLimit hrun hk

/-- Between two calls under the same limits only such calls have run. -/
theorem names_stable {k' : CounterKey} (hk' : k' ∈ ks') (hsame : k'.name = k.name) :
    k.name ∈ (admitVocabulary t c).1.names ↔ k'.name ∈ (admitVocabulary t' c').1.names := by
  have hlater := settles_admitVocabulary t' c'
  rw [hnameLimit, hlabelLimit] at hlater
  have hsettles := hrun.trans hlater
  rw [mem_names_iff_row hcounts' hk', hsame]
  constructor
  · intro hadmitted
    rcases (mem_names_iff_row hcounts hk).mp hadmitted with hother | hrow
    · exact .inl hother
    · exact .inr (hsettles.within.names hrow)
  · rintro (hother | hrow)
    · exact (mem_names_iff_row hcounts hk).mpr (.inl hother)
    · by_contra hfolded
      rw [hsettles.names (names_full_of_folded hcounts hk hfolded)] at hrow
      exact hfolded ((mem_names_iff_row hcounts hk).mpr (.inr hrow))

theorem labels_stable (hk' : k ∈ ks') (hlabelled : k.Labelled) (hname : k.name ∈ (admitVocabulary t c).1.names) :
    k ∈ (admitVocabulary t c).1.labels ↔ k ∈ (admitVocabulary t' c').1.labels := by
  have hname' := (names_stable hcounts hcounts' hnameLimit hlabelLimit hrun hk hk' rfl).mp hname
  have hlater := settles_admitVocabulary t' c'
  rw [hnameLimit, hlabelLimit] at hlater
  have hsettles := hrun.trans hlater
  rw [mem_labels_iff_row hcounts' hk' hlabelled hname']
  constructor
  · intro hadmitted
    exact hsettles.within.labels ((mem_labels_iff_row hcounts hk hlabelled hname).mp hadmitted)
  intro hrow
  by_contra hfolded
  have hfull := hsettles.labels k.name (labels_full_of_folded hcounts hk hlabelled hname hfolded)
  have hmem : k ∈ (admitVocabulary t' c').2.labelsOf k.name := mem_filter.mpr ⟨hrow, rfl⟩
  rw [hfull] at hmem
  exact hfolded ((mem_labels_iff_row hcounts hk hlabelled hname).mpr (mem_filter.mp hmem).1)

end Settled

end Stable

section Dims

variable {t t' t'' : CappedTable DimValueKey} {c c' : DimCall} {ds ds' : List DimValueKey} {d : DimValueKey}

/-- A value of the batch is admitted when it has a row after the call. -/
theorem mem_values_iff_row (hcounts : c.counts = GoMap.tally ds) (hd : d ∈ ds) :
    d ∈ (admitDims t c).1.values ↔
      d.value = counterOther ∨ d.name = counterOther ∨ d ∈ (admitDims t c).2.keys := by
  rw [mem_values_admitDims hcounts hd, keys_admitDims, mem_union, mem_toFinset]

/-- When nothing is past the cap, every value of the batch is admitted. -/
theorem mem_values_of_room (hcounts : c.counts = GoMap.tally ds) (hroom : (admitDims t c).1.folded = 0) (hd : d ∈ ds) :
    d ∈ (admitDims t c).1.values := by
  rw [mem_values_admitDims hcounts hd]
  by_cases hvalue : d.value = counterOther
  · exact .inl hvalue
  by_cases hname : d.name = counterOther
  · exact .inr (.inl hname)
  by_cases hrow : d ∈ t.keys
  · exact .inr (.inr (.inl hrow))
  have hsent : d ∈ c.keys := (DimCall.mem_keys_iff hcounts).mpr ⟨hd, hvalue, hname⟩
  have hgroup : d.group ∈ c.groups := DimCall.mem_groups_of_mem_keys hsent
  have hplan := (dimsFit_iff hcounts).mp ((folded_admitDims_eq_zero_iff hcounts).mp hroom) d.group hgroup
  refine .inr (.inr (.inr (DimCall.mem_add.mpr ⟨hgroup, ?_⟩)))
  refine mem_planCapped_of_snd_eq_zero (DimCall.countOf_pos hcounts _) hplan
    (DimCall.mem_valuesOf.mpr hsent) (fun hknown => hrow ?_)
  exact (Finset.mem_inter.mp (Finset.mem_filter.mp hknown).2).2

/-- The values stored under a name and key. -/
def dimsOf (t : CappedTable DimValueKey) (g : DimGroup) : Finset DimValueKey := t.keys.filter (fun d => d.group = g)

/-- What later calls under the same limit leave as it is: every row, and all the
values of a name and key that are full. -/
structure DimsSettle (limit : Int) (t t' : CappedTable DimValueKey) : Prop where
  within : t.keys ⊆ t'.keys
  groups : ∀ g, limit ≤ (dimsOf t g).card → dimsOf t' g = dimsOf t g

theorem DimsSettle.refl (limit : Int) (t : CappedTable DimValueKey) : DimsSettle limit t t where
  within := Finset.Subset.refl _
  groups := fun _ _ => rfl

theorem DimsSettle.trans {limit : Int} (h : DimsSettle limit t t') (h' : DimsSettle limit t' t'') :
    DimsSettle limit t t'' where
  within := h.within.trans h'.within
  groups := by
    intro g hfull
    have hsame := h.groups g hfull
    rw [h'.groups g (by rw [hsame]; exact hfull), hsame]

theorem settles_admitDims (t : CappedTable DimValueKey) (c : DimCall) : DimsSettle c.limit t (admitDims t c).2 where
  within := by
    rw [keys_admitDims]
    exact subset_union_left
  groups := by
    intro g hfull
    have hnone : (c.add t).toFinset.filter (fun d => d.group = g) = ∅ := by
      rw [filter_eq_empty_iff]
      rintro d hd rfl
      have hroom : c.limit - (dimsOf t d.group).card ≤ 0 := by omega
      have hplan : (c.planGroup t d.group).1 = [] := planCapped_of_full hroom
      have hvalue := (DimCall.mem_add.mp (mem_toFinset.mp hd)).2
      rw [hplan] at hvalue
      cases hvalue
    unfold dimsOf
    rw [keys_admitDims, filter_union, hnone, union_empty]

/-- A value is folded only when its name and key are full after the call. -/
theorem dims_full_of_folded (hcounts : c.counts = GoMap.tally ds) (hd : d ∈ ds)
    (hfolded : d ∉ (admitDims t c).1.values) : c.limit ≤ (dimsOf (admitDims t c).2 d.group).card := by
  rw [mem_values_iff_row hcounts hd, not_or, not_or] at hfolded
  obtain ⟨hvalue, hname, hout⟩ := hfolded
  have hsent : d ∈ c.keys := (DimCall.mem_keys_iff hcounts).mpr ⟨hd, hvalue, hname⟩
  have hinjective : Function.Injective (fun value => (⟨d.name, d.key, value⟩ : DimValueKey)) :=
    fun _ _ h => congrArg DimValueKey.value h
  have hsubset : dimsOf t d.group ⊆ dimsOf (admitDims t c).2 d.group :=
    filter_subset_filter _ (settles_admitDims t c).within
  refine le_card_of_left_out hinjective (c.knownValues (t.known c.keys) d.group) (c.countOf d.group)
    (c.nodup_valuesOf d.group) ?_ hsubset ?_ (DimCall.mem_valuesOf.mpr hsent) (fun h => hout (mem_filter.mp h).1)
  · intro value hmem
    have hasked := DimCall.mem_valuesOf.mp hmem
    unfold DimCall.knownValues dimsOf
    rw [Finset.mem_filter, Finset.mem_filter, mem_toFinset]
    change _ ∧ (⟨d.name, d.key, value⟩ : DimValueKey) ∈ c.keys.toFinset ∩ t.keys ↔ _
    rw [mem_inter, mem_toFinset]
    exact ⟨fun h => ⟨h.2.2, rfl⟩, fun h => ⟨hmem, hasked, h.1⟩⟩
  · intro value hplanned
    refine mem_filter.mpr ⟨?_, rfl⟩
    rw [keys_admitDims]
    have hgroup : d.group ∈ c.groups := DimCall.mem_groups_of_mem_keys hsent
    exact mem_union_right _ (mem_toFinset.mpr (DimCall.mem_add.mpr ⟨hgroup, hplanned⟩))

theorem dims_stable (hcounts : c.counts = GoMap.tally ds) (hcounts' : c'.counts = GoMap.tally ds')
    (hlimit : c'.limit = c.limit) (hrun : DimsSettle c.limit (admitDims t c).2 t') (hd : d ∈ ds) (hd' : d ∈ ds') :
    d ∈ (admitDims t c).1.values ↔ d ∈ (admitDims t' c').1.values := by
  have hlater := settles_admitDims t' c'
  rw [hlimit] at hlater
  have hsettles := hrun.trans hlater
  rw [mem_values_iff_row hcounts' hd']
  constructor
  · intro hadmitted
    rcases (mem_values_iff_row hcounts hd).mp hadmitted with hvalue | hname | hrow
    · exact .inl hvalue
    · exact .inr (.inl hname)
    · exact .inr (.inr (hsettles.within hrow))
  intro hkept
  by_contra hfolded
  have hout := (mem_values_iff_row hcounts hd).not.mp hfolded
  have hfull := hsettles.groups d.group (dims_full_of_folded hcounts hd hfolded)
  rcases hkept with hvalue | hname | hrow
  · exact hout (.inl hvalue)
  · exact hout (.inr (.inl hname))
  · have hmem : d ∈ dimsOf (admitDims t' c').2 d.group := mem_filter.mpr ⟨hrow, rfl⟩
    rw [hfull] at hmem
    exact hout (.inr (.inr (mem_filter.mp hmem).1))

end Dims

end argvio.storage
