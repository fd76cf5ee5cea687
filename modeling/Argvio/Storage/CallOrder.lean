import Argvio.Storage.FoldCounts

namespace argvio.storage

/-- Calls that differ at most in the order in which their batches are visited. -/
structure AdmitCall.Same (c c' : AdmitCall) : Prop where
  counts : GoMap.Same c.counts c'.counts
  nameLimit : c.nameLimit = c'.nameLimit
  labelLimit : c.labelLimit = c'.labelLimit
  now : c.now = c'.now

namespace AdmitCall.Same

variable {c c' : AdmitCall}

section Same

variable (h : c.Same c')

include h

theorem names_eq : c.names = c'.names := by
  exact insertionSort_eq_of_perm (((h.counts.keys_perm.map CounterKey.name).filter _).dedup)

theorem labelsFor_eq : c.labelsFor = c'.labelsFor := by
  funext name
  exact insertionSort_eq_of_perm ((h.counts.keys_perm.filter _).map CounterKey.label)

theorem nameCount_eq : c.nameCount = c'.nameCount := by
  funext name
  exact ((h.counts.filter _).map Sigma.snd).sum_eq

theorem labelCount_eq : c.labelCount = c'.labelCount := by
  funext name label
  unfold AdmitCall.labelCount
  rw [h.counts.lookup_eq]

theorem pairs_eq : c.pairs = c'.pairs := by
  unfold AdmitCall.pairs
  rw [h.names_eq, h.labelsFor_eq]

theorem staleBefore_eq : c.staleBefore = c'.staleBefore := by
  unfold AdmitCall.staleBefore
  rw [h.now]

theorem plan_eq : c.plan = c'.plan := by
  have hplanNames : c.planNames = c'.planNames := by
    funext k
    unfold AdmitCall.planNames
    rw [h.names_eq, h.nameCount_eq, h.nameLimit]
  have hkeptNames : c.keptNames = c'.keptNames := by
    funext k
    unfold AdmitCall.keptNames AdmitCall.keptNameSet
    rw [h.names_eq, h.labelsFor_eq, hplanNames]
  have hknownLabels : c.knownLabels = c'.knownLabels := by
    funext k name
    unfold AdmitCall.knownLabels
    rw [h.labelsFor_eq]
  have hplanLabels : c.planLabels = c'.planLabels := by
    funext k name
    unfold AdmitCall.planLabels
    rw [h.labelsFor_eq, hknownLabels, h.labelCount_eq, h.labelLimit]
  funext k
  unfold AdmitCall.plan AdmitCall.keptNameSet AdmitCall.knownPairs AdmitCall.addLabels
  rw [h.names_eq, h.labelsFor_eq, hplanNames, hkeptNames, hknownLabels, hplanLabels]

theorem commit_eq (t : Tables) (plan : Plan) : t.commit c plan = t.commit c' plan := by
  unfold Tables.commit
  rw [h.names_eq, h.pairs_eq, h.staleBefore_eq, h.now]

theorem readLabels_eq (t : Tables) : readLabels t c (readNames t c) = readLabels t c' (readNames t c') := by
  unfold readLabels readNames
  rw [h.names_eq, h.pairs_eq, h.staleBefore_eq]

/-- What a call decides and writes does not depend on the order of its batch. -/
theorem admitVocabulary_eq (t : Tables) : admitVocabulary t c = admitVocabulary t c' := by
  have htouch : touchLabels (touchNames t c) c = touchLabels (touchNames t c') c' := by
    unfold touchLabels touchNames
    rw [h.names_eq, h.pairs_eq, h.staleBefore_eq, h.now]
  have hall : c.allAdmitted = c'.allAdmitted := by
    unfold AdmitCall.allAdmitted
    rw [h.names_eq, h.pairs_eq]
  have hcomplete : ∀ known : KnownCounterSet, known.complete c ↔ known.complete c' := by
    intro known
    unfold KnownCounterSet.complete
    rw [h.names_eq, h.pairs_eq]
  have hcounted : Counted.of t c = Counted.of t c' := by
    unfold Counted.of
    rw [h.readLabels_eq]
  unfold admitVocabulary
  simp only [h.names_eq, h.readLabels_eq, hcomplete, htouch, hall, h.plan_eq, hcounted, h.commit_eq]

end Same


end AdmitCall.Same

theorem DimValueKey.le_total (a b : DimValueKey) : a.le b ∨ b.le a := by
  unfold DimValueKey.le
  rcases lt_trichotomy a.name b.name with hname | hname | hname
  · exact .inl (.inl hname)
  · rcases lt_trichotomy a.key b.key with hkey | hkey | hkey
    · exact .inl (.inr ⟨hname, .inl hkey⟩)
    · rcases le_or_gt a.value b.value with hvalue | hvalue
      · exact .inl (.inr ⟨hname, .inr ⟨hkey, hvalue⟩⟩)
      · exact .inr (.inr ⟨hname.symm, .inr ⟨hkey.symm, hvalue.le⟩⟩)
    · exact .inr (.inr ⟨hname.symm, .inl hkey⟩)
  · exact .inr (.inl hname)

instance : Std.Total DimValueKey.le := ⟨DimValueKey.le_total⟩

instance : IsTrans DimValueKey DimValueKey.le := ⟨fun a b c hab hbc => by
  unfold DimValueKey.le at *
  grind⟩

instance : Std.Antisymm DimValueKey.le := ⟨fun a b hab hba => by
  unfold DimValueKey.le at *
  cases a
  cases b
  grind⟩

/-- Calls that differ at most in the order in which their batches are visited. -/
structure DimCall.Same (c c' : DimCall) : Prop where
  counts : GoMap.Same c.counts c'.counts
  limit : c.limit = c'.limit
  now : c.now = c'.now

namespace DimCall.Same

variable {c c' : DimCall}

theorem keys_eq (h : c.Same c') : c.keys = c'.keys := by
  exact insertionSort_eq_of_perm (h.counts.keys_perm.filter _)

theorem always_eq (h : c.Same c') : c.always = c'.always := by
  exact List.toFinset_eq_of_perm _ _ (h.counts.keys_perm.filter _)

theorem planGroup_eq (h : c.Same c') : c.planGroup = c'.planGroup := by
  have hvalues : c.valuesOf = c'.valuesOf := by
    funext g
    unfold DimCall.valuesOf
    rw [h.keys_eq]
  have hcount : c.countOf = c'.countOf := by
    funext g value
    unfold DimCall.countOf
    rw [h.counts.lookup_eq]
  funext t g
  unfold DimCall.planGroup DimCall.knownValues
  rw [h.keys_eq, hvalues, hcount, h.limit]

/-- What a call decides and writes does not depend on the order of its batch. -/
theorem admitDims_eq (h : c.Same c') (t : CappedTable DimValueKey) : admitDims t c = admitDims t c' := by
  have hgroups : c.groups = c'.groups := by
    unfold DimCall.groups
    rw [h.keys_eq]
  have hadd : c.add t = c'.add t := by
    unfold DimCall.add
    rw [hgroups, h.planGroup_eq]
  have hstale : c.staleBefore = c'.staleBefore := by
    unfold DimCall.staleBefore
    rw [h.now]
  unfold admitDims
  rw [h.keys_eq, h.always_eq, hadd, hgroups, h.planGroup_eq, hstale, h.now]

end DimCall.Same

end argvio.storage
