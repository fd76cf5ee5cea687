import Argvio.Storage.Admit

open List Finset

namespace argvio.storage

section Batch

variable {c : AdmitCall} {k : Counted} {name : String}

theorem AdmitCall.ne_other_of_mem_names (h : name ∈ c.names) : name ≠ counterOther := by
  unfold AdmitCall.names at h
  rw [mem_insertionSort, mem_dedup, mem_filter] at h
  simpa using h.2

theorem AdmitCall.exists_key_of_mem_names (h : name ∈ c.names) : ∃ key ∈ c.counts.keys, key.name = name := by
  unfold AdmitCall.names at h
  rw [mem_insertionSort, mem_dedup, mem_filter] at h
  exact mem_map.mp h.1

theorem AdmitCall.label_of_mem_labelsFor {label : String} (h : label ∈ c.labelsFor name) :
    label ≠ "" ∧ label ≠ counterOther := by
  unfold AdmitCall.labelsFor at h
  rw [mem_insertionSort] at h
  obtain ⟨key, hkey, rfl⟩ := mem_map.mp h
  have hfilter := (mem_filter.mp hkey).2
  simp only [decide_eq_true_eq] at hfilter
  exact hfilter.2

theorem AdmitCall.mem_names_of_mem_plan (h : name ∈ (c.plan k).addNames) : name ∈ c.names :=
  (mem_of_mem_planCapped h).1

theorem AdmitCall.mem_addLabels {key : CounterKey} (h : key ∈ c.addLabels k) :
    key.label ∈ (c.planLabels k key.name).1 ∧ key.name ∈ c.keptNames k := by
  obtain ⟨name, hname, hkey⟩ := mem_flatMap.mp h
  obtain ⟨label, hlabel, rfl⟩ := mem_map.mp hkey
  exact ⟨hlabel, hname⟩

/-- The rows a plan adds under one name fit in the slots counted free there. -/
theorem AdmitCall.card_addLabels_le (c : AdmitCall) (k : Counted) (name : String) :
    (((c.addLabels k).toFinset.filter (fun key => key.name = name)).card : Int) ≤
      max (c.labelLimit - k.labelSize name) 0 := by
  have hsubset : (c.addLabels k).toFinset.filter (fun key => key.name = name) ⊆
      ((c.planLabels k name).1.map (fun label => (⟨name, label⟩ : CounterKey))).toFinset := by
    intro key hkey
    rw [Finset.mem_filter, mem_toFinset] at hkey
    obtain ⟨hmem, rfl⟩ := hkey
    rw [mem_toFinset]
    exact mem_map.mpr ⟨key.label, (AdmitCall.mem_addLabels hmem).1, rfl⟩
  have hcard := card_le_card hsubset
  have hmap := toFinset_card_le ((c.planLabels k name).1.map (fun label => (⟨name, label⟩ : CounterKey)))
  rw [length_map] at hmap
  have hlength : ((c.planLabels k name).1.length : Int) ≤ max (c.labelLimit - k.labelSize name) 0 :=
    length_planCapped_le
  omega

end Batch

section Tables

variable (t : Tables) (c : AdmitCall)

theorem Tables.labelsOf_commit (plan : Plan) (name : String) :
    (t.commit c plan).labelsOf name =
      t.labelsOf name ∪ plan.addLabels.toFinset.filter (fun key => key.name = name) := by
  simp [Tables.labelsOf, Tables.commit, filter_union]

end Tables

/-- Only rows of the other tables are left. -/
structure Tables.Within (t t' : Tables) : Prop where
  names : t.names.keys ⊆ t'.names.keys
  labels : t.labels.keys ⊆ t'.labels.keys

variable {t t' : Tables}

theorem Tables.Within.labelsOf_card_le (h : t.Within t') (name : String) :
    (t.labelsOf name).card ≤ (t'.labelsOf name).card :=
  card_le_card (filter_subset_filter _ h.labels)

theorem Tables.sweep_within (t : Tables) (names : Finset String) (labels : Finset CounterKey) :
    (t.sweep names labels).Within t where
  names := sdiff_subset
  labels := sdiff_subset

/-- The counts a transaction made under the lock bound the committed rows. -/
def Counted.Covers (k : Counted) (t : Tables) : Prop :=
  (t.names.keys.card : Int) ≤ k.nameSize ∧ ∀ name, ((t.labelsOf name).card : Int) ≤ k.labelSize name

theorem Counted.Covers.mono {k : Counted} (h : k.Covers t') (hwithin : t.Within t') :
    k.Covers t := by
  obtain ⟨hnames, hlabels⟩ := h
  refine ⟨?_, fun name => ?_⟩
  · have hcard := card_le_card hwithin.names
    omega
  · have hcard := hwithin.labelsOf_card_le name
    have hsize := hlabels name
    omega

/-- What a call has counted so far still holds. -/
def Phase.Sized (t : Tables) : Phase → Prop
  | .countedNames _ nameSize => (t.names.keys.card : Int) ≤ nameSize
  | .counted k => k.Covers t
  | .inserted k => k.Covers t
  | .touched k => k.Covers t
  | _ => True

theorem Phase.Sized.mono {phase : Phase} (h : phase.Sized t') (hwithin : t.Within t') :
    phase.Sized t := by
  cases phase with
  | countedNames known nameSize =>
    have hcard := card_le_card hwithin.names
    simp only [Phase.Sized] at h ⊢
    omega
  | counted k | inserted k | touched k => exact Counted.Covers.mono h hwithin
  | _ => trivial

theorem Phase.sized_of_not_holds {phase : Phase} (h : phase.holds = false) : phase.Sized t := by
  cases phase with
  | countedNames known nameSize | counted k | inserted k | touched k => cases h
  | _ => trivial

variable {phase phase' : Phase} {c : AdmitCall}

/-- A statement leaves the rows as they are, up to their times, except for the
commit of a transaction that holds the lock. -/
theorem advance_cases (h : advance c t phase = some (t', phase')) :
    (t'.names.keys = t.names.keys ∧ t'.labels.keys = t.labels.keys) ∨
      ∃ k, phase = .touched k ∧ t' = t.commit c (c.plan k) ∧ phase' = .returned (c.plan k).admission := by
  cases phase with
  | start =>
    simp only [advance] at h
    split at h <;> cases h <;> exact .inl ⟨rfl, rfl⟩
  | fastNames known =>
    simp only [advance] at h
    split at h
    · split at h <;> cases h <;> exact .inl ⟨rfl, rfl⟩
    · cases h
      exact .inl ⟨rfl, rfl⟩
  | touched k =>
    cases h
    exact .inr ⟨k, rfl, rfl, rfl⟩
  | returned admission | failed => cases h
  | _ =>
    cases h
    exact .inl ⟨rfl, rfl⟩

/-- A call's counts are taken from the rows that are there. -/
theorem advance_sized (hsized : phase.Sized t) (h : advance c t phase = some (t', phase')) : phase'.Sized t' := by
  cases phase with
  | start =>
    simp only [advance] at h
    split at h <;> cases h <;> trivial
  | fastNames known =>
    simp only [advance] at h
    split at h
    · split at h <;> cases h <;> trivial
    · cases h
      trivial
  | reread known =>
    cases h
    exact le_refl _
  | countedNames known nameSize =>
    cases h
    exact ⟨hsized, fun name => le_refl _⟩
  | counted k | inserted k =>
    cases h
    exact hsized
  | returned admission | failed => cases h
  | _ =>
    cases h
    trivial

section Invariant

variable {ι : Type} [DecidableEq ι]

/-- What every interleaving keeps: one transaction at a time holds the lock, its
counts bound the committed rows, and the rows stay within the bounds. -/
structure CapInvariant (nameBound : Nat) (labelBound : String → Nat) (s : System ι) : Prop where
  exclusive : ∀ i, (s.phase i).holds = true → s.holder = some i
  sized : ∀ i, (s.phase i).Sized s.tables
  names_le : s.tables.names.keys.card ≤ nameBound
  labels_le : ∀ name, (s.tables.labelsOf name).card ≤ labelBound name

omit [DecidableEq ι] in
theorem CapInvariant.within {t : Tables} {nameBound : Nat} {labelBound : String → Nat} {s : System ι}
    (hinv : CapInvariant nameBound labelBound s) (hwithin : t.Within s.tables) :
    CapInvariant nameBound labelBound { s with tables := t } where
  exclusive := hinv.exclusive
  sized := fun i => (hinv.sized i).mono hwithin
  names_le := (card_le_card hwithin.names).trans hinv.names_le
  labels_le := fun name => (hwithin.labelsOf_card_le name).trans (hinv.labels_le name)

/-- The lock stays with the one transaction that is in its locked phases. -/
theorem exclusive_update {s : System ι} (hexclusive : ∀ i, (s.phase i).holds = true → s.holder = some i) {i : ι}
    (phase : Phase) (hlock : phase.holds = true → (s.phase i).holds = false → s.holder = none) (j : ι)
    (hj : (Function.update s.phase i phase j).holds = true) :
    (if phase.holds then some i else if (s.phase i).holds then none else s.holder) = some j := by
  by_cases hij : j = i
  · subst hij
    rw [Function.update_self] at hj
    rw [if_pos hj]
  rw [Function.update_of_ne hij] at hj
  have hholder := hexclusive j hj
  have hi : (s.phase i).holds = false := by
    by_contra hne
    have hholder' := hexclusive i (by simpa using hne)
    rw [hholder] at hholder'
    exact hij (Option.some.inj hholder')
  have hphase : phase.holds = false := by
    by_contra hne
    have hfree := hlock (by simpa using hne) hi
    rw [hholder] at hfree
    cases hfree
  simp [hphase, hi, hholder]

end Invariant

end argvio.storage
