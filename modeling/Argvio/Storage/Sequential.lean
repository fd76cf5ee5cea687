import Argvio.CappedCounts
import Argvio.Storage.Dims
import Argvio.Storage.Interleavings

open List

namespace argvio.storage

open AdmitCall

section Dims

variable {t : CappedTable DimValueKey} {c : DimCall} {k : DimValueKey}

theorem DimCall.mem_keys : k ∈ c.keys ↔ k ∈ c.counts.keys ∧ k.value ≠ counterOther ∧ k.name ≠ counterOther := by
  unfold DimCall.keys
  rw [mem_insertionSort, mem_filter]
  simp

theorem DimCall.mem_valuesOf {g : DimGroup} {value : String} :
    value ∈ c.valuesOf g ↔ (⟨g.name, g.key, value⟩ : DimValueKey) ∈ c.keys := by
  unfold DimCall.valuesOf
  rw [mem_map]
  constructor
  · rintro ⟨k, hk, rfl⟩
    obtain ⟨hmem, hgroup⟩ := mem_filter.mp hk
    have hg : k.group = g := by simpa using hgroup
    subst hg
    exact hmem
  · intro hmem
    exact ⟨_, mem_filter.mpr ⟨hmem, by simp [DimValueKey.group]⟩, rfl⟩

theorem DimCall.mem_add : k ∈ c.add t ↔ k.group ∈ c.groups ∧ k.value ∈ (c.planGroup t k.group).1 := by
  unfold DimCall.add
  rw [mem_flatMap]
  constructor
  · rintro ⟨g, hg, hk⟩
    obtain ⟨value, hvalue, rfl⟩ := mem_map.mp hk
    exact ⟨hg, hvalue⟩
  · rintro ⟨hg, hvalue⟩
    exact ⟨k.group, hg, mem_map.mpr ⟨k.value, hvalue, rfl⟩⟩

theorem DimCall.mem_keys_of_mem_add (h : k ∈ c.add t) : k ∈ c.keys := by
  obtain ⟨_, hvalue⟩ := DimCall.mem_add.mp h
  exact DimCall.mem_valuesOf.mp (mem_of_mem_planCapped hvalue).1

/-- A value of a group without rows yet gets the group a row. -/
theorem DimCall.exists_mem_add (hlimit : 0 < c.limit) (hk : k ∈ c.keys) (hempty : ∀ row ∈ t.keys, row.group ≠ k.group) :
    ∃ row ∈ c.add t, row.name = k.name := by
  have hgroup : k.group ∈ c.groups := by
    unfold DimCall.groups
    exact mem_dedup.mpr (mem_map_of_mem hk)
  have hsize : DimCall.sizeOf t k.group = 0 := by
    unfold DimCall.sizeOf
    have hnone := Finset.filter_eq_empty_iff.mpr hempty
    rw [hnone]
    rfl
  have hfresh : k.value ∉ c.knownValues (t.known c.keys) k.group := by
    intro hknown
    have hrow := (Finset.mem_inter.mp (Finset.mem_filter.mp hknown).2).2
    exact hempty _ hrow rfl
  have hroom : 0 < c.limit - DimCall.sizeOf t k.group := by omega
  have hsent : k.value ∈ c.valuesOf k.group := DimCall.mem_valuesOf.mpr hk
  have hplan : ∃ value, value ∈ (c.planGroup t k.group).1 := exists_mem_planCapped hroom hsent hfresh
  obtain ⟨value, hvalue⟩ := hplan
  exact ⟨⟨k.name, k.key, value⟩, DimCall.mem_add.mpr ⟨hgroup, hvalue⟩, rfl⟩

theorem DimCall.planGroup_of_known (hknown : (t.known c.keys).card = c.keys.length) (g : DimGroup) :
    c.planGroup t g = ([], 0) := by
  have hall : c.keys.toFinset ⊆ t.known c.keys := subset_of_card_eq_length Finset.inter_subset_left hknown
  apply planCapped_of_known
  intro value hvalue
  have hkey := hall (mem_toFinset.mpr (DimCall.mem_valuesOf.mp hvalue))
  exact Finset.mem_filter.mpr ⟨mem_toFinset.mpr hvalue, hkey⟩

theorem keys_admitDims (t : CappedTable DimValueKey) (c : DimCall) :
    (admitDims t c).2.keys = t.keys ∪ (c.add t).toFinset := by
  unfold admitDims
  by_cases hnone : c.keys = []
  · have hadd : c.add t = [] := by simp [DimCall.add, DimCall.groups, hnone]
    rw [if_pos hnone, hadd]
    simp
  rw [if_neg hnone]
  by_cases hknown : (t.known c.keys).card = c.keys.length
  · have hadd : c.add t = [] := by
      unfold DimCall.add
      rw [flatMap_eq_nil_iff]
      intro g _
      rw [DimCall.planGroup_of_known hknown]
      rfl
    rw [if_pos hknown, hadd]
    dsimp only
    split <;> simp
  · rw [if_neg hknown]
    rfl

theorem mem_keys_of_mem_admitDims (hmem : k ∈ (admitDims t c).2.keys) (hnew : k ∉ t.keys) : k ∈ c.keys := by
  rw [keys_admitDims] at hmem
  exact DimCall.mem_keys_of_mem_add (mem_toFinset.mp ((Finset.mem_union.mp hmem).resolve_left hnew))

theorem exists_mem_admitDims (hlimit : 0 < c.limit) (hk : k ∈ c.keys) (hempty : ∀ row ∈ t.keys, row.name ≠ k.name) :
    ∃ row ∈ (admitDims t c).2.keys, row.name = k.name := by
  have hgroup : ∀ row ∈ t.keys, row.group ≠ k.group := by
    intro row hrow heq
    exact hempty row hrow (congrArg DimGroup.name heq)
  obtain ⟨row, hrow, hname⟩ := DimCall.exists_mem_add hlimit hk hgroup
  refine ⟨row, ?_, hname⟩
  rw [keys_admitDims]
  exact Finset.mem_union_right _ (mem_toFinset.mpr hrow)

end Dims

section Names

/-- How many data points of a batch carry a name. -/
def points (sent : List String) (name : String) : Int := sent.count name

/-- The names of a batch that have no row yet. -/
def Tables.freshNames (t : Tables) (sent : List String) : Finset String :=
  sent.toFinset.erase counterOther \ t.names.keys

/-- Whether a new name of a batch still fits under the cap: fewer new names than
there are free slots are more frequent, or as frequent and smaller. -/
def Tables.HasRoomFor (t : Tables) (nameLimit : Int) (sent : List String) (name : String) : Prop :=
  (((t.freshNames sent).filter (fun m => Ahead (points sent) m name)).card : Int) < nameLimit - t.names.keys.card

instance (t : Tables) (nameLimit : Int) (sent : List String) (name : String) :
    Decidable (t.HasRoomFor nameLimit sent name) := inferInstanceAs (Decidable (_ < _))

variable {t : Tables} {c : AdmitCall} {ks : List CounterKey} {name label : String}

theorem AdmitCall.mem_names (hcounts : c.counts = GoMap.tally ks) :
    name ∈ c.names ↔ name ∈ (ks.map CounterKey.name).toFinset.erase counterOther := by
  unfold AdmitCall.names
  rw [mem_insertionSort, mem_dedup, mem_filter, Finset.mem_erase, mem_toFinset, hcounts]
  simp only [mem_map, GoMap.mem_keys_tally, decide_eq_true_eq]
  exact and_comm

theorem AdmitCall.pairwise_names (c : AdmitCall) : c.names.Pairwise (· < ·) := by
  have hsorted : c.names.Pairwise (· ≤ ·) := pairwise_insertionSort (· ≤ ·) _
  have hnodup : c.names.Nodup := (perm_insertionSort _ _).nodup_iff.mpr (nodup_dedup _)
  exact (hsorted.and hnodup).imp fun h => lt_of_le_of_ne h.1 h.2

theorem AdmitCall.keptNames_subset (K : Counted) : c.keptNames K ⊆ c.names := fun _ hname =>
  mem_of_mem_filter hname

theorem AdmitCall.planNames_of_known (hnames : c.names.toFinset ⊆ t.names.keys) :
    c.planNames (.of t c) = ([], 0) := by
  apply planCapped_of_known
  intro name hname
  have hmem := mem_toFinset.mpr hname
  exact Finset.mem_inter.mpr ⟨hmem, hnames hmem⟩

theorem AdmitCall.mem_knownLabels_of_known (hpairs : c.pairs.toFinset ⊆ t.labels.keys) (hname : name ∈ c.names)
    (hlabel : label ∈ c.labelsFor name) : label ∈ c.knownLabels (.of t c) name := by
  have hpair : (⟨name, label⟩ : CounterKey) ∈ c.pairs.toFinset :=
    mem_toFinset.mpr (mem_flatMap.mpr ⟨name, hname, mem_map.mpr ⟨label, hlabel, rfl⟩⟩)
  exact Finset.mem_filter.mpr ⟨mem_toFinset.mpr hlabel, Finset.mem_inter.mpr ⟨hpair, hpairs hpair⟩⟩

theorem AdmitCall.planLabels_of_known (hpairs : c.pairs.toFinset ⊆ t.labels.keys) (hname : name ∈ c.names) :
    c.planLabels (.of t c) name = ([], 0) :=
  planCapped_of_known fun _ hlabel => mem_knownLabels_of_known hpairs hname hlabel

/-- Whichever way a call takes, the rows it adds are those it would plan. -/
theorem keys_admitVocabulary (t : Tables) (c : AdmitCall) :
    (admitVocabulary t c).2.names.keys = t.names.keys ∪ (c.planNames (.of t c)).1.toFinset ∧
      (admitVocabulary t c).2.labels.keys = t.labels.keys ∪ (c.addLabels (.of t c)).toFinset := by
  unfold admitVocabulary
  by_cases hnames : c.names = []
  · have hplan : c.planNames (.of t c) = ([], 0) := planCapped_of_known (by simp [hnames])
    have hadd : c.addLabels (.of t c) = [] := by simp [addLabels, keptNames, hnames]
    rw [if_pos hnames, hplan, hadd]
    simp
  rw [if_neg hnames]
  by_cases hcomplete : (readLabels t c (readNames t c)).complete c
  · obtain ⟨hknown, hpairs⟩ := readNames_backed.complete hcomplete
    have hadd : c.addLabels (.of t c) = [] := by
      unfold addLabels
      rw [flatMap_eq_nil_iff]
      intro name hname
      rw [planLabels_of_known hpairs (keptNames_subset _ hname)]
      rfl
    simp only [if_pos hcomplete]
    rw [planNames_of_known hknown, hadd]
    split <;> simp [touchLabels, touchNames]
  · simp only [if_neg hcomplete]
    exact ⟨rfl, rfl⟩

section Tallied

variable (hcounts : c.counts = GoMap.tally ks)

include hcounts

theorem AdmitCall.nameCount_eq : c.nameCount = points (ks.map CounterKey.name) := by
  funext name
  unfold AdmitCall.nameCount points
  rw [hcounts, count, countP_map]
  exact GoMap.sum_tally (fun k => k.name == name) ks

theorem Tables.mem_freshNames :
    name ∈ t.freshNames (ks.map CounterKey.name) ↔ name ∈ c.names ∧ name ∉ t.names.keys := by
  unfold Tables.freshNames
  rw [Finset.mem_sdiff, AdmitCall.mem_names hcounts]

theorem AdmitCall.mem_planNames :
    name ∈ (c.planNames (.of t c)).1 ↔
      name ∈ t.freshNames (ks.map CounterKey.name) ∧ t.HasRoomFor c.nameLimit (ks.map CounterKey.name) name := by
  have hknown : ∀ a ∈ c.names, (a ∉ t.names.known c.names ↔ a ∉ t.names.keys) := by
    intro a ha
    simp [CappedTable.known, ha]
  have hahead : (c.names.filter (fun a => a ∉ t.names.known c.names ∧ Ahead c.nameCount a name)).length =
      ((t.freshNames (ks.map CounterKey.name)).filter
        (fun m => Ahead (points (ks.map CounterKey.name)) m name)).card := by
    have hnodup : c.names.Nodup := c.pairwise_names.imp fun h => h.ne
    rw [← toFinset_card_of_nodup (hnodup.filter _), AdmitCall.nameCount_eq hcounts]
    congr 1
    ext a
    rw [mem_toFinset, mem_filter, Finset.mem_filter, Tables.mem_freshNames hcounts]
    simp only [decide_eq_true_eq]
    constructor
    · rintro ⟨ha, hfresh, hbefore⟩
      exact ⟨⟨ha, (hknown a ha).mp hfresh⟩, hbefore⟩
    · rintro ⟨⟨ha, hfresh⟩, hbefore⟩
      exact ⟨ha, (hknown a ha).mpr hfresh, hbefore⟩
  have hplan : name ∈ (c.planNames (.of t c)).1 ↔ (name ∈ c.names ∧ name ∉ t.names.known c.names) ∧
      ((c.names.filter (fun a => a ∉ t.names.known c.names ∧ Ahead c.nameCount a name)).length : Int) <
        c.nameLimit - t.names.keys.card := mem_planCapped_iff c.pairwise_names
  rw [hahead] at hplan
  refine Iff.trans hplan (and_congr_left fun _ => ?_)
  rw [Tables.mem_freshNames hcounts]
  exact and_congr_right fun ha => hknown name ha

/-- A call keeps the names that are there and adds the new ones with room. -/
theorem mem_names_admitVocabulary :
    name ∈ (admitVocabulary t c).2.names.keys ↔
      name ∈ t.names.keys ∨
        name ∈ t.freshNames (ks.map CounterKey.name) ∧ t.HasRoomFor c.nameLimit (ks.map CounterKey.name) name := by
  rw [(keys_admitVocabulary t c).1, Finset.mem_union, mem_toFinset, AdmitCall.mem_planNames hcounts]

end Tallied

/-- Within its cap the table of names stays within its cap. -/
theorem card_names_admitVocabulary {bound : Nat} (hnames : t.names.keys.card ≤ bound) (hlimit : c.nameLimit ≤ bound) :
    (admitVocabulary t c).2.names.keys.card ≤ bound := by
  let limits := fun name => max (t.labelsOf name).card c.labelLimit.toNat
  have hstart : CapInvariant bound limits (System.start t : System Unit) :=
    .start hnames (fun name => le_max_left _ _)
  have hreaches : ReachesUnswept (fun _ : Unit => c) (System.start t) _ := reaches_admitVocabulary (i := ()) rfl t
  have hlabels : ∀ (i : Unit) name, ((fun _ : Unit => c) i).labelLimit ≤ (limits name : Int) := by
    intro i name
    have hle := le_max_right (t.labelsOf name).card c.labelLimit.toNat
    simp only [limits]
    omega
  exact (hstart.reaches (fun _ => hlimit) hlabels hreaches.reaches).names_le

end Names

end argvio.storage
