import Argvio.CappedCounts
import Argvio.Storage.ErrorReasons
import Argvio.Storage.Sequential

open List

namespace argvio.storage

open AdmitCall

section Reasons

/-- Every new reason of a batch has room under the cap. -/
def ErrorReasons.Fits (t : ErrorReasons) (limit : Int) (sent : List String) : Prop :=
  ((sent.toFinset.erase errorReasonOther \ t.reasons.keys).card : Int) ≤ max (limit - t.reasons.keys.card) 0

variable {t : ErrorReasons} {c : ReasonCall} {sent : List String} {r : String}

/-- The plan of a call that nobody disturbs. -/
def ReasonCall.plan (c : ReasonCall) (t : ErrorReasons) : List String × Int :=
  planVocabulary c.names (t.reasons.known c.names) c.count (c.limit - t.reasons.keys.card)

theorem ReasonCall.mem_names (hcounts : c.counts = GoMap.tally sent) :
    r ∈ c.names ↔ r ∈ sent ∧ r ≠ errorReasonOther := by
  unfold ReasonCall.names
  rw [mem_insertionSort, mem_filter, hcounts, GoMap.mem_keys_tally, decide_eq_true_eq]

theorem ReasonCall.nodup_names (c : ReasonCall) : c.names.Nodup :=
  (perm_insertionSort _ _).nodup_iff.mpr (c.counts.keys_nodup.filter _)

section Sent

variable (hcounts : c.counts = GoMap.tally sent)

include hcounts

theorem ReasonCall.count_eq (hr : r ∈ c.names) : c.count r = (sent.countP (fun a => a = r) : Int) := by
  unfold ReasonCall.count
  rw [hcounts, GoMap.lookup_tally, if_pos ((ReasonCall.mem_names hcounts).mp hr).1]
  rfl

theorem ReasonCall.count_pos : ∀ r ∈ c.names, 0 < c.count r := by
  intro r hr
  rw [ReasonCall.count_eq hcounts hr]
  have hcount : 0 < sent.countP (fun a => a = r) :=
    countP_pos_iff.mpr ⟨r, ((ReasonCall.mem_names hcounts).mp hr).1, by simp⟩
  omega

/-- Whichever way a call takes, it answers by its plan. -/
theorem admitErrorReasons_cases :
    (admitErrorReasons t c).1.folded = (c.plan t).2 ∧
      (admitErrorReasons t c).2.foldedCount = t.foldedCount + (c.plan t).2 ∧
      ∀ r ∈ sent, r ∈ (admitErrorReasons t c).1.reasons ↔
        r = errorReasonOther ∨ r ∈ t.reasons.known c.names ∨ r ∈ (c.plan t).1 := by
  unfold admitErrorReasons
  by_cases hnames : c.names = []
  · have hplan : c.plan t = ([], 0) := planCapped_of_known (by simp [hnames])
    rw [if_pos hnames, hplan]
    refine ⟨rfl, (Int.add_zero _).symm, fun r hr => ?_⟩
    have hother : r = errorReasonOther := by
      by_contra hne
      have hmem := (ReasonCall.mem_names hcounts).mpr ⟨hr, hne⟩
      rw [hnames] at hmem
      cases hmem
    simp [hother]
  · rw [if_neg hnames]
    by_cases hknown : (t.reasons.known c.names).card = c.names.length
    · have hall : c.names.toFinset ⊆ t.reasons.known c.names :=
        subset_of_card_eq_length Finset.inter_subset_left hknown
      have hplan : c.plan t = ([], 0) := planCapped_of_known (fun r hr => hall (mem_toFinset.mpr hr))
      simp only [if_pos hknown, hplan]
      refine ⟨trivial, ?_, fun r hr => ?_⟩
      · split <;> exact (Int.add_zero _).symm
      by_cases hother : r = errorReasonOther
      · simp [hother]
      · have hmem := (ReasonCall.mem_names hcounts).mpr ⟨hr, hother⟩
        simp [hmem, hall (mem_toFinset.mpr hmem)]
    · simp only [if_neg hknown]
      refine ⟨rfl, ?_, fun r _ => ?_⟩
      · have hpos : 0 ≤ (c.plan t).2 := snd_planCapped_nonneg (ReasonCall.count_pos hcounts)
        change ErrorReasons.foldedCount (ErrorReasons.record _ (c.plan t).2 c.now) = _
        unfold ErrorReasons.record
        split
        · rfl
        · dsimp only
          omega
      · simp [ReasonCall.plan]

/-- A call counts the records whose reason it does not admit. -/
theorem folded_admitErrorReasons :
    (admitErrorReasons t c).1.folded = (sent.countP (fun r => r ∉ (admitErrorReasons t c).1.reasons) : Int) := by
  obtain ⟨hfolded, -, hmem⟩ := admitErrorReasons_cases (t := t) hcounts
  have hplan : (c.plan t).2 = _ :=
    snd_planCapped_eq_countP id sent c.nodup_names (fun r hr => ReasonCall.count_eq hcounts hr)
  rw [hfolded, hplan]
  congr 1
  apply countP_congr
  intro r hr
  have hnames := ReasonCall.mem_names (r := r) hcounts
  have hadmitted := hmem r hr
  simp only [id_eq, decide_eq_true_eq]
  unfold ReasonCall.plan planVocabulary at hadmitted
  grind

theorem folded_admitErrorReasons_eq_zero_iff : (admitErrorReasons t c).1.folded = 0 ↔ t.Fits c.limit sent := by
  rw [(admitErrorReasons_cases hcounts).1]
  refine snd_planCapped_eq_zero_iff_card Function.injective_id c.nodup_names (ReasonCall.count_pos hcounts) fun r => ?_
  have hnames := ReasonCall.mem_names (r := r) hcounts
  simp only [mem_toFinset, Finset.mem_sdiff, Finset.mem_erase, CappedTable.known, Finset.mem_inter, id_eq,
    exists_eq_right_right]
  grind

end Sent

end Reasons

section Names

/-- Every new name of a batch has room under the cap. -/
def Tables.NamesFit (t : Tables) (nameLimit : Int) (ks : List CounterKey) : Prop :=
  ((t.freshNames (ks.map CounterKey.name)).card : Int) ≤ max (nameLimit - t.names.keys.card) 0

/-- The labels of a batch under one name that have no row yet. -/
def Tables.freshLabels (t : Tables) (ks : List CounterKey) (name : String) : Finset CounterKey :=
  ks.toFinset.filter (fun k => k.name = name ∧ k.label ≠ "" ∧ k.label ≠ counterOther) \ t.labels.keys

/-- Every new label of a batch has room under the cap of its name. -/
def Tables.LabelsFit (t : Tables) (labelLimit : Int) (ks : List CounterKey) : Prop :=
  ∀ name, name ≠ counterOther →
    ((t.freshLabels ks name).card : Int) ≤ max (labelLimit - (t.labelsOf name).card) 0

/-- The name of the series is kept, and its label is one the caps decide about. -/
def CounterKey.Labelled (k : CounterKey) : Prop := k.name ≠ counterOther ∧ k.label ≠ "" ∧ k.label ≠ counterOther

instance (k : CounterKey) : Decidable k.Labelled := inferInstanceAs (Decidable (_ ∧ _))

variable {t : Tables} {c : AdmitCall} {ks : List CounterKey} {k : CounterKey} {name label : String}

theorem AdmitCall.nodup_names (c : AdmitCall) : c.names.Nodup := c.pairwise_names.imp fun h => h.ne

theorem AdmitCall.mem_names_iff (hcounts : c.counts = GoMap.tally ks) (hk : k ∈ ks) :
    k.name ∈ c.names ↔ k.name ≠ counterOther := by
  rw [mem_names hcounts, Finset.mem_erase, mem_toFinset]
  exact and_iff_left (mem_map_of_mem hk)

theorem AdmitCall.mem_labelsFor (hcounts : c.counts = GoMap.tally ks) :
    label ∈ c.labelsFor name ↔ ⟨name, label⟩ ∈ ks ∧ label ≠ "" ∧ label ≠ counterOther := by
  unfold labelsFor
  rw [mem_insertionSort, mem_map, hcounts]
  constructor
  · rintro ⟨⟨n, l⟩, hkey, rfl⟩
    obtain ⟨hmem, htest⟩ := mem_filter.mp hkey
    obtain ⟨rfl, hlabel⟩ := of_decide_eq_true htest
    exact ⟨GoMap.mem_keys_tally.mp hmem, hlabel⟩
  · rintro ⟨hmem, hlabel⟩
    exact ⟨⟨name, label⟩, mem_filter.mpr ⟨GoMap.mem_keys_tally.mpr hmem, by simp [hlabel]⟩, rfl⟩

theorem AdmitCall.nodup_labelsFor (c : AdmitCall) (name : String) : (c.labelsFor name).Nodup := by
  refine (perm_insertionSort _ _).nodup_iff.mpr (List.Nodup.map_on ?_ (c.counts.keys_nodup.filter _))
  intro k hk k' hk' heq
  obtain ⟨hname, -⟩ := of_decide_eq_true (mem_filter.mp hk).2
  obtain ⟨hname', -⟩ := of_decide_eq_true (mem_filter.mp hk').2
  cases k
  cases k'
  simp_all

theorem AdmitCall.mem_pairs (hcounts : c.counts = GoMap.tally ks) (hk : k ∈ ks) (hlabelled : k.Labelled) :
    k ∈ c.pairs := by
  unfold pairs
  refine mem_flatMap.mpr ⟨k.name, (mem_names_iff hcounts hk).mpr hlabelled.1, ?_⟩
  exact mem_map.mpr ⟨k.label, (mem_labelsFor hcounts).mpr ⟨hk, hlabelled.2⟩, rfl⟩

theorem AdmitCall.nameCount_eq_countP (hcounts : c.counts = GoMap.tally ks) (name : String) :
    c.nameCount name = (ks.countP (fun k => k.name = name) : Int) := by
  rw [nameCount_eq hcounts, points, count, countP_map]
  rfl

theorem AdmitCall.labelCount_eq_countP (hcounts : c.counts = GoMap.tally ks) (hlabel : label ∈ c.labelsFor name) :
    c.labelCount name label = (ks.countP (fun k => k.name = name ∧ k.label = label) : Int) := by
  unfold labelCount
  rw [hcounts, GoMap.lookup_tally, if_pos ((mem_labelsFor hcounts).mp hlabel).1, Option.getD_some]
  congr 1
  apply countP_congr
  intro k _
  cases k
  simp

/-- Whichever way a call takes, it answers what it would plan. -/
structure CounterAdmission.Answers (ks : List CounterKey) (adm plan : CounterAdmission) : Prop where
  foldedNames : adm.foldedNames = plan.foldedNames
  foldedLabels : adm.foldedLabels = plan.foldedLabels
  names : ∀ k ∈ ks, k.name ∈ adm.names ↔ k.name ∈ plan.names
  labels : ∀ k ∈ ks, k.Labelled → (k ∈ adm.labels ↔ k ∈ plan.labels)

variable (K : Counted)

theorem AdmitCall.mem_keptNames (hcounts : c.counts = GoMap.tally ks) (hk : k ∈ ks) (hlabelled : k.Labelled) :
    k.name ∈ c.keptNames K ↔ k.name ∈ c.keptNameSet K := by
  have hname := (mem_names_iff hcounts hk).mpr hlabelled.1
  have hlabel : k.label ∈ c.labelsFor k.name := (mem_labelsFor hcounts).mpr ⟨hk, hlabelled.2⟩
  unfold keptNames
  rw [mem_filter, decide_eq_true_eq]
  exact ⟨fun h => h.2.1, fun h => ⟨hname, h, ne_nil_of_mem hlabel⟩⟩

theorem AdmitCall.mem_knownPairs :
    k ∈ c.knownPairs K ↔ k.name ∈ c.keptNames K ∧ k.label ∈ c.labelsFor k.name ∧ k.label ∈ c.knownLabels K k.name := by
  unfold knownPairs
  rw [mem_flatMap]
  constructor
  · rintro ⟨name, hname, hk⟩
    obtain ⟨label, hlabel, rfl⟩ := mem_map.mp hk
    obtain ⟨hsent, hknown⟩ := mem_filter.mp hlabel
    exact ⟨hname, hsent, of_decide_eq_true hknown⟩
  · rintro ⟨hname, hsent, hknown⟩
    exact ⟨k.name, hname, mem_map.mpr ⟨k.label, mem_filter.mpr ⟨hsent, decide_eq_true hknown⟩, rfl⟩⟩

theorem AdmitCall.mem_addLabels_iff :
    k ∈ c.addLabels K ↔ k.name ∈ c.keptNames K ∧ k.label ∈ (c.planLabels K k.name).1 := by
  constructor
  · intro h
    exact (mem_addLabels h).symm
  · rintro ⟨hname, hlabel⟩
    exact mem_flatMap.mpr ⟨k.name, hname, mem_map.mpr ⟨k.label, hlabel, rfl⟩⟩

theorem answers_of_no_names (hcounts : c.counts = GoMap.tally ks) (hnames : c.names = []) :
    CounterAdmission.Answers ks { names := {counterOther}, labels := ∅, foldedNames := 0, foldedLabels := 0 }
      (c.plan (.of t c)).admission := by
  have hother : ∀ k ∈ ks, k.name = counterOther := by
    intro k hk
    by_contra hne
    have hmem := (mem_names_iff hcounts hk).mpr hne
    rw [hnames] at hmem
    cases hmem
  have hplan : c.planNames (.of t c) = ([], 0) := planCapped_of_known (by simp [hnames])
  have hkept : c.keptNames (.of t c) = [] := by simp [keptNames, hnames]
  refine ⟨?_, ?_, fun k hk => ?_, fun k hk hlabelled => absurd (hother k hk) hlabelled.1⟩
  · simp [plan, hplan]
  · simp [plan, hkept]
  · simp [hother k hk, plan, keptNameSet]

section Answered

variable (hcounts : c.counts = GoMap.tally ks)

include hcounts

theorem answers_allAdmitted (hnames : c.names.toFinset ⊆ t.names.keys) (hpairs : c.pairs.toFinset ⊆ t.labels.keys) :
    CounterAdmission.Answers ks c.allAdmitted (c.plan (.of t c)).admission := by
  have hknown : ∀ name ∈ c.names, name ∈ (Counted.of t c).known.names := by
    intro name hname
    have hmem := mem_toFinset.mpr hname
    exact Finset.mem_inter.mpr ⟨hmem, hnames hmem⟩
  have hkept : ∀ name ∈ c.names, name ∈ c.keptNameSet (.of t c) := by
    intro name hname
    unfold keptNameSet
    exact Finset.mem_union_left _ (Finset.mem_union_right _
      (Finset.mem_inter.mpr ⟨mem_toFinset.mpr hname, hknown name hname⟩))
  refine ⟨?_, ?_, fun k hk => ?_, fun k hk hlabelled => ?_⟩
  · simp [allAdmitted, plan, planNames_of_known hnames]
  · have hplan : ∀ name ∈ c.keptNames (.of t c), (c.planLabels (.of t c) name).2 = 0 := by
      intro name hname
      rw [planLabels_of_known hpairs (keptNames_subset _ hname)]
    have hzero : ((c.keptNames (.of t c)).map (fun name => (c.planLabels (.of t c) name).2)).sum = 0 :=
      sum_eq_zero (by simpa using hplan)
    exact hzero.symm
  · by_cases hother : k.name = counterOther
    · simp [hother, allAdmitted, plan, keptNameSet]
    · have hname := (mem_names_iff hcounts hk).mpr hother
      have hplanned : k.name ∈ (c.plan (.of t c)).admission.names := hkept _ hname
      simp [allAdmitted, hname, hplanned]
  · have hname := (mem_names_iff hcounts hk).mpr hlabelled.1
    have hlabel : k.label ∈ c.labelsFor k.name := (mem_labelsFor hcounts).mpr ⟨hk, hlabelled.2⟩
    have hpair : k ∈ c.knownPairs (.of t c) := (mem_knownPairs _).mpr
      ⟨(mem_keptNames _ hcounts hk hlabelled).mpr (hkept _ hname), hlabel,
      mem_knownLabels_of_known hpairs hname hlabel⟩
    have hplanned : k ∈ (c.plan (.of t c)).admission.labels :=
      Finset.mem_union_left _ (mem_toFinset.mpr hpair)
    simp [allAdmitted, mem_pairs hcounts hk hlabelled, hplanned]

theorem answers_admitVocabulary :
    CounterAdmission.Answers ks (admitVocabulary t c).1 (c.plan (.of t c)).admission := by
  unfold admitVocabulary
  by_cases hnames : c.names = []
  · rw [if_pos hnames]
    exact answers_of_no_names hcounts hnames
  rw [if_neg hnames]
  by_cases hcomplete : (readLabels t c (readNames t c)).complete c
  · simp only [if_pos hcomplete]
    obtain ⟨hknown, hpairs⟩ := readNames_backed.complete hcomplete
    exact answers_allAdmitted hcounts hknown hpairs
  · simp only [if_neg hcomplete]
    exact ⟨rfl, rfl, fun _ _ => Iff.rfl, fun _ _ _ => Iff.rfl⟩

/-- A call counts the data points whose name it does not admit. -/
theorem foldedNames_admitVocabulary :
    (admitVocabulary t c).1.foldedNames = (ks.countP (fun k => k.name ∉ (admitVocabulary t c).1.names) : Int) := by
  have hanswers := answers_admitVocabulary (t := t) hcounts
  have hplan : (c.plan (.of t c)).admission.foldedNames = _ :=
    snd_planCapped_eq_countP CounterKey.name ks c.nodup_names
      (fun name _ => nameCount_eq_countP hcounts name)
  rw [hanswers.foldedNames, hplan]
  congr 1
  apply countP_congr
  intro k hk
  have hnames := mem_names_iff hcounts hk
  have hadmitted := hanswers.names k hk
  simp only [plan, keptNameSet, planNames, planVocabulary, Finset.mem_union,
    Finset.mem_singleton, Finset.mem_inter, mem_toFinset] at hadmitted
  simp only [decide_eq_true_eq]
  grind

/-- A call counts the data points whose name it admits and whose label it does not. -/
theorem foldedLabels_admitVocabulary :
    (admitVocabulary t c).1.foldedLabels = (ks.countP (fun k => k.name ∈ (admitVocabulary t c).1.names ∧ k.Labelled ∧
      k ∉ (admitVocabulary t c).1.labels) : Int) := by
  have hanswers := answers_admitVocabulary (t := t) hcounts
  have hplan : (c.plan (.of t c)).admission.foldedLabels = _ :=
    sum_planCapped_eq_countP CounterKey.name CounterKey.label ks (c.nodup_names.filter _) c.nodup_labelsFor
      (fun name label hlabel => labelCount_eq_countP hcounts hlabel)
  rw [hanswers.foldedLabels, hplan]
  congr 1
  apply countP_congr
  intro k hk
  simp only [decide_eq_true_eq]
  rw [hanswers.names k hk]
  by_cases hlabelled : k.Labelled
  · have hlabel : k.label ∈ c.labelsFor k.name := (mem_labelsFor hcounts).mpr ⟨hk, hlabelled.2⟩
    have hkept := mem_keptNames (.of t c) hcounts hk hlabelled
    have hadmitted : k ∈ (admitVocabulary t c).1.labels ↔
        k ∈ c.knownPairs (.of t c) ∨ k ∈ c.addLabels (.of t c) := by
      rw [hanswers.labels k hk hlabelled]
      simp [plan]
    rw [mem_knownPairs, mem_addLabels_iff] at hadmitted
    unfold keptNames planLabels planVocabulary at hadmitted
    unfold keptNames at hkept
    change _ ↔ k.name ∈ c.keptNameSet (.of t c) ∧ _
    grind
  · refine iff_of_false ?_ (fun h => hlabelled h.2.1)
    rintro ⟨hname, hlabel, -⟩
    have hother := (mem_names_iff hcounts hk).mp (mem_of_mem_filter hname)
    exact hlabelled ⟨hother, ((mem_labelsFor hcounts).mp hlabel).2⟩

end Answered

/-- What a call adds to the overflow row. -/
structure Overflow.Adds (before after : Overflow) (names labels dims : Int) : Prop where
  foldedNames : after.foldedNames = before.foldedNames + names
  foldedLabels : after.foldedLabels = before.foldedLabels + labels
  foldedDimValues : after.foldedDimValues = before.foldedDimValues + dims

theorem Overflow.Adds.zero (o : Overflow) : o.Adds o 0 0 0 :=
  ⟨(Int.add_zero _).symm, (Int.add_zero _).symm, (Int.add_zero _).symm⟩

section Overflow

variable (hcounts : c.counts = GoMap.tally ks)

include hcounts

theorem overflow_admitVocabulary :
    t.overflow.Adds (admitVocabulary t c).2.overflow (admitVocabulary t c).1.foldedNames
      (admitVocabulary t c).1.foldedLabels 0 := by
  have hnames := foldedNames_admitVocabulary (t := t) hcounts
  have hlabels := foldedLabels_admitVocabulary (t := t) hcounts
  unfold admitVocabulary at hnames hlabels ⊢
  by_cases hnone : c.names = []
  · rw [if_pos hnone]
    exact .zero _
  rw [if_neg hnone] at hnames hlabels ⊢
  by_cases hcomplete : (readLabels t c (readNames t c)).complete c
  · simp only [if_pos hcomplete]
    have hoverflow : ∀ stale : Bool,
        (if stale then touchLabels (touchNames t c) c else t).overflow = t.overflow := by
      intro stale
      cases stale <;> rfl
    rw [hoverflow]
    exact .zero _
  · simp only [if_neg hcomplete] at hnames hlabels ⊢
    unfold Tables.commit Overflow.record
    dsimp only
    split
    · exact ⟨rfl, rfl, (Int.add_zero _).symm⟩
    · constructor <;> omega

theorem AdmitCall.nameCount_pos : ∀ name ∈ c.names, 0 < c.nameCount name := by
  intro name hname
  rw [nameCount_eq_countP hcounts]
  obtain ⟨k, hk, heq⟩ := mem_map.mp
    (mem_toFinset.mp (Finset.mem_of_mem_erase ((mem_names hcounts).mp hname)))
  have hpos : 0 < ks.countP (fun k => k.name = name) := countP_pos_iff.mpr ⟨k, hk, by simp [heq]⟩
  omega

theorem AdmitCall.labelCount_pos (name : String) : ∀ label ∈ c.labelsFor name, 0 < c.labelCount name label := by
  intro label hlabel
  rw [labelCount_eq_countP hcounts hlabel]
  have hk := ((mem_labelsFor hcounts).mp hlabel).1
  have hpos : 0 < ks.countP (fun k => k.name = name ∧ k.label = label) :=
    countP_pos_iff.mpr ⟨_, hk, by simp⟩
  omega

theorem foldedNames_eq_zero_iff : (admitVocabulary t c).1.foldedNames = 0 ↔ t.NamesFit c.nameLimit ks := by
  rw [(answers_admitVocabulary hcounts).foldedNames]
  refine snd_planCapped_eq_zero_iff_card Function.injective_id c.nodup_names (nameCount_pos hcounts) fun name => ?_
  change _ ↔ ∃ k ∈ c.names, k ∉ t.names.known c.names ∧ k = name
  rw [Tables.mem_freshNames hcounts]
  simp only [CappedTable.known, Finset.mem_inter, mem_toFinset, exists_eq_right_right]
  grind

/-- The plan for one name folds nothing when its new labels have room. -/
theorem planLabels_eq_zero_iff (hname : name ∈ c.names) :
    (c.planLabels (.of t c) name).2 = 0 ↔
      ((t.freshLabels ks name).card : Int) ≤ max (c.labelLimit - (t.labelsOf name).card) 0 := by
  have hinjective : Function.Injective (fun label => (⟨name, label⟩ : CounterKey)) := by
    intro label label' heq
    cases heq
    rfl
  refine snd_planCapped_eq_zero_iff_card hinjective (c.nodup_labelsFor name) (labelCount_pos hcounts name) fun k => ?_
  simp only [Tables.freshLabels, Finset.mem_sdiff, Finset.mem_filter, mem_toFinset]
  constructor
  · rintro ⟨⟨hsent, rfl, hreal⟩, hrow⟩
    refine ⟨k.label, (mem_labelsFor hcounts).mpr ⟨hsent, hreal⟩, fun hknown => hrow ?_, rfl⟩
    exact (Finset.mem_inter.mp (Finset.mem_filter.mp hknown).2).2
  · rintro ⟨label, hlabel, hnew, rfl⟩
    obtain ⟨hsent, hreal⟩ := (mem_labelsFor hcounts).mp hlabel
    refine ⟨⟨hsent, rfl, hreal⟩, fun hrow => hnew ?_⟩
    have hpair := mem_pairs hcounts hsent ⟨ne_other_of_mem_names hname, hreal⟩
    exact Finset.mem_filter.mpr ⟨mem_toFinset.mpr hlabel, Finset.mem_inter.mpr ⟨mem_toFinset.mpr hpair, hrow⟩⟩

/-- A call that keeps all names folds no label when every name has room for its new
labels. -/
theorem foldedLabels_eq_zero_iff (hnames : (admitVocabulary t c).1.foldedNames = 0) :
    (admitVocabulary t c).1.foldedLabels = 0 ↔ t.LabelsFit c.labelLimit ks := by
  have hkept : ∀ k ∈ ks, k.Labelled → k.name ∈ c.keptNames (.of t c) := by
    intro k hk hlabelled
    have hcount := foldedNames_admitVocabulary (t := t) hcounts
    have hzero : ks.countP (fun k => k.name ∉ (admitVocabulary t c).1.names) = 0 := by omega
    have hadmitted : k.name ∈ (admitVocabulary t c).1.names := by
      simpa using countP_eq_zero.mp hzero k hk
    rw [(answers_admitVocabulary hcounts).names k hk] at hadmitted
    exact (mem_keptNames _ hcounts hk hlabelled).mpr hadmitted
  have hnonneg : ∀ n ∈ (c.keptNames (.of t c)).map (fun name => (c.planLabels (.of t c) name).2), 0 ≤ n := by
    intro n hn
    obtain ⟨name, -, rfl⟩ := mem_map.mp hn
    exact snd_planCapped_nonneg (labelCount_pos hcounts name)
  have hsum : (admitVocabulary t c).1.foldedLabels = 0 ↔
      ∀ name ∈ c.keptNames (.of t c), (c.planLabels (.of t c) name).2 = 0 := by
    rw [(answers_admitVocabulary hcounts).foldedLabels]
    change ((c.keptNames (.of t c)).map (fun name => (c.planLabels (.of t c) name).2)).sum = 0 ↔ _
    constructor
    · intro hzero name hname
      exact all_zero_of_le_zero_le_of_sum_eq_zero hnonneg hzero (mem_map_of_mem hname)
    · intro hzero
      exact sum_eq_zero (by simpa using hzero)
  rw [hsum]
  constructor
  · intro hplans name hother
    by_cases hname : name ∈ c.keptNames (.of t c)
    · exact (planLabels_eq_zero_iff hcounts (keptNames_subset _ hname)).mp (hplans name hname)
    have hnone : t.freshLabels ks name = ∅ := by
      rw [Finset.eq_empty_iff_forall_notMem]
      intro k hk
      obtain ⟨hsent, rfl, hreal⟩ := Finset.mem_filter.mp (Finset.mem_sdiff.mp hk).1
      exact hname (hkept k (mem_toFinset.mp hsent) ⟨hother, hreal⟩)
    simp [hnone]
  · intro hfit name hname
    have hmem := keptNames_subset _ hname
    exact (planLabels_eq_zero_iff hcounts hmem).mpr (hfit name (ne_other_of_mem_names hmem))

end Overflow

end Names

section Dims

/-- The values of a batch under one dimension key that have no row yet. -/
def freshDims (t : CappedTable DimValueKey) (ds : List DimValueKey) (g : DimGroup) : Finset DimValueKey :=
  ds.toFinset.filter (fun d => d.group = g ∧ d.value ≠ counterOther) \ t.keys

/-- Every new dimension value of a batch has room under the cap of its name and key. -/
def DimsFit (t : CappedTable DimValueKey) (limit : Int) (ds : List DimValueKey) : Prop :=
  ∀ g : DimGroup, g.name ≠ counterOther →
    ((freshDims t ds g).card : Int) ≤ max (limit - DimCall.sizeOf t g) 0

variable {t : CappedTable DimValueKey} {c : DimCall} {ds : List DimValueKey} {d : DimValueKey}

theorem DimCall.mem_keys_iff (hcounts : c.counts = GoMap.tally ds) :
    d ∈ c.keys ↔ d ∈ ds ∧ d.value ≠ counterOther ∧ d.name ≠ counterOther := by
  rw [DimCall.mem_keys, hcounts, GoMap.mem_keys_tally]

theorem DimCall.nodup_keys (c : DimCall) : c.keys.Nodup :=
  (perm_insertionSort _ _).nodup_iff.mpr (c.counts.keys_nodup.filter _)

theorem DimCall.nodup_valuesOf (c : DimCall) (g : DimGroup) : (c.valuesOf g).Nodup := by
  refine List.Nodup.map_on ?_ (c.nodup_keys.filter _)
  intro d hd d' hd' heq
  obtain ⟨hname, hkey⟩ := DimGroup.mk.inj
    ((of_decide_eq_true (mem_filter.mp hd).2).trans (of_decide_eq_true (mem_filter.mp hd').2).symm)
  cases d
  cases d'
  simp_all

variable {g : DimGroup}

theorem DimCall.countOf_pos (hcounts : c.counts = GoMap.tally ds) (g : DimGroup) :
    ∀ value ∈ c.valuesOf g, 0 < c.countOf g value := by
  intro value hvalue
  have hmem := ((DimCall.mem_keys_iff hcounts).mp (DimCall.mem_valuesOf.mp hvalue)).1
  unfold DimCall.countOf
  rw [hcounts, GoMap.lookup_tally, if_pos hmem, Option.getD_some]
  have hpos := count_pos_iff.mpr hmem
  omega

/-- The values of a batch that a call admits. -/
theorem mem_values_admitDims (hcounts : c.counts = GoMap.tally ds) (hd : d ∈ ds) :
    d ∈ (admitDims t c).1.values ↔ d.value = counterOther ∨ d.name = counterOther ∨ d ∈ t.keys ∨ d ∈ c.add t := by
  have hkeys := DimCall.mem_keys_iff (d := d) hcounts
  have halways : d ∈ c.always ↔ d.value = counterOther ∨ d.name = counterOther := by
    unfold DimCall.always
    rw [mem_toFinset, mem_filter, hcounts, GoMap.mem_keys_tally, decide_eq_true_eq]
    exact and_iff_right hd
  unfold admitDims
  by_cases hnone : c.keys = []
  · rw [if_pos hnone]
    have hadd : d ∉ c.add t := fun h => by simpa [hnone] using DimCall.mem_keys_of_mem_add h
    rw [hnone] at hkeys
    simp only [not_mem_nil, false_iff] at hkeys
    dsimp only
    rw [halways]
    grind
  · rw [if_neg hnone]
    by_cases hknown : (t.known c.keys).card = c.keys.length
    · have hall : c.keys.toFinset ⊆ t.known c.keys := subset_of_card_eq_length Finset.inter_subset_left hknown
      have hrow : d ∈ c.keys → d ∈ t.keys := fun h => (Finset.mem_inter.mp (hall (mem_toFinset.mpr h))).2
      have hadd : d ∈ c.add t → d ∈ c.keys := DimCall.mem_keys_of_mem_add
      rw [if_pos hknown]
      dsimp only
      rw [Finset.mem_union, halways, mem_toFinset]
      grind
    · rw [if_neg hknown]
      have hadd : d ∈ c.add t → d ∈ c.keys := DimCall.mem_keys_of_mem_add
      simp only [Finset.mem_union, halways, CappedTable.known, Finset.mem_inter, mem_toFinset]
      grind

theorem planGroup_eq_zero_iff (hcounts : c.counts = GoMap.tally ds) (hg : g.name ≠ counterOther) :
    (c.planGroup t g).2 = 0 ↔ ((freshDims t ds g).card : Int) ≤ max (c.limit - DimCall.sizeOf t g) 0 := by
  have hinjective : Function.Injective (fun value => (⟨g.name, g.key, value⟩ : DimValueKey)) := by
    intro value value' heq
    cases heq
    rfl
  refine snd_planCapped_eq_zero_iff_card hinjective (c.nodup_valuesOf g) (DimCall.countOf_pos hcounts g) fun d => ?_
  simp only [freshDims, Finset.mem_sdiff, Finset.mem_filter, mem_toFinset]
  constructor
  · rintro ⟨⟨hsent, rfl, hreal⟩, hrow⟩
    refine ⟨d.value, DimCall.mem_valuesOf.mpr ((DimCall.mem_keys_iff hcounts).mpr ⟨hsent, hreal, hg⟩), fun hknown => ?_, rfl⟩
    exact hrow (Finset.mem_inter.mp (Finset.mem_filter.mp hknown).2).2
  · rintro ⟨value, hvalue, hnew, rfl⟩
    have hkey := DimCall.mem_valuesOf.mp hvalue
    obtain ⟨hsent, hreal, -⟩ := (DimCall.mem_keys_iff hcounts).mp hkey
    refine ⟨⟨hsent, rfl, hreal⟩, fun hrow => hnew ?_⟩
    exact Finset.mem_filter.mpr ⟨mem_toFinset.mpr hvalue, Finset.mem_inter.mpr ⟨mem_toFinset.mpr hkey, hrow⟩⟩

theorem DimCall.mem_groups_of_mem_keys (hd : d ∈ c.keys) : d.group ∈ c.groups := by
  unfold DimCall.groups
  exact mem_dedup.mpr (mem_map_of_mem hd)

theorem DimCall.exists_mem_keys_of_mem_groups (hg : g ∈ c.groups) : ∃ d ∈ c.keys, d.group = g := by
  unfold DimCall.groups at hg
  exact mem_map.mp (mem_dedup.mp hg)

section Grouped

variable (hcounts : c.counts = GoMap.tally ds)

include hcounts

/-- Nothing of a batch is past the cap when every group has room for its new values. -/
theorem dimsFit_iff : DimsFit t c.limit ds ↔ ∀ g ∈ c.groups, (c.planGroup t g).2 = 0 := by
  constructor
  · intro hfit g hg
    obtain ⟨d, hd, rfl⟩ := DimCall.exists_mem_keys_of_mem_groups hg
    have hname := ((DimCall.mem_keys_iff hcounts).mp hd).2.2
    exact (planGroup_eq_zero_iff hcounts hname).mpr (hfit d.group hname)
  intro hplans g hname
  by_cases hg : g ∈ c.groups
  · exact (planGroup_eq_zero_iff hcounts hname).mp (hplans g hg)
  have hnone : freshDims t ds g = ∅ := by
    rw [Finset.eq_empty_iff_forall_notMem]
    intro d hd
    obtain ⟨hsent, rfl, hreal⟩ := Finset.mem_filter.mp (Finset.mem_sdiff.mp hd).1
    exact hg (DimCall.mem_groups_of_mem_keys
      ((DimCall.mem_keys_iff hcounts).mpr ⟨mem_toFinset.mp hsent, hreal, hname⟩))
  simp [hnone]

theorem folded_admitDims_eq_zero_iff : (admitDims t c).1.folded = 0 ↔ DimsFit t c.limit ds := by
  rw [dimsFit_iff hcounts]
  unfold admitDims
  by_cases hnone : c.keys = []
  · simp [hnone, DimCall.groups]
  rw [if_neg hnone]
  by_cases hknown : (t.known c.keys).card = c.keys.length
  · have hplans : ∀ g ∈ c.groups, (c.planGroup t g).2 = 0 := by
      intro g _
      rw [DimCall.planGroup_of_known hknown]
    rw [if_pos hknown]
    exact iff_of_true rfl hplans
  rw [if_neg hknown]
  constructor
  · intro hzero g hg
    refine all_zero_of_le_zero_le_of_sum_eq_zero ?_ hzero (mem_map_of_mem hg)
    intro n hn
    obtain ⟨g', -, rfl⟩ := mem_map.mp hn
    exact snd_planCapped_nonneg (DimCall.countOf_pos hcounts g')
  · intro hplans
    exact sum_eq_zero (by simpa using hplans)

/-- Past the cap, some value of the batch is not admitted. -/
theorem exists_notMem_values (hfit : ¬ DimsFit t c.limit ds) : ∃ d ∈ ds, d ∉ (admitDims t c).1.values := by
  by_contra hall
  push Not at hall
  refine hfit ((dimsFit_iff hcounts).mpr fun g _ => ?_)
  -- Every value of the group is known or planned, so the sum has no terms.
  have hnone : (c.valuesOf g).filter (fun value =>
      value ∉ c.knownValues (t.known c.keys) g ∧ value ∉ (c.planGroup t g).1) = [] := by
    rw [filter_eq_nil_iff]
    intro value hvalue htest
    obtain ⟨hknown, hplanned⟩ := of_decide_eq_true htest
    have hkey := DimCall.mem_valuesOf.mp hvalue
    obtain ⟨hsent, hreal, hname⟩ := (DimCall.mem_keys_iff hcounts).mp hkey
    rcases (mem_values_admitDims hcounts hsent).mp (hall _ hsent) with hother | hother | hrow | hadd
    · exact hreal hother
    · exact hname hother
    · exact hknown (Finset.mem_filter.mpr ⟨mem_toFinset.mpr hvalue,
        Finset.mem_inter.mpr ⟨mem_toFinset.mpr hkey, hrow⟩⟩)
    · exact hplanned (DimCall.mem_add.mp hadd).2
  have hsum : (c.planGroup t g).2 = _ := snd_planCapped (c.nodup_valuesOf g)
  rw [hsum]
  exact congrArg (fun values => (values.map (c.countOf g)).sum) hnone

end Grouped

end Dims

end argvio.storage
