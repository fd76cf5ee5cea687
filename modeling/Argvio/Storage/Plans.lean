import Argvio.Storage.FoldCounts

open List

namespace argvio.storage

section Greedy

/-- A plan admits the first unknown names in the order of count and then name, as
many as there is room for, and no other choice folds fewer records. -/
theorem planVocabulary_optimal (names : List String) (hnames : names.Pairwise (· < ·)) (known : Finset String)
    (counts : String → Int) (hcounts : ∀ name ∈ names, 0 < counts name) (room : Int) :
    let unknown := names.filter (fun name => name ∉ known)
    let plan := planVocabulary names known counts room
    (∃ order : List String, order.Perm unknown ∧ order.Pairwise (Ahead counts) ∧
        plan.1 = order.take (min (max room 0).toNat unknown.length)) ∧
      (∀ name ∈ plan.1, name ∉ known) ∧
      plan.2 + (plan.1.map counts).sum = (unknown.map counts).sum ∧
      IsLeast {folded | ∃ chosen ⊆ unknown.toFinset, (chosen.card : Int) ≤ max room 0 ∧
        folded = ∑ name ∈ unknown.toFinset \ chosen, counts name} plan.2 := by
  have hnodup : names.Nodup := hnames.imp fun h => h.ne
  have horder : (freshByCount names known counts).Pairwise (Ahead counts) := pairwise_freshByCount hnames
  have hperm := perm_freshByCount names known counts
  refine ⟨⟨freshByCount names known counts, hperm, horder, ?_⟩, fun name hname => (mem_of_mem_planCapped hname).2,
    snd_planCapped_add_sum _ _ _ _, foldsTo_planCapped hnodup, fun folded hchoice => ?_⟩
  · have hroom : (max room 0).toNat = room.toNat := by omega
    rw [← hperm.length_eq, hroom, ← take_eq_take_min]
    rfl
  · have hsorted := horder.imp fun {a b} (h : Ahead counts a b) => h.le
    exact snd_planCapped_le hnodup (fun name hname => (hcounts name hname).le) hsorted hchoice

theorem planVocabulary_optimal_two_slots :
    let plan := planVocabulary ["a", "b", "c", "d", "known"] {"known"}
      (fun name => if name = "b" then 5 else if name = "a" then 1 else 2) 2
    plan = (["b", "c"], 3) ∧ plan.2 + 7 = 10 ∧ ∀ name ∈ plan.1, name ≠ "known" := by
  have hplan := planVocabulary_optimal ["a", "b", "c", "d", "known"] (by decide) {"known"}
    (fun name => if name = "b" then 5 else if name = "a" then 1 else 2) (by decide) 2
  refine ⟨by decide, hplan.2.2.1, fun name hname => ?_⟩
  simpa using hplan.2.1 name hname

end Greedy

section Agreement

/-- The batch in which each name carries an empty label. -/
def ReasonCall.unlabelled (c : ReasonCall) (labelLimit : Int) : AdmitCall where
  counts := c.counts.mapKeys (fun r => ⟨r, ""⟩) (fun _ _ h => congrArg CounterKey.name h)
  nameLimit := c.limit
  labelLimit := labelLimit
  now := c.now

/-- A name vocabulary in the state of some error reasons, whatever labels it has. -/
def ErrorReasons.asNames (t : ErrorReasons) (rest : Tables) : Tables where
  names := t.reasons
  labels := rest.labels
  overflow := { rest.overflow with foldedNames := t.foldedCount, lastFoldedAt := t.lastFoldedAt }

variable (c : ReasonCall) (labelLimit : Int)

theorem keys_unlabelled : (c.unlabelled labelLimit).counts.keys = c.counts.keys.map (fun r => ⟨r, ""⟩) :=
  GoMap.keys_mapKeys (fun _ _ h => congrArg CounterKey.name h) c.counts

theorem names_unlabelled : (c.unlabelled labelLimit).names = c.names := by
  have hnodup : (c.counts.keys.filter (fun r => r ≠ errorReasonOther)).Nodup := c.counts.keys_nodup.filter _
  unfold AdmitCall.names ReasonCall.names
  rw [keys_unlabelled, map_map]
  change ((c.counts.keys.map id).filter _).dedup.insertionSort _ = _
  rw [map_id]
  exact congrArg (insertionSort (· ≤ ·)) hnodup.dedup

theorem nameCount_unlabelled : (c.unlabelled labelLimit).nameCount = c.count := by
  funext r
  unfold ReasonCall.count
  rw [← GoMap.sum_filter_key]
  simp only [AdmitCall.nameCount, ReasonCall.unlabelled, GoMap.mapKeys, filter_map, map_map]
  rfl

theorem labelsFor_unlabelled (name : String) : (c.unlabelled labelLimit).labelsFor name = [] := by
  have hnone : (c.unlabelled labelLimit).counts.keys.filter
      (fun k => k.name = name ∧ k.label ≠ "" ∧ k.label ≠ counterOther) = [] := by
    rw [filter_eq_nil_iff, keys_unlabelled]
    intro k hk
    obtain ⟨r, -, rfl⟩ := mem_map.mp hk
    simp
  unfold AdmitCall.labelsFor
  rw [hnone]
  rfl

theorem pairs_unlabelled : (c.unlabelled labelLimit).pairs = [] := by
  simp [AdmitCall.pairs, labelsFor_unlabelled]

variable (t : ErrorReasons) (rest : Tables)

theorem readLabels_unlabelled :
    readLabels (t.asNames rest) (c.unlabelled labelLimit) (readNames (t.asNames rest) (c.unlabelled labelLimit)) =
      { names := t.reasons.known c.names, labels := ∅, stale := t.reasons.stale c.names c.staleBefore } := by
  unfold readLabels readNames
  rw [names_unlabelled, pairs_unlabelled]
  have hstale : (c.unlabelled labelLimit).staleBefore = c.staleBefore := rfl
  simp [CappedTable.known, CappedTable.stale, ErrorReasons.asNames, hstale]

/-- The plan of a call on unlabelled names is the plan for its names. -/
theorem plan_unlabelled :
    (c.unlabelled labelLimit).plan (.of (t.asNames rest) (c.unlabelled labelLimit)) =
      { addNames := (c.plan t).1
        addLabels := []
        admission := {
          names := {errorReasonOther} ∪ t.reasons.known c.names ∪ (c.plan t).1.toFinset
          labels := ∅
          foldedNames := (c.plan t).2
          foldedLabels := 0 } } := by
  have hnames : (c.unlabelled labelLimit).planNames (.of (t.asNames rest) (c.unlabelled labelLimit)) = c.plan t := by
    unfold AdmitCall.planNames Counted.of
    rw [readLabels_unlabelled, names_unlabelled, nameCount_unlabelled]
    rfl
  have hkept : (c.unlabelled labelLimit).keptNames (.of (t.asNames rest) (c.unlabelled labelLimit)) = [] := by
    simp [AdmitCall.keptNames, labelsFor_unlabelled]
  have hset : (c.unlabelled labelLimit).keptNameSet (.of (t.asNames rest) (c.unlabelled labelLimit)) =
      {errorReasonOther} ∪ t.reasons.known c.names ∪ (c.plan t).1.toFinset := by
    unfold AdmitCall.keptNameSet
    rw [hnames, names_unlabelled]
    unfold Counted.of
    rw [readLabels_unlabelled]
    have hasked : t.reasons.known c.names ⊆ c.names.toFinset := Finset.inter_subset_left
    dsimp only
    rw [Finset.inter_eq_right.mpr hasked]
    rfl
  unfold AdmitCall.plan
  rw [hnames, hset]
  simp [AdmitCall.addLabels, AdmitCall.knownPairs, hkept]

theorem touch_unlabelled :
    touchLabels (touchNames (t.asNames rest) (c.unlabelled labelLimit)) (c.unlabelled labelLimit) =
      { t with reasons := t.reasons.touch c.names c.now c.staleBefore }.asNames rest := by
  unfold touchLabels touchNames
  rw [names_unlabelled, pairs_unlabelled, CappedTable.touch_nil]
  rfl

theorem commit_unlabelled {plan : Plan} (hlabels : plan.addLabels = []) (hfolded : plan.admission.foldedLabels = 0) :
    (t.asNames rest).commit (c.unlabelled labelLimit) plan =
      ({ t with reasons := (t.reasons.insertNew plan.addNames c.now).touch c.names c.now c.staleBefore }.record
        plan.admission.foldedNames c.now).asNames rest := by
  unfold Tables.commit Overflow.record ErrorReasons.record
  rw [names_unlabelled, pairs_unlabelled, hlabels, hfolded, CappedTable.touch_nil, CappedTable.insertNew_nil]
  by_cases hnames : plan.admission.foldedNames > 0
  · rw [if_pos (.inl hnames), if_pos hnames]
    rw [Int.add_zero]
    rfl
  · rw [if_neg (by omega), if_neg hnames]
    rfl

/-- `AdmitErrorReasons` does to the reasons what `admit` does to names that carry no label. -/
theorem admitErrorReasons_agrees :
    admitVocabulary (t.asNames rest) (c.unlabelled labelLimit) =
      ({ names := (admitErrorReasons t c).1.reasons
         labels := ∅
         foldedNames := (admitErrorReasons t c).1.folded
         foldedLabels := 0 },
        (admitErrorReasons t c).2.asNames rest) := by
  unfold admitVocabulary admitErrorReasons
  rw [names_unlabelled, readLabels_unlabelled, plan_unlabelled]
  by_cases hnames : c.names = []
  · rw [if_pos hnames, if_pos hnames]
    rfl
  rw [if_neg hnames, if_neg hnames]
  have hcomplete : KnownCounterSet.complete ⟨t.reasons.known c.names, ∅, t.reasons.stale c.names c.staleBefore⟩
      (c.unlabelled labelLimit) ↔
      (t.reasons.known c.names).card = c.names.length := by
    unfold KnownCounterSet.complete
    rw [names_unlabelled, pairs_unlabelled]
    simp
  dsimp only
  by_cases hknown : (t.reasons.known c.names).card = c.names.length
  · rw [if_pos (hcomplete.mpr hknown), if_pos hknown, touch_unlabelled]
    refine Prod.ext ?_ ?_
    · unfold AdmitCall.allAdmitted
      rw [names_unlabelled, pairs_unlabelled]
      rfl
    · dsimp only
      split <;> rfl
  · rw [if_neg (hcomplete.not.mpr hknown), if_neg hknown]
    refine Prod.ext rfl ?_
    exact commit_unlabelled c labelLimit t rest rfl rfl

end Agreement

end argvio.storage
