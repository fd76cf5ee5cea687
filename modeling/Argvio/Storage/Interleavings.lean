import Argvio.Storage.CapRuns
import Mathlib.Order.Lattice.Nat

open Function Finset

namespace argvio.storage

section Recorded

variable {c : AdmitCall} {t t' : Tables} {phase phase' : Phase}

/-- The names a call has read from the table or answers with, apart from `other`. -/
def Phase.recordedNames (c : AdmitCall) : Phase → Finset String
  | .fastNames known => known.names
  | .fastTouchNames => c.names.toFinset
  | .fastTouchLabels => c.names.toFinset
  | .rereadNames known => known.names
  | .reread known => known.names
  | .countedNames known _ => known.names
  | .counted k => k.known.names
  | .inserted k => k.known.names
  | .touched k => k.known.names
  | .returned admission => admission.names.erase counterOther
  | _ => ∅

def Phase.recordedLabels (c : AdmitCall) : Phase → Finset CounterKey
  | .fastTouchNames => c.pairs.toFinset
  | .fastTouchLabels => c.pairs.toFinset
  | .reread known => known.labels
  | .countedNames known _ => known.labels
  | .counted k => k.known.labels
  | .inserted k => k.known.labels
  | .touched k => k.known.labels
  | .returned admission => admission.labels
  | _ => ∅

/-- Everything a call relies on is in the tables. -/
structure Phase.Backed (c : AdmitCall) (t : Tables) (phase : Phase) : Prop where
  names : phase.recordedNames c ⊆ t.names.keys
  labels : phase.recordedLabels c ⊆ t.labels.keys
  asked : ∀ known, phase = .fastNames known → known.names ⊆ c.names.toFinset

theorem Phase.Backed.mono (h : phase.Backed c t) (hwithin : t.Within t') : phase.Backed c t' where
  names := h.names.trans hwithin.names
  labels := h.labels.trans hwithin.labels
  asked := h.asked

theorem advance_within (h : advance c t phase = some (t', phase')) : t.Within t' := by
  rcases advance_cases h with ⟨hnames, hlabels⟩ | ⟨k, hphase, rfl, hreturned⟩
  · exact ⟨hnames.ge, hlabels.ge⟩
  · exact ⟨subset_union_left, subset_union_left⟩

theorem AdmitCall.allAdmitted_names : c.allAdmitted.names.erase counterOther = c.names.toFinset := by
  have hnotmem : counterOther ∉ c.names.toFinset := by
    intro hmem
    exact AdmitCall.ne_other_of_mem_names (List.mem_toFinset.mp hmem) rfl
  unfold AdmitCall.allAdmitted
  rw [erase_union_distrib]
  simp [erase_eq_of_notMem hnotmem]

theorem AdmitCall.keptNameSet_subset (k : Counted) (hknown : k.known.names ⊆ t.names.keys) :
    (c.keptNameSet k).erase counterOther ⊆ (t.commit c (c.plan k)).names.keys := by
  intro name hname
  obtain ⟨hne, hmem⟩ := mem_erase.mp hname
  unfold AdmitCall.keptNameSet at hmem
  rcases mem_union.mp hmem with hold | hadded
  · rcases mem_union.mp hold with hother | hread
    · exact absurd (mem_singleton.mp hother) hne
    · exact mem_union_left _ (hknown (mem_inter.mp hread).2)
  · exact mem_union_right _ hadded

theorem AdmitCall.knownPairs_subset (k : Counted) : (c.knownPairs k).toFinset ⊆ k.known.labels := by
  intro key hkey
  obtain ⟨name, hname, hmap⟩ := List.mem_flatMap.mp (List.mem_toFinset.mp hkey)
  obtain ⟨label, hlabel, rfl⟩ := List.mem_map.mp hmap
  have hknown := (List.mem_filter.mp hlabel).2
  simp only [AdmitCall.knownLabels, decide_eq_true_eq, mem_filter] at hknown
  exact hknown.2

theorem Phase.Backed.commit {k : Counted} (h : (Phase.touched k).Backed c t) :
    (Phase.returned (c.plan k).admission).Backed c (t.commit c (c.plan k)) where
  names := AdmitCall.keptNameSet_subset k h.names
  labels := by
    have hknown : (c.knownPairs k).toFinset ⊆ t.labels.keys := (AdmitCall.knownPairs_subset k).trans h.labels
    exact union_subset_union_left hknown
  asked := fun known hknown => by cases hknown

theorem readNames_backed : (Phase.fastNames (readNames t c)).Backed c t where
  names := inter_subset_right
  labels := empty_subset _
  asked := fun known hknown => by
    cases hknown
    exact inter_subset_left

theorem Phase.Backed.complete {known : KnownCounterSet} (h : (Phase.fastNames known).Backed c t)
    (hcomplete : (readLabels t c known).complete c) :
    c.names.toFinset ⊆ t.names.keys ∧ c.pairs.toFinset ⊆ t.labels.keys := by
  obtain ⟨hnames, hlabels⟩ := hcomplete
  constructor
  · exact (subset_of_card_eq_length (h.asked known rfl) hnames).trans h.names
  · exact (subset_of_card_eq_length inter_subset_left hlabels).trans inter_subset_right

/-- Whatever a call goes on to rely on was read from the rows that are there. -/
theorem advance_backed (hbacked : phase.Backed c t) (h : advance c t phase = some (t', phase')) :
    phase'.Backed c t' := by
  cases phase with
  | start =>
    simp only [advance] at h
    split at h
    · cases h
      exact ⟨by simp [Phase.recordedNames], empty_subset _, fun known hknown => by cases hknown⟩
    · cases h
      exact readNames_backed
  | fastNames known =>
    simp only [advance] at h
    split at h
    · rename_i hcomplete
      obtain ⟨hnames, hlabels⟩ := hbacked.complete hcomplete
      split at h
      · cases h
        exact ⟨hnames, hlabels, fun known hknown => by cases hknown⟩
      · cases h
        refine ⟨?_, hlabels, fun known hknown => by cases hknown⟩
        rw [Phase.recordedNames, AdmitCall.allAdmitted_names]
        exact hnames
    · cases h
      exact ⟨empty_subset _, empty_subset _, fun known hknown => by cases hknown⟩
  | fastTouchLabels =>
    cases h
    refine ⟨?_, hbacked.labels, fun known hknown => by cases hknown⟩
    rw [Phase.recordedNames, AdmitCall.allAdmitted_names]
    exact hbacked.names
  | waiting =>
    cases h
    exact ⟨empty_subset _, empty_subset _, fun known hknown => by cases hknown⟩
  | locked =>
    cases h
    exact ⟨inter_subset_right, empty_subset _, fun known hknown => by cases hknown⟩
  | rereadNames known =>
    cases h
    exact ⟨hbacked.names, inter_subset_right, fun known hknown => by cases hknown⟩
  | touched k =>
    cases h
    exact hbacked.commit
  | returned admission | failed => cases h
  | _ =>
    cases h
    exact ⟨hbacked.names, hbacked.labels, fun known hknown => by cases hknown⟩

end Recorded

section Alone

/-- Some statements of a call with no other call in between. -/
def AdmitCall.Goes (c : AdmitCall) : Tables × Phase → Tables × Phase → Prop :=
  Relation.ReflTransGen (fun a b => advance c a.1 a.2 = some b)

variable (c : AdmitCall) (t : Tables)

theorem goes_commit :
    c.Goes (t, .waiting) (t.commit c (c.plan (.of t c)), .returned (c.plan (.of t c)).admission) := by
  let names := readNames t c
  let known := readLabels t c names
  have hreadNames : c.Goes (t, .waiting) (t, .rereadNames names) := .tail (.single rfl) rfl
  have hreadLabels : c.Goes (t, .rereadNames names) (t, .reread known) := .single rfl
  have hcounts : c.Goes (t, .reread known) (t, .counted (.of t c)) :=
    .tail (b := (t, .countedNames known t.names.keys.card)) (.single rfl) rfl
  have hwrites : c.Goes (t, .counted (.of t c)) (t, .touched (.of t c)) := .tail (.single rfl) rfl
  exact (((hreadNames.trans hreadLabels).trans hcounts).trans hwrites).tail rfl

theorem goes_admitVocabulary : c.Goes (t, .start) ((admitVocabulary t c).2, .returned (admitVocabulary t c).1) := by
  unfold admitVocabulary
  by_cases hnames : c.names = []
  · rw [if_pos hnames]
    exact .single (by simp [advance, hnames])
  rw [if_neg hnames]
  have hread : c.Goes (t, .start) (t, .fastNames (readNames t c)) := .single (by simp [advance, hnames])
  refine hread.trans ?_
  let known := readLabels t c (readNames t c)
  by_cases hcomplete : known.complete c
  · rw [if_pos hcomplete]
    by_cases hstale : known.stale = true
    · rw [if_pos hstale]
      have hfound : c.Goes (t, .fastNames (readNames t c)) (t, .fastTouchNames) :=
        .single (by simp [advance, hcomplete, hstale, known])
      have htouch : c.Goes (t, .fastTouchNames) (touchNames t c, .fastTouchLabels) := .single rfl
      exact (hfound.trans htouch).tail rfl
    · rw [if_neg hstale]
      exact .single (by simp [advance, hcomplete, hstale, known])
  · rw [if_neg hcomplete]
    have hmissing : c.Goes (t, .fastNames (readNames t c)) (t, .waiting) :=
      .single (by simp [advance, hcomplete, known])
    exact hmissing.trans (goes_commit c t)

end Alone

section Runs

variable {ι : Type} [DecidableEq ι] {calls : ι → AdmitCall}

theorem ReachesUnswept.reaches {s s' : System ι} (h : ReachesUnswept calls s s') : Reaches calls s s' := by
  refine Relation.ReflTransGen.mono ?_ _ _ h
  rintro _ _ ⟨action, _, hstep⟩
  exact ⟨action, hstep⟩

theorem backed_step {action : Action ι} {s s' : System ι} (hsweep : action ≠ .sweep)
    (hbacked : ∀ i, (s.phase i).Backed (calls i) s.tables) (hstep : Step calls action s s') (j : ι) :
    (s'.phase j).Backed (calls j) s'.tables := by
  cases hstep with
  | @run _ i tables phase hadvance hlock =>
    by_cases hij : j = i
    · subst hij
      dsimp only
      rw [update_self]
      exact advance_backed (hbacked j) hadvance
    · dsimp only
      rw [update_of_ne hij]
      exact (hbacked j).mono (advance_within hadvance)
  | @fail _ i hrunning =>
    by_cases hij : j = i
    · subst hij
      dsimp only
      rw [update_self]
      exact ⟨empty_subset _, empty_subset _, fun known hknown => by cases hknown⟩
    · dsimp only
      rw [update_of_ne hij]
      exact hbacked j
  | sweep names labels => exact absurd rfl hsweep

theorem backed_of_reachesUnswept {t : Tables} {s : System ι} (hreaches : ReachesUnswept calls (System.start t) s) :
    ∀ i, (s.phase i).Backed (calls i) s.tables := by
  induction hreaches with
  | refl =>
    intro i
    exact ⟨empty_subset _, empty_subset _, fun known hknown => by cases hknown⟩
  | tail hprevious hlast ih =>
    obtain ⟨action, hsweep, hstep⟩ := hlast
    exact backed_step hsweep ih hstep

/-- Call `i` at some phase while no other call is under the lock. -/
def System.alone (phases : ι → Phase) (i : ι) (t : Tables) (phase : Phase) : System ι where
  tables := t
  holder := if phase.holds then some i else none
  phase := update phases i phase

variable {phases : ι → Phase} {i : ι}

theorem alone_advance {t t' : Tables} {phase phase' : Phase} (h : advance (calls i) t phase = some (t', phase')) :
    ReachesUnswept calls (System.alone phases i t phase) (System.alone phases i t' phase') := by
  have hrun : Step calls (.run i) (System.alone phases i t phase)
      { tables := t'
        holder := if phase'.holds then some i
          else if ((System.alone phases i t phase).phase i).holds then none
          else (System.alone phases i t phase).holder
        phase := update (System.alone phases i t phase).phase i phase' } := by
    refine .run ?_ ?_
    · simpa [System.alone] using h
    · intro _ hfree
      simp only [System.alone, update_self] at hfree ⊢
      simp [hfree]
  refine .single ⟨.run i, by simp, ?_⟩
  convert hrun using 1
  simp only [System.alone, update_self, update_idem]
  cases phase.holds <;> rfl

theorem alone_goes {a b : Tables × Phase} (h : (calls i).Goes a b) :
    ReachesUnswept calls (System.alone phases i a.1 a.2) (System.alone phases i b.1 b.2) := by
  induction h with
  | refl => exact .refl
  | tail _ hlast ih => exact ih.trans (alone_advance hlast)

/-- A call that runs while no other is under the lock returns what
`admitVocabulary` computes from the tables it starts on. -/
theorem reaches_admitVocabulary (hstart : phases i = .start) (t : Tables) :
    ReachesUnswept calls { tables := t, holder := none, phase := phases }
      { tables := (admitVocabulary t (calls i)).2
        holder := none
        phase := update phases i (.returned (admitVocabulary t (calls i)).1) } := by
  have halone : ({ tables := t, holder := none, phase := phases } : System ι) = System.alone phases i t .start := by
    simp [System.alone, Phase.holds, ← hstart]
  rw [halone]
  exact alone_goes (goes_admitVocabulary (calls i) t)

/-- However the calls and the sweeps interleave, the rows stay within the larger
of what was there at first and the largest limit in use, and nothing empty or
`other` is ever inserted. Without sweeps, what a call reports as admitted is in
the tables. -/
theorem vocabulary_caps_hold [Fintype ι] (calls : ι → AdmitCall) (t : Tables)
    (hnonempty : ∀ i, ∀ key ∈ (calls i).counts.keys, key.name ≠ "") :
    (∀ s, Reaches calls (System.start t) s →
      s.tables.names.keys.card ≤
          max t.names.keys.card (univ.sup (fun i => (calls i).nameLimit.toNat)) ∧
        (∀ name, (s.tables.labelsOf name).card ≤
          max (t.labelsOf name).card (univ.sup (fun i => (calls i).labelLimit.toNat))) ∧
        ∀ action s', Step calls action s s' →
          (∀ name ∈ s'.tables.names.keys, name ∉ s.tables.names.keys → name ≠ "" ∧ name ≠ counterOther) ∧
            ∀ key ∈ s'.tables.labels.keys, key ∉ s.tables.labels.keys →
              key.label ≠ "" ∧ key.label ≠ counterOther) ∧
      ∀ s, ReachesUnswept calls (System.start t) s → ∀ i admission, s.phase i = .returned admission →
        (∀ name ∈ admission.names, name ≠ counterOther → name ∈ s.tables.names.keys) ∧
          ∀ key ∈ admission.labels, key ∈ s.tables.labels.keys := by
  constructor
  · intro s hreaches
    have hnameLimit : ∀ i, (calls i).nameLimit ≤
        (max t.names.keys.card (univ.sup (fun i => (calls i).nameLimit.toNat)) : Nat) := by
      intro i
      have hsup := le_sup (f := fun i => (calls i).nameLimit.toNat) (mem_univ i)
      omega
    have hlabelLimit : ∀ i name, (calls i).labelLimit ≤
        (max (t.labelsOf name).card (univ.sup (fun i => (calls i).labelLimit.toNat)) : Nat) := by
      intro i name
      have hsup := le_sup (f := fun i => (calls i).labelLimit.toNat) (mem_univ i)
      omega
    have hstart := CapInvariant.start (ι := ι) (t := t)
      (le_max_left _ (univ.sup (fun i => (calls i).nameLimit.toNat)))
      (fun name => le_max_left _ (univ.sup (fun i => (calls i).labelLimit.toNat)))
    have hinv := hstart.reaches hnameLimit hlabelLimit hreaches
    exact ⟨hinv.names_le, hinv.labels_le, fun action s' hstep => hstep.inserts hnonempty⟩
  · intro s hreaches i admission hreturned
    have hbacked := backed_of_reachesUnswept hreaches i
    rw [hreturned] at hbacked
    refine ⟨fun name hname hne => ?_, fun key hkey => hbacked.labels hkey⟩
    exact hbacked.names (mem_erase.mpr ⟨hne, hname⟩)

end Runs

/-- Two calls that compete for one free name. -/
def rivalCalls : Bool → AdmitCall
  | true => { counts := AList.singleton ⟨"build", "fast"⟩ 2, nameLimit := 1, labelLimit := 1, now := 0 }
  | false => { counts := AList.singleton ⟨"deploy", ""⟩ 5, nameLimit := 1, labelLimit := 1, now := 0 }

theorem vocabulary_caps_hold_rivalCalls :
    ∃ s, ReachesUnswept rivalCalls (System.start Tables.empty) s ∧
      s.phase false = .returned { names := {counterOther}, labels := ∅, foldedNames := 5, foldedLabels := 0 } ∧
      s.tables.names.keys = {"build"} ∧
      s.tables.names.keys.card ≤ max 0 (univ.sup (fun i => (rivalCalls i).nameLimit.toNat)) := by
  have hfirst : ReachesUnswept rivalCalls (System.start Tables.empty) _ :=
    reaches_admitVocabulary (i := true) rfl Tables.empty
  have hsecond := hfirst.trans (reaches_admitVocabulary (i := false) rfl _)
  have hcaps := (vocabulary_caps_hold rivalCalls Tables.empty (by decide)).1 _ (ReachesUnswept.reaches hsecond)
  refine ⟨_, hsecond, ?_, ?_, hcaps.1⟩
  · dsimp only
    rw [update_self]
    exact congrArg Phase.returned (by decide)
  · decide

end argvio.storage
