import Argvio.Storage.Caps

namespace argvio.storage

/-- A commit by a transaction whose counts still hold keeps the bounds. -/
theorem commit_bounds {t : Tables} {c : AdmitCall} {k : Counted} (hcovers : k.Covers t) {nameBound : Nat}
    {labelBound : String → Nat} (hnames : t.names.keys.card ≤ nameBound)
    (hlabels : ∀ name, (t.labelsOf name).card ≤ labelBound name) (hnameLimit : c.nameLimit ≤ nameBound)
    (hlabelLimit : ∀ name, c.labelLimit ≤ labelBound name) :
    (t.commit c (c.plan k)).names.keys.card ≤ nameBound ∧
      ∀ name, ((t.commit c (c.plan k)).labelsOf name).card ≤ labelBound name := by
  obtain ⟨hnameSize, hlabelSize⟩ := hcovers
  constructor
  · have hadded := List.toFinset_card_le (c.plan k).addNames
    have hroom : ((c.plan k).addNames.length : Int) ≤ max (c.nameLimit - k.nameSize) 0 := length_planCapped_le
    exact card_union_le_of_room (by omega) hnameSize hnames hnameLimit
  · intro name
    rw [Tables.labelsOf_commit]
    exact card_union_le_of_room (c.card_addLabels_le k name) (hlabelSize name) (hlabels name) (hlabelLimit name)

section Runs

variable {ι : Type} [DecidableEq ι] {calls : ι → AdmitCall}

variable {nameBound : Nat} {labelBound : String → Nat} {s s' : System ι}

theorem CapInvariant.commit (hinv : CapInvariant nameBound labelBound s) {i : ι} {k : Counted}
    (hphase : s.phase i = .touched k) (hnameLimit : (calls i).nameLimit ≤ nameBound)
    (hlabelLimit : ∀ name, (calls i).labelLimit ≤ labelBound name) :
    CapInvariant nameBound labelBound
      { tables := s.tables.commit (calls i) ((calls i).plan k)
        holder := none
        phase := Function.update s.phase i (.returned ((calls i).plan k).admission) } := by
  have hholds : (s.phase i).holds = true := by rw [hphase]; rfl
  have hcovers : k.Covers s.tables := by
    have hsized := hinv.sized i
    rw [hphase] at hsized
    exact hsized
  obtain ⟨hnames, hlabels⟩ := commit_bounds hcovers hinv.names_le hinv.labels_le hnameLimit hlabelLimit
  -- The committing call was the only one under the lock, so no other has counted.
  have hfree : ∀ j, (Function.update s.phase i (.returned ((calls i).plan k).admission) j).holds = false := by
    intro j
    by_cases hij : j = i
    · subst hij
      rw [Function.update_self]
      rfl
    · rw [Function.update_of_ne hij]
      by_contra hne
      have hj := hinv.exclusive j (by simpa using hne)
      rw [hinv.exclusive i hholds] at hj
      exact hij (Option.some.inj hj).symm
  refine ⟨?_, fun j => Phase.sized_of_not_holds (hfree j), hnames, hlabels⟩
  intro j hj
  rw [hfree j] at hj
  cases hj

theorem CapInvariant.step (hnameLimit : ∀ i, (calls i).nameLimit ≤ nameBound)
    (hlabelLimit : ∀ i name, (calls i).labelLimit ≤ labelBound name) {action : Action ι}
    (hinv : CapInvariant nameBound labelBound s) (hstep : Step calls action s s') :
    CapInvariant nameBound labelBound s' := by
  cases hstep with
  | @run _ i tables phase hadvance hlock =>
    rcases advance_cases hadvance with ⟨hnames, hlabels⟩ | ⟨k, hphase, htables, hreturned⟩
    · have hwithin : tables.Within s.tables := ⟨hnames.le, hlabels.le⟩
      have hkept := hinv.within hwithin
      refine ⟨exclusive_update hinv.exclusive phase hlock, ?_, hkept.names_le, hkept.labels_le⟩
      intro j
      by_cases hij : j = i
      · subst hij
        dsimp only
        rw [Function.update_self]
        exact advance_sized (hinv.sized j) hadvance
      · dsimp only
        rw [Function.update_of_ne hij]
        exact hkept.sized j
    · subst htables hreturned
      have hcommit := hinv.commit hphase (hnameLimit i) (hlabelLimit i)
      simpa [hphase, Phase.holds] using hcommit
  | @fail _ i hrunning =>
    refine ⟨?_, ?_, hinv.names_le, hinv.labels_le⟩
    · intro j hj
      have hholder := exclusive_update hinv.exclusive .failed (fun h => by cases h) j hj
      simpa [Phase.holds] using hholder
    intro j
    by_cases hij : j = i
    · subst hij
      dsimp only
      rw [Function.update_self]
      trivial
    · dsimp only
      rw [Function.update_of_ne hij]
      exact hinv.sized j
  | sweep names labels => exact hinv.within (s.tables.sweep_within names labels)

omit [DecidableEq ι] in
theorem CapInvariant.start {nameBound : Nat} {labelBound : String → Nat} {t : Tables}
    (hnames : t.names.keys.card ≤ nameBound) (hlabels : ∀ name, (t.labelsOf name).card ≤ labelBound name) :
    CapInvariant nameBound labelBound (System.start t : System ι) where
  exclusive := fun i h => by cases h
  sized := fun i => trivial
  names_le := hnames
  labels_le := hlabels

theorem CapInvariant.reaches (hnameLimit : ∀ i, (calls i).nameLimit ≤ nameBound)
    (hlabelLimit : ∀ i name, (calls i).labelLimit ≤ labelBound name) (hinv : CapInvariant nameBound labelBound s)
    (hreaches : Reaches calls s s') : CapInvariant nameBound labelBound s' := by
  induction hreaches with
  | refl => exact hinv
  | tail hprevious hlast ih =>
    obtain ⟨action, hstep⟩ := hlast
    exact ih.step hnameLimit hlabelLimit hstep

/-- No step inserts a name or a label that is empty or `other`. -/
theorem Step.inserts (hnonempty : ∀ i, ∀ key ∈ (calls i).counts.keys, key.name ≠ "") {action : Action ι}
    (hstep : Step calls action s s') :
    (∀ name ∈ s'.tables.names.keys, name ∉ s.tables.names.keys → name ≠ "" ∧ name ≠ counterOther) ∧
      ∀ key ∈ s'.tables.labels.keys, key ∉ s.tables.labels.keys → key.label ≠ "" ∧ key.label ≠ counterOther := by
  cases hstep with
  | @run _ i tables phase hadvance hlock =>
    rcases advance_cases hadvance with ⟨hnames, hlabels⟩ | ⟨k, hphase, htables, hreturned⟩
    · refine ⟨fun name hname hnew => ?_, fun key hkey hnew => ?_⟩
      · rw [← hnames] at hnew
        exact absurd hname hnew
      · rw [← hlabels] at hnew
        exact absurd hkey hnew
    subst htables
    refine ⟨fun name hname hnew => ?_, fun key hkey hnew => ?_⟩
    · have hadded := List.mem_toFinset.mp ((Finset.mem_union.mp hname).resolve_left hnew)
      have hmem := AdmitCall.mem_names_of_mem_plan hadded
      obtain ⟨key, hkey, rfl⟩ := AdmitCall.exists_key_of_mem_names hmem
      exact ⟨hnonempty i key hkey, AdmitCall.ne_other_of_mem_names hmem⟩
    · have hadded := List.mem_toFinset.mp ((Finset.mem_union.mp hkey).resolve_left hnew)
      have hplanned := (AdmitCall.mem_addLabels hadded).1
      exact AdmitCall.label_of_mem_labelsFor (mem_of_mem_planCapped hplanned).1
  | fail hrunning => exact ⟨fun name hname hnew => absurd hname hnew, fun key hkey hnew => absurd hkey hnew⟩
  | sweep names labels =>
    have hwithin := s.tables.sweep_within names labels
    exact ⟨fun name hname hnew => absurd (hwithin.names hname) hnew,
      fun key hkey hnew => absurd (hwithin.labels hkey) hnew⟩

end Runs

end argvio.storage
