import Argvio.Storage.InstallTxns

open Function

namespace argvio.storage

section Invariant

variable {ι : Type} [DecidableEq ι]

/-- The events of an install in the batches that are committed. -/
def committedEvents (batches : ι → List InstallEvent) (s : InstallSystem ι) (k : InstallKey) : Set InstallEvent :=
  {e | ∃ i, s.phase i = .committed ∧ e ∈ eventsOf (batches i) k}

/-- What an open transaction has planned or written for one install is exact for
the committed batches and its own, as the database keeps their times. -/
structure TxnExact (batches : ι → List InstallEvent) (k : InstallKey) (s : InstallSystem ι) (i : ι) : Prop where
  planned : ∀ next todo, s.phase i = .upsert k next todo →
    ∃ old ⊆ committedEvents batches s k,
      next.stored.Exact (InstallEvent.stored '' (old ∪ {e | e ∈ eventsOf (batches i) k}))
  written : ∀ row, (s.phase i).running → s.writes i k = some row →
    s.owner k = some i ∧
      row.Exact (InstallEvent.stored '' (committedEvents batches s k ∪ {e | e ∈ eventsOf (batches i) k}))
  covered : (s.phase i).running → eventsOf (batches i) k ≠ [] →
    k ∈ (s.phase i).todo ∨ ∃ row, s.writes i k = some row

/-- What every interleaving keeps for one install: the committed row is exact for
the committed batches, and every open transaction is exact in its turn. -/
structure TimesInvariant (batches : ι → List InstallEvent) (k : InstallKey) (s : InstallSystem ι) : Prop where
  rows : RowExact (s.rows k) (InstallEvent.stored '' committedEvents batches s k)
  txns : ∀ i, TxnExact batches k s i

section Steps

variable {batches : ι → List InstallEvent} {k : InstallKey} {s : InstallSystem ι}

variable {i : ι} {s' : InstallSystem ι} {phase : TxnPhase}

/-- A running call that moves on adds its batch to the committed ones if it commits. -/
theorem mem_committedEvents_update (hrunning : (s.phase i).running) (hs' : s'.phase = update s.phase i phase)
    {e : InstallEvent} :
    e ∈ committedEvents batches s' k ↔
      e ∈ committedEvents batches s k ∨ phase = .committed ∧ e ∈ eventsOf (batches i) k := by
  constructor
  · rintro ⟨j, hj, he⟩
    rw [hs'] at hj
    by_cases hij : j = i
    · subst hij
      rw [update_self] at hj
      exact .inr ⟨hj, he⟩
    · rw [update_of_ne hij] at hj
      exact .inl ⟨j, hj, he⟩
  · rintro (⟨j, hj, he⟩ | ⟨hphase, he⟩)
    · have hij : j ≠ i := by
        rintro rfl
        rw [hj] at hrunning
        exact hrunning
      refine ⟨j, ?_, he⟩
      rw [hs', update_of_ne hij]
      exact hj
    · refine ⟨i, ?_, he⟩
      rw [hs', update_self]
      exact hphase

theorem committedEvents_update (hrunning : (s.phase i).running) (hphase : phase ≠ .committed)
    (hs' : s'.phase = update s.phase i phase) : committedEvents batches s' k = committedEvents batches s k := by
  ext e
  rw [mem_committedEvents_update hrunning hs']
  exact or_iff_left (fun hcommitted => hphase hcommitted.1)

theorem committedEvents_commit (hrunning : (s.phase i).running) (hs' : s'.phase = update s.phase i .committed) :
    committedEvents batches s' k = committedEvents batches s k ∪ {e | e ∈ eventsOf (batches i) k} := by
  ext e
  rw [mem_committedEvents_update hrunning hs', Set.mem_union]
  exact or_congr_right (and_iff_right rfl)

omit [DecidableEq ι] in
theorem TxnExact.ended {i : ι} (h : ¬ (s.phase i).running) : TxnExact batches k s i where
  planned := fun next todo hphase => absurd (by rw [hphase]; trivial) h
  written := fun row hrunning _ => absurd hrunning h
  covered := fun hrunning _ => absurd hrunning h

omit [DecidableEq ι] in
/-- A transaction that did not take the step stays exact while the committed
batches only grow, and do not grow at all once it has written the row. -/
theorem TxnExact.frame {s' : InstallSystem ι} {j : ι} (h : TxnExact batches k s j) (hphase : s'.phase j = s.phase j)
    (hwrites : s'.writes j = s.writes j) (hgrow : committedEvents batches s k ⊆ committedEvents batches s' k)
    (hkept : ∀ row, (s.phase j).running → s.writes j k = some row →
      s'.owner k = some j ∧ committedEvents batches s' k = committedEvents batches s k) :
    TxnExact batches k s' j := by
  refine ⟨?_, ?_, ?_⟩
  · intro next todo hnext
    rw [hphase] at hnext
    obtain ⟨old, hold, hexact⟩ := h.planned next todo hnext
    exact ⟨old, hold.trans hgrow, hexact⟩
  · intro row hrunning hrow
    rw [hphase] at hrunning
    rw [hwrites] at hrow
    obtain ⟨howner, hsame⟩ := hkept row hrunning hrow
    rw [hsame]
    exact ⟨howner, (h.written row hrunning hrow).2⟩
  · intro hrunning hevents
    rw [hphase] at hrunning ⊢
    rw [hwrites]
    exact h.covered hrunning hevents

omit [DecidableEq ι] in
theorem TxnExact.lock {i j : ι} (h : TxnExact batches k s j) {k₁ : InstallKey} (hfree : s.Free i k₁)
    {row : InstallState} (hrunning : (s.phase j).running) (hwrites : s.writes j k = some row) :
    s.lock i k₁ k = some j := by
  have howner := (h.written row hrunning hwrites).1
  unfold InstallSystem.lock
  by_cases hk : k = k₁
  · subst hk
    rw [update_self]
    rcases hfree with hnone | hmine
    · rw [howner] at hnone
      cases hnone
    · rw [← hmine, howner]
  · rw [update_of_ne hk]
    exact howner

theorem TxnExact.release {i j : ι} (h : TxnExact batches k s j) (hij : j ≠ i) {row : InstallState}
    (hrunning : (s.phase j).running) (hwrites : s.writes j k = some row) : s.release i k = some j := by
  have howner := (h.written row hrunning hwrites).1
  unfold InstallSystem.release
  rw [howner, if_neg fun heq => hij (Option.some.inj heq)]

/-- A running call that moves on without a commit changes nothing for the others that
own what they have written. -/
theorem TimesInvariant.moved (hinv : TimesInvariant batches k s) (hrunning : (s.phase i).running)
    (hphase : phase ≠ .committed) (hs' : s'.phase = update s.phase i phase) (hrows : s'.rows = s.rows)
    (hwrites : ∀ j, j ≠ i → s'.writes j = s.writes j)
    (howner : ∀ j row, j ≠ i → (s.phase j).running → s.writes j k = some row → s'.owner k = some j)
    (hown : committedEvents batches s' k = committedEvents batches s k → TxnExact batches k s' i) :
    TimesInvariant batches k s' := by
  have hset : committedEvents batches s' k = committedEvents batches s k := committedEvents_update hrunning hphase hs'
  refine ⟨?_, fun j => ?_⟩
  · rw [hset, hrows]
    exact hinv.rows
  by_cases hij : j = i
  · subst hij
    exact hown hset
  · have hsame : s'.phase j = s.phase j := by rw [hs', update_of_ne hij]
    refine (hinv.txns j).frame hsame (hwrites j hij) hset.ge ?_
    exact fun row hj hrow => ⟨howner j row hij hj hrow, hset⟩

variable {todo : List InstallKey} {next : InstallState} {k₁ : InstallKey}

section Planned

variable (hinv : TimesInvariant batches k s)

include hinv

/-- A call reads a row, or finds none, and plans the next one. -/
theorem TimesInvariant.plan {owner : InstallKey → Option ι} (hphase : s.phase i = .select (k₁ :: todo))
    (hplan : k₁ = k →
      next.stored.Exact (InstallEvent.stored '' (committedEvents batches s k ∪ {e | e ∈ eventsOf (batches i) k})))
    (howner : ∀ j row, (s.phase j).running → s.writes j k = some row → owner k = some j) :
    TimesInvariant batches k { s with owner := owner, phase := update s.phase i (.upsert k₁ next todo) } := by
  have hrunning : (s.phase i).running := by rw [hphase]; trivial
  have hnow : update s.phase i (.upsert k₁ next todo) i = .upsert k₁ next todo := update_self ..
  refine hinv.moved hrunning (by simp) rfl rfl (fun _ _ => rfl) (fun j row _ => howner j row)
    fun hset => ⟨?_, ?_, ?_⟩
  · intro next' todo' hi
    rw [hset]
    cases hnow.symm.trans hi
    exact ⟨_, subset_refl _, hplan rfl⟩
  · intro row _ hwrites
    rw [hset]
    exact ⟨howner i row hrunning hwrites, ((hinv.txns i).written row hrunning hwrites).2⟩
  · intro _ hevents
    have hcovered := (hinv.txns i).covered hrunning hevents
    rw [hphase] at hcovered
    dsimp only
    rw [hnow]
    exact hcovered

/-- The row a call writes merges what it has planned into the committed row. -/
theorem TimesInvariant.upsert (hphase : s.phase i = .upsert k₁ next todo) (hfree : s.Free i k₁) :
    TimesInvariant batches k
      { s with
        owner := s.lock i k₁
        phase := update s.phase i (.select todo)
        writes := update s.writes i
          (update (s.writes i) k₁ (some (upsertInstall (s.rows k₁) next))) } := by
  have hrunning : (s.phase i).running := by rw [hphase]; trivial
  have hnow : update s.phase i (.select todo) i = .select todo := update_self ..
  refine hinv.moved hrunning (by simp) rfl rfl (fun j hij => update_of_ne hij ..)
    (fun j row _ hj hwrites => (hinv.txns j).lock hfree hj hwrites) fun hset => ⟨?_, ?_, ?_⟩
  · intro next' todo' hi
    cases hnow.symm.trans hi
  · intro row _ hwrites
    rw [hset]
    dsimp only at hwrites ⊢
    rw [update_self] at hwrites
    by_cases hk : k = k₁
    · subst hk
      rw [update_self] at hwrites
      obtain ⟨old, hold, hexact⟩ := (hinv.txns i).planned next todo hphase
      have hrow := RowExact.upsertInstall hinv.rows hexact
      rw [← Set.image_union, ← Set.union_assoc, Set.union_eq_self_of_subset_right hold, Option.some.inj hwrites] at hrow
      exact ⟨update_self .., hrow⟩
    · rw [update_of_ne hk] at hwrites
      exact ⟨(hinv.txns i).lock hfree hrunning hwrites, ((hinv.txns i).written row hrunning hwrites).2⟩
  · intro _ hevents
    dsimp only
    rw [hnow, update_self]
    by_cases hk : k = k₁
    · subst hk
      exact .inr ⟨_, update_self ..⟩
    · rw [update_of_ne hk]
      have hcovered := (hinv.txns i).covered hrunning hevents
      rw [hphase] at hcovered
      exact hcovered.imp_left fun hmem => (List.mem_cons.mp hmem).resolve_left hk

/-- What a call that commits has written covers its whole batch. -/
theorem TimesInvariant.commit (hphase : s.phase i = .select []) :
    TimesInvariant batches k
      { s with rows := s.view i, owner := s.release i, phase := update s.phase i .committed } := by
  have hrunning : (s.phase i).running := by rw [hphase]; trivial
  have hset : committedEvents batches
      { s with rows := s.view i, owner := s.release i, phase := update s.phase i .committed } k =
        committedEvents batches s k ∪ {e | e ∈ eventsOf (batches i) k} := committedEvents_commit hrunning rfl
  -- A call that has not written the row has no event of the install.
  have hsame : s.writes i k = none →
      committedEvents batches s k ∪ {e | e ∈ eventsOf (batches i) k} = committedEvents batches s k := by
    intro hwrites
    have hnil : eventsOf (batches i) k = [] := by
      by_contra hne
      rcases (hinv.txns i).covered hrunning hne with htodo | ⟨row, hrow⟩
      · rw [hphase] at htodo
        cases htodo
      · rw [hwrites] at hrow
        cases hrow
    simp [hnil]
  refine ⟨?_, fun j => ?_⟩
  · rw [hset]
    change RowExact ((s.writes i k).or (s.rows k)) _
    cases hwrites : s.writes i k with
    | none =>
      rw [hsame hwrites]
      exact hinv.rows
    | some row => exact ((hinv.txns i).written row hrunning hwrites).2
  by_cases hij : j = i
  · subst hij
    apply TxnExact.ended
    dsimp only
    rw [update_self]
    exact id
  refine (hinv.txns j).frame (update_of_ne hij ..) rfl ?_ ?_
  · rw [hset]
    exact Set.subset_union_left
  intro row hj hwrites
  refine ⟨(hinv.txns j).release hij hj hwrites, hset.trans (hsame ?_)⟩
  have howner := ((hinv.txns j).written row hj hwrites).1
  cases hmine : s.writes i k with
  | none => rfl
  | some row' =>
    have howner' := ((hinv.txns i).written row' hrunning hmine).1
    rw [howner] at howner'
    exact absurd (Option.some.inj howner') hij

theorem TimesInvariant.abort (hrunning : (s.phase i).running) :
    TimesInvariant batches k { s with owner := s.release i, phase := update s.phase i .aborted } := by
  refine hinv.moved hrunning (by simp) rfl rfl (fun _ _ => rfl)
    (fun j row hij hj hwrites => (hinv.txns j).release hij hj hwrites) fun _ => ?_
  apply TxnExact.ended
  dsimp only
  rw [update_self]
  exact id

theorem TimesInvariant.step (hstep : InstallStep batches s s') : TimesInvariant batches k s' := by
  cases hstep with
  | found hphase hrow hfree hplan =>
    refine hinv.plan hphase ?_ (fun j row hj hwrites => (hinv.txns j).lock hfree hj hwrites)
    rintro rfl
    have hexact := hinv.rows
    rw [hrow] at hexact
    exact planInstall_exact hexact hplan
  | missing hphase hrow hplan =>
    refine hinv.plan hphase ?_ (fun j row hj hwrites => ((hinv.txns j).written row hj hwrites).1)
    rintro rfl
    have hexact := hinv.rows
    rw [hrow] at hexact
    exact planInstall_exact hexact hplan
  | upsert hphase hfree => exact hinv.upsert hphase hfree
  | commit hphase => exact hinv.commit hphase
  | abort hrunning => exact hinv.abort hrunning

end Planned

omit [DecidableEq ι] in
theorem TimesInvariant.start {rows : InstallKey → Option InstallState} (hnew : rows k = none) :
    TimesInvariant batches k (InstallSystem.start batches rows) := by
  have hempty : committedEvents batches (InstallSystem.start batches rows) k = ∅ := by
    refine Set.eq_empty_of_forall_notMem ?_
    rintro e ⟨i, hcommitted, _⟩
    cases hcommitted
  refine ⟨?_, fun i => ⟨?_, ?_, ?_⟩⟩
  · change RowExact (rows k) _
    rw [hnew, hempty, Set.image_empty]
    rfl
  · intro next todo hphase
    cases hphase
  · intro row _ hwrites
    cases hwrites
  · intro _ hevents
    exact .inl (mem_installKeys.mpr hevents)

theorem TimesInvariant.reaches (hinv : TimesInvariant batches k s) (hreaches : InstallReaches batches s s') :
    TimesInvariant batches k s' := by
  induction hreaches with
  | refl => exact hinv
  | tail _ hstep ih => exact ih.step hstep

end Steps

/-- However the transactions interleave, the row of an install that had none is
exact for the events of the committed batches, at the precision of the database. -/
theorem install_times_exact {batches : ι → List InstallEvent} {rows : InstallKey → Option InstallState}
    {k : InstallKey} (hnew : rows k = none) {s : InstallSystem ι}
    (hreaches : InstallReaches batches (.start batches rows) s) {events : Multiset InstallEvent} (hevents : events ≠ 0)
    (hcover : ∀ e, e ∈ events ↔ ∃ i, s.phase i = .committed ∧ e ∈ batches i ∧ e.key = k) :
    ∃ row, s.rows k = some row ∧ row.Exact (InstallEvent.stored '' {e | e ∈ events}) ∧
      ((∀ e ∈ events, e.stored = e) → row.Exact {e | e ∈ events}) ∧ row.firstSeen ≤ row.lastSeen ∧
      (∀ c, row.firstCommandAt = some c → row.firstSeen ≤ c ∧ c ≤ row.lastSeen) ∧
      ∀ t, row.firstSuccessAt = some t → t ≤ row.lastSeen ∧ ∃ c, row.firstCommandAt = some c ∧ c ≤ t := by
  have hstart : TimesInvariant batches k (.start batches rows) := .start hnew
  have hinv := hstart.reaches hreaches
  have hset : committedEvents batches s k = {e | e ∈ events} := by
    ext e
    simp only [committedEvents, eventsOf, List.mem_filter, decide_eq_true_eq, Set.mem_ofPred_eq]
    exact (hcover e).symm
  have hexact := hinv.rows
  rw [hset] at hexact
  cases hrow : s.rows k with
  | none =>
    rw [hrow] at hexact
    obtain ⟨e, he⟩ := Multiset.exists_mem_of_ne_zero hevents
    have hempty : {e | e ∈ events} = (∅ : Set InstallEvent) := Set.image_eq_empty.mp hexact
    exact absurd he (Set.eq_empty_iff_forall_notMem.mp hempty e)
  | some row =>
    rw [hrow] at hexact
    have hrowExact : row.Exact (InstallEvent.stored '' {e | e ∈ events}) := hexact
    refine ⟨row, rfl, hrowExact, ?_, hrowExact.ordered⟩
    intro hwhole
    have hsame : Set.EqOn InstallEvent.stored id {e | e ∈ events} := hwhole
    rw [hsame.image_eq_self] at hrowExact
    exact hrowExact

end Invariant

/-- A session start and a later command of one install. -/
def sampleInstallEvent (at_ : Int) (completed : Bool) : InstallEvent where
  tenantID := 1
  installID := "i"
  at_ := at_
  version := some "1.0.0"
  os := none
  arch := none
  completed := completed
  exitCode := if completed then some 0 else none
  installMeth := ""

/-- Two calls, each with one of the events. -/
def raceBatches : Bool → List InstallEvent
  | true => [sampleInstallEvent 5000 true]
  | false => [sampleInstallEvent 3000 false]

/-- Both calls find no row, the later event is committed first, and the other call
merges into it. -/
theorem raceBatches_reaches :
    ∃ s, InstallReaches raceBatches (.start raceBatches (fun _ => none)) s ∧ ∀ i, s.phase i = .committed := by
  have hreaches : Relation.ReflTransGen (InstallStep raceBatches) (.start raceBatches (fun _ => none)) _ :=
    .head (.missing (i := true) rfl rfl rfl) <| .head (.missing (i := false) rfl rfl rfl) <|
      .head (.upsert (i := true) rfl (.inl rfl)) <| .head (.commit (i := true) rfl) <|
      .head (.upsert (i := false) rfl (.inl rfl)) <| .single (.commit (i := false) rfl)
  refine ⟨_, hreaches, fun i => ?_⟩
  cases i <;> rfl

theorem install_times_exact_create_race :
    ∃ s, InstallReaches raceBatches (.start raceBatches (fun _ => none)) s ∧
      ∃ row, s.rows ⟨1, "i"⟩ = some row ∧
        row.Exact {e | e ∈ ({sampleInstallEvent 5000 true, sampleInstallEvent 3000 false} : Multiset InstallEvent)} := by
  obtain ⟨s, hreaches, hcommitted⟩ := raceBatches_reaches
  have hcover : ∀ e, e ∈ ({sampleInstallEvent 5000 true, sampleInstallEvent 3000 false} : Multiset InstallEvent) ↔
      ∃ i, s.phase i = .committed ∧ e ∈ raceBatches i ∧ e.key = ⟨1, "i"⟩ := by
    intro e
    simp only [hcommitted, true_and, Bool.exists_bool, raceBatches, List.mem_singleton, Multiset.insert_eq_cons,
      Multiset.mem_cons, Multiset.mem_singleton]
    constructor
    · rintro (rfl | rfl)
      · exact .inr ⟨rfl, rfl⟩
      · exact .inl ⟨rfl, rfl⟩
    · rintro (⟨rfl, _⟩ | ⟨rfl, _⟩)
      · exact .inr rfl
      · exact .inl rfl
  obtain ⟨row, hrow, _, hexact, _⟩ := install_times_exact rfl hreaches (by decide) hcover
  exact ⟨s, hreaches, row, hrow, hexact (by decide)⟩

end argvio.storage
