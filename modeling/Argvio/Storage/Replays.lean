import Argvio.Storage.InstallChanges
import Argvio.Storage.InstallWriters

open List

namespace argvio.storage

open InstallState

/-- The row without its install method. -/
def InstallState.otherColumns (st : InstallState) : InstallState := { st with installMethod := none }

theorem InstallState.eq_of_otherColumns {st next : InstallState} (h : st.otherColumns = next.otherColumns)
    (hmethod : st.installMethod = next.installMethod) : st = next := by
  cases st
  cases next
  simp only [otherColumns, InstallState.mk.injEq] at h hmethod ⊢
  exact ⟨h.1, h.2.1, h.2.2.1, h.2.2.2.1, h.2.2.2.2.1, h.2.2.2.2.2.1, hmethod, h.2.2.2.2.2.2.2⟩

/-- An event whose times the row has taken in already. -/
structure InstallState.Absorbs (st : InstallState) (e : InstallEvent) : Prop where
  firstSeen : st.firstSeen ≤ e.at_
  lastSeen : e.at_ ≤ st.lastSeen
  firstCommandAt : optMin st.firstCommandAt (if e.completed then some e.at_ else none) = st.firstCommandAt
  firstSuccessAt : optMin st.firstSuccessAt (if e.Succeeded then some e.at_ else none) = st.firstSuccessAt

theorem or_or_self {α : Type} (x y : Option α) : x.or (x.or y) = x.or y := by
  rw [← Option.or_assoc, Option.or_self]

theorem optMin_optMin_self (a b : Option Int) : optMin (optMin a b) b = optMin a b := by
  rw [optMin_assoc, optMin_self]

theorem optMin_right_comm (a b c : Option Int) : optMin (optMin a b) c = optMin (optMin a c) b := by
  rw [optMin_assoc, optMin_comm b c, ← optMin_assoc]

section Absorbs

variable {st : InstallState} {e : InstallEvent}

theorem InstallState.absorbs_fold (st : InstallState) (e : InstallEvent) : (st.fold e).Absorbs e := by
  rw [fold_eq]
  exact ⟨min_le_right _ _, le_max_right _ _, optMin_optMin_self _ _, optMin_optMin_self _ _⟩

theorem InstallState.Absorbs.fold (h : st.Absorbs e) (e' : InstallEvent) : (st.fold e').Absorbs e := by
  rw [fold_eq]
  refine ⟨(min_le_left _ _).trans h.firstSeen, h.lastSeen.trans (le_max_left _ _), ?_, ?_⟩
  · dsimp only
    rw [optMin_right_comm, h.firstCommandAt]
  · dsimp only
    rw [optMin_right_comm, h.firstSuccessAt]

variable {events : List InstallEvent}

theorem InstallState.Absorbs.foldl (h : st.Absorbs e) (events : List InstallEvent) :
    (events.foldl InstallState.fold st).Absorbs e := by
  induction events generalizing st with
  | nil => exact h
  | cons e' rest ih => exact ih (h.fold e')

/-- Every event of a run is absorbed at its end. -/
theorem absorbs_runEvents {row : Option InstallState} (hmem : e ∈ events) (h : runEvents row events = some st) :
    st.Absorbs e := by
  obtain ⟨start, rfl⟩ := runEvents_eq_some h
  obtain ⟨before, after, rfl⟩ := append_of_mem hmem
  rw [foldl_append, foldl_cons]
  exact (InstallState.absorbs_fold _ e).foldl after

/-- Events that are absorbed can only change the last columns and the install method. -/
theorem exists_foldl_of_absorbs (h : ∀ e ∈ events, st.Absorbs e) :
    ∃ version os arch method, events.foldl fold st =
      { st with lastVersion := version, lastOS := os, lastArch := arch, installMethod := method } := by
  induction events generalizing st with
  | nil => exact ⟨_, _, _, _, rfl⟩
  | cons e rest ih =>
    obtain ⟨hfirst, hrest⟩ := forall_mem_cons.mp h
    have hfold : st.fold e = { st with
        lastVersion := (st.fold e).lastVersion, lastOS := (st.fold e).lastOS, lastArch := (st.fold e).lastArch
        installMethod := (st.fold e).installMethod } := by
      rw [fold_eq]
      dsimp only
      rw [min_eq_left hfirst.firstSeen, max_eq_left hfirst.lastSeen, if_neg (not_lt.mpr hfirst.firstSeen),
        hfirst.firstCommandAt, hfirst.firstSuccessAt]
    rw [foldl_cons]
    obtain ⟨version, os, arch, method, hrun⟩ := ih fun e' he' => (hrest e' he').fold e
    refine ⟨version, os, arch, method, hrun.trans ?_⟩
    rw [hfold]

end Absorbs

theorem foldl_insertChange_of_taken {stored changes : List VersionChange} {time : Int}
    (htimes : ∀ c ∈ changes, timestamptz c.at_ = time) (htaken : ∃ c ∈ stored, c.at_ = time) :
    changes.foldl insertChange stored = stored := by
  induction changes with
  | nil => rfl
  | cons c rest ih =>
    obtain ⟨hfirst, hrest⟩ := forall_mem_cons.mp htimes
    have hdropped : insertChange stored c = stored := by
      obtain ⟨c', hmem, hat⟩ := htaken
      exact if_pos (any_eq_true.mpr ⟨c', hmem, decide_eq_true (hat.trans hfirst.symm)⟩)
    rw [foldl_cons, hdropped, ih hrest]

/-- Of changes in one microsecond the first is stored, unless it is taken. -/
theorem foldl_insertChange_eq_self_iff {stored changes : List VersionChange} {time : Int}
    (htimes : ∀ c ∈ changes, timestamptz c.at_ = time) :
    changes.foldl insertChange stored = stored ↔ changes = [] ∨ ∃ c ∈ stored, c.at_ = time := by
  constructor
  · intro hsame
    by_contra hneither
    obtain ⟨hne, hfree⟩ := not_or.mp hneither
    obtain ⟨c, rest, rfl⟩ := exists_cons_of_ne_nil hne
    obtain ⟨hfirst, hrest⟩ := forall_mem_cons.mp htimes
    have hinserted : insertChange stored c = stored ++ [c.stored] := by
      refine if_neg fun hany => hfree ?_
      obtain ⟨c', hmem, hat⟩ := any_eq_true.mp hany
      exact ⟨c', hmem, (of_decide_eq_true hat).trans hfirst⟩
    rw [foldl_cons, hinserted, foldl_insertChange_of_taken hrest ⟨c.stored, by simp, hfirst⟩] at hsame
    simp at hsame
  · rintro (rfl | htaken)
    · rfl
    · exact foldl_insertChange_of_taken htimes htaken

/-- What makes a batch that was applied before harmless to a row and its changes. The newest of its
events from the row's last time on that sends a column sends what the column holds, and no event
after that time reveals a version change, unless a change is stored for that time. -/
structure ReplaySafe (st : InstallState) (changes : List VersionChange) (events : List InstallEvent) : Prop where
  columns : ∀ f : LastField,
    ∀ x ∈ lastSent f.sent ((byTime events).filter (fun e => st.lastSeen ≤ e.at_)), f.column st = some x
  changes : (∀ e ∈ events, ¬ Reveals (some st) events e) ∨ ∃ c ∈ changes, c.at_ = st.lastSeen

instance {p : LastField → Prop} [DecidablePred p] : Decidable (∀ f, p f) :=
  decidable_of_iff (p .version ∧ p .os ∧ p .arch)
    ⟨fun h f => by cases f <;> simp [h], fun h => ⟨h .version, h .os, h .arch⟩⟩

instance (st : InstallState) (changes : List VersionChange) (events : List InstallEvent) :
    Decidable (ReplaySafe st changes events) :=
  decidable_of_iff (_ ∧ _) ⟨fun h => ⟨h.1, h.2⟩, fun h => ⟨h.columns, h.changes⟩⟩

section Track

variable {v : Tracked} {events : List InstallEvent} {st : InstallState} (hst : v.row = some st)
  (hstored : st.stored = st) (habsorbs : ∀ e ∈ storedByTime events, st.Absorbs e)
include hst hstored

theorem row_track_of_row : (v.track events).row = some ((storedByTime events).foldl fold st) := by
  have hrow : StoredRow v.row := by
    rw [hst]
    exact congrArg some hstored
  rw [row_track hrow, hst]
  rfl

omit hst in
/-- A column after a replay. -/
theorem column_replay (f : LastField) : f.column ((storedByTime events).foldl fold st) =
    (lastSent f.sent ((byTime events).filter (fun e => st.lastSeen ≤ e.at_))).or (f.column st) := by
  have hwhole : timestamptz st.lastSeen = st.lastSeen := congrArg InstallState.lastSeen hstored
  have hfilter : (storedByTime events).filter (fun e => st.lastSeen ≤ e.at_) =
      ((byTime events).filter (fun e => st.lastSeen ≤ e.at_)).map InstallEvent.stored := by
    unfold storedByTime
    rw [filter_map]
    refine congrArg (map _) (filter_congr fun e _ => ?_)
    have hle : st.lastSeen ≤ timestamptz e.at_ ↔ st.lastSeen ≤ e.at_ := by
      unfold timestamptz at *
      omega
    exact decide_eq_decide.mpr hle
  rw [column_foldl f (storedByTime_pairwise events), hfilter]
  unfold lastSent
  rw [foldl_map]
  simp only [f.sent_stored]

include habsorbs

theorem otherColumns_track_iff : (v.track events).row.map otherColumns = v.row.map otherColumns ↔
    ∀ f : LastField, ∀ x ∈ lastSent f.sent ((byTime events).filter (fun e => st.lastSeen ≤ e.at_)),
      f.column st = some x := by
  have hcolumns : (∀ f : LastField, f.column ((storedByTime events).foldl fold st) = f.column st) ↔
      ∀ f : LastField, ∀ x ∈ lastSent f.sent ((byTime events).filter (fun e => st.lastSeen ≤ e.at_)),
        f.column st = some x := by
    refine forall_congr' fun f => ?_
    rw [column_replay hstored]
    cases lastSent f.sent ((byTime events).filter (fun e => st.lastSeen ≤ e.at_)) with
    | none => simp
    | some x => simp [eq_comm]
  rw [row_track_of_row hst hstored, hst, ← hcolumns]
  obtain ⟨version, os, arch, method, hrun⟩ := exists_foldl_of_absorbs habsorbs
  rw [hrun]
  constructor
  · intro hsame f
    have hrow := Option.some.inj hsame
    simp only [otherColumns, InstallState.mk.injEq] at hrow
    cases f
    · exact hrow.2.2.2.1
    · exact hrow.2.2.2.2.1
    · exact hrow.2.2.2.2.2.1
  · intro hsame
    have hversion := hsame .version
    have hos := hsame .os
    have harch := hsame .arch
    simp only [LastField.column] at hversion hos harch
    subst hversion hos harch
    rfl

theorem changes_track_iff (hsame : ∀ e ∈ events, ∀ e' ∈ events, e.at_ = e'.at_ → e = e') :
    (v.track events).changes = v.changes ↔
      (∀ e ∈ events, ¬ Reveals (some st) events e) ∨ ∃ c ∈ v.changes, c.at_ = st.lastSeen := by
  have hplanned : runChanges (some st) (byTime events) = [] ↔ ∀ e ∈ events, ¬ Reveals (some st) events e := by
    rw [eq_nil_iff_forall_not_mem]
    constructor
    · intro hnone e he hreveals
      obtain ⟨c, hc, -⟩ := hreveals.exists_change he fun e' he' hat => hsame e' he' e he hat
      exact hnone c hc
    · intro hnone c hc
      obtain ⟨e, he, hreveals, -⟩ := exists_reveals hc
      exact hnone e he hreveals
  have htimes : ∀ c ∈ runChanges (some st) (byTime events), timestamptz c.at_ = st.lastSeen := by
    intro c hc
    obtain ⟨e, he, -, hat⟩ := exists_reveals hc
    have hbefore := (habsorbs e.stored (mem_storedByTime.mpr ⟨e, he, rfl⟩)).lastSeen
    have hafter := lastSeen_lt_of_mem_runChanges hc
    have hwhole : timestamptz st.lastSeen = st.lastSeen := congrArg InstallState.lastSeen hstored
    have hmono := timestamptz_mono hafter.le
    change timestamptz e.at_ ≤ st.lastSeen at hbefore
    rw [hat] at hbefore
    omega
  rw [changes_track, hst, foldl_insertChange_eq_self_iff htimes, hplanned]

end Track

section Replay

variable {t : InstallTables} {k : InstallKey} (hstored : StoredRow (t.installs k)) {batches : List (List InstallEvent)}
  {b : List InstallEvent} (hsame : ∀ e ∈ b, ∀ e' ∈ b, e.key = e'.key → e.at_ = e'.at_ → e = e') (hb : b ∈ batches)
include hstored

theorem StoredRow.foldl_trackInstalls (batches : List (List InstallEvent)) :
    StoredRow ((batches.foldl trackInstalls t).installs k) := by
  induction batches generalizing t with
  | nil => exact hstored
  | cons batch rest ih =>
    refine ih ?_
    rw [installs_trackInstalls hstored]
    exact hstored.runEvents _

include hb

/-- After its batch was applied, an event is absorbed for good. -/
theorem absorbs_of_applied {st : InstallState} (hrow : (batches.foldl trackInstalls t).installs k = some st) :
    ∀ e ∈ storedByTime (eventsOf b k), st.Absorbs e := by
  intro e he
  rw [installs_foldl_trackInstalls hstored] at hrow
  exact absorbs_runEvents (mem_flatMap.mpr ⟨b, hb, he⟩) hrow

theorem eventsOf_eq_nil_of_applied (hrow : (batches.foldl trackInstalls t).installs k = none) : eventsOf b k = [] := by
  rw [installs_foldl_trackInstalls hstored] at hrow
  refine eq_nil_iff_forall_not_mem.mpr fun e he => ?_
  have hmem : e.stored ∈ arrivals batches k := mem_flatMap.mpr ⟨b, hb, mem_storedByTime.mpr ⟨e, he, rfl⟩⟩
  rw [runEvents_eq_none hrow] at hmem
  cases hmem

omit hb in
/-- Right after a batch was applied the install method is that of the batch, or the batch reports none. -/
theorem installMethod_replay {st : InstallState} (hlast : batches.getLast? = some b)
    (hrow : (batches.foldl trackInstalls t).installs k = some st) :
    ((storedByTime (eventsOf b k)).foldl fold st).installMethod = st.installMethod := by
  obtain ⟨before, rfl⟩ := getLast?_eq_some_iff.mp hlast
  rw [foldl_append, foldl_cons, foldl_nil, installs_trackInstalls (hstored.foldl_trackInstalls before)] at hrow
  obtain ⟨start, rfl⟩ := runEvents_eq_some hrow
  rw [installMethod_foldl, installMethod_foldl, or_or_self]

/-- To call `TrackInstalls` again with a batch that was applied before, whatever was applied in
between, changes at most the install method of an install and inserts no version change for it, and
right after the batch changes nothing, exactly when the batch is safe for its row. -/
theorem replay_harmless_iff (hsame : ∀ e ∈ b, ∀ e' ∈ b, e.key = e'.key → e.at_ = e'.at_ → e = e') :
    (let before := batches.foldl trackInstalls t
    let after := trackInstalls before b
    (after.installs k).map otherColumns = (before.installs k).map otherColumns ∧
      (after.tracked k).changes = (before.tracked k).changes ∧
      (batches.getLast? = some b → after.tracked k = before.tracked k)) ↔
    ∀ st ∈ (batches.foldl trackInstalls t).installs k,
      ReplaySafe st ((batches.foldl trackInstalls t).tracked k).changes (eventsOf b k) := by
  dsimp only
  have hsameOf : ∀ e ∈ eventsOf b k, ∀ e' ∈ eventsOf b k, e.at_ = e'.at_ → e = e' := by
    intro e he e' he' hat
    obtain ⟨he, hk⟩ := mem_filter.mp he
    obtain ⟨he', hk'⟩ := mem_filter.mp he'
    exact hsame e he e' he' ((of_decide_eq_true hk).trans (of_decide_eq_true hk').symm) hat
  have hafter := tracked_trackInstalls (batches.foldl trackInstalls t) b k
  have hrow' : (trackInstalls (batches.foldl trackInstalls t) b).installs k =
      (((batches.foldl trackInstalls t).tracked k).track (eventsOf b k)).row := congrArg Tracked.row hafter
  rw [hafter, hrow']
  cases hrow : (batches.foldl trackInstalls t).installs k with
  | none =>
    rw [eventsOf_eq_nil_of_applied hstored hb hrow]
    constructor
    · intro _ st hst
      cases hst
    · intro _
      exact ⟨congrArg _ hrow, rfl, fun _ => rfl⟩
  | some st =>
    have hst : ((batches.foldl trackInstalls t).tracked k).row = some st := hrow
    have hwhole : st.stored = st := by
      have hkept := hstored.foldl_trackInstalls batches
      rw [hrow] at hkept
      exact Option.some.inj hkept
    have habsorbs := absorbs_of_applied hstored hb hrow
    have hcolumns := otherColumns_track_iff hst hwhole habsorbs
    have hchanges := changes_track_iff hst hwhole habsorbs hsameOf
    rw [hst] at hcolumns
    rw [hcolumns, hchanges]
    constructor
    · rintro ⟨hsent, hrevealed, -⟩ st' hst'
      cases hst'
      exact ⟨hsent, hrevealed⟩
    intro hsafe
    obtain ⟨hsent, hrevealed⟩ := hsafe st rfl
    refine ⟨hsent, hrevealed, fun hlast => ?_⟩
    have hrest := hcolumns.mpr hsent
    have hmethod := installMethod_replay hstored hlast hrow
    rw [row_track_of_row hst hwhole] at hrest
    have hrowKept : (((batches.foldl trackInstalls t).tracked k).track (eventsOf b k)).row = some st := by
      rw [row_track_of_row hst hwhole]
      exact congrArg some (eq_of_otherColumns (Option.some.inj hrest) hmethod)
    exact congr (congrArg Tracked.mk (hrowKept.trans hst.symm)) (hchanges.mpr hrevealed)

end Replay

/-- A replay of the first of two sessions puts its install method back, and nothing else. -/
theorem replay_harmless_iff_two_sessions :
    let older := sessionStart 1000 (some "1.0.0") "brew"
    let newer := sessionStart 2000 (some "2.0.0") "npm"
    let s := [[older], [newer]].foldl trackInstalls ⟨fun _ => none, []⟩
    let replayed := trackInstalls s [older]
    ((replayed.installs older.key).map otherColumns = (s.installs older.key).map otherColumns ∧
      (replayed.tracked older.key).changes = (s.tracked older.key).changes) ∧
    (s.tracked older.key).changes.length = 1 ∧
    (s.installs older.key).map installMethod = some (some "npm") ∧
    (replayed.installs older.key).map installMethod = some (some "brew") := by
  intro older newer s replayed
  have hharmless := (@replay_harmless_iff ⟨fun _ => none, []⟩ older.key rfl [[older], [newer]] [older] (by decide)
    (by decide)).mpr (by decide)
  exact ⟨⟨hharmless.1, hharmless.2.1⟩, by decide, by decide, by decide⟩

/-- Of two sessions within one microsecond the replay of the first puts its version back. A batch of
three whose second version does not parse reveals no change, and its replay a downgrade. -/
theorem replay_inserts_change :
    (let older := sessionStart 100 (some "1.0.0") "brew"
    let newer := sessionStart 300 (some "2.0.0") "npm"
    let s := [[older], [newer]].foldl trackInstalls ⟨fun _ => none, []⟩
    (s.installs older.key).bind lastVersion = some "2.0.0" ∧
      ((trackInstalls s [older]).installs older.key).bind lastVersion = some "1.0.0") ∧
    let batch := [sessionStart 100 (some "1.0.0") "", sessionStart 200 (some "dev") "", sessionStart 300 (some "2.0.0") ""]
    let s := trackInstalls ⟨fun _ => none, []⟩ batch
    s.changes = [] ∧ (trackInstalls s batch).changes = [(⟨1, "install"⟩, ⟨0, "2.0.0", "1.0.0", false⟩)] := by
  decide

end argvio.storage
