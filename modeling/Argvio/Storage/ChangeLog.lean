import Argvio.Storage.InstallChanges
import Argvio.Storage.InstallVersions
import Argvio.Storage.SweepStatements

namespace argvio.storage

/-- One turn of the loop of `TrackInstalls`, on stored tables. -/
def SweptTables.trackInstall (events : List InstallEvent) (db : SweptTables) (k : InstallKey) : SweptTables :=
  match planInstall (db.installs.lookup k) (eventsOf events k) with
  | none => db
  | some (next, changes) =>
    { db with
      installs := db.installs.insert k (upsertInstall (db.installs.lookup k) next)
      changes := changes.foldl (insertVersionChange k) db.changes }

def SweptTables.trackInstalls (db : SweptTables) (events : List InstallEvent) : SweptTables :=
  (installKeys events).foldl (SweptTables.trackInstall events) db

/-- The two tables of install tracking. -/
def SweptTables.installTables (db : SweptTables) : InstallTables where
  installs := fun k => db.installs.lookup k
  changes := db.changes

theorem installTables_trackInstall (events : List InstallEvent) (db : SweptTables) (k : InstallKey) :
    (db.trackInstall events k).installTables = trackInstall events db.installTables k := by
  have hlookup : db.installTables.installs k = db.installs.lookup k := rfl
  unfold SweptTables.trackInstall trackInstall
  rw [hlookup]
  cases planInstall (db.installs.lookup k) (eventsOf events k) with
  | none => rfl
  | some plan =>
    have hinsert : ∀ row, (fun k' => (db.installs.insert k row).lookup k') =
        Function.update db.installTables.installs k (some row) := by
      intro row
      funext k'
      by_cases hk : k' = k
      · subst hk
        rw [AList.lookup_insert, Function.update_self]
      · rw [AList.lookup_insert_ne hk, Function.update_of_ne hk]
        rfl
    exact congrArg (InstallTables.mk · _) (hinsert _)

theorem installTables_trackInstalls (db : SweptTables) (events : List InstallEvent) :
    (db.trackInstalls events).installTables = trackInstalls db.installTables events := by
  unfold SweptTables.trackInstalls trackInstalls
  generalize installKeys events = keys
  induction keys generalizing db with
  | nil => rfl
  | cons k rest ih => rw [List.foldl_cons, List.foldl_cons, ih, installTables_trackInstall]

/-- The version changes an install's events reveal are each in a microsecond of their own, after
that of its first event. -/
structure Tracked.Apart (v : Tracked) (events : List InstallEvent) : Prop where
  apart : ∀ e ∈ events, ∀ e' ∈ events, Reveals v.row events e → Reveals v.row events e' →
    timestamptz e.at_ = timestamptz e'.at_ → e.at_ = e'.at_
  untaken : ∀ e ∈ events, Reveals v.row events e → ∀ c ∈ v.changes, c.at_ ≠ timestamptz e.at_
  later : ∀ e ∈ events, Reveals v.row events e →
    (∃ st ∈ v.row, st.firstSeen < timestamptz e.at_) ∨ ∃ e' ∈ events, timestamptz e'.at_ < timestamptz e.at_

/-- Every version change is after the first event of its install. -/
def Tracked.Strict (v : Tracked) : Prop := ∀ c ∈ v.changes, ∀ st ∈ v.row, st.firstSeen < c.at_

section Apart

variable {v : Tracked} {events : List InstallEvent}

theorem Tracked.Apart.untakenChanges (h : v.Apart events) : Untaken v.changes (runChanges v.row (byTime events)) where
  apart := by
    refine (runChanges_pairwise v.row (byTime events)).imp_of_mem fun {c c'} hc hc' hlt heq => ?_
    obtain ⟨e, he, hreveals, hat⟩ := exists_reveals hc
    obtain ⟨e', he', hreveals', hat'⟩ := exists_reveals hc'
    have hsame := h.apart e he e' he' hreveals hreveals' (by rw [hat, hat', heq])
    omega
  free := by
    intro c hc c' hc'
    obtain ⟨e, he, hreveals, hat⟩ := exists_reveals hc
    rw [← hat]
    exact h.untaken e he hreveals c' hc'

/-- All that a call plans for an install is inserted. -/
theorem Tracked.Apart.changes_track (h : v.Apart events) :
    (v.track events).changes = v.changes ++ (runChanges v.row (byTime events)).map VersionChange.stored := by
  rw [storage.changes_track, h.untakenChanges.foldl_insertChange]

theorem Tracked.Strict.track (hstrict : v.Strict) (hcoherent : v.Coherent) (h : v.Apart events) :
    (v.track events).Strict := by
  intro c hc st hst
  have hrow : runEvents v.row (storedByTime events) = some st := by rw [← row_track hcoherent.stored, hst]
  have hfirst : (∀ s ∈ v.row, st.firstSeen ≤ s.firstSeen) ∧ ∀ e ∈ events, st.firstSeen ≤ timestamptz e.at_ := by
    refine ⟨fun s hs => ?_, fun e he => ?_⟩
    · rw [hs] at hrow
      cases hrow
      exact ((InstallState.Extends.refl s).foldl _).firstSeen
    · exact firstSeen_le hrow (mem_storedByTime.mpr ⟨e, he, rfl⟩)
  rw [h.changes_track, List.mem_append, List.mem_map] at hc
  rcases hc with hold | ⟨c, hplanned, rfl⟩
  · obtain ⟨s, hs, -, -⟩ := hcoherent.within c hold
    exact (hfirst.1 s hs).trans_lt (hstrict c hold s hs)
  obtain ⟨e, he, hreveals, hat⟩ := exists_reveals hplanned
  change st.firstSeen < timestamptz c.at_
  rw [← hat]
  rcases h.later e he hreveals with ⟨s, hs, hlt⟩ | ⟨e', he', hlt⟩
  · exact (hfirst.1 s hs).trans_lt hlt
  · exact (hfirst.2 e' he').trans_lt hlt

/-- Whole microseconds keep the order of the events, so that no two changes meet. -/
theorem Tracked.Coherent.apart (hcoherent : v.Coherent) (hwhole : ∀ e ∈ events, e.stored = e) : v.Apart events := by
  have hat : ∀ e ∈ events, timestamptz e.at_ = e.at_ := fun e he => congrArg InstallEvent.at_ (hwhole e he)
  refine ⟨fun e he e' he' _ _ hsame => ?_, fun e he hreveals c hc => ?_, fun e he hreveals => ?_⟩
  · rwa [hat e he, hat e' he'] at hsame
  · obtain ⟨st, hst, -, hlast⟩ := hcoherent.within c hc
    have hafter := hreveals.after st hst
    rw [hat e he]
    omega
  · rw [hat e he]
    cases hrow : v.row with
    | some st =>
      have hafter := hreveals.after st hrow
      exact .inl ⟨st, rfl, (hcoherent.ordered st hrow).trans_lt hafter⟩
    | none =>
      -- The version before the event is that of an older one.
      obtain ⟨last, hlast, -⟩ := hreveals.ordered
      rw [hrow] at hlast
      right
      by_contra hnone
      have hempty : (byTime events).filter
          (fun e' => e'.at_ < e.at_ ∧ ∀ st ∈ (none : Option InstallState), st.lastSeen ≤ e'.at_) = [] := by
        refine List.filter_eq_nil_iff.mpr fun e' he' holder => hnone ⟨e', mem_byTime.mp he', ?_⟩
        rw [hat e' (mem_byTime.mp he')]
        exact (of_decide_eq_true holder).1
      unfold versionBefore at hlast
      rw [hempty] at hlast
      cases hlast

end Apart

variable {db : SweptTables}

/-- What a sweep with a cutoff keeps: changes by their time, the install by its last event. -/
def Tracked.since (v : Tracked) (cutoff : Int) : Tracked where
  row := v.row.filter (fun st => cutoff ≤ st.lastSeen)
  changes := v.changes.filter (fun c => cutoff ≤ c.at_)

theorem tracked_sweepBefore (db : SweptTables) (scope : SweepScope) (cutoff : Int) (k : InstallKey) :
    (db.sweepBefore scope cutoff).installTables.tracked k =
      if scope.selects k.tenant then (db.installTables.tracked k).since cutoff else db.installTables.tracked k := by
  have hrow := installs_sweepBefore db scope cutoff k.tenant k.id
  have hchanges : ((db.sweepBefore scope cutoff).changes.filter (fun row => row.1 = k)).map Prod.snd =
      if scope.selects k.tenant then (db.installTables.tracked k).changes.filter (fun c => cutoff ≤ c.at_)
      else (db.installTables.tracked k).changes := by
    have hkept : (db.sweepBefore scope cutoff).changes.filter (fun row => row.1 = k) =
        (db.changes.filter (fun row => row.1 = k)).filter
          (fun row => ¬ (row.2.at_ < cutoff ∧ scope.selects k.tenant)) := by
      change (db.changes.filter _).filter _ = _
      rw [List.filter_filter, List.filter_filter]
      refine List.filter_congr fun row _ => ?_
      by_cases hk : row.1 = k
      · simp [hk]
      · simp [hk]
    rw [hkept]
    by_cases hselects : scope.selects k.tenant = true
    · simp [hselects, SweptTables.installTables, InstallTables.tracked, List.filter_map, Function.comp_def]
    · simp [hselects, SweptTables.installTables, InstallTables.tracked]
  unfold InstallTables.tracked at *
  unfold SweptTables.installTables at *
  dsimp only at *
  rw [hchanges, hrow]
  split
  · rfl
  · rfl

/-- No change is after the last event of its install, so a sweep that deletes the install deletes
the change. -/
theorem Tracked.Coherent.since {v : Tracked} (h : v.Coherent) (cutoff : Int) : (v.since cutoff).Coherent := by
  have hrow : ∀ st, v.row.filter (fun st => cutoff ≤ st.lastSeen) = some st → v.row = some st :=
    fun st hst => (Option.filter_eq_some_iff.mp hst).1
  refine ⟨?_, fun st hst => h.ordered st (hrow st hst), fun c hc => h.changes c (List.mem_filter.mp hc).1, fun c hc => ?_⟩
  · unfold StoredRow Tracked.since
    cases hst : v.row.filter (fun st => cutoff ≤ st.lastSeen) with
    | none => rfl
    | some st =>
      have hstored := h.stored
      rw [hrow st hst] at hstored
      exact hstored
  · obtain ⟨hold, hkept⟩ := List.mem_filter.mp hc
    obtain ⟨st, hst, hfirst, hlast⟩ := h.within c hold
    refine ⟨st, Option.filter_eq_some_iff.mpr ⟨hst, ?_⟩, hfirst, hlast⟩
    exact decide_eq_true ((of_decide_eq_true hkept).trans hlast)

/-- What a server does to install state: a call of `TrackInstalls`, or a sweep. -/
inductive InstallAction where
  | track (events : List InstallEvent)
  | sweep (scope : SweepScope) (days now : Int)

/-- The tables after an action that returns; one that fails changes nothing. -/
def SweptTables.act (db : SweptTables) : InstallAction → SweptTables
  | .track events => db.trackInstalls events
  | .sweep scope days now =>
    match sweepInstalls scope days now db with
    | .ok (after, _) => after
    | .error _ => db

/-- The log of every install is coherent. -/
def SweptTables.Coherent (db : SweptTables) : Prop := ∀ k, (db.installTables.tracked k).Coherent

theorem tracked_track (db : SweptTables) (events : List InstallEvent) (k : InstallKey) :
    (db.act (.track events)).installTables.tracked k = (db.installTables.tracked k).track (eventsOf events k) := by
  rw [SweptTables.act, installTables_trackInstalls, tracked_trackInstalls]

/-- A sweep leaves an install as it is, or without what is before its cutoff. -/
theorem tracked_sweep (db : SweptTables) (scope : SweepScope) (days now : Int) (k : InstallKey) :
    (db.act (.sweep scope days now)).installTables.tracked k = db.installTables.tracked k ∨
      ∃ cutoff, (db.act (.sweep scope days now)).installTables.tracked k = (db.installTables.tracked k).since cutoff := by
  by_cases hdays : days ≤ 0
  · left
    simp only [SweptTables.act, sweepInstalls, if_pos hdays]
  · simp only [SweptTables.act, sweepInstalls, if_neg hdays]
    rw [tracked_sweepBefore]
    split
    · exact .inr ⟨_, rfl⟩
    · exact .inl rfl

theorem SweptTables.Coherent.act (h : db.Coherent) (action : InstallAction) : (db.act action).Coherent := by
  intro k
  cases action with
  | track events =>
    rw [tracked_track]
    exact (h k).track _
  | sweep scope days now =>
    rcases tracked_sweep db scope days now k with hkept | ⟨cutoff, hswept⟩
    · rw [hkept]
      exact h k
    · rw [hswept]
      exact (h k).since cutoff

theorem SweptTables.Coherent.run (h : db.Coherent) (actions : List InstallAction) :
    (actions.foldl SweptTables.act db).Coherent := by
  induction actions generalizing db with
  | nil => exact h
  | cons action rest ih => exact ih (h.act action)

/-- The changes that the events of an action reveal are apart. -/
def SweptTables.Apart (db : SweptTables) : InstallAction → Prop
  | .track events => ∀ k, (db.installTables.tracked k).Apart (eventsOf events k)
  | .sweep _ _ _ => True

/-- Every change is after the first event of its install. -/
def SweptTables.Strict (db : SweptTables) : Prop := ∀ k, (db.installTables.tracked k).Strict

theorem SweptTables.Strict.act (h : db.Strict) (hcoherent : db.Coherent) {action : InstallAction}
    (happart : db.Apart action) : (db.act action).Strict := by
  intro k
  cases action with
  | track events =>
    rw [tracked_track]
    exact (h k).track (hcoherent k) (happart k)
  | sweep scope days now =>
    rcases tracked_sweep db scope days now k with hkept | ⟨cutoff, hswept⟩
    · rw [hkept]
      exact h k
    · rw [hswept]
      intro c hc st hst
      exact h k c (List.mem_filter.mp hc).1 st (Option.filter_eq_some_iff.mp hst).1

theorem SweptTables.Strict.run (h : db.Strict) (hcoherent : db.Coherent) {actions : List InstallAction}
    (happart : ∀ before action after, actions = before ++ action :: after → (before.foldl SweptTables.act db).Apart action) :
    (actions.foldl SweptTables.act db).Strict := by
  induction actions generalizing db with
  | nil => exact h
  | cons action rest ih =>
    refine ih (h.act hcoherent (happart [] action rest rfl)) (hcoherent.act action) fun before action' after hrest => ?_
    exact happart (action :: before) action' after (by rw [hrest]; rfl)

/-- The tables with no installs yet, whatever the others hold. -/
def SweptTables.withoutInstalls (db : SweptTables) : SweptTables := { db with installs := ∅, changes := [] }

theorem coherent_untracked : (⟨none, []⟩ : Tracked).Coherent := by
  refine ⟨rfl, ?_, ?_, ?_⟩
  · intro st hst
    cases hst
  · intro c hc
    cases hc
  · intro c hc
    cases hc

theorem coherent_withoutInstalls (db : SweptTables) : db.withoutInstalls.Coherent := fun _ => coherent_untracked

/-- What the version-change log keeps to. -/
structure ChangeLogInvariant (db : SweptTables) : Prop where
  within : ∀ k c, (k, c) ∈ db.changes →
    ∃ st, db.installs.lookup k = some st ∧ st.firstSeen < c.at_ ∧ c.at_ ≤ st.lastSeen
  coherent : ∀ k c, (k, c) ∈ db.changes → c.Coherent

/-- What a call plans is in order, after what is stored, and inserted as a whole. -/
structure CallLogged (db : SweptTables) (events : List InstallEvent) : Prop where
  increasing : ∀ k next changes, planInstall (db.installs.lookup k) (eventsOf events k) = some (next, changes) →
    changes.Pairwise (fun a b => a.at_ < b.at_)
  newer : ∀ k st next changes, db.installs.lookup k = some st →
    planInstall (some st) (eventsOf events k) = some (next, changes) → ∀ c ∈ changes, st.lastSeen < c.at_
  inserted : ∀ k next changes, planInstall (db.installs.lookup k) (eventsOf events k) = some (next, changes) →
    ((db.trackInstalls events).installTables.tracked k).changes =
      (db.installTables.tracked k).changes ++ changes.map VersionChange.stored

theorem SweptTables.Strict.invariant (h : db.Strict) (hcoherent : db.Coherent) : ChangeLogInvariant db := by
  have hmem : ∀ k c, (k, c) ∈ db.changes → c ∈ (db.installTables.tracked k).changes := by
    intro k c hc
    exact List.mem_map.mpr ⟨(k, c), List.mem_filter.mpr ⟨hc, decide_eq_true rfl⟩, rfl⟩
  refine ⟨fun k c hc => ?_, fun k c hc => (hcoherent k).changes c (hmem k c hc)⟩
  obtain ⟨st, hst, -, hlast⟩ := (hcoherent k).within c (hmem k c hc)
  exact ⟨st, hst, h k c (hmem k c hc) st hst, hlast⟩

theorem callLogged_of_apart {events : List InstallEvent} (happart : db.Apart (.track events)) : CallLogged db events where
  increasing := by
    intro k next changes hplan
    rw [planInstall_snd hplan]
    exact runChanges_pairwise _ _
  newer := by
    intro k st next changes _ hplan c hc
    rw [planInstall_snd hplan] at hc
    exact lastSeen_lt_of_mem_runChanges hc
  inserted := by
    intro k next changes hplan
    rw [planInstall_snd hplan]
    exact (congrArg Tracked.changes (tracked_track db events k)).trans (happart k).changes_track

/-- In every run of calls and sweeps from no installs whose calls reveal changes that are apart, the
log is coherent in every state, and every call inserts all it plans. -/
theorem changeLog_coherent_of_apart (db : SweptTables) (actions : List InstallAction)
    (happart : ∀ before action after, actions = before ++ action :: after →
      (before.foldl SweptTables.act db.withoutInstalls).Apart action) :
    ∀ before after, actions = before ++ after →
      ChangeLogInvariant (before.foldl SweptTables.act db.withoutInstalls) ∧
        ∀ events rest, after = .track events :: rest →
          CallLogged (before.foldl SweptTables.act db.withoutInstalls) events := by
  rintro before after rfl
  have hcoherent := coherent_withoutInstalls db
  have hnone : db.withoutInstalls.Strict := by
    intro k c hc
    cases hc
  have hstrict : (before.foldl SweptTables.act db.withoutInstalls).Strict := by
    refine hnone.run hcoherent fun before' action rest hbefore => ?_
    exact happart before' action (rest ++ after) (by simp [hbefore])
  refine ⟨hstrict.invariant (hcoherent.run before), ?_⟩
  rintro events rest rfl
  exact callLogged_of_apart (happart before _ rest rfl)

/-- In a run whose events all have whole microseconds the changes are apart. -/
theorem apart_of_whole (db : SweptTables) {actions : List InstallAction}
    (hwhole : ∀ events, .track events ∈ actions → ∀ e ∈ events, e.stored = e) {before after : List InstallAction}
    {action : InstallAction} (hactions : actions = before ++ action :: after) :
    (before.foldl SweptTables.act db.withoutInstalls).Apart action := by
  cases action with
  | track events =>
    intro k
    have hmem : .track events ∈ actions := by simp [hactions]
    refine ((coherent_withoutInstalls db).run before k).apart fun e he => ?_
    exact hwhole events hmem e (List.mem_filter.mp he).1
  | sweep scope days now => trivial

def noInstalls : SweptTables := (SweptTables.ofInstall ⟨1, "i"⟩ (.new (versionEvent 0 none))).withoutInstalls

/-- An upgrade, a sweep and a downgrade. -/
def upgradeRun : List InstallAction :=
  [.track [versionEvent 1000 (some "1.0.0"), versionEvent 2000 (some "1.1.0")], .sweep (.except []) 1 0,
    .track [versionEvent 3000 (some "1.0.0")]]

theorem changeLog_coherent_of_apart_upgradeRun :
    (∀ before action after, upgradeRun = before ++ action :: after →
      (before.foldl SweptTables.act noInstalls).Apart action) ∧
    ChangeLogInvariant (upgradeRun.foldl SweptTables.act noInstalls) ∧
    (upgradeRun.foldl SweptTables.act noInstalls).changes.length = 2 := by
  have happart : ∀ before action after, upgradeRun = before ++ action :: after →
      (before.foldl SweptTables.act noInstalls).Apart action := by
    intro before action after hactions
    refine apart_of_whole _ ?_ hactions
    simp +decide [upgradeRun]
  refine ⟨happart, ?_, by decide⟩
  exact (changeLog_coherent_of_apart _ upgradeRun happart upgradeRun [] (by simp)).1

/-- Of three versions within one microsecond one call plans two changes: both have the time of the
first event, and the second is dropped. -/
theorem changeLog_drops_within_microsecond :
    let events := [versionEvent 100 (some "1.0.0"), versionEvent 200 (some "1.1.0"), versionEvent 300 (some "1.2.0")]
    let after := noInstalls.trackInstalls events
    (planInstall none (eventsOf events ⟨1, "i"⟩)).map (fun plan => plan.2.map VersionChange.at_) = some [200, 300] ∧
      after.changes = [(⟨1, "i"⟩, ⟨0, "1.0.0", "1.1.0", true⟩)] ∧
      (after.installs.lookup ⟨1, "i"⟩).map InstallState.firstSeen = some 0 := by
  decide

end argvio.storage
