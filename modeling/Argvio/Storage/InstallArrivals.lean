import Argvio.Storage.InstallTxns

open List

namespace argvio.storage

/-- How a row relates to what it was some events earlier. -/
structure InstallState.Extends (st next : InstallState) : Prop where
  firstSeen : next.firstSeen ≤ st.firstSeen
  lastSeen : st.lastSeen ≤ next.lastSeen
  firstVersion_kept : next.firstSeen = st.firstSeen → next.firstVersion = st.firstVersion
  firstVersion : next.firstVersion.or st.firstVersion = next.firstVersion
  lastVersion : next.lastVersion.or st.lastVersion = next.lastVersion
  lastOS : next.lastOS.or st.lastOS = next.lastOS
  lastArch : next.lastArch.or st.lastArch = next.lastArch
  installMethod : next.installMethod.or st.installMethod = next.installMethod
  firstCommandAt : optMin st.firstCommandAt next.firstCommandAt = next.firstCommandAt
  firstSuccessAt : optMin st.firstSuccessAt next.firstSuccessAt = next.firstSuccessAt

theorem InstallState.Extends.refl (st : InstallState) : st.Extends st where
  firstSeen := le_refl _
  lastSeen := le_refl _
  firstVersion_kept := fun _ => rfl
  firstVersion := Option.or_self
  lastVersion := Option.or_self
  lastOS := Option.or_self
  lastArch := Option.or_self
  installMethod := Option.or_self
  firstCommandAt := optMin_self _
  firstSuccessAt := optMin_self _

/-- A column that is taken from an event unless a guard holds or the event has
none is never lost. -/
theorem or_ite_or {α : Type} {stored next sent : Option α} (c : Prop) [Decidable c] (h : next.or stored = next) :
    (if c then next else sent.or next).or stored = if c then next else sent.or next := by
  split
  · exact h
  · rw [Option.or_assoc, h]

variable {st next : InstallState}

theorem InstallState.Extends.fold (h : st.Extends next) (e : InstallEvent) : st.Extends (next.fold e) := by
  rw [InstallState.fold_eq]
  refine ⟨?_, ?_, ?_, ?_, or_ite_or _ h.lastVersion, or_ite_or _ h.lastOS, or_ite_or _ h.lastArch, ?_, ?_, ?_⟩
  · exact (min_le_left _ _).trans h.firstSeen
  · exact h.lastSeen.trans (le_max_left _ _)
  · intro hsame
    dsimp only at hsame ⊢
    have hle := h.firstSeen
    rw [if_neg (by omega)]
    exact h.firstVersion_kept (by omega)
  · dsimp only
    split
    · rw [Option.or_assoc, h.firstVersion]
    · exact h.firstVersion
  · dsimp only
    split
    · exact h.installMethod
    · rfl
  · dsimp only
    rw [← optMin_assoc, h.firstCommandAt]
  · dsimp only
    rw [← optMin_assoc, h.firstSuccessAt]

theorem InstallState.Extends.foldl (h : st.Extends next) (events : List InstallEvent) :
    st.Extends (events.foldl InstallState.fold next) := by
  induction events generalizing next with
  | nil => exact h
  | cons e rest ih => exact ih (h.fold e)

theorem InstallState.Extends.merge (h : st.Extends next) : mergeInstall st next = next := by
  have hfirst : min st.firstSeen next.firstSeen = next.firstSeen := min_eq_right h.firstSeen
  have hlast : max st.lastSeen next.lastSeen = next.lastSeen := max_eq_right h.lastSeen
  have hversion : (if next.firstSeen < st.firstSeen then next.firstVersion.or st.firstVersion else st.firstVersion) =
      next.firstVersion := by
    split
    · exact h.firstVersion
    · have hle := h.firstSeen
      exact (h.firstVersion_kept (by omega)).symm
  unfold mergeInstall
  rw [hfirst, hlast, hversion, if_pos h.lastSeen, if_pos h.lastSeen, if_pos h.lastSeen, h.lastVersion, h.lastOS,
    h.lastArch, h.installMethod, h.firstCommandAt, h.firstSuccessAt]

variable {events : List InstallEvent} {st : InstallState}

/-- With no other writer in between, what the upsert stores is what was planned. -/
theorem upsertInstall_planned {row : Option InstallState} {changes : List VersionChange} (hrow : StoredRow row)
    (h : planInstall row events = some (next, changes)) : upsertInstall row next = next.stored := by
  cases row with
  | none => rfl
  | some st =>
    have hrun := planInstall_stored hrow events
    rw [h] at hrun
    have hnext : next.stored = (storedByTime events).foldl InstallState.fold st := Option.some.inj hrun
    unfold upsertInstall
    rw [hnext]
    exact ((InstallState.Extends.refl st).foldl _).merge

/-- What the tables hold of one install: its row, and its version changes in the order of their
insertion. -/
structure Tracked where
  row : Option InstallState
  changes : List VersionChange

def InstallTables.tracked (t : InstallTables) (k : InstallKey) : Tracked where
  row := t.installs k
  changes := (t.changes.filter (fun row => row.1 = k)).map Prod.snd

/-- `insertVersionChange`, among the changes of one install. -/
def insertChange (changes : List VersionChange) (c : VersionChange) : List VersionChange :=
  if changes.any (fun c' => c'.at_ = c.stored.at_) then changes else changes ++ [c.stored]

/-- The turn of an install in a call that has events of it. -/
def Tracked.track (v : Tracked) (events : List InstallEvent) : Tracked :=
  if events = [] then v
  else
    match planInstall v.row events with
    | none => v
    | some (next, changes) => ⟨some (upsertInstall v.row next), changes.foldl insertChange v.changes⟩

variable {t : InstallTables} {k k' : InstallKey} {v : Tracked}

theorem track_eq {changes : List VersionChange} (hne : events ≠ [])
    (hplan : planInstall v.row events = some (next, changes)) :
    v.track events = ⟨some (upsertInstall v.row next), changes.foldl insertChange v.changes⟩ := by
  unfold Tracked.track
  rw [if_neg hne, hplan]

theorem filter_foldl_insertVersionChange (changes : List VersionChange) (rows : List (InstallKey × VersionChange)) :
    ((changes.foldl (insertVersionChange k) rows).filter (fun row => row.1 = k')).map Prod.snd =
      if k' = k then changes.foldl insertChange ((rows.filter (fun row => row.1 = k)).map Prod.snd)
      else (rows.filter (fun row => row.1 = k')).map Prod.snd := by
  induction changes generalizing rows with
  | nil =>
    split
    · rename_i hk
      rw [hk]
      rfl
    · rfl
  | cons c rest ih =>
    rw [foldl_cons, foldl_cons, ih]
    by_cases hk : k' = k
    · rw [if_pos hk, if_pos hk]
      congr 1
      have hany : ((rows.filter (fun row => row.1 = k)).map Prod.snd).any (fun c' => c'.at_ = c.stored.at_) =
          rows.any (fun row => row.1 = k ∧ row.2.at_ = c.stored.at_) := by
        simp [any_map, any_filter, Function.comp_def]
      unfold insertVersionChange insertChange
      rw [hany]
      split
      · rfl
      · simp
    · rw [if_neg hk, if_neg hk]
      have hne : k ≠ k' := fun heq => hk heq.symm
      unfold insertVersionChange
      split
      · rfl
      · simp [hne]

theorem tracked_trackInstall (hevents : eventsOf events k ≠ []) :
    (trackInstall events t k).tracked k' =
      if k' = k then (t.tracked k).track (eventsOf events k) else t.tracked k' := by
  obtain ⟨next, changes, hplan⟩ := exists_planInstall (t.installs k) hevents
  have htrack := track_eq (v := t.tracked k) hevents hplan
  unfold trackInstall
  rw [htrack, hplan]
  unfold InstallTables.tracked
  dsimp only
  rw [filter_foldl_insertVersionChange, Function.update_apply]
  split
  · rfl
  · rfl

theorem nodup_installKeys (events : List InstallEvent) : (installKeys events).Nodup :=
  (perm_insertionSort _ _).nodup_iff.mpr (nodup_dedup _)

/-- A call handles every install on its own. -/
theorem tracked_trackInstalls (t : InstallTables) (events : List InstallEvent) (k : InstallKey) :
    (trackInstalls t events).tracked k = (t.tracked k).track (eventsOf events k) := by
  have hfold : ∀ keys : List InstallKey, keys.Nodup → (∀ k ∈ keys, eventsOf events k ≠ []) → ∀ t : InstallTables,
      (keys.foldl (trackInstall events) t).tracked k =
        if k ∈ keys then (t.tracked k).track (eventsOf events k) else t.tracked k := by
    intro keys
    induction keys with
    | nil => exact fun _ _ _ => rfl
    | cons k' rest ih =>
      intro hnodup hevents t
      obtain ⟨hk', hrest⟩ := nodup_cons.mp hnodup
      obtain ⟨hfirst, hothers⟩ := forall_mem_cons.mp hevents
      rw [foldl_cons, ih hrest hothers, tracked_trackInstall hfirst]
      by_cases hk : k = k'
      · subst hk
        simp [hk']
      · simp [hk]
  unfold trackInstalls
  rw [hfold _ (nodup_installKeys events) fun k => mem_installKeys.mp]
  split
  · rfl
  rename_i hk
  have hnil : eventsOf events k = [] := by_contra fun hne => hk (mem_installKeys.mpr hne)
  rw [hnil]
  rfl

theorem tracked_foldl_trackInstalls (batches : List (List InstallEvent)) (t : InstallTables) (k : InstallKey) :
    (batches.foldl trackInstalls t).tracked k = batches.foldl (fun v batch => v.track (eventsOf batch k)) (t.tracked k) := by
  induction batches generalizing t with
  | nil => rfl
  | cons batch rest ih => rw [foldl_cons, ih, tracked_trackInstalls, foldl_cons]

theorem runEvents_nil (row : Option InstallState) : runEvents row [] = row := by
  cases row <;> rfl

/-- A call folds the events of an install into its row, oldest first. -/
theorem row_track (hrow : StoredRow v.row) (events : List InstallEvent) :
    (v.track events).row = runEvents v.row (storedByTime events) := by
  by_cases hnil : events = []
  · rw [hnil]
    exact (runEvents_nil _).symm
  · obtain ⟨next, changes, hplan⟩ := exists_planInstall v.row hnil
    rw [track_eq hnil hplan, ← planInstall_stored hrow, hplan]
    exact congrArg some (upsertInstall_planned hrow hplan)

theorem StoredRow.track (hrow : StoredRow v.row) (events : List InstallEvent) : StoredRow (v.track events).row := by
  rw [row_track hrow]
  exact hrow.runEvents events

theorem installs_trackInstalls (hrow : StoredRow (t.installs k)) (events : List InstallEvent) :
    (trackInstalls t events).installs k = runEvents (t.installs k) (storedByTime (eventsOf events k)) :=
  (congrArg Tracked.row (tracked_trackInstalls t events k)).trans (row_track hrow _)

/-- The events of an install in the order in which a sequence of calls folds them. -/
def arrivals (batches : List (List InstallEvent)) (k : InstallKey) : List InstallEvent :=
  batches.flatMap (fun batch => storedByTime (eventsOf batch k))

/-- The row of an install after a sequence of calls. -/
theorem installs_foldl_trackInstalls (hrow : StoredRow (t.installs k)) (batches : List (List InstallEvent)) :
    (batches.foldl trackInstalls t).installs k = runEvents (t.installs k) (arrivals batches k) := by
  induction batches generalizing t with
  | nil => exact (runEvents_nil _).symm
  | cons batch rest ih =>
    have hnow := installs_trackInstalls hrow batch
    rw [foldl_cons, ih (hnow ▸ hrow.runEvents _), hnow, ← runEvents_append]
    rfl

variable {batches : List (List InstallEvent)}

theorem eventsOf_batch (hkey : ∀ e ∈ events, e.key = k) (hsplit : batches.flatten.Perm events) {b : List InstallEvent}
    (hb : b ∈ batches) : eventsOf b k = b := by
  unfold eventsOf
  rw [filter_eq_self]
  intro e he
  have hmem := hsplit.mem_iff.mp (mem_flatten.mpr ⟨b, hb, he⟩)
  simpa using hkey e hmem

theorem arrivals_perm (hkey : ∀ e ∈ events, e.key = k) (hsplit : batches.flatten.Perm events) :
    (arrivals batches k).Perm (events.map InstallEvent.stored) := by
  have hbatches : ∀ b ∈ batches, (storedByTime (eventsOf b k)).Perm (b.map InstallEvent.stored) := by
    intro b hb
    rw [eventsOf_batch hkey hsplit hb]
    exact (perm_insertionSort _ _).map _
  refine List.Perm.trans ?_ (hsplit.map _)
  rw [map_flatten, ← flatMap_def]
  exact List.Perm.flatMap_left _ hbatches

/-- What holds after the first event of a new install and is kept by every further
event holds after any of its runs. -/
theorem run_induction {P : List InstallEvent → InstallState → Prop} (hone : ∀ e, P [e] ((InstallState.new e).fold e))
    (hstep : ∀ done st e, runEvents none done = some st → P done st → P (done ++ [e]) (st.fold e))
    (h : runEvents none events = some st) : P events st := by
  induction events using reverseRecOn generalizing st with
  | nil => cases h
  | append_singleton done e ih =>
    cases done with
    | nil =>
      cases h
      exact hone e
    | cons first rest =>
      rw [runEvents_append] at h
      cases h
      exact hstep _ _ e rfl (ih rfl)

/-- The last time of a row is before a time if those of the events are. -/
theorem lastSeen_lt_iff {row : Option InstallState} (h : runEvents row events = some st) {x : Int} :
    st.lastSeen < x ↔ (∀ s ∈ row, s.lastSeen < x) ∧ ∀ e ∈ events, e.at_ < x := by
  induction events using reverseRecOn generalizing st with
  | nil =>
    rw [runEvents_nil] at h
    simp [h]
  | append_singleton done e ih =>
    rw [runEvents_append] at h
    cases hdone : runEvents row done with
    | none =>
      rw [hdone] at h
      cases h
      cases row with
      | some s => cases hdone
      | none =>
        cases done with
        | nil => simp [InstallState.fold_eq, InstallState.new]
        | cons first rest => cases hdone
    | some st' =>
      rw [hdone] at h
      cases h
      rw [foldl_cons, foldl_nil, InstallState.lastSeen_fold, max_lt_iff, ih hdone, and_assoc]
      simp [or_imp, forall_and]

theorem firstSeen_le {row : Option InstallState} (h : runEvents row events = some st) {e : InstallEvent}
    (he : e ∈ events) : st.firstSeen ≤ e.at_ := by
  obtain ⟨before, after, rfl⟩ := append_of_mem he
  have hfold : ∀ s : InstallState, ((e :: after).foldl InstallState.fold s).firstSeen ≤ e.at_ := by
    intro s
    have hfirst : (s.fold e).firstSeen ≤ e.at_ := by
      rw [InstallState.fold_eq]
      exact min_le_right _ _
    exact ((InstallState.Extends.refl (s.fold e)).foldl after).firstSeen.trans hfirst
  rw [runEvents_append] at h
  cases hbefore : runEvents row before with
  | none =>
    rw [hbefore] at h
    cases h
    exact hfold _
  | some s =>
    rw [hbefore] at h
    cases h
    exact hfold s

section Exact

variable (h : runEvents none events = some st)

include h

theorem runEvents_exact : st.Exact {e | e ∈ events} := by
  have hempty : RowExact none ∅ := rfl
  have hexact := hempty.runEvents events
  rw [h, Set.empty_union] at hexact
  exact hexact

theorem le_lastSeen {e : InstallEvent} (he : e ∈ events) : e.at_ ≤ st.lastSeen :=
  (runEvents_exact h).lastSeen.2 ⟨e, he, trivial, rfl⟩

theorem exists_lastSeen : ∃ e ∈ events, e.at_ = st.lastSeen := by
  obtain ⟨e, he, _, heq⟩ := (runEvents_exact h).lastSeen.1
  exact ⟨e, he, heq⟩

theorem exists_firstSeen : ∃ e ∈ events, e.at_ = st.firstSeen := by
  obtain ⟨e, he, _, heq⟩ := (runEvents_exact h).firstSeen.1
  exact ⟨e, he, heq⟩

end Exact

end argvio.storage
