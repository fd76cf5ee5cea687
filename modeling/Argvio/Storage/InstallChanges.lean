import Argvio.Storage.InstallColumns
import Argvio.Storage.VersionOrder

open List

namespace argvio.storage

open InstallState

/-- Both versions parse and differ as versions, and the direction is theirs. -/
structure VersionChange.Coherent (c : VersionChange) : Prop where
  from_parses : (parseSemver c.from_).isSome
  to_parses : (parseSemver c.to_).isSome
  differ : compareVersions c.from_ c.to_ ≠ some .eq
  upgrade_iff : c.upgrade = true ↔ compareVersions c.from_ c.to_ = some .lt

/-- One of two versions is above the other. -/
def Ordered (from_ to_ : String) : Prop :=
  compareVersions from_ to_ = some .lt ∨ compareVersions from_ to_ = some .gt

instance (from_ to_ : String) : Decidable (Ordered from_ to_) := inferInstanceAs (Decidable (_ ∨ _))

theorem Ordered.parses {a b : String} (h : Ordered a b) : (parseSemver a).isSome ∧ (parseSemver b).isSome := by
  unfold Ordered compareVersions Texts.compareVersions at h
  unfold parseSemver
  cases ha : strings.parseSemver a with
  | none => simp [ha] at h
  | some va =>
    cases hb : strings.parseSemver b with
    | none => simp [hb] at h
    | some vb => exact ⟨rfl, rfl⟩

theorem Ordered.ne {a b : String} (h : Ordered a b) : a ≠ b := by
  rintro rfl
  unfold Ordered compareVersions Texts.compareVersions at h
  cases ha : strings.parseSemver a with
  | none => simp [ha] at h
  | some va =>
    have hself : strings.compareSemver va va = .eq := Std.ReflCmp.compare_self
    simp [ha, hself] at h

variable {row : Option InstallState} {st : InstallState} {events : List InstallEvent} {c : VersionChange}

variable {existing : Option InstallState} {next : InstallState} {e : InstallEvent}

/-- A change is only revealed by an event strictly after the last one, with a version above or below
the one before it. -/
theorem InstallState.changeAt_eq_some (h : st.changeAt e = some c) :
    c.at_ = e.at_ ∧ st.lastSeen < e.at_ ∧ st.lastVersion = some c.from_ ∧ e.version = some c.to_ ∧
      Ordered c.from_ c.to_ ∧ (c.upgrade = true ↔ compareVersions c.from_ c.to_ = some .lt) := by
  unfold changeAt at h
  cases hversion : e.version with
  | none =>
    rw [hversion] at h
    cases h
  | some version =>
    cases hlast : st.lastVersion with
    | none =>
      rw [hversion, hlast] at h
      cases h
    | some last =>
      rw [hversion, hlast] at h
      dsimp only at h
      by_cases hguard : last ≠ version ∧ st.lastSeen < e.at_
      · rw [if_pos hguard] at h
        cases horder : compareVersions last version with
        | none =>
          rw [horder] at h
          cases h
        | some order =>
          rw [horder] at h
          cases order with
          | eq => cases h
          | lt =>
            cases h
            exact ⟨rfl, hguard.2, rfl, rfl, .inl horder, by simp [horder]⟩
          | gt =>
            cases h
            exact ⟨rfl, hguard.2, rfl, rfl, .inr horder, by simp [horder]⟩
      · rw [if_neg hguard] at h
        cases h

theorem InstallState.exists_changeAt {last version : String} (hafter : st.lastSeen < e.at_)
    (hlast : st.lastVersion = some last) (hversion : e.version = some version) (hordered : Ordered last version) :
    ∃ c, st.changeAt e = some c := by
  unfold changeAt
  rw [hlast, hversion]
  dsimp only
  rw [if_pos ⟨hordered.ne, hafter⟩]
  rcases hordered with hlt | hgt
  · rw [hlt]
    exact ⟨_, rfl⟩
  · rw [hgt]
    exact ⟨_, rfl⟩

theorem coherent_of_changeAt (h : st.changeAt e = some c) : c.at_ = e.at_ ∧ st.lastSeen < e.at_ ∧ c.Coherent := by
  obtain ⟨hat, hafter, -, -, hordered, hupgrade⟩ := InstallState.changeAt_eq_some h
  refine ⟨hat, hafter, hordered.parses.1, hordered.parses.2, ?_, hupgrade⟩
  rcases hordered with hlt | hgt
  · simp [hlt]
  · simp [hgt]

theorem InstallState.changeAt_eq_none (h : e.at_ ≤ st.lastSeen) : st.changeAt e = none := by
  by_contra hne
  obtain ⟨c, hc⟩ := Option.ne_none_iff_exists'.mp hne
  exact absurd (changeAt_eq_some hc).2.1 (not_lt.mpr h)

/-- The version changes some events reveal, in the order given. -/
def changesFrom (st : InstallState) : List InstallEvent → List VersionChange
  | [] => []
  | e :: rest => (st.changeAt e).toList ++ changesFrom (st.fold e) rest

theorem foldl_planStep_snd (events : List InstallEvent) (acc : InstallState × List VersionChange) :
    (events.foldl planStep acc).2 = acc.2 ++ changesFrom acc.1 events := by
  induction events generalizing acc with
  | nil => exact (append_nil _).symm
  | cons e rest ih =>
    rw [foldl_cons, ih]
    exact append_assoc ..

theorem changesFrom_append (st : InstallState) (first second : List InstallEvent) :
    changesFrom st (first ++ second) = changesFrom st first ++ changesFrom (first.foldl fold st) second := by
  induction first generalizing st with
  | nil => rfl
  | cons e rest ih =>
    rw [cons_append, changesFrom, changesFrom, ih, append_assoc]
    rfl

theorem mem_changesFrom (h : c ∈ changesFrom st events) :
    st.lastSeen < c.at_ ∧ c.at_ ≤ (events.foldl fold st).lastSeen ∧ c.Coherent := by
  induction events generalizing st with
  | nil => cases h
  | cons e rest ih =>
    have hfold := lastSeen_fold st e
    rcases mem_append.mp h with hnow | hlater
    · obtain ⟨hat, hafter, hcoherent⟩ := coherent_of_changeAt (Option.mem_toList.mp hnow)
      have hgrows := ((InstallState.Extends.refl (st.fold e)).foldl rest).lastSeen
      refine ⟨by omega, ?_, hcoherent⟩
      rw [foldl_cons]
      omega
    · obtain ⟨hafter, hbefore, hcoherent⟩ := ih hlater
      exact ⟨by omega, hbefore, hcoherent⟩

theorem changesFrom_pairwise (st : InstallState) (events : List InstallEvent) :
    (changesFrom st events).Pairwise (fun a b => a.at_ < b.at_) := by
  induction events generalizing st with
  | nil => exact .nil
  | cons e rest ih =>
    rw [changesFrom, pairwise_append]
    refine ⟨?_, ih _, ?_⟩
    · cases st.changeAt e <;> simp
    intro c hc c' hc'
    have hat := (changeAt_eq_some (Option.mem_toList.mp hc)).1
    have hafter := (mem_changesFrom hc').1
    rw [lastSeen_fold] at hafter
    omega

/-- The version changes of some events in the order given, where a new install
starts from the first. -/
def runChanges (existing : Option InstallState) (events : List InstallEvent) : List VersionChange :=
  match existing, events with
  | some st, _ => changesFrom st events
  | none, first :: rest => changesFrom (.new first) (first :: rest)
  | none, [] => []

variable {changes : List VersionChange}

theorem planInstall_snd (h : planInstall existing events = some (next, changes)) :
    changes = runChanges existing (byTime events) := by
  unfold planInstall at h
  unfold runChanges
  cases existing with
  | some st =>
    have hsnd := congrArg Prod.snd (Option.some.inj h)
    rw [foldl_planStep_snd] at hsnd
    exact hsnd.symm
  | none =>
    cases hsorted : byTime events with
    | nil =>
      rw [hsorted] at h
      cases h
    | cons first rest =>
      rw [hsorted] at h
      have hsnd := congrArg Prod.snd (Option.some.inj h)
      rw [foldl_planStep_snd] at hsnd
      exact hsnd.symm

theorem planInstall_eq_none (h : planInstall existing events = none) : existing = none ∧ byTime events = [] := by
  unfold planInstall at h
  cases existing with
  | some st => cases h
  | none =>
    cases hsorted : byTime events with
    | nil => exact ⟨rfl, rfl⟩
    | cons first rest =>
      rw [hsorted] at h
      cases h

/-- A run starts from the row, or from the first event; without either it leaves
nothing. -/
theorem runEvents_cases (row : Option InstallState) (events : List InstallEvent) :
    (row = none ∧ events = []) ∨
      ∃ st, (row = some st ∨ row = none ∧ ∃ first, st = .new first) ∧
        runEvents row events = some (events.foldl fold st) ∧ runChanges row events = changesFrom st events := by
  cases row with
  | some st => exact .inr ⟨st, .inl rfl, rfl, rfl⟩
  | none =>
    cases events with
    | nil => exact .inl ⟨rfl, rfl⟩
    | cons first rest => exact .inr ⟨.new first, .inr ⟨rfl, first, rfl⟩, rfl, rfl⟩

theorem runEvents_eq_some (h : runEvents row events = some next) : ∃ st, events.foldl fold st = next := by
  rcases runEvents_cases row events with ⟨rfl, rfl⟩ | ⟨st, -, hrun, -⟩
  · cases h
  · exact ⟨st, Option.some.inj (hrun.symm.trans h)⟩

theorem runEvents_eq_none (h : runEvents row events = none) :
    events = [] := by
  rcases runEvents_cases row events with ⟨-, hnil⟩ | ⟨st, -, hrun, -⟩
  · exact hnil
  · rw [hrun] at h
    cases h

theorem runChanges_append (existing : Option InstallState) (first second : List InstallEvent) :
    runChanges existing (first ++ second) =
      runChanges existing first ++ runChanges (runEvents existing first) second := by
  cases existing with
  | some st => exact changesFrom_append st first second
  | none =>
    cases first with
    | nil => rfl
    | cons e rest => exact changesFrom_append (.new e) (e :: rest) second

theorem runChanges_pairwise (existing : Option InstallState) (events : List InstallEvent) :
    (runChanges existing events).Pairwise (fun a b => a.at_ < b.at_) := by
  rcases runEvents_cases existing events with ⟨rfl, rfl⟩ | ⟨st, -, -, hchanges⟩
  · exact .nil
  · rw [hchanges]
    exact changesFrom_pairwise st events

/-- The first event is never after the last one. -/
def InOrder (row : Option InstallState) : Prop := ∀ st, row = some st → st.firstSeen ≤ st.lastSeen

/-- What a run starts from is in order if the row is. -/
theorem InOrder.start (h : InOrder row) (hstart : row = some st ∨ row = none ∧ ∃ first, st = .new first) :
    st.firstSeen ≤ st.lastSeen := by
  rcases hstart with hrow | ⟨-, first, rfl⟩
  · exact h st hrow
  · exact le_refl _

theorem InOrder.runEvents (h : InOrder row) (events : List InstallEvent) :
    InOrder (runEvents row events) := by
  intro next hnext
  rcases runEvents_cases row events with ⟨rfl, rfl⟩ | ⟨st, hstart, hrun, -⟩
  · cases hnext
  · cases hrun.symm.trans hnext
    have hext := (InstallState.Extends.refl st).foldl events
    exact hext.firstSeen.trans ((h.start hstart).trans hext.lastSeen)

theorem lastSeen_lt_of_mem_runChanges (h : c ∈ runChanges (some st) events) : st.lastSeen < c.at_ :=
  (mem_changesFrom h).1

/-- A change lies within the row that is planned with it. -/
theorem within_of_planInstall (hrow : InOrder row) (hplan : planInstall row events = some (next, changes))
    (hc : c ∈ changes) : c.Coherent ∧ next.firstSeen < c.at_ ∧ c.at_ ≤ next.lastSeen := by
  have hfst := planInstall_fst row events
  rw [hplan] at hfst
  rw [planInstall_snd hplan] at hc
  rcases runEvents_cases row (byTime events) with ⟨rfl, hnil⟩ | ⟨st, hstart, hrun, hchanges⟩
  · rw [hnil] at hc
    cases hc
  cases hfst.trans hrun
  rw [hchanges] at hc
  obtain ⟨hafter, hbefore, hcoherent⟩ := mem_changesFrom hc
  have hordered := hrow.start hstart
  have hfirst := ((InstallState.Extends.refl st).foldl (byTime events)).firstSeen
  exact ⟨hcoherent, by omega, hbefore⟩

/-- What the inserts add was planned, and is stored. -/
theorem mem_foldl_insertChange {stored : List VersionChange} (h : c ∈ changes.foldl insertChange stored) :
    c ∈ stored ∨ ∃ c' ∈ changes, c'.stored = c := by
  induction changes generalizing stored with
  | nil => exact .inl h
  | cons c' rest ih =>
    rcases ih h with hstored | ⟨c'', hmem, heq⟩
    · unfold insertChange at hstored
      split at hstored
      · exact .inl hstored
      · rcases mem_append.mp hstored with hold | hnew
        · exact .inl hold
        · exact .inr ⟨c', mem_cons_self, (mem_singleton.mp hnew).symm⟩
    · exact .inr ⟨c'', mem_cons_of_mem _ hmem, heq⟩

/-- No two of the changes are in one microsecond, nor any of them in that of a change that is stored. -/
structure Untaken (stored changes : List VersionChange) : Prop where
  apart : changes.Pairwise (fun a b => timestamptz a.at_ ≠ timestamptz b.at_)
  free : ∀ c ∈ changes, ∀ c' ∈ stored, c'.at_ ≠ timestamptz c.at_

/-- The insert drops nothing when no time is taken yet. -/
theorem Untaken.foldl_insertChange {stored : List VersionChange} (h : Untaken stored changes) :
    changes.foldl insertChange stored = stored ++ changes.map VersionChange.stored := by
  induction changes generalizing stored with
  | nil => exact (append_nil _).symm
  | cons c rest ih =>
    obtain ⟨hlater, hrest⟩ := pairwise_cons.mp h.apart
    have hinsert : insertChange stored c = stored ++ [c.stored] := by
      unfold insertChange
      refine if_neg ?_
      intro hany
      obtain ⟨c', hmem, hclash⟩ := any_eq_true.mp hany
      exact h.free c mem_cons_self c' hmem (of_decide_eq_true hclash)
    rw [foldl_cons, hinsert, ih ⟨hrest, ?_⟩]
    · simp
    intro c₁ hc₁ c' hmem
    rcases mem_append.mp hmem with hold | hnew
    · exact h.free c₁ (mem_cons_of_mem _ hc₁) c' hold
    · rw [mem_singleton.mp hnew]
      exact hlater c₁ hc₁

/-- Every version change lies within the row of its install. -/
structure Tracked.Coherent (v : Tracked) : Prop where
  stored : StoredRow v.row
  ordered : InOrder v.row
  changes : ∀ c ∈ v.changes, c.Coherent
  within : ∀ c ∈ v.changes, ∃ st, v.row = some st ∧ st.firstSeen ≤ c.at_ ∧ c.at_ ≤ st.lastSeen

section Track

variable {v : Tracked}

/-- A call plans the version changes of an install from its row, and inserts them. -/
theorem changes_track (v : Tracked) (events : List InstallEvent) :
    (v.track events).changes = (runChanges v.row (byTime events)).foldl insertChange v.changes := by
  by_cases hnil : events = []
  · rw [hnil]
    cases hrow : v.row <;> rfl
  · obtain ⟨next, changes, hplan⟩ := exists_planInstall v.row hnil
    rw [track_eq hnil hplan, ← planInstall_snd hplan]

theorem Tracked.Coherent.track (h : v.Coherent) (events : List InstallEvent) : (v.track events).Coherent := by
  have hrow := row_track h.stored events
  have hnew : ∀ c ∈ runChanges v.row (byTime events), c.Coherent ∧ ∃ st, (v.track events).row = some st ∧
      st.firstSeen ≤ c.stored.at_ ∧ c.stored.at_ ≤ st.lastSeen := by
    intro c hc
    have hne : events ≠ [] := by
      rintro rfl
      cases hst : v.row <;> rw [hst] at hc <;> cases hc
    obtain ⟨next, changes, hplan⟩ := exists_planInstall v.row hne
    rw [← planInstall_snd hplan] at hc
    obtain ⟨hcoherent, hfirst, hlast⟩ := within_of_planInstall h.ordered hplan hc
    rw [← planInstall_stored h.stored, hplan] at hrow
    exact ⟨hcoherent, _, hrow, timestamptz_mono hfirst.le, timestamptz_mono hlast⟩
  refine ⟨h.stored.track events, ?_, fun c hc => ?_, fun c hc => ?_⟩
  · rw [hrow]
    exact h.ordered.runEvents _
  · rw [changes_track] at hc
    rcases mem_foldl_insertChange hc with hold | ⟨c, hplanned, rfl⟩
    · exact h.changes c hold
    · obtain ⟨⟨hfrom, hto, hdiffer, hupgrade⟩, -⟩ := hnew c hplanned
      exact ⟨hfrom, hto, hdiffer, hupgrade⟩
  · rw [changes_track] at hc
    rcases mem_foldl_insertChange hc with hold | ⟨c, hplanned, rfl⟩
    · -- The row of the install only widens.
      obtain ⟨st, hst, hfirst, hlast⟩ := h.within c hold
      have hext := (InstallState.Extends.refl st).foldl (storedByTime events)
      rw [hst] at hrow
      exact ⟨_, hrow, hext.firstSeen.trans hfirst, hlast.trans hext.lastSeen⟩
    · exact (hnew c hplanned).2

end Track

/-- The version of an install before an event: the last one sent before it, from the last time of
the row on, or that of the row. -/
def versionBefore (row : Option InstallState) (events : List InstallEvent) (e : InstallEvent) : Option String :=
  (lastSent InstallEvent.version
    ((byTime events).filter (fun e' => e'.at_ < e.at_ ∧ ∀ st ∈ row, st.lastSeen ≤ e'.at_))).or (row.bind lastVersion)

/-- An event after the last time of the row sends a version above or below the one before it. -/
structure Reveals (row : Option InstallState) (events : List InstallEvent) (e : InstallEvent) : Prop where
  after : ∀ st ∈ row, st.lastSeen < e.at_
  ordered : ∃ last ∈ versionBefore row events e, ∃ version ∈ e.version, Ordered last version

instance (row : Option InstallState) (events : List InstallEvent) (e : InstallEvent) : Decidable (Reveals row events e) :=
  decidable_of_iff (_ ∧ _) ⟨fun h => ⟨h.1, h.2⟩, fun h => ⟨h.after, h.ordered⟩⟩

section Revealed

theorem mem_runChanges_iff : c ∈ runChanges row events ↔
    ∃ before e after st, events = before ++ e :: after ∧ runEvents row before = some st ∧ st.changeAt e = some c := by
  constructor
  · intro hc
    induction events using reverseRecOn with
    | nil => cases row <;> cases hc
    | append_singleton done e ih =>
      rw [runChanges_append, mem_append] at hc
      rcases hc with hdone | hnow
      · obtain ⟨before, e', after, st, rfl, hrun, hchange⟩ := ih hdone
        exact ⟨before, e', after ++ [e], st, by simp, hrun, hchange⟩
      cases hrun : runEvents row done with
      | none =>
        rw [hrun] at hnow
        have hsame : (new e).changeAt e = none := changeAt_eq_none (le_refl _)
        simp [runChanges, changesFrom, hsame] at hnow
      | some st =>
        rw [hrun] at hnow
        exact ⟨done, e, [], st, rfl, hrun, by simpa [runChanges, changesFrom] using hnow⟩
  · rintro ⟨before, e, after, st, rfl, hrun, hchange⟩
    rw [runChanges_append, hrun]
    simp [runChanges, changesFrom, hchange]

/-- The version of the row after the events before another one. -/
theorem lastVersion_before {before after : List InstallEvent} (hsorted : byTime events = before ++ e :: after)
    (hbefore : ∀ e' ∈ before, e'.at_ < e.at_) (hrun : runEvents row before = some st) :
    st.lastVersion = versionBefore row events e := by
  have hpairwise := byTime_pairwise events
  rw [hsorted, pairwise_append] at hpairwise
  have hafter : ∀ e' ∈ e :: after, ¬ e'.at_ < e.at_ := by
    refine forall_mem_cons.mpr ⟨lt_irrefl _, fun e' he' => ?_⟩
    exact not_lt.mpr ((pairwise_cons.mp hpairwise.2.1).1 e' he')
  have hfilter : (byTime events).filter (fun e' => e'.at_ < e.at_ ∧ ∀ st ∈ row, st.lastSeen ≤ e'.at_) =
      before.filter (fun e' => ∀ st ∈ row, st.lastSeen ≤ e'.at_) := by
    rw [hsorted, filter_append]
    have hnone : (e :: after).filter (fun e' => e'.at_ < e.at_ ∧ ∀ st ∈ row, st.lastSeen ≤ e'.at_) = [] :=
      filter_eq_nil_iff.mpr fun e' he' hboth => hafter e' he' (of_decide_eq_true hboth).1
    rw [hnone, append_nil]
    exact filter_congr fun e' he' => by simp [hbefore e' he']
  have hcolumn := column_runEvents .version hpairwise.1 hrun
  unfold versionBefore
  rw [hfilter]
  exact hcolumn

/-- A change is planned at an event that reveals one. -/
theorem exists_reveals (h : c ∈ runChanges row (byTime events)) :
    ∃ e ∈ events, Reveals row events e ∧ e.at_ = c.at_ := by
  obtain ⟨before, e, after, st, hsorted, hrun, hchange⟩ := mem_runChanges_iff.mp h
  obtain ⟨hat, hafter, hlast, hversion, hordered, -⟩ := changeAt_eq_some hchange
  obtain ⟨hrow, hbefore⟩ := (lastSeen_lt_iff hrun).mp hafter
  refine ⟨e, mem_byTime.mp (hsorted ▸ mem_append_right _ mem_cons_self), ⟨hrow, ?_⟩, hat.symm⟩
  rw [← lastVersion_before hsorted hbefore hrun, hlast, hversion]
  exact ⟨_, rfl, _, rfl, hordered⟩

/-- At every event that reveals a change one is planned, when no other event has its time. -/
theorem Reveals.exists_change (h : Reveals (some st) events e) (he : e ∈ events)
    (hsame : ∀ e' ∈ events, e'.at_ = e.at_ → e' = e) : ∃ c ∈ runChanges (some st) (byTime events), c.at_ = e.at_ := by
  obtain ⟨before, after, hsorted, hnot⟩ := eq_append_cons_of_mem (mem_byTime.mpr he)
  obtain ⟨last, hlast, version, hversion, hordered⟩ := h.ordered
  have hpairwise := byTime_pairwise events
  rw [hsorted, pairwise_append] at hpairwise
  have hbefore : ∀ e' ∈ before, e'.at_ < e.at_ := by
    intro e' he'
    refine lt_of_le_of_ne (hpairwise.2.2 e' he' e mem_cons_self) fun hat => hnot ?_
    rw [← hsame e' (mem_byTime.mp (hsorted ▸ mem_append_left _ he')) hat]
    exact he'
  have hrun : runEvents (some st) before = some (before.foldl fold st) := rfl
  rw [← lastVersion_before hsorted hbefore hrun] at hlast
  obtain ⟨c, hc⟩ := exists_changeAt ((lastSeen_lt_iff hrun).mpr ⟨h.after, hbefore⟩) hlast hversion hordered
  exact ⟨c, mem_runChanges_iff.mpr ⟨before, e, after, _, hsorted, hrun, hc⟩, (changeAt_eq_some hc).1⟩

end Revealed

end argvio.storage
