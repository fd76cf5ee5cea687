import Argvio.Storage.Installs
import Mathlib.Data.Int.ConditionallyCompleteOrder

namespace argvio.storage

open InstallState

theorem earliest_eq (cur : Option Int) (t : Int) : earliest cur t = optMin cur (some t) := by
  cases cur with
  | none => rfl
  | some c =>
    simp only [earliest, optMin]
    split
    · rename_i hlt
      rw [min_eq_right hlt.le]
    · rename_i hge
      rw [min_eq_left (not_lt.mp hge)]

def InstallEvent.Succeeded (e : InstallEvent) : Prop := e.completed = true ∧ e.exitCode = some 0

instance (e : InstallEvent) : Decidable e.Succeeded := inferInstanceAs (Decidable (_ ∧ _))

variable (existing : Option InstallState) (events : List InstallEvent) (p : InstallEvent → Prop) (st : InstallState)
  (e : InstallEvent)

/-- What one event does to each column. -/
theorem InstallState.fold_eq : st.fold e =
    { firstSeen := min st.firstSeen e.at_
      lastSeen := max st.lastSeen e.at_
      firstVersion := if e.at_ < st.firstSeen then e.version.or st.firstVersion else st.firstVersion
      lastVersion := if e.at_ < st.lastSeen then st.lastVersion else e.version.or st.lastVersion
      lastOS := if e.at_ < st.lastSeen then st.lastOS else e.os.or st.lastOS
      lastArch := if e.at_ < st.lastSeen then st.lastArch else e.arch.or st.lastArch
      installMethod := if e.installMeth = "" then st.installMethod else some e.installMeth
      firstCommandAt := optMin st.firstCommandAt (if e.completed then some e.at_ else none)
      firstSuccessAt := optMin st.firstSuccessAt (if e.Succeeded then some e.at_ else none) } := by
  have hfirst : min st.firstSeen e.at_ = if e.at_ < st.firstSeen then e.at_ else st.firstSeen := by
    split <;> omega
  have hlast : max st.lastSeen e.at_ = if e.at_ < st.lastSeen then st.lastSeen else e.at_ := by
    split <;> omega
  rw [hfirst, hlast]
  unfold fold InstallEvent.Succeeded
  simp only [earliest_eq]
  by_cases hbefore : e.at_ < st.firstSeen <;> by_cases holder : e.at_ < st.lastSeen <;>
    by_cases hmethod : e.installMeth = "" <;> by_cases hcompleted : e.completed = true <;>
      by_cases hzero : e.exitCode = some 0 <;> simp [hcompleted, hzero, hbefore, holder, hmethod]

theorem InstallState.lastSeen_fold : (st.fold e).lastSeen = max st.lastSeen e.at_ := by
  rw [fold_eq]

/-- The state after some events in the order given, where a new install starts
from the first. -/
def runEvents (existing : Option InstallState) (events : List InstallEvent) : Option InstallState :=
  match existing, events with
  | some st, _ => some (events.foldl fold st)
  | none, first :: rest => some ((first :: rest).foldl fold (.new first))
  | none, [] => none

theorem foldl_planStep_fst (acc : InstallState × List VersionChange) :
    (events.foldl planStep acc).1 = events.foldl fold acc.1 := by
  induction events generalizing acc with
  | nil => rfl
  | cons e events ih => exact ih (planStep acc e)

theorem planInstall_fst : (planInstall existing events).map Prod.fst = runEvents existing (byTime events) := by
  unfold planInstall runEvents
  cases existing with
  | some st => simp [foldl_planStep_fst]
  | none =>
    cases byTime events with
    | nil => rfl
    | cons first rest => exact congrArg some (foldl_planStep_fst _ _)

theorem runEvents_append (first second : List InstallEvent) :
    runEvents existing (first ++ second) = runEvents (runEvents existing first) second := by
  cases existing with
  | some st => simp [runEvents]
  | none =>
    cases first with
    | nil => rfl
    | cons e rest => simp [runEvents]

theorem mem_byTime {events : List InstallEvent} {e : InstallEvent} : e ∈ byTime events ↔ e ∈ events :=
  List.mem_insertionSort _

theorem byTime_pairwise : (byTime events).Pairwise (fun a b => a.at_ ≤ b.at_) := by
  have htotal : Std.Total (fun a b : InstallEvent => a.at_ ≤ b.at_) := ⟨fun a b => le_total a.at_ b.at_⟩
  have htrans : IsTrans InstallEvent (fun a b => a.at_ ≤ b.at_) := ⟨fun _ _ _ => le_trans⟩
  exact List.pairwise_insertionSort _ events

section Stored

theorem timestamptz_mono : Monotone timestamptz := by
  intro s t h
  unfold timestamptz
  omega

theorem timestamptz_timestamptz (t : Int) : timestamptz (timestamptz t) = timestamptz t := by
  unfold timestamptz
  omega

/-- An event with its time as the database keeps it. -/
def InstallEvent.stored (e : InstallEvent) : InstallEvent := { e with at_ := timestamptz e.at_ }

/-- The events of a batch, oldest first, with their times as the database keeps them. -/
def storedByTime (events : List InstallEvent) : List InstallEvent := (byTime events).map InstallEvent.stored

theorem storedByTime_pairwise : (storedByTime events).Pairwise (fun a b => a.at_ ≤ b.at_) :=
  List.pairwise_map.mpr ((byTime_pairwise events).imp fun h => timestamptz_mono h)

theorem mem_storedByTime {events : List InstallEvent} {e : InstallEvent} :
    e ∈ storedByTime events ↔ ∃ e' ∈ events, e'.stored = e := by
  simp [storedByTime, mem_byTime]

/-- The columns tell an event before the first or the last time of the row from one that is not. -/
structure InstallState.Resolves (st : InstallState) (e : InstallEvent) : Prop where
  firstSeen : e.at_ < st.firstSeen → timestamptz e.at_ < timestamptz st.firstSeen
  lastSeen : e.at_ < st.lastSeen → timestamptz e.at_ < timestamptz st.lastSeen

variable {st : InstallState} {e e' : InstallEvent} {events : List InstallEvent}

theorem resolves_of_stored (h : st.stored = st) (e : InstallEvent) : st.Resolves e := by
  have hfirst : timestamptz st.firstSeen = st.firstSeen := congrArg firstSeen h
  have hlast : timestamptz st.lastSeen = st.lastSeen := congrArg lastSeen h
  unfold timestamptz at hfirst hlast
  constructor <;> unfold timestamptz <;> omega

theorem resolves_new (h : e.at_ ≤ e'.at_) : (new e).Resolves e' :=
  ⟨fun hlt => absurd h (not_le.mpr hlt), fun hlt => absurd h (not_le.mpr hlt)⟩

theorem InstallState.Resolves.fold (h : st.Resolves e') (hle : e.at_ ≤ e'.at_) : (st.fold e).Resolves e' := by
  have hfirst := h.firstSeen
  have hlast := h.lastSeen
  rw [fold_eq]
  constructor
  · intro hlt
    dsimp only at hlt ⊢
    rw [min_eq_left (by omega)]
    omega
  · intro hlt
    dsimp only at hlt ⊢
    rw [max_eq_left (by omega)]
    omega

theorem InstallState.Resolves.stored_fold (h : st.Resolves e) : (st.fold e).stored = st.stored.fold e.stored := by
  have hfirst : timestamptz e.at_ < timestamptz st.firstSeen ↔ e.at_ < st.firstSeen :=
    ⟨fun hlt => timestamptz_mono.reflect_lt hlt, h.firstSeen⟩
  have hlast : timestamptz e.at_ < timestamptz st.lastSeen ↔ e.at_ < st.lastSeen :=
    ⟨fun hlt => timestamptz_mono.reflect_lt hlt, h.lastSeen⟩
  have hcommand : (if e.completed then some e.at_ else none).map timestamptz =
      if e.completed then some (timestamptz e.at_) else none := apply_ite _ _ _ _
  have hsuccess : (if e.Succeeded then some e.at_ else none).map timestamptz =
      if e.stored.Succeeded then some (timestamptz e.at_) else none := apply_ite _ _ _ _
  rw [fold_eq, fold_eq]
  simp only [stored, timestamptz_mono.map_min, timestamptz_mono.map_max, map_optMin timestamptz_mono, hcommand,
    hsuccess]
  simp only [InstallEvent.stored, hfirst, hlast]
  rfl

/-- To store what events in time order leave is to fold them in as the database keeps them. -/
theorem stored_foldl (hsorted : events.Pairwise (fun a b => a.at_ ≤ b.at_)) (h : ∀ e ∈ events, st.Resolves e) :
    (events.foldl fold st).stored = (events.map InstallEvent.stored).foldl fold st.stored := by
  induction events generalizing st with
  | nil => rfl
  | cons e rest ih =>
    obtain ⟨hle, hrest⟩ := List.pairwise_cons.mp hsorted
    obtain ⟨hfirst, hothers⟩ := List.forall_mem_cons.mp h
    rw [List.foldl_cons, ih hrest fun e' he' => (hothers e' he').fold (hle e' he'), hfirst.stored_fold]
    rfl

theorem InstallState.stored_stored (st : InstallState) : st.stored.stored = st.stored := by
  simp [stored, timestamptz_timestamptz, Function.comp_def]

/-- A row as the table has it. -/
def StoredRow (row : Option InstallState) : Prop := row.map InstallState.stored = row

/-- What is stored of the row planned for a batch. -/
theorem planInstall_stored {row : Option InstallState} (h : StoredRow row) (events : List InstallEvent) :
    (planInstall row events).map (fun plan => plan.1.stored) = runEvents row (storedByTime events) := by
  have hsorted := byTime_pairwise events
  have hplan : (planInstall row events).map (fun plan => plan.1.stored) =
      (runEvents row (byTime events)).map InstallState.stored := by
    rw [← planInstall_fst, Option.map_map]
    rfl
  rw [hplan]
  unfold storedByTime
  cases row with
  | some st =>
    have hst : st.stored = st := Option.some.inj h
    have hfold := stored_foldl hsorted fun e _ => resolves_of_stored hst e
    rw [hst] at hfold
    exact congrArg some hfold
  | none =>
    cases hevents : byTime events with
    | nil => rfl
    | cons first rest =>
      rw [hevents] at hsorted
      have hresolves : ∀ e ∈ first :: rest, (new first).Resolves e := by
        refine List.forall_mem_cons.mpr ⟨resolves_new (le_refl _), fun e he => ?_⟩
        exact resolves_new ((List.pairwise_cons.mp hsorted).1 e he)
      exact congrArg some (stored_foldl hsorted hresolves)

theorem StoredRow.runEvents {row : Option InstallState} (h : StoredRow row) (events : List InstallEvent) :
    StoredRow (runEvents row (storedByTime events)) := by
  unfold StoredRow
  rw [← planInstall_stored h, Option.map_map]
  exact Option.map_congr fun plan _ => plan.1.stored_stored

end Stored

/-- The times of the events a test accepts. -/
def times (p : InstallEvent → Prop) (events : Set InstallEvent) : Set Int := {t | ∃ e ∈ events, p e ∧ e.at_ = t}

theorem times_union (A B : Set InstallEvent) : times p (A ∪ B) = times p A ∪ times p B := by
  ext t
  constructor
  · rintro ⟨e, hmem, hp, rfl⟩
    rcases hmem with hA | hB
    · exact .inl ⟨e, hA, hp, rfl⟩
    · exact .inr ⟨e, hB, hp, rfl⟩
  · rintro (⟨e, hA, hp, rfl⟩ | ⟨e, hB, hp, rfl⟩)
    · exact ⟨e, .inl hA, hp, rfl⟩
    · exact ⟨e, .inr hB, hp, rfl⟩

theorem times_mono {p q : InstallEvent → Prop} (h : ∀ e, p e → q e) (A : Set InstallEvent) : times p A ⊆ times q A := by
  rintro t ⟨e, hA, hp, rfl⟩
  exact ⟨e, hA, h e hp, rfl⟩

theorem optLeast_times_singleton [DecidablePred p] : OptLeast (times p {e}) (if p e then some e.at_ else none) := by
  by_cases hp : p e
  · rw [if_pos hp]
    refine ⟨⟨e, rfl, hp, rfl⟩, ?_⟩
    rintro t ⟨e', rfl, _, rfl⟩
    exact le_refl _
  · rw [if_neg hp]
    refine Set.eq_empty_of_forall_notMem ?_
    rintro t ⟨e', rfl, hp', _⟩
    exact hp hp'

/-- The times of a row are exact for a set of events. -/
structure InstallState.Exact (st : InstallState) (events : Set InstallEvent) : Prop where
  firstSeen : IsLeast (times (fun _ => True) events) st.firstSeen
  lastSeen : IsGreatest (times (fun _ => True) events) st.lastSeen
  firstCommandAt : OptLeast (times (fun e => e.completed = true) events) st.firstCommandAt
  firstSuccessAt : OptLeast (times InstallEvent.Succeeded events) st.firstSuccessAt

/-- No row stands for no events. -/
def RowExact (row : Option InstallState) (events : Set InstallEvent) : Prop :=
  match row with
  | none => events = ∅
  | some st => st.Exact events

theorem times_true_singleton : times (fun _ => True) {e} = {e.at_} := by
  ext t
  constructor
  · rintro ⟨e', rfl, _, rfl⟩
    rfl
  · rintro rfl
    exact ⟨e, rfl, trivial, rfl⟩

variable {st : InstallState} {events : Set InstallEvent}

theorem InstallState.Exact.fold (h : st.Exact events) (e : InstallEvent) : (st.fold e).Exact (events ∪ {e}) := by
  rw [fold_eq]
  refine ⟨?_, ?_, ?_, ?_⟩
  · rw [times_union, times_true_singleton]
    exact h.firstSeen.union isLeast_singleton
  · rw [times_union, times_true_singleton]
    exact h.lastSeen.union isGreatest_singleton
  · rw [times_union]
    exact h.firstCommandAt.union (optLeast_times_singleton _ e)
  · rw [times_union]
    exact h.firstSuccessAt.union (optLeast_times_singleton _ e)

theorem InstallState.Exact.foldl (h : st.Exact events) (more : List InstallEvent) :
    (more.foldl InstallState.fold st).Exact (events ∪ {e | e ∈ more}) := by
  induction more generalizing st events with
  | nil => simpa using h
  | cons e rest ih =>
    have hrest := ih (h.fold e)
    have hset : events ∪ {e} ∪ {e' | e' ∈ rest} = events ∪ {e' | e' ∈ e :: rest} := by
      ext e'
      simp only [Set.mem_union, Set.mem_singleton_iff, Set.mem_ofPred_eq, List.mem_cons, or_assoc]
    rw [hset] at hrest
    exact hrest

/-- A new install is exact for its first event once that is folded in. -/
theorem exact_new_fold : ((new e).fold e).Exact {e} := by
  rw [fold_eq]
  refine ⟨?_, ?_, ?_, ?_⟩
  · rw [times_true_singleton]
    simp [new, isLeast_singleton]
  · rw [times_true_singleton]
    simp [new, isGreatest_singleton]
  · exact optLeast_times_singleton _ e
  · exact optLeast_times_singleton _ e

variable {row : Option InstallState} {A B : Set InstallEvent} {next : InstallState}

theorem RowExact.runEvents (h : RowExact row events) (more : List InstallEvent) :
    RowExact (runEvents row more) (events ∪ {e | e ∈ more}) := by
  cases row with
  | some st => exact InstallState.Exact.foldl h more
  | none =>
    have hempty : events = ∅ := h
    subst hempty
    cases more with
    | nil => simp [RowExact, storage.runEvents]
    | cons first rest =>
      have hrest := (exact_new_fold first).foldl rest
      have hset : ({first} : Set InstallEvent) ∪ {e | e ∈ rest} = ∅ ∪ {e | e ∈ first :: rest} := by
        ext e
        simp
      rw [hset] at hrest
      exact hrest

/-- The columns of a row that is exact for stored events lose nothing when they are stored again. -/
theorem InstallState.Exact.stored_eq (h : st.Exact (InstallEvent.stored '' A)) : st.stored = st := by
  have htimes : ∀ p, ∀ t ∈ times p (InstallEvent.stored '' A), timestamptz t = t := by
    rintro p t ⟨_, ⟨e, -, rfl⟩, -, rfl⟩
    exact timestamptz_timestamptz e.at_
  have hopt : ∀ p a, OptLeast (times p (InstallEvent.stored '' A)) a → a.map timestamptz = a := by
    intro p a ha
    cases a with
    | none => rfl
    | some t => exact congrArg some (htimes p t ha.1)
  unfold stored
  rw [htimes _ _ h.firstSeen.1, htimes _ _ h.lastSeen.1, hopt _ _ h.firstCommandAt, hopt _ _ h.firstSuccessAt]

theorem RowExact.storedRow (h : RowExact row (InstallEvent.stored '' A)) : StoredRow row := by
  cases row with
  | none => rfl
  | some st => exact congrArg some (InstallState.Exact.stored_eq h)

/-- The plan for a batch is exact for what the row stood for and the batch. -/
theorem planInstall_exact {batch : List InstallEvent} {changes : List VersionChange}
    (h : RowExact row (InstallEvent.stored '' A)) (hplan : planInstall row batch = some (next, changes)) :
    next.stored.Exact (InstallEvent.stored '' (A ∪ {e | e ∈ batch})) := by
  have hrun := h.runEvents (storedByTime batch)
  have hset : {e | e ∈ storedByTime batch} = InstallEvent.stored '' {e | e ∈ batch} := by
    ext e
    simp [mem_storedByTime]
  rw [← planInstall_stored h.storedRow, hplan, hset, ← Set.image_union] at hrun
  exact hrun

theorem InstallState.Exact.merge {stored excluded : InstallState} (hA : stored.Exact A) (hB : excluded.Exact B) :
    (mergeInstall stored excluded).Exact (A ∪ B) := by
  refine ⟨?_, ?_, ?_, ?_⟩
  · rw [times_union]
    exact hA.firstSeen.union hB.firstSeen
  · rw [times_union]
    exact hA.lastSeen.union hB.lastSeen
  · rw [times_union]
    exact hA.firstCommandAt.union hB.firstCommandAt
  · rw [times_union]
    exact hA.firstSuccessAt.union hB.firstSuccessAt

theorem RowExact.upsertInstall {stored : Option InstallState} (hA : RowExact stored A) (hB : next.stored.Exact B) :
    (upsertInstall stored next).Exact (A ∪ B) := by
  cases stored with
  | none =>
    have hempty : A = ∅ := hA
    rw [hempty, Set.empty_union]
    exact hB
  | some st => exact InstallState.Exact.merge hA hB

/-- The times of an exact row are in order wherever they are defined. -/
theorem InstallState.Exact.ordered (h : st.Exact events) :
    st.firstSeen ≤ st.lastSeen ∧
      (∀ c, st.firstCommandAt = some c → st.firstSeen ≤ c ∧ c ≤ st.lastSeen) ∧
      ∀ t, st.firstSuccessAt = some t → t ≤ st.lastSeen ∧ ∃ c, st.firstCommandAt = some c ∧ c ≤ t := by
  refine ⟨h.firstSeen.2 h.lastSeen.1, ?_, ?_⟩
  · intro c hc
    have hleast : IsLeast (times (fun e => e.completed = true) events) c := by
      have hopt := h.firstCommandAt
      rw [hc] at hopt
      exact hopt
    have hmem := times_mono (fun _ _ => trivial) events hleast.1
    exact ⟨h.firstSeen.2 hmem, h.lastSeen.2 hmem⟩
  · intro t ht
    have hleast : IsLeast (times InstallEvent.Succeeded events) t := by
      have hopt := h.firstSuccessAt
      rw [ht] at hopt
      exact hopt
    have hcommand : t ∈ times (fun e => e.completed = true) events := times_mono (fun _ hs => hs.1) events hleast.1
    obtain ⟨c, hc, hcleast⟩ := h.firstCommandAt.isLeast hcommand
    exact ⟨h.lastSeen.2 (times_mono (fun _ _ => trivial) events hleast.1), c, hc, hcleast.2 hcommand⟩

end argvio.storage
