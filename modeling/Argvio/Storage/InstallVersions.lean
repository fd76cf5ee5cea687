import Argvio.Storage.InstallColumns

open List

namespace argvio.storage

open InstallState

/-- What the first event of a new install establishes and every further one keeps
holds of the row. -/
theorem run_rule {P : InstallState → Prop} {first : InstallEvent} {rest : List InstallEvent} {st : InstallState}
    (hrun : runEvents none (first :: rest) = some st) (hfirst : P ((new first).fold first))
    (hstep : ∀ e ∈ rest, ∀ st, P st → P (st.fold e)) : P st := by
  cases hrun
  exact foldlRecOn rest _ hfirst fun st hst e he => hstep e he st hst

section LastColumn

variable {column : InstallState → Option String} {sent : InstallEvent → Option String} (hc : LastColumn column sent)
  {events rest : List InstallEvent} {st : InstallState} {l : InstallEvent}

include hc

theorem LastColumn.new_fold (e : InstallEvent) : column ((InstallState.new e).fold e) = sent e := by
  rw [hc.fold, hc.new, Option.or_self]
  exact ite_self _

theorem LastColumn.eq_none (hrun : runEvents none events = some st) (hnone : ∀ e ∈ events, sent e = none) :
    column st = none := by
  cases events with
  | nil => cases hrun
  | cons first rest =>
    obtain ⟨hfirst, hrest⟩ := forall_mem_cons.mp hnone
    refine run_rule (P := fun st => column st = none) hrun (by rw [hc.new_fold, hfirst]) fun e he st hst => ?_
    rw [hc.fold, hrest e he, hst]
    exact ite_self _

/-- A value that all the newest events to send one agree on stays, in whatever order they arrive. -/
theorem LastColumn.of_agreed {v : String} (hrun : runEvents none events = some st)
    (hsent : ∃ l ∈ events, l.at_ = st.lastSeen ∧ sent l = some v)
    (hagreed : ∀ l ∈ events, l.at_ = st.lastSeen → sent l = none ∨ sent l = some v) : column st = some v := by
  refine run_induction (P := fun events st => (∃ l ∈ events, l.at_ = st.lastSeen ∧ sent l = some v) →
    (∀ l ∈ events, l.at_ = st.lastSeen → sent l = none ∨ sent l = some v) → column st = some v) ?_ ?_ hrun hsent hagreed
  · rintro e ⟨l, hl, _, hsent⟩ _
    rw [hc.new_fold, ← mem_singleton.mp hl, hsent]
  rintro done st e hdone ih ⟨l, hl, hseen, hsent⟩ hagreed
  rw [lastSeen_fold] at hseen hagreed
  have hbefore : ∀ e' ∈ done, e'.at_ ≤ st.lastSeen := fun e' he' => le_lastSeen hdone he'
  have hdoneAgreed : ∀ l ∈ done, e.at_ ≤ st.lastSeen → l.at_ = st.lastSeen → sent l = none ∨ sent l = some v :=
    fun l hl hle hat => hagreed l (mem_append_left _ hl) (by omega)
  rw [hc.fold]
  by_cases holder : e.at_ < st.lastSeen
  · -- An older event is neither the newest nor taken in.
    have hmem : l ∈ done := (mem_append.mp hl).resolve_right fun h => by
      rw [mem_singleton.mp h] at hseen
      omega
    rw [if_pos holder]
    exact ih ⟨l, hmem, by omega, hsent⟩ fun l hl => hdoneAgreed l hl holder.le
  · rw [if_neg holder]
    rcases hagreed e (mem_append_right _ mem_cons_self) (by omega) with hnone | hsome
    · have hmem : l ∈ done := (mem_append.mp hl).resolve_right fun h => by
        rw [mem_singleton.mp h, hnone] at hsent
        cases hsent
      have hle := hbefore l hmem
      rw [hnone]
      exact ih ⟨l, hmem, by omega, hsent⟩ fun l hl => hdoneAgreed l hl (by omega)
    · rw [hsome]
      rfl

end LastColumn

theorem firstVersion_new_fold (e : InstallEvent) : ((new e).fold e).firstVersion = e.version := by
  have hsame : ¬ e.at_ < (new e).firstSeen := lt_irrefl _
  rw [firstVersion_fold, if_neg hsame]
  rfl

section FirstVersion

variable {events rest : List InstallEvent} {st : InstallState} {f : InstallEvent}

theorem firstVersion_eq_none (hrun : runEvents none events = some st) (hnone : ∀ e ∈ events, e.version = none) :
    st.firstVersion = none := by
  cases events with
  | nil => cases hrun
  | cons first rest =>
    obtain ⟨hfirst, hrest⟩ := forall_mem_cons.mp hnone
    refine run_rule (P := fun st => st.firstVersion = none) hrun (by rw [firstVersion_new_fold, hfirst])
      fun e he st hst => ?_
    rw [firstVersion_fold, hrest e he, hst]
    exact ite_self _

/-- A version that all the earliest events have stays, in whatever order they arrive. -/
theorem firstVersion_of_agreed {v : String} (hrun : runEvents none events = some st)
    (hagreed : ∀ f ∈ events, f.at_ = st.firstSeen → f.version = some v) : st.firstVersion = some v := by
  refine run_induction (P := fun events st =>
    (∀ f ∈ events, f.at_ = st.firstSeen → f.version = some v) → st.firstVersion = some v) ?_ ?_ hrun hagreed
  · intro e hagreed
    rw [firstVersion_new_fold]
    refine hagreed e mem_cons_self ?_
    rw [firstSeen_fold]
    exact (min_self _).symm
  intro done st e hdone ih hagreed
  rw [firstSeen_fold] at hagreed
  rw [firstVersion_fold]
  split
  · rename_i hearlier
    rw [hagreed e (mem_append_right _ mem_cons_self) (by omega)]
    rfl
  · exact ih fun f hf hat => hagreed f (mem_append_left _ hf) (by omega)

end FirstVersion

/-- No event is in an earlier microsecond. -/
def Earliest (events : List InstallEvent) (f : InstallEvent) : Prop :=
  ∀ e ∈ events, timestamptz f.at_ ≤ timestamptz e.at_

instance (events : List InstallEvent) (f : InstallEvent) : Decidable (Earliest events f) :=
  inferInstanceAs (Decidable (∀ e ∈ events, timestamptz f.at_ ≤ timestamptz e.at_))

/-- No event is in a later microsecond. -/
def Latest (events : List InstallEvent) (l : InstallEvent) : Prop :=
  ∀ e ∈ events, timestamptz e.at_ ≤ timestamptz l.at_

instance (events : List InstallEvent) (l : InstallEvent) : Decidable (Latest events l) :=
  inferInstanceAs (Decidable (∀ e ∈ events, timestamptz e.at_ ≤ timestamptz l.at_))

/-- The events of the earliest microsecond all have one version. -/
def FirstAgreed (events : List InstallEvent) : Prop :=
  ∃ f ∈ events, Earliest events f ∧ f.version ≠ none ∧ ∀ f' ∈ events, Earliest events f' → f'.version = f.version

instance (events : List InstallEvent) : Decidable (FirstAgreed events) :=
  inferInstanceAs (Decidable (∃ f ∈ events, _ ∧ _ ∧ _))

/-- Some event of the latest microsecond has a value, and all of them that have one have the same. -/
def LastAgreed (sent : InstallEvent → Option String) (events : List InstallEvent) : Prop :=
  ∃ l ∈ events, Latest events l ∧ sent l ≠ none ∧ ∀ l' ∈ events, Latest events l' → sent l' = none ∨ sent l' = sent l

instance (sent : InstallEvent → Option String) (events : List InstallEvent) : Decidable (LastAgreed sent events) :=
  inferInstanceAs (Decidable (∃ l ∈ events, _ ∧ _ ∧ _))

/-- Every way to split the events of an install into batches, and every order of the
batches, leaves the same in a column. -/
def ArrivalFree {α : Type} (t : InstallTables) (k : InstallKey) (events : List InstallEvent)
    (column : InstallState → α) : Prop :=
  ∀ batches batches' : List (List InstallEvent), batches.flatten.Perm events → batches'.flatten.Perm events →
    ((batches.foldl trackInstalls t).installs k).map column =
      ((batches'.foldl trackInstalls t).installs k).map column

theorem exists_runEvents {events : List InstallEvent} (h : events ≠ []) : ∃ st, runEvents none events = some st := by
  cases events with
  | nil => exact absurd rfl h
  | cons first rest => exact ⟨_, rfl⟩

section Runs

variable {events run : List InstallEvent} {st : InstallState} (hperm : run.Perm (events.map InstallEvent.stored))

include hperm

theorem mem_run {e : InstallEvent} (he : e ∈ run) : ∃ e' ∈ events, e'.stored = e :=
  mem_map.mp (hperm.mem_iff.mp he)

theorem stored_mem_run {e : InstallEvent} (he : e ∈ events) : e.stored ∈ run :=
  hperm.mem_iff.mpr (mem_map_of_mem he)

variable (hrun : runEvents none run = some st)

include hrun

/-- The last time of a row is that of the events of the latest microsecond. -/
theorem lastSeen_eq_iff {l : InstallEvent} (hl : l ∈ events) : timestamptz l.at_ = st.lastSeen ↔ Latest events l := by
  constructor
  · intro hseen e he
    have hle : timestamptz e.at_ ≤ st.lastSeen := le_lastSeen hrun (stored_mem_run hperm he)
    omega
  · intro hlatest
    obtain ⟨e, he, hseen⟩ := exists_lastSeen hrun
    obtain ⟨e, hmem, rfl⟩ := mem_run hperm he
    have hle : timestamptz l.at_ ≤ st.lastSeen := le_lastSeen hrun (stored_mem_run hperm hl)
    exact le_antisymm hle (hseen ▸ hlatest e hmem)

theorem firstSeen_eq_iff {f : InstallEvent} (hf : f ∈ events) :
    timestamptz f.at_ = st.firstSeen ↔ Earliest events f := by
  constructor
  · intro hseen e he
    have hle : st.firstSeen ≤ timestamptz e.at_ := firstSeen_le hrun (stored_mem_run hperm he)
    omega
  · intro hearliest
    obtain ⟨e, he, hseen⟩ := exists_firstSeen hrun
    obtain ⟨e, hmem, rfl⟩ := mem_run hperm he
    have hle : st.firstSeen ≤ timestamptz f.at_ := firstSeen_le hrun (stored_mem_run hperm hf)
    exact le_antisymm (hseen ▸ hearliest e hmem) hle

end Runs

section Arrivals

variable {t : InstallTables} {k : InstallKey} {events : List InstallEvent} (hfresh : t.installs k = none)
  (hkey : ∀ e ∈ events, e.key = k)

include hfresh hkey

variable {α : Type} {column : InstallState → α}

/-- The row after a sequence of calls is that of a run of the events. -/
theorem exists_run_of_batches {batches : List (List InstallEvent)} (hsplit : batches.flatten.Perm events)
    (hne : events ≠ []) :
    ∃ st, (batches.foldl trackInstalls t).installs k = some st ∧ runEvents none (arrivals batches k) = some st := by
  have hrow : StoredRow (t.installs k) := by rw [hfresh]; rfl
  have harrivals : arrivals batches k ≠ [] := by
    intro hnil
    have hperm := arrivals_perm hkey hsplit
    rw [hnil, nil_perm, map_eq_nil_iff] at hperm
    exact hne hperm
  obtain ⟨st, hst⟩ := exists_runEvents harrivals
  refine ⟨st, ?_, hst⟩
  rw [installs_foldl_trackInstalls hrow, hfresh, hst]

/-- A column with one value over all orders of the events does not depend on their
arrival. -/
theorem ArrivalFree.of_runs {value : α}
    (hruns : ∀ run st, run.Perm (events.map InstallEvent.stored) → runEvents none run = some st → column st = value) :
    ArrivalFree t k events column := by
  have hvalue : ∀ batches : List (List InstallEvent), batches.flatten.Perm events →
      ((batches.foldl trackInstalls t).installs k).map column = if events = [] then none else some value := by
    intro batches hsplit
    by_cases hnil : events = []
    · have hrow : StoredRow (t.installs k) := by rw [hfresh]; rfl
      have hperm := arrivals_perm hkey hsplit
      rw [hnil, map_nil, perm_nil] at hperm
      rw [if_pos hnil, installs_foldl_trackInstalls hrow, hfresh, hperm]
      rfl
    · obtain ⟨st, hst, hrun⟩ := exists_run_of_batches hfresh hkey hsplit hnil
      rw [if_neg hnil, hst, Option.map_some, hruns _ st (arrivals_perm hkey hsplit) hrun]
  intro batches batches' hsplit hsplit'
  rw [hvalue batches hsplit, hvalue batches' hsplit']

/-- A column of the latest events does not depend on the arrival when no event has a value for it
or those of the latest microsecond agree on one. -/
theorem LastColumn.arrivalFree {column : InstallState → Option String} {sent : InstallEvent → Option String}
    (hc : LastColumn column sent) (hstored : ∀ e, sent e.stored = sent e)
    (h : (∀ e ∈ events, sent e = none) ∨ LastAgreed sent events) : ArrivalFree t k events column := by
  rcases h with hnone | ⟨l, hl, hlatest, hsent, hagreed⟩
  · refine ArrivalFree.of_runs hfresh hkey fun run st hperm hrun => hc.eq_none hrun fun e he => ?_
    obtain ⟨e, hmem, rfl⟩ := mem_run hperm he
    rw [hstored, hnone e hmem]
  · obtain ⟨v, hv⟩ := Option.ne_none_iff_exists'.mp hsent
    refine ArrivalFree.of_runs hfresh hkey fun run st hperm hrun => hc.of_agreed (v := v) hrun ?_ fun e he hseen => ?_
    · exact ⟨l.stored, stored_mem_run hperm hl, (lastSeen_eq_iff hperm hrun hl).mpr hlatest, by rw [hstored, hv]⟩
    · obtain ⟨e, hmem, rfl⟩ := mem_run hperm he
      rw [hstored, ← hv]
      exact hagreed e hmem ((lastSeen_eq_iff hperm hrun hmem).mp hseen)

/-- The first version does not depend on the arrival when no event has a version or those of the
earliest microsecond all have the same one. -/
theorem firstVersion_arrivalFree (h : (∀ e ∈ events, e.version = none) ∨ FirstAgreed events) :
    ArrivalFree t k events firstVersion := by
  rcases h with hnone | ⟨f, hf, hearliest, hsent, hagreed⟩
  · refine ArrivalFree.of_runs hfresh hkey fun run st hperm hrun => firstVersion_eq_none hrun fun e he => ?_
    obtain ⟨e, hmem, rfl⟩ := mem_run hperm he
    exact hnone e hmem
  · obtain ⟨v, hv⟩ := Option.ne_none_iff_exists'.mp hsent
    refine ArrivalFree.of_runs hfresh hkey fun run st hperm hrun => firstVersion_of_agreed (v := v) hrun fun e he hseen => ?_
    obtain ⟨e, hmem, rfl⟩ := mem_run hperm he
    exact (hagreed e hmem ((firstSeen_eq_iff hperm hrun hmem).mp hseen)).trans hv

/-- When the columns of an install do not depend on how its events arrive. -/
theorem install_columns_arrivalFree :
    ((∀ e ∈ events, e.version = none) ∨ FirstAgreed events → ArrivalFree t k events firstVersion) ∧
    ((∀ e ∈ events, e.version = none) ∨ LastAgreed InstallEvent.version events → ArrivalFree t k events lastVersion) ∧
    ((∀ e ∈ events, e.os = none) ∨ LastAgreed InstallEvent.os events → ArrivalFree t k events lastOS) ∧
    ((∀ e ∈ events, e.arch = none) ∨ LastAgreed InstallEvent.arch events → ArrivalFree t k events lastArch) :=
  ⟨firstVersion_arrivalFree hfresh hkey, lastColumn_version.arrivalFree hfresh hkey fun _ => rfl,
    lastColumn_os.arrivalFree hfresh hkey fun _ => rfl, lastColumn_arch.arrivalFree hfresh hkey fun _ => rfl⟩

end Arrivals

def versionEvent (at_ : Int) (version : Option String) : InstallEvent where
  tenantID := 1
  installID := "i"
  at_ := at_
  version := version
  os := some "linux"
  arch := none
  completed := false
  exitCode := none
  installMeth := ""

/-- Two events that both have a version, and no arch. -/
theorem install_columns_arrivalFree_versionEvent :
    let t : InstallTables := ⟨fun _ => none, []⟩
    let events := [versionEvent 1000 (some "1.0.0"), versionEvent 2000 (some "2.0.0")]
    ArrivalFree t ⟨1, "i"⟩ events firstVersion ∧ ArrivalFree t ⟨1, "i"⟩ events lastVersion ∧
      ArrivalFree t ⟨1, "i"⟩ events lastOS ∧ ArrivalFree t ⟨1, "i"⟩ events lastArch := by
  intro t events
  have hkey : ∀ e ∈ events, e.key = ⟨1, "i"⟩ := by decide
  obtain ⟨hfirst, hlast, hos, harch⟩ := install_columns_arrivalFree (t := t) rfl hkey
  exact ⟨hfirst (by decide), hlast (by decide), hos (by decide), harch (by decide)⟩

/-- Two events that send a value or none for version, OS and arch alike. The first version depends on
their arrival if the older one sends none, the other columns if the newer one sends none, and all four
if the events are of one microsecond and send two values. -/
theorem columns_depend_on_arrival :
    let event (at_ : Int) (v : Option String) : InstallEvent := { versionEvent at_ v with os := v, arch := v }
    let columns (batches : List (List InstallEvent)) :=
      ((batches.foldl trackInstalls ⟨fun _ => none, []⟩).installs ⟨1, "i"⟩).map
        (fun st => (st.firstVersion, st.lastVersion, st.lastOS, st.lastArch))
    let a := some "a"
    let b := some "b"
    (columns [[event 1000 none, event 2000 a]] = some (none, a, a, a) ∧
      columns [[event 2000 a], [event 1000 none]] = some (a, a, a, a)) ∧
    (columns [[event 1000 a, event 2000 none]] = some (a, a, a, a) ∧
      columns [[event 2000 none], [event 1000 a]] = some (a, none, none, none)) ∧
    (columns [[event 100 a], [event 300 b]] = some (a, b, b, b) ∧
      columns [[event 300 b], [event 100 a]] = some (b, a, a, a)) := by
  refine ⟨⟨?_, ?_⟩, ⟨?_, ?_⟩, ?_, ?_⟩ <;> decide

end argvio.storage
