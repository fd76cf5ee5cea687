import Argvio.GoTypes
import Argvio.Storage.Dims
import Argvio.Storage.ErrorReasons
import Argvio.Storage.Installs

namespace argvio.storage

structure DiscoveryKey where
  install : InstallKey
  kind : DiscoveryKind
  name : String
  deriving DecidableEq

/-- The install_discoveries table, each row with its `first_at`. -/
abbrev Discoveries := GoMap DiscoveryKey Int

def DiscoveryEvent.key (e : DiscoveryEvent) : DiscoveryKey := ⟨⟨e.tenantID, e.installID⟩, e.kind, e.name⟩

/-- Keeps the earlier of two sightings. -/
def Discoveries.see (d : Discoveries) (k : DiscoveryKey) (at_ : Int) : Discoveries :=
  match d.lookup k with
  | some firstAt => if at_ < firstAt then d.insert k at_ else d
  | none => d.insert k at_

/-- The earliest sighting of each key in a batch. -/
def firstSightings (events : List DiscoveryEvent) : Discoveries :=
  events.foldl (fun first e => Discoveries.see first e.key e.at_) ∅

/-- Records the earliest sighting of each key with one upsert. -/
def trackDiscoveries (d : Discoveries) (events : List DiscoveryEvent) : Discoveries :=
  (firstSightings events).entries.foldl (fun d row => Discoveries.see d row.1 row.2) d

/-- The tables `sweepInstalls` deletes from, of all tenants. A discovery is kept
with its `first_at`. -/
structure SweptTables where
  installs : GoMap InstallKey InstallState
  changes : List (InstallKey × VersionChange)
  discoveries : Discoveries
  reasons : UUID → ErrorReasons
  counters : UUID → Vocabulary
  measures : UUID → Vocabulary
  values : UUID → Vocabulary

/-- `time.Hour`. -/
def hour : Int := 3600 * 1000000000

/-- `time.Now().Add(-time.Duration(days) * 24 * time.Hour)`. -/
def sweepCutoff (days now : Int) : Int := now + wrapInt64 (wrapInt64 (wrapInt64 (-days) * 24) * hour)

/-- A name goes by its own time, and a label or a dimension value also goes with
its name. -/
def Vocabulary.sweepBefore (v : Vocabulary) (cutoff : Int) : Vocabulary :=
  let names := v.tables.names.deleteWhere (fun _ seen => seen < cutoff)
  { tables := { v.tables with
      names := names
      labels := v.tables.labels.deleteWhere (fun k seen => seen < cutoff ∨ k.name ∉ names.keys) }
    dims := v.dims.deleteWhere (fun k seen => seen < cutoff ∨ k.name ∉ names.keys) }

/-- The tenants a sweep is for. -/
inductive SweepScope where
  | only (tenant : UUID)
  | except (tenants : List UUID)

def SweepScope.selects : SweepScope → UUID → Bool
  | .only tenant, t => t = tenant
  | .except tenants, t => t ∉ tenants

/-- The installs of the scope last seen before the cutoff. -/
def SweptTables.outdated (db : SweptTables) (scope : SweepScope) (cutoff : Int) (k : InstallKey) : Bool :=
  scope.selects k.tenant ∧ ((db.installs.lookup k).any (fun st => st.lastSeen < cutoff))

def SweptTables.sweepBefore (db : SweptTables) (scope : SweepScope) (cutoff : Int) : SweptTables :=
  let installs := db.installs.keep (fun k _ => ¬ db.outdated scope cutoff k)
  let discoveries := db.discoveries.keep (fun d _ => ¬ db.outdated scope cutoff d.install)
  let vocabulary (of : UUID → Vocabulary) (t : UUID) : Vocabulary :=
    if scope.selects t then (of t).sweepBefore cutoff else of t
  { changes := db.changes.filter (fun row => ¬ (row.2.at_ < cutoff ∧ scope.selects row.1.tenant))
    installs := installs
    -- Discoveries whose install has no row age out on their own.
    discoveries := discoveries.keep (fun d firstAt =>
      ¬ (firstAt < cutoff ∧ scope.selects d.install.tenant ∧ (installs.lookup d.install).isNone))
    reasons := fun t =>
      if scope.selects t then
        { db.reasons t with reasons := (db.reasons t).reasons.deleteWhere (fun _ seen => seen < cutoff) }
      else db.reasons t
    counters := vocabulary db.counters
    measures := vocabulary db.measures
    values := vocabulary db.values }

/-- A sweep of install state and vocabularies, with the number of installs it
deletes. A failure of the database rolls the transaction back. -/
def sweepInstalls (scope : SweepScope) (days now : Int) (db : SweptTables) : Except String (SweptTables × Nat) :=
  if days ≤ 0 then .error ("storage: sweep installs: days must be positive, got " ++ toString days)
  else
    let cutoff := sweepCutoff days now
    .ok (db.sweepBefore scope cutoff, db.installs.keys.countP (db.outdated scope cutoff))

def sweepTenantInstalls (tenant : UUID) : Int → Int → SweptTables → Except String (SweptTables × Nat) :=
  sweepInstalls (.only tenant)

def sweepInstallsExcept (except : List UUID) : Int → Int → SweptTables → Except String (SweptTables × Nat) :=
  sweepInstalls (.except except)

/-- Nothing seen since a given time was deleted. -/
structure SweptTables.KeepsSince (before after : SweptTables) (time : Int) : Prop where
  installs : ∀ k st, before.installs.lookup k = some st → after.installs.lookup k = none → st.lastSeen < time
  changes : ∀ row ∈ before.changes, row ∉ after.changes → row.2.at_ < time
  reasons : ∀ t, ∀ r ∈ (before.reasons t).reasons.keys, r ∉ (after.reasons t).reasons.keys →
    (before.reasons t).reasons.lastSeen r < time
  names : ∀ of ∈ [SweptTables.counters, SweptTables.measures, SweptTables.values], ∀ t,
    ∀ name ∈ (of before t).tables.names.keys, name ∉ (of after t).tables.names.keys →
      (of before t).tables.names.lastSeen name < time

theorem lookup_sweepBefore {db : SweptTables} {scope : SweepScope} {cutoff : Int} {k : InstallKey} {st : InstallState}
    (hrow : db.installs.lookup k = some st) :
    (db.sweepBefore scope cutoff).installs.lookup k = none ↔ scope.selects k.tenant = true ∧ st.lastSeen < cutoff := by
  change (db.installs.keep _).lookup k = none ↔ _
  rw [GoMap.lookup_keep, hrow, Option.filter_eq_none_iff]
  simp [SweptTables.outdated, hrow]

/-- A sweep keeps what was seen since its cutoff. -/
theorem keepsSince_sweepBefore (db : SweptTables) (scope : SweepScope) (cutoff : Int) :
    db.KeepsSince (db.sweepBefore scope cutoff) cutoff where
  installs := fun k st hrow hgone => ((lookup_sweepBefore hrow).mp hgone).2
  changes := by
    intro row hrow hgone
    by_contra hrecent
    apply hgone
    change row ∈ db.changes.filter _
    rw [List.mem_filter]
    exact ⟨hrow, by simp [hrecent]⟩
  reasons := by
    intro t r hr hgone
    by_contra hrecent
    apply hgone
    change r ∈ (if scope.selects t then _ else db.reasons t).reasons.keys
    split
    · exact CappedTable.mem_keys_deleteWhere.mpr ⟨hr, by simpa using hrecent⟩
    · exact hr
  names := by
    intro of hof t name hname hgone
    by_contra hrecent
    apply hgone
    have hswept : of (db.sweepBefore scope cutoff) t =
        if scope.selects t then (of db t).sweepBefore cutoff else of db t := by
      simp only [List.mem_cons, List.not_mem_nil, or_false] at hof
      rcases hof with rfl | rfl | rfl <;> rfl
    rw [hswept]
    split
    · exact CappedTable.mem_keys_deleteWhere.mpr ⟨hname, by simpa using hrecent⟩
    · exact hname

theorem SweptTables.KeepsSince.mono {before after : SweptTables} {time time' : Int}
    (h : before.KeepsSince after time) (hle : time ≤ time') : before.KeepsSince after time' where
  installs := fun k st hrow hgone => (h.installs k st hrow hgone).trans_le hle
  changes := fun row hrow hgone => (h.changes row hrow hgone).trans_le hle
  reasons := fun t r hr hgone => (h.reasons t r hr hgone).trans_le hle
  names := fun of hof t name hname hgone => (h.names of hof t name hname hgone).trans_le hle

theorem sweepCutoff_eq (days now : Int) : sweepCutoff days now = now + wrapInt64 (-(days * 24 * hour)) := by
  unfold sweepCutoff
  rw [wrapInt64_mul, mul_assoc, wrapInt64_mul]
  congr 2
  ring

/-- 106751 days is the longest window whose nanoseconds fit in an `int64`. -/
theorem sweepCutoff_le_iff {days : Int} (hdays : 0 < days) (now : Int) :
    sweepCutoff days now ≤ now - days * 24 * hour ↔ days ≤ 106751 := by
  rw [sweepCutoff_eq]
  unfold hour
  constructor
  · intro hle
    have hlow := le_wrapInt64 (-(days * 24 * (3600 * 1000000000)))
    omega
  · intro hle
    rw [wrapInt64_of_range (by omega) (by omega)]
    omega

def SweptTables.ofInstall (k : InstallKey) (st : InstallState) : SweptTables where
  installs := AList.insert k st ∅
  changes := []
  discoveries := ∅
  reasons := fun _ => { reasons := .empty }
  counters := fun _ => .empty
  measures := fun _ => .empty
  values := fun _ => .empty

def seenAt (time : Int) : InstallState where
  firstSeen := time
  lastSeen := time
  firstVersion := none
  lastVersion := none
  lastOS := none
  lastArch := none
  installMethod := none
  firstCommandAt := none
  firstSuccessAt := none

/-- A sweep of a tenant's rows keeps every row inside the window, whatever the
tables hold, exactly when the window is at most 106751 days. -/
theorem sweepInstalls_keeps_window_iff {scope : SweepScope} {tenant : UUID} (hselects : scope.selects tenant = true)
    (days now : Int) :
    (∀ db after deleted, sweepInstalls scope days now db = .ok (after, deleted) →
      db.KeepsSince after (now - days * 24 * hour)) ↔ days ≤ 106751 := by
  by_cases hdays : days ≤ 0
  · refine iff_of_true ?_ (by omega)
    intro db after deleted hsweep
    rw [sweepInstalls, if_pos hdays] at hsweep
    cases hsweep
  rw [← sweepCutoff_le_iff (not_le.mp hdays) now]
  constructor
  · intro hkeeps
    by_contra hlate
    -- An install seen exactly when the window starts is inside it, and is deleted.
    let k : InstallKey := ⟨tenant, ""⟩
    let db := SweptTables.ofInstall k (seenAt (now - days * 24 * hour))
    have hsweep : sweepInstalls scope days now db =
        .ok (db.sweepBefore scope (sweepCutoff days now), _) := if_neg hdays
    have hrow : db.installs.lookup k = some (seenAt (now - days * 24 * hour)) := AList.lookup_insert _
    have hgone := (lookup_sweepBefore hrow).mpr ⟨hselects, not_le.mp hlate⟩
    exact lt_irrefl _ ((hkeeps db _ _ hsweep).installs k _ hrow hgone)
  · intro hle db after deleted hsweep
    rw [sweepInstalls, if_neg hdays] at hsweep
    cases hsweep
    exact (keepsSince_sweepBefore db scope _).mono hle

theorem sweepInstalls_keeps_window_iff_ninety_days :
    let now := 1700000000 * 1000000000
    ∀ db after deleted, sweepInstalls (.only 1) 90 now db = .ok (after, deleted) →
      db.KeepsSince after (now - 90 * 24 * hour) :=
  (@sweepInstalls_keeps_window_iff (.only 1) 1 (by decide) 90 _).mpr (by decide)

/-- With a window of 106752 days the cutoff wraps around to the far future, and an
install seen an hour ago is deleted. -/
theorem sweepInstalls_deletes_inside_window :
    let now := 1700000000 * 1000000000
    let db := SweptTables.ofInstall ⟨1, "i"⟩ (seenAt (now - hour))
    ∃ after, sweepInstalls (.only 1) 106752 now db = .ok (after, 1) ∧
      ¬ db.KeepsSince after (now - 106752 * 24 * hour) := by
  intro now db
  have hsweep : sweepInstalls (.only 1) 106752 now db =
      .ok (db.sweepBefore (.only 1) (sweepCutoff 106752 now), 1) := by
    rw [sweepInstalls, if_neg (by decide)]
    dsimp only
    have hcount : db.installs.keys.countP (db.outdated (.only 1) (sweepCutoff 106752 now)) = 1 := by decide
    rw [hcount]
  refine ⟨_, hsweep, fun hkeeps => ?_⟩
  have hrow : db.installs.lookup ⟨1, "i"⟩ = some (seenAt (now - hour)) := AList.lookup_insert _
  have hgone : (db.sweepBefore (.only 1) (sweepCutoff 106752 now)).installs.lookup ⟨1, "i"⟩ = none :=
    (lookup_sweepBefore hrow).mpr (by decide)
  have hlt := hkeeps.installs _ _ hrow hgone
  exact absurd hlt (by decide)

end argvio.storage
