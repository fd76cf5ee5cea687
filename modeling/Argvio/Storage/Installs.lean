import Argvio.OptLeast
import Argvio.Storage.Rows
import Argvio.Storage.Semver

namespace argvio.storage

/-- A time, in nanoseconds, as a TIMESTAMPTZ column keeps it: in whole microseconds. -/
def timestamptz (t : Int) : Int := t / 1000 * 1000

/-- One row of the installs table. -/
structure InstallState where
  firstSeen : Int
  lastSeen : Int
  firstVersion : Option String
  lastVersion : Option String
  lastOS : Option String
  lastArch : Option String
  installMethod : Option String
  firstCommandAt : Option Int
  firstSuccessAt : Option Int
  deriving DecidableEq

/-- One upgrade or downgrade. -/
structure VersionChange where
  at_ : Int
  from_ : String
  to_ : String
  upgrade : Bool
  deriving DecidableEq

def earliest (cur : Option Int) (t : Int) : Option Int :=
  match cur with
  | none => some t
  | some c => if t < c then some t else some c

/-- What a new install starts from: its first event. -/
def InstallState.new (first : InstallEvent) : InstallState where
  firstSeen := first.at_
  lastSeen := first.at_
  firstVersion := first.version
  lastVersion := first.version
  lastOS := first.os
  lastArch := first.arch
  installMethod := none
  firstCommandAt := none
  firstSuccessAt := none

/-- The version change an event reveals, if any. -/
def InstallState.changeAt (st : InstallState) (e : InstallEvent) : Option VersionChange :=
  match e.version, st.lastVersion with
  | some version, some last =>
    -- `After(LastSeen)` implies the guard on events at least as new as `LastSeen`.
    if last ≠ version ∧ st.lastSeen < e.at_ then
      match compareVersions last version with
      | some .lt => some { at_ := e.at_, from_ := last, to_ := version, upgrade := true }
      | some .gt => some { at_ := e.at_, from_ := last, to_ := version, upgrade := false }
      | _ => none
    else none
  | _, _ => none

/-- One turn of the loop of `planInstall`, for the state. -/
def InstallState.fold (st : InstallState) (e : InstallEvent) : InstallState :=
  let st := if e.at_ < st.firstSeen then
      { st with firstSeen := e.at_, firstVersion := e.version.or st.firstVersion }
    else st
  let st := if e.at_ < st.lastSeen then st
    else
      { st with
        lastVersion := e.version.or st.lastVersion
        lastOS := e.os.or st.lastOS
        lastArch := e.arch.or st.lastArch
        lastSeen := e.at_ }
  let st := if e.installMeth = "" then st else { st with installMethod := some e.installMeth }
  if e.completed then
    { st with
      firstCommandAt := earliest st.firstCommandAt e.at_
      firstSuccessAt := if e.exitCode = some 0 then earliest st.firstSuccessAt e.at_ else st.firstSuccessAt }
  else st

def planStep (acc : InstallState × List VersionChange) (e : InstallEvent) : InstallState × List VersionChange :=
  (acc.1.fold e, acc.2 ++ (acc.1.changeAt e).toList)

/-- The events of a batch, oldest first. -/
def byTime (events : List InstallEvent) : List InstallEvent := events.insertionSort (fun a b => a.at_ ≤ b.at_)

/-- Folds the events of one install into its stored state and reports the version
changes they reveal. There is no result for a new install without events. -/
def planInstall (existing : Option InstallState) (events : List InstallEvent) :
    Option (InstallState × List VersionChange) :=
  match existing, byTime events with
  | some st, sorted => some (sorted.foldl planStep (st, []))
  | none, first :: rest => some ((first :: rest).foldl planStep (.new first, []))
  | none, [] => none

/-- The row as the columns of the table keep it. -/
def InstallState.stored (st : InstallState) : InstallState :=
  { st with
    firstSeen := timestamptz st.firstSeen
    lastSeen := timestamptz st.lastSeen
    firstCommandAt := st.firstCommandAt.map timestamptz
    firstSuccessAt := st.firstSuccessAt.map timestamptz }

/-- The row `upsertInstall` leaves when there already is one. -/
def mergeInstall (stored excluded : InstallState) : InstallState where
  firstVersion :=
    if excluded.firstSeen < stored.firstSeen then excluded.firstVersion.or stored.firstVersion
    else stored.firstVersion
  lastVersion :=
    if excluded.lastSeen ≥ stored.lastSeen then excluded.lastVersion.or stored.lastVersion else stored.lastVersion
  lastOS := if excluded.lastSeen ≥ stored.lastSeen then excluded.lastOS.or stored.lastOS else stored.lastOS
  lastArch := if excluded.lastSeen ≥ stored.lastSeen then excluded.lastArch.or stored.lastArch else stored.lastArch
  installMethod := excluded.installMethod.or stored.installMethod
  firstSeen := min stored.firstSeen excluded.firstSeen
  lastSeen := max stored.lastSeen excluded.lastSeen
  firstCommandAt := optMin stored.firstCommandAt excluded.firstCommandAt
  firstSuccessAt := optMin stored.firstSuccessAt excluded.firstSuccessAt

/-- The row after `upsertInstall`, whether or not there was one. -/
def upsertInstall (stored : Option InstallState) (next : InstallState) : InstallState :=
  match stored with
  | none => next.stored
  | some st => mergeInstall st next.stored

structure InstallKey where
  tenant : UUID
  id : String
  deriving DecidableEq

def InstallEvent.key (e : InstallEvent) : InstallKey := ⟨e.tenantID, e.installID⟩

/-- The order in which installs are locked. -/
def InstallKey.le (a b : InstallKey) : Prop :=
  a.tenant < b.tenant ∨ a.tenant = b.tenant ∧ a.id ≤ b.id

instance : DecidableRel InstallKey.le := fun _ _ => inferInstanceAs (Decidable (_ ∨ _))

/-- The installs a batch touches, in the order in which they are locked. -/
def installKeys (events : List InstallEvent) : List InstallKey :=
  (events.map InstallEvent.key).dedup.insertionSort InstallKey.le

def eventsOf (events : List InstallEvent) (k : InstallKey) : List InstallEvent := events.filter (fun e => e.key = k)

/-- The installs and install_version_changes tables. -/
structure InstallTables where
  installs : InstallKey → Option InstallState
  changes : List (InstallKey × VersionChange)

def VersionChange.stored (c : VersionChange) : VersionChange := { c with at_ := timestamptz c.at_ }

/-- `INSERT ... ON CONFLICT DO NOTHING` on the key (install, at). -/
def insertVersionChange (k : InstallKey) (changes : List (InstallKey × VersionChange)) (c : VersionChange) :
    List (InstallKey × VersionChange) :=
  if changes.any (fun row => row.1 = k ∧ row.2.at_ = c.stored.at_) then changes else changes ++ [(k, c.stored)]

/-- One turn of the loop of `TrackInstalls`. -/
def trackInstall (events : List InstallEvent) (t : InstallTables) (k : InstallKey) : InstallTables :=
  match planInstall (t.installs k) (eventsOf events k) with
  | none => t
  | some (next, changes) =>
    { installs := Function.update t.installs k (some (upsertInstall (t.installs k) next))
      changes := changes.foldl (insertVersionChange k) t.changes }

/-- `TrackInstalls` with no other writer in between. -/
def trackInstalls (t : InstallTables) (events : List InstallEvent) : InstallTables :=
  (installKeys events).foldl (trackInstall events) t

/-- How many events a backfill hands over at a time. -/
def backfillChunk : Nat := 2000

end argvio.storage
