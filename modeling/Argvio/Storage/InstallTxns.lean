import Argvio.Storage.InstallTimes

namespace argvio.storage

/-- Where a call of `TrackInstalls` stands: before the select of the next install
left to do, or before the upsert of the row it has planned. -/
inductive TxnPhase where
  | select (todo : List InstallKey)
  | upsert (k : InstallKey) (next : InstallState) (todo : List InstallKey)
  | committed
  | aborted

def TxnPhase.running : TxnPhase → Prop
  | .select _ => True
  | .upsert _ _ _ => True
  | .committed => False
  | .aborted => False

/-- The installs a call has not written yet. -/
def TxnPhase.todo : TxnPhase → List InstallKey
  | .select todo => todo
  | .upsert k _ todo => k :: todo
  | .committed => []
  | .aborted => []

/-- The committed rows, who holds the lock on each row, and the open transactions
with the rows they have written. -/
structure InstallSystem (ι : Type) where
  rows : InstallKey → Option InstallState
  owner : InstallKey → Option ι
  phase : ι → TxnPhase
  writes : ι → InstallKey → Option InstallState

theorem mem_installKeys {k : InstallKey} {events : List InstallEvent} : k ∈ installKeys events ↔ eventsOf events k ≠ [] := by
  unfold installKeys eventsOf
  rw [List.mem_insertionSort, List.mem_dedup, List.mem_map, Ne, List.filter_eq_nil_iff]
  simp

section Machine

variable {ι : Type} [DecidableEq ι]

namespace InstallSystem

/-- Nobody else holds the lock on the row. -/
def Free (s : InstallSystem ι) (i : ι) (k : InstallKey) : Prop := s.owner k = none ∨ s.owner k = some i

def lock (s : InstallSystem ι) (i : ι) (k : InstallKey) : InstallKey → Option ι := Function.update s.owner k (some i)

/-- The locks left when a transaction ends. -/
def release (s : InstallSystem ι) (i : ι) : InstallKey → Option ι :=
  fun k => if s.owner k = some i then none else s.owner k

/-- The rows as a transaction that commits would leave them. -/
def view (s : InstallSystem ι) (i : ι) : InstallKey → Option InstallState := fun k => (s.writes i k).or (s.rows k)

end InstallSystem

/-- One step of a transaction. A select locks the row when there is one and reads
nothing otherwise; an upsert waits for whoever holds the row, be it a lock or a
row not yet committed, and merges into the row that is committed by then. -/
inductive InstallStep (batches : ι → List InstallEvent) : InstallSystem ι → InstallSystem ι → Prop where
  | found {s : InstallSystem ι} {i : ι} {k : InstallKey} {todo : List InstallKey} {row next : InstallState}
      {changes : List VersionChange} (hphase : s.phase i = .select (k :: todo)) (hrow : s.rows k = some row)
      (hfree : s.Free i k) (hplan : planInstall (some row) (eventsOf (batches i) k) = some (next, changes)) :
      InstallStep batches s
        { s with owner := s.lock i k, phase := Function.update s.phase i (.upsert k next todo) }
  | missing {s : InstallSystem ι} {i : ι} {k : InstallKey} {todo : List InstallKey} {next : InstallState}
      {changes : List VersionChange} (hphase : s.phase i = .select (k :: todo)) (hrow : s.rows k = none)
      (hplan : planInstall none (eventsOf (batches i) k) = some (next, changes)) :
      InstallStep batches s { s with phase := Function.update s.phase i (.upsert k next todo) }
  | upsert {s : InstallSystem ι} {i : ι} {k : InstallKey} {next : InstallState} {todo : List InstallKey}
      (hphase : s.phase i = .upsert k next todo) (hfree : s.Free i k) :
      InstallStep batches s
        { s with
          owner := s.lock i k
          phase := Function.update s.phase i (.select todo)
          writes := Function.update s.writes i
            (Function.update (s.writes i) k (some (upsertInstall (s.rows k) next))) }
  | commit {s : InstallSystem ι} {i : ι} (hphase : s.phase i = .select []) :
      InstallStep batches s
        { s with rows := s.view i, owner := s.release i, phase := Function.update s.phase i .committed }
  | abort {s : InstallSystem ι} {i : ι} (hrunning : (s.phase i).running) :
      InstallStep batches s { s with owner := s.release i, phase := Function.update s.phase i .aborted }

def InstallReaches (batches : ι → List InstallEvent) : InstallSystem ι → InstallSystem ι → Prop :=
  Relation.ReflTransGen (InstallStep batches)

/-- Every call is about to begin. -/
def InstallSystem.start (batches : ι → List InstallEvent) (rows : InstallKey → Option InstallState) :
    InstallSystem ι where
  rows := rows
  owner := fun _ => none
  phase := fun i => .select (installKeys (batches i))
  writes := fun _ _ => none

theorem exists_planInstall (existing : Option InstallState) {events : List InstallEvent} (h : events ≠ []) :
    ∃ next changes, planInstall existing events = some (next, changes) := by
  cases existing with
  | some st => exact ⟨_, _, rfl⟩
  | none =>
    obtain ⟨e, he⟩ := List.exists_mem_of_ne_nil events h
    obtain ⟨first, rest, hsorted⟩ := List.exists_cons_of_ne_nil (List.ne_nil_of_mem (mem_byTime.mpr he))
    unfold planInstall
    rw [hsorted]
    exact ⟨_, _, rfl⟩

end Machine

end argvio.storage
