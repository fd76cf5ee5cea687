import Argvio.Storage.Vocabulary

namespace argvio.storage

/-- Where a call of `admit` stands, with what it holds in local variables. The
writes of an open transaction are not in the tables yet. -/
inductive Phase where
  | start
  | fastNames (known : KnownCounterSet)
  | fastTouchNames
  | fastTouchLabels
  | waiting
  | locked
  | rereadNames (known : KnownCounterSet)
  | reread (known : KnownCounterSet)
  | countedNames (known : KnownCounterSet) (nameSize : Int)
  | counted (k : Counted)
  | inserted (k : Counted)
  | touched (k : Counted)
  | returned (admission : CounterAdmission)
  | failed

/-- The phases between taking the advisory lock and the end of the transaction. -/
def Phase.holds : Phase → Bool
  | .locked => true
  | .rereadNames _ => true
  | .reread _ => true
  | .countedNames _ _ => true
  | .counted _ => true
  | .inserted _ => true
  | .touched _ => true
  | _ => false

/-- Whether a read found the whole batch. -/
def KnownCounterSet.complete (known : KnownCounterSet) (c : AdmitCall) : Prop :=
  known.names.card = c.names.length ∧ known.labels.card = c.pairs.length

instance (known : KnownCounterSet) (c : AdmitCall) : Decidable (known.complete c) :=
  inferInstanceAs (Decidable (_ ∧ _))

/-- The next statement of a call: what it does to the committed rows, and where
the call stands after it. -/
def advance (c : AdmitCall) (t : Tables) : Phase → Option (Tables × Phase)
  | .start =>
    if c.names = [] then some (t, .returned { names := {counterOther}, labels := ∅, foldedNames := 0, foldedLabels := 0 })
    else some (t, .fastNames (readNames t c))
  | .fastNames known =>
    let known := readLabels t c known
    if known.complete c then
      if known.stale then some (t, .fastTouchNames) else some (t, .returned c.allAdmitted)
    else some (t, .waiting)
  | .fastTouchNames => some (touchNames t c, .fastTouchLabels)
  | .fastTouchLabels => some (touchLabels t c, .returned c.allAdmitted)
  | .waiting => some (t, .locked)
  | .locked => some (t, .rereadNames (readNames t c))
  | .rereadNames known => some (t, .reread (readLabels t c known))
  | .reread known => some (t, .countedNames known t.names.keys.card)
  | .countedNames known nameSize =>
    some (t, .counted { known, nameSize, labelSize := fun name => (t.labelsOf name).card })
  | .counted k => some (t, .inserted k)
  | .inserted k => some (t, .touched k)
  | .touched k => some (t.commit c (c.plan k), .returned (c.plan k).admission)
  | .returned _ => none
  | .failed => none

/-- `admit` run by itself, with no other call or sweep in between. -/
def admitVocabulary (t : Tables) (c : AdmitCall) : CounterAdmission × Tables :=
  if c.names = [] then ({ names := {counterOther}, labels := ∅, foldedNames := 0, foldedLabels := 0 }, t)
  else
    let known := readLabels t c (readNames t c)
    if known.complete c then
      (c.allAdmitted, if known.stale then touchLabels (touchNames t c) c else t)
    else
      let plan := c.plan (.of t c)
      (plan.admission, t.commit c plan)

/-- The rows left once a sweep has deleted some. -/
def Tables.sweep (t : Tables) (names : Finset String) (labels : Finset CounterKey) : Tables :=
  { t with
    names := { t.names with keys := t.names.keys \ names }
    labels := { t.labels with keys := t.labels.keys \ labels } }

/-- Concurrent calls over one tenant's tables, with the holder of the lock. -/
structure System (ι : Type) where
  tables : Tables
  holder : Option ι
  phase : ι → Phase

inductive Action (ι : Type) where
  | run (i : ι)
  | fail (i : ι)
  | sweep

section Step

variable {ι : Type} [DecidableEq ι]

/-- One step of the system. A call runs its next statement, where the lock is
given to one transaction at a time and kept to its end, or fails and rolls back;
a sweep deletes any rows. -/
inductive Step (calls : ι → AdmitCall) : Action ι → System ι → System ι → Prop where
  | run {s : System ι} {i : ι} {tables : Tables} {phase : Phase}
      (hadvance : advance (calls i) s.tables (s.phase i) = some (tables, phase))
      (hlock : phase.holds = true → (s.phase i).holds = false → s.holder = none) :
      Step calls (.run i) s
        { tables := tables
          holder := if phase.holds then some i else if (s.phase i).holds then none else s.holder
          phase := Function.update s.phase i phase }
  | fail {s : System ι} {i : ι} (hrunning : (advance (calls i) s.tables (s.phase i)).isSome = true) :
      Step calls (.fail i) s
        { tables := s.tables
          holder := if (s.phase i).holds then none else s.holder
          phase := Function.update s.phase i .failed }
  | sweep {s : System ι} (names : Finset String) (labels : Finset CounterKey) :
      Step calls .sweep s { s with tables := s.tables.sweep names labels }

/-- The system before any call has started. -/
def System.start (t : Tables) : System ι := { tables := t, holder := none, phase := fun _ => .start }

/-- The states some interleaving of the calls and of sweeps leads to. -/
def Reaches (calls : ι → AdmitCall) : System ι → System ι → Prop :=
  Relation.ReflTransGen (fun s s' => ∃ action, Step calls action s s')

/-- The same without sweeps. -/
def ReachesUnswept (calls : ι → AdmitCall) : System ι → System ι → Prop :=
  Relation.ReflTransGen (fun s s' => ∃ action, action ≠ .sweep ∧ Step calls action s s')

end Step

end argvio.storage
