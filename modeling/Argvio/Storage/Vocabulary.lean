import Mathlib.Data.String.Basic
import Argvio.CappedTable
import Argvio.GoMap

namespace argvio.storage

/-- What a name or label is stored as once its vocabulary is full. -/
def counterOther : String := "other"

/-- One series of a batch; the label is "" when it has none. -/
structure CounterKey where
  name : String
  label : String
  deriving DecidableEq

/-- How stale `last_seen` may get before ingest moves it forward: 24 hours. -/
def vocabularyTouchInterval : Int := 24 * 3600 * 1000000000

/-- The data points folded so far. -/
structure Overflow where
  foldedNames : Int := 0
  foldedLabels : Int := 0
  foldedDimValues : Int := 0
  lastFoldedAt : Option Int := none

/-- `greatest(last_folded_at, at)`, where the row may not be there yet. -/
def greatestTime (last : Option Int) (at_ : Int) : Option Int := some (last.elim at_ (fun l => max l at_))

/-- One tenant's rows of one vocabulary. -/
structure Tables where
  names : CappedTable String
  labels : CappedTable CounterKey
  overflow : Overflow

def Tables.empty : Tables := { names := .empty, labels := .empty, overflow := {} }

/-- The labels stored under a name. -/
def Tables.labelsOf (t : Tables) (name : String) : Finset CounterKey := t.labels.keys.filter (fun k => k.name = name)

/-- The decision for one batch. -/
structure CounterAdmission where
  names : Finset String
  labels : Finset CounterKey
  foldedNames : Int
  foldedLabels : Int
  deriving DecidableEq

/-- One call of `admit`: the data points of each distinct series, the caps and
the time. -/
structure AdmitCall where
  counts : GoMap CounterKey Int
  nameLimit : Int
  labelLimit : Int
  now : Int

namespace AdmitCall

variable (c : AdmitCall)

/-- `sortedKeys(nameCounts)`. -/
def names : List String :=
  ((c.counts.keys.map CounterKey.name).filter (fun name => name ≠ counterOther)).dedup.insertionSort (· ≤ ·)

def nameCount (name : String) : Int :=
  ((c.counts.entries.filter (fun e => e.1.name = name)).map Sigma.snd).sum

/-- `sortedKeys(labelCounts[name])`. -/
def labelsFor (name : String) : List String :=
  ((c.counts.keys.filter (fun k => k.name = name ∧ k.label ≠ "" ∧ k.label ≠ counterOther)).map
    CounterKey.label).insertionSort (· ≤ ·)

def labelCount (name label : String) : Int := (c.counts.lookup ⟨name, label⟩).getD 0

def pairs : List CounterKey := c.names.flatMap (fun name => (c.labelsFor name).map (fun label => ⟨name, label⟩))

def staleBefore : Int := c.now - vocabularyTouchInterval

end AdmitCall

/-- Which of a batch's names and pairs are in the vocabulary, and whether any
of them is due for a touch. -/
structure KnownCounterSet where
  names : Finset String
  labels : Finset CounterKey
  stale : Bool

/-- The first query of `knownVocabulary`. -/
def readNames (t : Tables) (c : AdmitCall) : KnownCounterSet where
  names := t.names.known c.names
  labels := ∅
  stale := t.names.stale c.names c.staleBefore

/-- The second query of `knownVocabulary`. -/
def readLabels (t : Tables) (c : AdmitCall) (known : KnownCounterSet) : KnownCounterSet where
  names := known.names
  labels := t.labels.known c.pairs
  stale := known.stale || t.labels.stale c.pairs c.staleBefore

def touchNames (t : Tables) (c : AdmitCall) : Tables :=
  { t with names := t.names.touch c.names c.now c.staleBefore }

def touchLabels (t : Tables) (c : AdmitCall) : Tables :=
  { t with labels := t.labels.touch c.pairs c.now c.staleBefore }

/-- Which values not yet in a capped vocabulary fit in `room` free slots, most
frequent first and then by name, and how many records carry the rest. -/
def planVocabulary (names : List String) (known : Finset String) (counts : String → Int) (room : Int) :
    List String × Int := planCapped names known counts room

/-- What a call has read under the lock. -/
structure Counted where
  known : KnownCounterSet
  nameSize : Int
  labelSize : String → Int

/-- What a call reads under the lock when nobody else changes the tables. -/
def Counted.of (t : Tables) (c : AdmitCall) : Counted where
  known := readLabels t c (readNames t c)
  nameSize := t.names.keys.card
  labelSize := fun name => (t.labelsOf name).card

/-- What a call decides from its reads: the rows to insert and the answer. -/
structure Plan where
  addNames : List String
  addLabels : List CounterKey
  admission : CounterAdmission

namespace AdmitCall

variable (c : AdmitCall)

def planNames (k : Counted) : List String × Int :=
  planVocabulary c.names k.known.names c.nameCount (c.nameLimit - k.nameSize)

/-- The names a batch keeps: `other`, those known and those with room. -/
def keptNameSet (k : Counted) : Finset String :=
  {counterOther} ∪ (c.names.toFinset ∩ k.known.names) ∪ (c.planNames k).1.toFinset

/-- Labels only matter under a name that is kept. -/
def keptNames (k : Counted) : List String :=
  c.names.filter (fun name => name ∈ c.keptNameSet k ∧ c.labelsFor name ≠ [])

def knownLabels (k : Counted) (name : String) : Finset String :=
  (c.labelsFor name).toFinset.filter (fun label => ⟨name, label⟩ ∈ k.known.labels)

def planLabels (k : Counted) (name : String) : List String × Int :=
  planVocabulary (c.labelsFor name) (c.knownLabels k name) (c.labelCount name) (c.labelLimit - k.labelSize name)

def addLabels (k : Counted) : List CounterKey :=
  (c.keptNames k).flatMap (fun name => (c.planLabels k name).1.map (fun label => ⟨name, label⟩))

def knownPairs (k : Counted) : List CounterKey :=
  (c.keptNames k).flatMap (fun name =>
    ((c.labelsFor name).filter (fun label => label ∈ c.knownLabels k name)).map (fun label => ⟨name, label⟩))

def plan (k : Counted) : Plan where
  addNames := (c.planNames k).1
  addLabels := c.addLabels k
  admission := {
    names := c.keptNameSet k
    labels := (c.knownPairs k).toFinset ∪ (c.addLabels k).toFinset
    foldedNames := (c.planNames k).2
    foldedLabels := ((c.keptNames k).map (fun name => (c.planLabels k name).2)).sum }

/-- The answer when every name and label is known. -/
def allAdmitted : CounterAdmission where
  names := {counterOther} ∪ c.names.toFinset
  labels := c.pairs.toFinset
  foldedNames := 0
  foldedLabels := 0

end AdmitCall

/-- Adds a batch's folded data points to the overflow row. -/
def Overflow.record (o : Overflow) (foldedNames foldedLabels at_ : Int) : Overflow :=
  if foldedNames > 0 ∨ foldedLabels > 0 then
    { o with
      foldedNames := o.foldedNames + foldedNames
      foldedLabels := o.foldedLabels + foldedLabels
      lastFoldedAt := greatestTime o.lastFoldedAt at_ }
  else o

/-- What the statements of a transaction write once it commits. -/
def Tables.commit (t : Tables) (c : AdmitCall) (plan : Plan) : Tables where
  names := (t.names.insertNew plan.addNames c.now).touch c.names c.now c.staleBefore
  labels := (t.labels.insertNew plan.addLabels c.now).touch c.pairs c.now c.staleBefore
  overflow := t.overflow.record plan.admission.foldedNames plan.admission.foldedLabels c.now

end argvio.storage
