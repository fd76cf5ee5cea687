import Argvio.GoStrings
import Argvio.Storage.Vocabulary

open gostrings

namespace argvio.storage

/-- The dimension a plain label reads as. -/
def dimLabelKey : String := "label"

/-- The canonical tuple of some dimensions: the keys in order, each written
`key=value`, joined with `;`. -/
def formatDims (dims : GoMap String String) : String :=
  String.intercalate ";"
    ((dims.keys.insertionSort (· ≤ ·)).map (fun k => k ++ "=" ++ (dims.lookup k).getD ""))

/-- A stored label read back into dimensions. -/
def parseDims (label : String) : GoMap String String :=
  if label = "" then ∅
  else if containsChar label '=' then
    GoMap.putAll ∅ ((splitChar label ';').filterMap (fun pair => cutChar pair '='))
  else AList.singleton dimLabelKey label

/-- The dimension key a value is capped under, with the name it belongs to. -/
structure DimGroup where
  name : String
  key : String
  deriving DecidableEq

/-- One value of one dimension key under a name. -/
structure DimValueKey where
  name : String
  key : String
  value : String
  deriving DecidableEq

def DimValueKey.group (k : DimValueKey) : DimGroup := ⟨k.name, k.key⟩

/-- By name, then by key, then by value. -/
def DimValueKey.le (a b : DimValueKey) : Prop :=
  a.name < b.name ∨ a.name = b.name ∧ (a.key < b.key ∨ a.key = b.key ∧ a.value ≤ b.value)

instance : DecidableRel DimValueKey.le := fun _ _ => inferInstanceAs (Decidable (_ ∨ _))

/-- The decision for one batch: the values that may be stored as they are, and
how many occurrences are past the cap. -/
structure DimAdmission where
  values : Finset DimValueKey
  folded : Int
  deriving DecidableEq

/-- One call of `admitDims`: the data points that carry each distinct value, the
cap and the time. -/
structure DimCall where
  counts : GoMap DimValueKey Int
  limit : Int
  now : Int

namespace DimCall

variable (c : DimCall)

/-- Values that are admitted whatever the table holds. -/
def always : Finset DimValueKey :=
  (c.counts.keys.filter (fun k => k.value = counterOther ∨ k.name = counterOther)).toFinset

def keys : List DimValueKey :=
  (c.counts.keys.filter (fun k => ¬ (k.value = counterOther ∨ k.name = counterOther))).insertionSort DimValueKey.le

def staleBefore : Int := c.now - vocabularyTouchInterval

def groups : List DimGroup := (c.keys.map DimValueKey.group).dedup

def valuesOf (g : DimGroup) : List String := (c.keys.filter (fun k => k.group = g)).map DimValueKey.value

def knownValues (known : Finset DimValueKey) (g : DimGroup) : Finset String :=
  (c.valuesOf g).toFinset.filter (fun value => ⟨g.name, g.key, value⟩ ∈ known)

def countOf (g : DimGroup) (value : String) : Int := (c.counts.lookup ⟨g.name, g.key, value⟩).getD 0

/-- The rows there are under a group's key. -/
def sizeOf (t : CappedTable DimValueKey) (g : DimGroup) : Int := (t.keys.filter (fun k => k.group = g)).card

def planGroup (t : CappedTable DimValueKey) (g : DimGroup) : List String × Int :=
  planVocabulary (c.valuesOf g) (c.knownValues (t.known c.keys) g) (c.countOf g) (c.limit - sizeOf t g)

def add (t : CappedTable DimValueKey) : List DimValueKey :=
  c.groups.flatMap (fun g => (c.planGroup t g).1.map (fun value => ⟨g.name, g.key, value⟩))

end DimCall

def admitDims (t : CappedTable DimValueKey) (c : DimCall) : DimAdmission × CappedTable DimValueKey :=
  if c.keys = [] then ({ values := c.always, folded := 0 }, t)
  else if (t.known c.keys).card = c.keys.length then
    ({ values := c.always ∪ c.keys.toFinset, folded := 0 },
      if t.stale c.keys c.staleBefore then t.touch c.keys c.now c.staleBefore else t)
  else
    ({ values := c.always ∪ t.known c.keys ∪ (c.add t).toFinset
       folded := (c.groups.map (fun g => (c.planGroup t g).2)).sum },
      (t.insertNew (c.add t) c.now).touch c.keys c.now c.staleBefore)

/-- One tenant's rows of one vendor vocabulary, with its dimension values. -/
structure Vocabulary where
  tables : Tables
  dims : CappedTable DimValueKey

def Vocabulary.empty : Vocabulary := { tables := .empty, dims := .empty }

def Vocabulary.recordFoldedDims (v : Vocabulary) (n at_ : Int) : Vocabulary :=
  if n ≤ 0 then v
  else
    { v with
      tables := { v.tables with
        overflow := { v.tables.overflow with
          foldedDimValues := v.tables.overflow.foldedDimValues + n
          lastFoldedAt := greatestTime v.tables.overflow.lastFoldedAt at_ } } }

end argvio.storage
