import Argvio.Storage.Vocabulary

namespace argvio.storage

/-- What an error reason is stored as once its tenant's vocabulary is full. -/
def errorReasonOther : String := "other"

/-- One tenant's error reasons, with the records folded so far. -/
structure ErrorReasons where
  reasons : CappedTable String
  foldedCount : Int := 0
  lastFoldedAt : Option Int := none

/-- One call of `AdmitErrorReasons`: the records of each distinct reason, the cap
and the time. -/
structure ReasonCall where
  counts : GoMap String Int
  limit : Int
  now : Int

/-- The decision for one batch. -/
structure ReasonAdmission where
  reasons : Finset String
  folded : Int
  deriving DecidableEq

namespace ReasonCall

variable (c : ReasonCall)

def names : List String := (c.counts.keys.filter (fun r => r ≠ errorReasonOther)).insertionSort (· ≤ ·)

def count (r : String) : Int := (c.counts.lookup r).getD 0

def staleBefore : Int := c.now - vocabularyTouchInterval

end ReasonCall

/-- Adds a batch's folded records to the overflow row. -/
def ErrorReasons.record (t : ErrorReasons) (folded at_ : Int) : ErrorReasons :=
  if folded > 0 then
    { t with
      foldedCount := t.foldedCount + folded
      lastFoldedAt := greatestTime t.lastFoldedAt at_ }
  else t

def admitErrorReasons (t : ErrorReasons) (c : ReasonCall) : ReasonAdmission × ErrorReasons :=
  if c.names = [] then ({ reasons := {errorReasonOther}, folded := 0 }, t)
  else
    let known := t.reasons.known c.names
    if known.card = c.names.length then
      ({ reasons := {errorReasonOther} ∪ c.names.toFinset, folded := 0 },
        if t.reasons.stale c.names c.staleBefore then
          { t with reasons := t.reasons.touch c.names c.now c.staleBefore }
        else t)
    else
      let plan := planVocabulary c.names known c.count (c.limit - t.reasons.keys.card)
      ({ reasons := {errorReasonOther} ∪ known ∪ plan.1.toFinset, folded := plan.2 },
        { t with reasons := (t.reasons.insertNew plan.1 c.now).touch c.names c.now c.staleBefore }.record
          plan.2 c.now)

end argvio.storage
