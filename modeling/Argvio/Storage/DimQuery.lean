import Argvio.GoMap
import Argvio.GoStrings

open gostrings

namespace argvio.storage

def maxDimGroupBy : Int := 2

def maxDimWhere : Int := 8

/-- Whether `s` can be a dimension key or value. -/
def validDimKey (s : String) : Bool := isShortIdentifier s

/-- Narrows a series by dimension values and breaks it down by keys. -/
structure DimQuery where
  groupBy : List String := []
  where_ : GoMap String (List String) := ∅
  reach : Bool := false

inductive DimQueryError where
  | tooManyGroupBy
  | invalidGroupBy (key : String)
  | repeatedGroupBy (key : String)
  | tooManyWhere
  | invalidWhereKey (key : String)
  | invalidWhereValue (value key : String)
  deriving DecidableEq

def DimQueryError.text (isPrint : Char → Bool) : DimQueryError → String
  | .tooManyGroupBy => "group_by takes at most " ++ toString maxDimGroupBy ++ " dimension keys"
  | .invalidGroupBy k => "group_by " ++ quote isPrint k ++ " is not a valid dimension key"
  | .repeatedGroupBy k => "group_by " ++ quote isPrint k ++ " is repeated"
  | .tooManyWhere => "where takes at most " ++ toString maxDimWhere ++ " dimension keys"
  | .invalidWhereKey k => "where key " ++ quote isPrint k ++ " is not a valid dimension key"
  | .invalidWhereValue v k => "where value " ++ quote isPrint v ++ " for " ++ k ++ " is not a valid dimension value"

/-- The loop over `group_by`, with the keys seen so far. -/
def checkGroupBy : List String → List String → Except DimQueryError Unit
  | _, [] => .ok ()
  | seen, k :: keys =>
    if validDimKey k = false then .error (.invalidGroupBy k)
    else if k ∈ seen then .error (.repeatedGroupBy k)
    else checkGroupBy (k :: seen) keys

/-- The check of one key of `where` and its values. -/
def checkWhere (e : Σ _ : String, List String) : Except DimQueryError Unit :=
  if validDimKey e.1 = false then .error (.invalidWhereKey e.1)
  else
    match e.2.find? (fun v => !validDimKey v) with
    | some v => .error (.invalidWhereValue v e.1)
    | none => .ok ()

/-- Checks the keys and values against the identifier rule and the bounds. -/
def DimQuery.validate (d : DimQuery) : Except DimQueryError Unit := do
  if d.groupBy.length > maxDimGroupBy then throw .tooManyGroupBy
  checkGroupBy [] d.groupBy
  if d.where_.entries.length > maxDimWhere then throw .tooManyWhere
  d.where_.entries.forM checkWhere

/-- A single key is accepted exactly when it is a valid dimension key. -/
theorem validate_groupBy_iff {key : String} :
    ({ groupBy := [key] } : DimQuery).validate = .ok () ↔ validDimKey key = true := by
  cases hkey : validDimKey key with
  | true =>
    have hvalid : ({ groupBy := [key] } : DimQuery).validate = .ok () := by
      simp [DimQuery.validate, maxDimGroupBy, maxDimWhere, checkGroupBy, hkey, bind, Except.bind, pure, Except.pure]
    simp [hvalid]
  | false =>
    have hinvalid : ({ groupBy := [key] } : DimQuery).validate = .error (.invalidGroupBy key) := by
      simp [DimQuery.validate, maxDimGroupBy, checkGroupBy, hkey, bind, Except.bind]
    simp [hinvalid]

end argvio.storage
