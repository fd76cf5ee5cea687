import Argvio.Storage.DimExpr
import Argvio.Tenant.Types

namespace argvio.storage

/-- Which tenant a query reads. There is no scope of the nil id. -/
structure TenantScope where
  tenantID : UUID
  nonNil : tenantID ≠ 0

def newTenantScope (id : UUID) : Except String TenantScope :=
  if h : id = 0 then .error "storage: tenant scope requires a non-nil tenant id" else .ok ⟨id, h⟩

/-- A column's name, a constant of the code. -/
structure Column where
  name : String
  noPercent : '%' ∉ name.toList

/-- A format with one number verb, by what stands before and after the verb. -/
structure ClauseFmt where
  before : String
  after : String
  noPercent : '%' ∉ before.toList ∧ '%' ∉ after.toList

def ClauseFmt.sprintf (fmt : ClauseFmt) (n : ℕ) : String := fmt.before ++ toString n ++ fmt.after

/-- A bound argument; `any` is a value that the builder only passes on. -/
inductive Arg (β : Type) where
  | uuid (id : UUID)
  | str (s : String)
  | strs (ss : List String)
  | bool (b : Bool)
  | any (b : β)

/-- Clauses with numbered placeholders, and the arguments they refer to. -/
structure PredicateBuilder (β : Type) where
  clauses : List String := []
  args : List (Arg β) := []

def Column.equals (col : Column) : ClauseFmt where
  before := col.name ++ " = $"
  after := ""
  noPercent := by simp [col.noPercent]

def Column.equalsAny (col : Column) : ClauseFmt where
  before := col.name ++ " = ANY($"
  after := ")"
  noPercent := by simp [col.noPercent]

/-- The SQL expression for a dimension of the label column `col`, up to the
placeholder of its pattern, given the text for a plain label. -/
def dimLead (col plain : String) : String :=
  "(CASE WHEN " ++ col ++ " = 'other' THEN 'other' WHEN strpos(" ++ col ++ ", '=') = 0 THEN " ++ plain ++
    " ELSE substring(" ++ col ++ " from "

def dimExprText (col plain pattern : String) : String := dimLead col plain ++ pattern ++ "::text) END)"

theorem noPercent_append {s t : String} (hs : '%' ∉ s.toList) (ht : '%' ∉ t.toList) : '%' ∉ (s ++ t).toList := by
  rw [String.toList_append, List.mem_append]
  exact not_or.mpr ⟨hs, ht⟩

theorem noPercent_dimLead {col plain : String} (hcol : '%' ∉ col.toList) (hplain : '%' ∉ plain.toList) :
    '%' ∉ (dimLead col plain).toList := by
  unfold dimLead
  refine noPercent_append (noPercent_append (noPercent_append (noPercent_append (noPercent_append (noPercent_append
    (noPercent_append (noPercent_append ?_ hcol) ?_) hcol) ?_) hplain) ?_) hcol) ?_
  all_goals decide

def plainText (col : Column) (key : String) : String := if key = dimLabelKey then col.name else "NULL"

theorem noPercent_plainText (col : Column) (key : String) : '%' ∉ (plainText col key).toList := by
  unfold plainText
  split
  · exact col.noPercent
  · decide

theorem noPercent_toString (n : ℕ) : '%' ∉ (toString n).toList := by
  intro hmem
  rw [Nat.toString_eq_ofList_toDigits, String.toList_ofList] at hmem
  exact absurd (Nat.isDigit_of_mem_toDigits (by decide) (by decide) hmem) (by decide)

namespace PredicateBuilder

variable {β : Type} (pb : PredicateBuilder β)

def add (clauseFmt : ClauseFmt) (arg : Arg β) : PredicateBuilder β :=
  let args := pb.args ++ [arg]
  { args := args, clauses := pb.clauses ++ [clauseFmt.sprintf args.length] }

def addIfAnyStr (col : Column) (vs : List String) : PredicateBuilder β :=
  if vs.length > 0 then pb.add col.equalsAny (.strs vs) else pb

def addIfNotNilBool (col : Column) (v : Option Bool) : PredicateBuilder β :=
  v.elim pb (fun v => pb.add col.equals (.bool v))

def nextPlaceholder (arg : Arg β) : String × PredicateBuilder β :=
  let args := pb.args ++ [arg]
  ("$" ++ toString args.length, { pb with args := args })

def dimExpr (col : Column) (key : String) : String × PredicateBuilder β :=
  let (pattern, pb) := pb.nextPlaceholder (.str (dimPattern key))
  (dimExprText col.name (plainText col key) pattern, pb)

theorem noPercent_dimExpr (col : Column) (key : String) : '%' ∉ (pb.dimExpr col key).1.toList := by
  have hlead := noPercent_dimLead col.noPercent (noPercent_plainText col key)
  exact noPercent_append (noPercent_append hlead (noPercent_append (by decide) (noPercent_toString _))) (by decide)

/-- The clause of one key of a dimension filter. The expression is built first, so
its pattern is numbered before the values. -/
def addWhereKey (col : Column) (key : String) (values : List String) : PredicateBuilder β :=
  if values.length = 0 then pb
  else
    (pb.dimExpr col key).2.add
      { before := (pb.dimExpr col key).1 ++ " = ANY($"
        after := ")"
        noPercent := by simp [pb.noPercent_dimExpr col key] }
      (.strs values)

end PredicateBuilder

def newScopedPredicates {β : Type} (scope : TenantScope) (tenantCol : Column) : PredicateBuilder β :=
  ({} : PredicateBuilder β).add tenantCol.equals (.uuid scope.tenantID)

namespace DimQuery

variable {β : Type} (d : DimQuery)

def whereKeys : List String := d.where_.keys.insertionSort (· ≤ ·)

def addWhere (pb : PredicateBuilder β) (col : Column) : PredicateBuilder β :=
  d.whereKeys.foldl (fun pb k => pb.addWhereKey col k ((d.where_.lookup k).getD [])) pb

end DimQuery

end argvio.storage
