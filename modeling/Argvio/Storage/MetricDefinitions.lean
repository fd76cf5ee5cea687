import Argvio.GoTypes
import Argvio.Tenant.Types

namespace argvio.storage

/-- Names one declared metric of a tenant. -/
structure CatalogKey where
  service : String
  name : String
  deriving DecidableEq

/-- What a declared metric's data points are checked against. -/
structure CatalogRule where
  kind : String
  dims : List String
  minTier : String
  deriving DecidableEq

/-- One definition to apply. The type of `spec` is that of the JSONB values of
definitions. -/
structure MetricDefinitionInput (σ : Type) where
  name : String
  kind : String
  spec : σ
  deriving DecidableEq

/-- What an apply changed, by metric name. -/
structure ApplyResult where
  created : List String := []
  updated : List String := []
  unchanged : List String := []
  deprecated : List String := []
  deriving DecidableEq

/-- The primary key of `metric_definitions`. -/
structure DefinitionKey where
  tenantID : UUID
  service : String
  name : String
  deriving DecidableEq

structure DefinitionRow (σ : Type) where
  kind : String
  spec : σ
  createdAt : Int
  updatedAt : Int
  updatedBy : String
  deprecatedAt : Option Int
  deriving DecidableEq

abbrev Definitions (σ : Type) := GoMap DefinitionKey (DefinitionRow σ)

/-- The kinds that the table's check constraint allows. -/
def definitionKinds : List String := ["counter", "duration", "value", "ratio"]

/-- The definition whose row the table refuses. -/
structure ApplyError where
  name : String
  deriving DecidableEq

/-- The text of an error, with what the database says. -/
def ApplyError.text (cause : String) (err : ApplyError) : String :=
  "storage: apply metric definition " ++ err.name ++ ": " ++ cause

/-- The `switch` on what an upsert returned: whether it inserted a row, or nothing
when it left the row alone. -/
def ApplyResult.record (res : ApplyResult) (name : String) : Option Bool → ApplyResult
  | some true => { res with created := res.created ++ [name] }
  | some false => { res with updated := res.updated ++ [name] }
  | none => { res with unchanged := res.unchanged ++ [name] }

/-- The rules of a tenant's declared metrics that are not deprecated, given how a
spec is read. -/
def metricCatalogRules {σ : Type} (dims : σ → List String) (minTier : σ → String) (tenantID : UUID)
    (t : Definitions σ) : GoMap CatalogKey CatalogRule :=
  GoMap.putAll ∅ ((t.entries.filter (fun e => e.1.tenantID = tenantID ∧ e.2.deprecatedAt = none)).map
    (fun e => (⟨e.1.service, e.1.name⟩, ⟨e.2.kind, dims e.2.spec, minTier e.2.spec⟩)))

variable {σ : Type} [DecidableEq σ]

/-- What the upsert of a definition makes of the row under its key: the row it
writes and whether that row is new, or nothing when the row has the same spec and
is not deprecated. -/
def upsertDefinition (d : MetricDefinitionInput σ) (actor : String) (at_ : Int) :
    Option (DefinitionRow σ) → Option (DefinitionRow σ × Bool)
  | none => some (⟨d.kind, d.spec, at_, at_, actor, none⟩, true)
  | some row =>
    if row.spec ≠ d.spec ∨ row.deprecatedAt ≠ none then
      some (⟨d.kind, d.spec, row.createdAt, at_, actor, none⟩, false)
    else none

section Apply

variable (tenantID : UUID) (service actor : String) (at_ : Int)

/-- One turn of the loop over the definitions. -/
def applyDefinition (acc : ApplyResult × Definitions σ) (d : MetricDefinitionInput σ) :
    Except ApplyError (ApplyResult × Definitions σ) :=
  if d.kind ∉ definitionKinds then .error ⟨d.name⟩
  else
    let key : DefinitionKey := ⟨tenantID, service, d.name⟩
    let written := upsertDefinition d actor at_ (acc.2.lookup key)
    .ok (acc.1.record d.name (written.map Prod.snd), written.elim acc.2 (fun w => acc.2.insert key w.1))

/-- What the update after the loop writes: the rows of the service that are not
deprecated and not among the names given. -/
def deprecateDefinition (names : List String) (key : DefinitionKey) (row : DefinitionRow σ) :
    Option (DefinitionRow σ) :=
  if key.tenantID = tenantID ∧ key.service = service ∧ row.deprecatedAt = none ∧ key.name ∉ names then
    some { row with deprecatedAt := some at_, updatedAt := at_, updatedBy := actor }
  else none

/-- The names that update returns. -/
def deprecatedNames (names : List String) (t : Definitions σ) : List String :=
  (t.entries.filter (fun e => (deprecateDefinition tenantID service actor at_ names e.1 e.2).isSome)).map
    (fun e => e.1.name)

/-- Makes the definitions the catalog of one tenant's CLI. -/
def applyMetricDefinitions (defs : List (MetricDefinitionInput σ)) (t : Definitions σ) :
    Except ApplyError (ApplyResult × Definitions σ) := do
  let (res, t) ← defs.foldlM (applyDefinition tenantID service actor at_) ({}, t)
  let names := defs.map MetricDefinitionInput.name
  let deprecated := deprecatedNames tenantID service actor at_ names t
  .ok ({ res with deprecated := deprecated.insertionSort (· ≤ ·) },
    GoMap.assignSome (deprecateDefinition tenantID service actor at_ names) t t)

end Apply

end argvio.storage
