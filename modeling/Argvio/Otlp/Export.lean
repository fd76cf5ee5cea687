import Argvio.Otlp.Instruments
import Argvio.Otlp.Metrics
import Argvio.Otlp.Traces
import Argvio.Storage.Sweep

open argvio.storage

namespace argvio.otlp

/-- What one instrumentation scope of a resource sent. -/
structure ScopeGroup (α : Type) where
  scope : InstrumentationScope
  items : List α

structure ResourceGroup (α : Type) where
  resource : AttrList
  scopes : List (ScopeGroup α)

/-- An export request: log records, spans or metrics by resource and scope. -/
abbrev Payload (α : Type) := List (ResourceGroup α)

section Payload

variable {α β σ : Type}

/-- The three nested loops of a signal's processing. -/
def Payload.fold (step : AttrList → InstrumentationScope → σ → α → σ) (payload : Payload α) (s : σ) : σ :=
  payload.foldl (fun s group =>
    group.scopes.foldl (fun s sg => sg.items.foldl (step group.resource sg.scope) s) s) s

/-- What the items of a payload give, in order. -/
def Payload.collect (f : AttrList → InstrumentationScope → α → List β) (payload : Payload α) : List β :=
  payload.flatMap (fun group =>
    group.scopes.flatMap (fun sg => sg.items.flatMap (f group.resource sg.scope)))

/-- The number of leaves when an item has `size` of them. -/
def Payload.count (size : α → Nat) (payload : Payload α) : Nat :=
  (payload.map (fun group => (group.scopes.map (fun sg => (sg.items.map size).sum)).sum)).sum

end Payload

def logRecordCount (ld : Payload LogRecord) : Nat := ld.count (fun _ => 1)

def spanCount (td : Payload Span) : Nat := td.count (fun _ => 1)

def dataPointCount (md : Payload Metric) : Nat := md.count (fun metric => metricDataPointCount metric.data)

/-- The tables an export writes to, the vocabularies being those of its tenant. -/
structure Store where
  vocabularies : Vocabularies
  metrics : List MetricRow
  logs : List LogRow
  traces : List TraceRow
  installs : InstallTables
  discoveries : Discoveries

/-- A call of the database that failed, and what it left of the tables it writes. -/
structure Fault (σ : Type) where
  err : String
  left : σ

/-- What the database and the catalog cache answer during an export: what is
`none` succeeds. `caps` is the first vocabulary cap that fails. -/
structure Answers where
  catalog : Option (Except String Catalog) := none
  caps : Option (Fault Vocabularies) := none
  insert : Option String := none
  installs : Option (Fault InstallTables) := none
  discoveries : Option (Fault Discoveries) := none

/-- Why a whole export fails. -/
inductive ProcessError where
  | unknownSignalType
  | batchTooLarge (n : Int) (items : String) (limit : Int)
  | storage (err : String)
  deriving DecidableEq

def ProcessError.text : ProcessError → String
  | .unknownSignalType => "otlp: signal type not supported"
  | .batchTooLarge n items limit =>
    "otlp: batch exceeds max_batch_size: " ++ toString n ++ " " ++ items ++ " exceeds max_batch_size " ++ toString limit
  | .storage err => err

/-- What an export returns to its handler. -/
structure Exported (ε : Type) where
  accepted : Int := 0
  rejected : Int := 0
  rejectionSample : Option ε := none
  err : Option ProcessError := none

section Returned

variable {ε ρ : Type}

def Exported.refused (err : ProcessError) : Exported ε := { err := some err }

/-- Nothing of the batch was stored. -/
def Exported.failed (sent : Nat) (err : String) : Exported ε := { rejected := sent, err := some (.storage err) }

def Exported.done (l : Ledger ε ρ) : Exported ε :=
  { accepted := l.accepted, rejected := l.rejected, rejectionSample := l.sample }

end Returned

variable (p : Pipeline) (db : Answers)

/-- The install events and discoveries of the stored rows. A failure is only logged. -/
def trackRows (rows : List LogRow) (store : Store) : Store :=
  { store with
    installs := match db.installs with
      | some fault => fault.left
      | none => trackInstalls store.installs (rows.filterMap installEventFromLog)
    discoveries := match db.discoveries with
      | some fault => fault.left
      | none => trackDiscoveries store.discoveries (rows.flatMap discoveryEventsFromLog) }

def Pipeline.processLogs (ld : Payload LogRecord) (store : Store) : Exported Reason × Store :=
  if p.schema.isKnownSignalType "logs" = false then (.refused .unknownSignalType, store)
  else if logRecordCount ld > p.bounds.maxBatchSize then
    (.refused (.batchTooLarge (logRecordCount ld) "log records" p.bounds.maxBatchSize), store)
  else
    let l : Ledger Reason LogRow := ld.fold (fun resource scope l rec => l.record (p.processLogRecord resource scope rec)) {}
    if l.rows = [] then (.done l, store)
    else
      match db.caps with
      | some fault => (.failed (logRecordCount ld) fault.err, { store with vocabularies := fault.left })
      | none =>
        let reasons := p.capErrorReasons (l.rows.map LogRow.logAttributes) store.vocabularies.reasons
        let rows := l.rows.map (fun r => { r with logAttributes := reasons.1 r.logAttributes })
        let capped := { store with vocabularies := { store.vocabularies with reasons := reasons.2 } }
        match db.insert with
        | some err => (.failed (logRecordCount ld) err, capped)
        | none => (.done l, trackRows db rows { capped with logs := capped.logs ++ rows })

def Pipeline.processTraces (td : Payload Span) (store : Store) : Exported Reason × Store :=
  if p.schema.isKnownSignalType "traces" = false then (.refused .unknownSignalType, store)
  else if spanCount td > p.bounds.maxBatchSize then
    (.refused (.batchTooLarge (spanCount td) "spans" p.bounds.maxBatchSize), store)
  else
    let l : Ledger Reason TraceRow := td.fold (fun resource scope l span => l.record (p.processSpan resource scope span)) {}
    if l.rows = [] then (.done l, store)
    else
      match db.insert with
      | some err => (.failed (spanCount td) err, store)
      | none => (.done l, { store with traces := store.traces ++ l.rows })

def Pipeline.processMetrics (md : Payload Metric) (store : Store) : Exported MetricReason × Store :=
  if p.schema.isKnownSignalType "metrics" = false then (.refused .unknownSignalType, store)
  else if dataPointCount md > p.bounds.maxBatchSize then
    (.refused (.batchTooLarge (dataPointCount md) "data points" p.bounds.maxBatchSize), store)
  else
    match loadCatalog db.catalog with
    | .error err => (.refused (.storage err), store)
    | .ok catalog =>
      let l : Ledger MetricReason MetricRow := md.fold (p.recordMetric catalog) {}
      if l.rows = [] then (.done l, store)
      else
        match db.caps with
        | some fault => (.failed (dataPointCount md) fault.err, { store with vocabularies := fault.left })
        | none =>
          let capped := p.capMetrics l.rows store.vocabularies
          match db.insert with
          | some err => (.failed (dataPointCount md) err, { store with vocabularies := capped.2 })
          | none => (.done l, { store with vocabularies := capped.2, metrics := store.metrics ++ capped.1 })

end argvio.otlp
