import Argvio.Tenant.Types

open argvio.allowlist

namespace argvio.storage

/-- A JSONB attribute column. A stored map has no iteration order. -/
abbrev Attrs := Finmap (fun _ : String => AttrValue)

/-- The string stored under `k`, or "" when there is none. -/
def Attrs.str (a : Attrs) (k : String) : String :=
  match a.lookup k with
  | some (.str s) => s
  | _ => ""

/-- `a ->> k`. A string is its own text, and `render` is how the database writes any
other value. -/
def Attrs.jsonText (render : AttrValue → String) (a : Attrs) (k : String) : Option String :=
  match a.lookup k with
  | some (.str s) => some s
  | some v => some (render v)
  | none => none

/-- One span as it is written to the traces table. -/
structure TraceRow where
  time : Int
  tenantID : UUID
  traceID : String
  spanID : String
  parentSpanID : Option String
  spanName : String
  spanKind : Int
  startTime : Int
  endTime : Int
  durationMs : GoFloat
  statusCode : Int
  statusMessage : Option String
  cliVersion : Option String
  os : Option String
  arch : Option String
  commandName : Option String
  exitCode : Option Int
  isCI : Option Bool
  consentTier : String
  peakRSSBytes : Option Int
  cpuTimeMs : Option Int
  scopeName : Option String
  scopeVersion : Option String
  resourceAttributes : Attrs
  spanAttributes : Attrs
  deriving DecidableEq

/-- One log record as it is written to the logs table. -/
structure LogRow where
  time : Int
  tenantID : UUID
  traceID : Option String
  spanID : Option String
  severityNumber : Option Int
  severityText : Option String
  eventName : String
  body : Option String
  cliVersion : Option String
  os : Option String
  arch : Option String
  commandName : Option String
  exitCode : Option Int
  isCI : Option Bool
  consentTier : String
  binarySizeBytes : Option Int
  startupMs : Option Int
  errorFingerprint : Option String
  scopeName : Option String
  scopeVersion : Option String
  resourceAttributes : Attrs
  logAttributes : Attrs
  deriving DecidableEq, Inhabited

/-- One metric data point as it is written to the metrics table. A sum or gauge
has a value, a histogram has the histogram columns. -/
structure MetricRow where
  metricName : String
  datapointAttributes : Attrs
  time : Int := 0
  tenantID : UUID := 0
  metricType : MetricType := .unknown ""
  unit : Option String := none
  value : Option GoFloat := none
  histogramCount : Option Int := none
  histogramSum : Option GoFloat := none
  histogramMin : Option GoFloat := none
  histogramMax : Option GoFloat := none
  histogramBucketBounds : List GoFloat := []
  histogramBucketCounts : List Int := []
  cliVersion : Option String := none
  os : Option String := none
  arch : Option String := none
  commandName : Option String := none
  exitCode : Option Int := none
  isCI : Option Bool := none
  consentTier : String := ""
  scopeName : Option String := none
  scopeVersion : Option String := none
  resourceAttributes : Attrs := ∅
  deriving DecidableEq

def eventSessionStarted : String := "cli.session.started"

def eventCommandCompleted : String := "cli.command.completed"

def attrInstallID : String := "cli.install_id"

def attrInstallMethod : String := "cli.install.method"

/-- The part of one log record install tracking cares about. -/
structure InstallEvent where
  tenantID : UUID
  installID : String
  at_ : Int
  version : Option String
  os : Option String
  arch : Option String
  completed : Bool
  exitCode : Option Int
  installMeth : String
  deriving DecidableEq

def installEventFromLog (r : LogRow) : Option InstallEvent :=
  if r.eventName ≠ eventSessionStarted ∧ r.eventName ≠ eventCommandCompleted then none
  else
    let id := r.logAttributes.str attrInstallID
    if id = "" then none
    else
      some {
        tenantID := r.tenantID
        installID := id
        at_ := r.time
        version := r.cliVersion
        os := r.os
        arch := r.arch
        completed := decide (r.eventName = eventCommandCompleted)
        exitCode := r.exitCode
        installMeth := r.logAttributes.str attrInstallMethod }

inductive DiscoveryKind where
  | feature
  | flag
  deriving DecidableEq

def eventFeatureActivated : String := "cli.feature.activated"

def eventCommandInvoked : String := "cli.command.invoked"

def attrActivationFeature : String := "cli.activation.feature"

def attrFlagNames : String := "cli.flag.names"

/-- One sighting of an install using a feature or flag. -/
structure DiscoveryEvent where
  tenantID : UUID
  installID : String
  kind : DiscoveryKind
  name : String
  at_ : Int
  deriving DecidableEq

/-- The distinct non-empty names, in order of first appearance. -/
def distinctNames : List String → List String → List String
  | _, [] => []
  | seen, n :: names =>
    if n = "" ∨ n ∈ seen then distinctNames seen names else n :: distinctNames (n :: seen) names

def discoveryEventsFromLog (r : LogRow) : List DiscoveryEvent :=
  if r.eventName ≠ eventFeatureActivated ∧ r.eventName ≠ eventCommandInvoked then []
  else
    let id := r.logAttributes.str attrInstallID
    if id = "" then []
    else
      let mk (kind : DiscoveryKind) (name : String) : DiscoveryEvent :=
        { tenantID := r.tenantID, installID := id, kind := kind, name := name, at_ := r.time }
      if r.eventName = eventFeatureActivated then
        let name := r.logAttributes.str attrActivationFeature
        if name = "" then [] else [mk .feature name]
      else
        match r.logAttributes.lookup attrFlagNames with
        | some (.strs names) => (distinctNames [] names).map (mk .flag)
        | _ => []

end argvio.storage
