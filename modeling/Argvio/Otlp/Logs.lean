import Argvio.Errfp.Frames
import Argvio.Otlp.Pipeline

open argvio.allowlist argvio.consent argvio.storage

namespace argvio.otlp

/-- An OTLP instrumentation scope. -/
structure InstrumentationScope where
  name : String
  version : String
  deriving DecidableEq

/-- One OTLP log record; `timestamp` is `Timestamp().AsTime()`. -/
structure LogRecord where
  timestamp : Int
  traceID : BitVec 128
  spanID : BitVec 64
  severityNumber : Int
  severityText : String
  eventName : String
  body : Value
  attributes : AttrList

/-- The hex form of a trace or span id, which is empty for the zero id. -/
def idString {w : Nat} (id : BitVec w) : String :=
  if id = 0 then ""
  else String.ofList ((List.range (w / 4)).reverse.map (fun i => Nat.digitChar (id.toNat / 16 ^ i % 16)))

def idPtrOrNil {w : Nat} (id : BitVec w) : Option String := if id = 0 then none else some (idString id)

/-- The string under `k`, or "" when there is none. -/
def strOrEmpty (m : AttrMap) (k : String) : String :=
  match m.lookup k with
  | some (.str s) => s
  | _ => ""

def errorFingerprint (eventName : String) (kept : AttrMap) : Option String :=
  if eventName ≠ errfp.eventName then none
  else (errfp.compute (strOrEmpty kept errfp.attrMessage) (strOrEmpty kept errfp.attrStacktrace)).map errfp.Result.fingerprint

/-- The definition of a log event; an unknown one allows nothing. -/
def Pipeline.logEventDef (p : Pipeline) (eventName : String) : EventDef :=
  match p.schema.logEventByName eventName with
  | some l => { found := true, allowedAttributes := l.allowedAttributes }
  | none => { found := false }

/-- The body is stored only from the tier "full" on, and never for an event
marked to drop it. -/
def Pipeline.logBody (p : Pipeline) (rec : LogRecord) (effectiveTier : String) : Option String :=
  let minRank := (p.schema.tierRank effectiveTier).getD 0
  let fullRank := (p.schema.tierRank "full").getD 0
  let dropBody := match p.schema.logEventByName rec.eventName with
    | some l => l.dropBody
    | none => false
  if minRank ≥ fullRank ∧ dropBody = false then strPtrOrNil (p.ext.asString rec.body) else none

def Pipeline.buildLogRow (p : Pipeline) (rec : LogRecord) (scope : InstrumentationScope)
    (decision : Acceptance) : LogRow :=
  let promo := popPromoted decision.keptAttributes
  let foot := popSessionFootprint promo.2
  let json := p.splitRemainingAttrs foot.2
  let severity := clampInt16 rec.severityNumber
  { time := rec.timestamp
    tenantID := p.tenant.tenant.id
    traceID := idPtrOrNil rec.traceID
    spanID := idPtrOrNil rec.spanID
    severityNumber := if severity = 0 then none else some severity
    severityText := strPtrOrNil rec.severityText
    eventName := rec.eventName
    body := p.logBody rec decision.effectiveTier
    cliVersion := promo.1.cliVersion
    os := promo.1.os
    arch := promo.1.arch
    commandName := promo.1.commandName
    exitCode := promo.1.exitCode
    isCI := promo.1.isCI
    consentTier := decision.effectiveTier
    binarySizeBytes := foot.1.binarySizeBytes
    startupMs := foot.1.startupMs
    errorFingerprint := otlp.errorFingerprint rec.eventName foot.2
    scopeName := strPtrOrNil scope.name
    scopeVersion := strPtrOrNil scope.version
    resourceAttributes := json.1
    logAttributes := json.2 }

/-- One turn of the loop of `ProcessLogs`: the row of an accepted record, or why
it is rejected. -/
def Pipeline.processLogRecord (p : Pipeline) (resource : AttrList) (scope : InstrumentationScope)
    (rec : LogRecord) : Except Reason LogRow :=
  if checkTimestamp rec.timestamp p.now p.bounds.maxTimestampSkewPast p.bounds.maxTimestampSkewFuture then
    (p.resolveAndEvaluate resource rec.attributes (p.logEventDef rec.eventName)).map
      (fun outcome => p.buildLogRow rec scope outcome.1)
  else .error .logTimestamp

end argvio.otlp
