import Argvio.Otlp.Logs

open argvio.consent argvio.storage

namespace argvio.otlp

/-- One OTLP span, with its times as `AsTime()` gives them. -/
structure Span where
  traceID : BitVec 128
  spanID : BitVec 64
  parentSpanID : BitVec 64
  name : String
  kind : Int
  startTimestamp : Int
  endTimestamp : Int
  statusCode : Int
  statusMessage : String
  attributes : AttrList

/-- The definition of a span name; an unmatched one allows nothing. -/
def Pipeline.spanEventDef (p : Pipeline) (name : String) : EventDef :=
  match p.schema.matchingSpanDef name with
  | some sp => { found := true, allowedAttributes := sp.allowedAttributes }
  | none => { found := false }

/-- `end.Sub(start).Microseconds()`: a duration saturates at 64 bits. -/
def microsBetween (start finish : Int) : Int :=
  (max (-2 ^ 63) (min (finish - start) (2 ^ 63 - 1))).tdiv 1000

def Pipeline.buildTraceRow (p : Pipeline) (span : Span) (scope : InstrumentationScope)
    (decision : Acceptance) : TraceRow :=
  let promo := popPromoted decision.keptAttributes
  let use := popUsage promo.2
  let json := p.splitRemainingAttrs use.2
  { time := span.startTimestamp
    tenantID := p.tenant.tenant.id
    traceID := idString span.traceID
    spanID := idString span.spanID
    parentSpanID := idPtrOrNil span.parentSpanID
    spanName := span.name
    spanKind := clampInt16 span.kind
    startTime := span.startTimestamp
    endTime := span.endTimestamp
    durationMs := p.ext.microsToMillis (microsBetween span.startTimestamp span.endTimestamp)
    statusCode := clampInt16 span.statusCode
    statusMessage := strPtrOrNil span.statusMessage
    cliVersion := promo.1.cliVersion
    os := promo.1.os
    arch := promo.1.arch
    commandName := promo.1.commandName
    exitCode := promo.1.exitCode
    isCI := promo.1.isCI
    consentTier := decision.effectiveTier
    peakRSSBytes := use.1.peakRSSBytes
    cpuTimeMs := use.1.cpuTimeMs
    scopeName := strPtrOrNil scope.name
    scopeVersion := strPtrOrNil scope.version
    resourceAttributes := json.1
    spanAttributes := json.2 }

/-- One turn of the loop of `ProcessTraces`. -/
def Pipeline.processSpan (p : Pipeline) (resource : AttrList) (scope : InstrumentationScope)
    (span : Span) : Except Reason TraceRow :=
  if checkTimestamp span.startTimestamp p.now p.bounds.maxTimestampSkewPast
      p.bounds.maxTimestampSkewFuture then
    (p.resolveAndEvaluate resource span.attributes (p.spanEventDef span.name)).map
      (fun outcome => p.buildTraceRow span scope outcome.1)
  else .error .spanTimestamp

end argvio.otlp
