import Argvio.Ledger
import Argvio.Otlp.Catalog

open gostrings
open argvio.allowlist argvio.consent argvio.storage

namespace argvio.otlp

/-- The value of a number data point; a point may have none. -/
inductive NumberValue where
  | empty
  | int (n : Int)
  | double (x : GoFloat)

structure NumberDataPoint where
  timestamp : Int
  attributes : AttrList
  value : NumberValue

structure HistogramDataPoint where
  timestamp : Int
  attributes : AttrList
  count : UInt64
  sum : Option GoFloat
  min : Option GoFloat
  max : Option GoFloat
  explicitBounds : List GoFloat
  bucketCounts : List UInt64

inductive AggregationTemporality where
  | unspecified
  | delta
  | cumulative
  | other (n : Int)
  deriving DecidableEq

def AggregationTemporality.text : AggregationTemporality → String
  | .unspecified => "Unspecified"
  | .delta => "Delta"
  | .cumulative => "Cumulative"
  | .other _ => ""

/-- The data of a metric. Of an unsupported type only the number of points counts. -/
inductive MetricData where
  | empty
  | gauge (points : List NumberDataPoint)
  | sum (temporality : AggregationTemporality) (points : List NumberDataPoint)
  | histogram (temporality : AggregationTemporality) (points : List HistogramDataPoint)
  | exponentialHistogram (points : Nat)
  | summary (points : Nat)

def MetricData.typeText : MetricData → String
  | .empty => "Empty"
  | .gauge _ => "Gauge"
  | .sum _ _ => "Sum"
  | .histogram _ _ => "Histogram"
  | .exponentialHistogram _ => "ExponentialHistogram"
  | .summary _ => "Summary"

/-- One OTLP metric with its data points. -/
structure Metric where
  name : String
  unit : String
  data : MetricData

/-- Why a metric or one of its data points is rejected. -/
inductive MetricReason where
  | record (reason : Reason)
  | catalog (reason : CatalogReason)
  | dims (reason : DimReason)
  | timestamp
  | monotonicValue
  | unsupportedType (typeText : String)
  | unit (metric want got : String)
  | notOfType (metric : String) (type : MetricType)
  | temporality (metric : String) (want : Temporality) (got : AggregationTemporality)
  | bucketBounds (metric : String) (bounds : List GoFloat)
  | bucketCounts (metric : String) (n : Int)
  | countsOverflow
  | countMismatch
  | histogramValues
  deriving DecidableEq

/-- The text of a reason, given how `%v` renders a list of floats. -/
def MetricReason.text (isPrint : Char → Bool) (showFloats : List GoFloat → String) : MetricReason → String
  | .record reason => reason.text isPrint
  | .catalog reason => reason.text isPrint
  | .dims reason => reason.text
  | .timestamp => "metric data point timestamp outside allowed skew"
  | .monotonicValue => "monotonic sum data point value must be finite and non-negative"
  | .unsupportedType typeText => "unsupported metric type " ++ typeText
  | .unit metric want got =>
    "metric " ++ metric ++ " requires unit " ++ quote isPrint want ++ ", got " ++ quote isPrint got
  | .notOfType metric type => "metric " ++ metric ++ " must be a " ++ type.text
  | .temporality metric want got =>
    "metric " ++ metric ++ " requires " ++ want.text ++ " temporality, got " ++ got.text
  | .bucketBounds metric bounds => "histogram " ++ metric ++ " must use bucket bounds " ++ showFloats bounds
  | .bucketCounts metric n => "histogram " ++ metric ++ " must have " ++ toString n ++ " bucket counts"
  | .countsOverflow => "histogram bucket counts overflow"
  | .countMismatch => "histogram count must equal the sum of its bucket counts"
  | .histogramValues => "histogram sum, min and max must be finite and non-negative"

/-- What `MetricByName` returns for a name that is not on the allowlist. -/
def zeroMetricDef : MetricDef where
  name := ""
  type := .unknown ""
  allowedAttributes := []

def checkTemporalityOf (d : MetricDef) (got : AggregationTemporality) : Option MetricReason :=
  let want := if d.temporality = .cumulative then .cumulative else .delta
  if got ≠ want then some (.temporality d.name d.temporality got) else none

/-- Why a metric as a whole does not have the shape its allowlist entry declares. -/
def checkMetricShape (d : MetricDef) (metric : Metric) : Option MetricReason :=
  if d.explicitBounds ≠ [] ∧ metric.unit ≠ d.unit then some (.unit d.name d.unit metric.unit)
  else if d.temporality = .unset then none
  else
    match d.type, metric.data with
    | .sum, .sum got _ => checkTemporalityOf d got
    | .histogram, .histogram got _ => checkTemporalityOf d got
    | _, _ => some (.notOfType d.name d.type)

def validDuration (v : GoFloat) : Bool := GoFloat.le (.finite 0) v && v ≠ .inf false

/-- The sum of bucket counts in 64 bits, unless it overflows. -/
def addBucketCounts : UInt64 → List UInt64 → Option UInt64
  | total, [] => some total
  | total, c :: counts => if total + c < total then none else addBucketCounts (total + c) counts

/-- Why a histogram data point cannot be stored for a metric with fixed bounds. -/
def checkHistogramPoint (d : MetricDef) (dp : HistogramDataPoint) : Option MetricReason :=
  if d.explicitBounds = [] then none
  else if dp.explicitBounds.length ≠ d.explicitBounds.length then some (.bucketBounds d.name d.explicitBounds)
  else if (d.explicitBounds.zip dp.explicitBounds).any (fun pair => !GoFloat.eq pair.2 pair.1) then
    some (.bucketBounds d.name d.explicitBounds)
  else if dp.bucketCounts.length ≠ d.explicitBounds.length + 1 then
    some (.bucketCounts d.name (d.explicitBounds.length + 1))
  else
    match addBucketCounts 0 dp.bucketCounts with
    | none => some .countsOverflow
    | some total =>
      if total ≠ dp.count then some .countMismatch
      else if dp.sum.any (!validDuration ·) ∨ dp.min.any (!validDuration ·) ∨ dp.max.any (!validDuration ·) then
        some .histogramValues
      else none

def validMonotonicValue (dp : NumberDataPoint) : Bool :=
  match dp.value with
  | .int n => 0 ≤ n
  | .double x => validDuration x
  | .empty => true

/-- The data points of an unsupported metric. -/
def metricPointCount : MetricData → Nat
  | .exponentialHistogram n => n
  | .summary n => n
  | _ => 0

/-- The data points of a metric, whatever its type. -/
def metricDataPointCount : MetricData → Nat
  | .sum _ points => points.length
  | .gauge points => points.length
  | .histogram _ points => points.length
  | data => metricPointCount data

def clampInt64 (n : UInt64) : Int := if n.toNat > 2 ^ 63 - 1 then 2 ^ 63 - 1 else n.toNat

/-- The definition of a metric name; an unknown one allows nothing. -/
def Pipeline.metricDef (p : Pipeline) (name : String) : MetricDef := (p.schema.metricByName name).getD zeroMetricDef

def Pipeline.metricEventDef (p : Pipeline) (name : String) : EventDef where
  found := (p.schema.metricByName name).isSome
  allowedAttributes := (p.metricDef name).allowedAttributes
  requiredAttributes := (p.metricDef name).requiredAttributes

/-- The checks common to all data points: the effective tier and the attributes
of an accepted one. -/
def Pipeline.admitPoint (p : Pipeline) (catalog : Catalog) (resource : AttrList) (metric : String) (timestamp : Int)
    (attributes : AttrList) : Except MetricReason (String × AttrMap) := do
  if checkTimestamp timestamp p.now p.bounds.maxTimestampSkewPast p.bounds.maxTimestampSkewFuture then
    let outcome ← (p.resolveAndEvaluate resource attributes (p.metricEventDef metric)).mapError .record
    let decision := outcome.1
    let checked ← (p.checkCatalog catalog metric decision.keptAttributes decision.effectiveTier).mapError .catalog
    let folded ← (p.foldDims metric checked (outcome.2 ++ decision.droppedKeys)).mapError .dims
    pure (decision.effectiveTier, folded)
  else throw .timestamp

/-- The columns a data point's row has whatever its type. -/
def Pipeline.pointRow (p : Pipeline) (scope : InstrumentationScope) (metric : Metric) (timestamp : Int)
    (type : MetricType) (admitted : String × AttrMap) : MetricRow :=
  let promo := popPromoted admitted.2
  let json := p.splitRemainingAttrs promo.2
  { time := timestamp
    tenantID := p.tenant.tenant.id
    metricName := metric.name
    metricType := type
    unit := strPtrOrNil metric.unit
    cliVersion := promo.1.cliVersion
    os := promo.1.os
    arch := promo.1.arch
    commandName := promo.1.commandName
    exitCode := promo.1.exitCode
    isCI := promo.1.isCI
    consentTier := admitted.1
    scopeName := strPtrOrNil scope.name
    scopeVersion := strPtrOrNil scope.version
    resourceAttributes := json.1
    datapointAttributes := json.2 }

def NumberValue.float : NumberValue → GoFloat
  | .int n => .finite n
  | .double x => x
  | .empty => .finite 0

section Points

variable (p : Pipeline) (catalog : Catalog) (resource : AttrList) (scope : InstrumentationScope) (metric : Metric)

def Pipeline.processNumberDataPoint (type : MetricType) (dp : NumberDataPoint) : Except MetricReason MetricRow :=
  (p.admitPoint catalog resource metric.name dp.timestamp dp.attributes).map (fun admitted =>
    { p.pointRow scope metric dp.timestamp type admitted with value := some dp.value.float })

def Pipeline.processHistogramDataPoint (dp : HistogramDataPoint) : Except MetricReason MetricRow :=
  (p.admitPoint catalog resource metric.name dp.timestamp dp.attributes).map (fun admitted =>
    { p.pointRow scope metric dp.timestamp .histogram admitted with
      histogramCount := some (clampInt64 dp.count)
      histogramSum := dp.sum
      histogramMin := dp.min
      histogramMax := dp.max
      histogramBucketBounds := dp.explicitBounds
      histogramBucketCounts := dp.bucketCounts.map clampInt64 })

/-- The turn of the loop of `ProcessMetrics` for a point of a sum. -/
def Pipeline.recordSumPoint (l : Ledger MetricReason MetricRow) (dp : NumberDataPoint) : Ledger MetricReason MetricRow :=
  if (p.metricDef metric.name).monotonic ∧ validMonotonicValue dp = false then l.reject 1 .monotonicValue
  else l.record (p.processNumberDataPoint catalog resource scope metric .sum dp)

def Pipeline.recordGaugePoint (l : Ledger MetricReason MetricRow) (dp : NumberDataPoint) :
    Ledger MetricReason MetricRow :=
  l.record (p.processNumberDataPoint catalog resource scope metric .gauge dp)

def Pipeline.recordHistogramPoint (l : Ledger MetricReason MetricRow) (dp : HistogramDataPoint) :
    Ledger MetricReason MetricRow :=
  match checkHistogramPoint (p.metricDef metric.name) dp with
  | some reason => l.reject 1 reason
  | none => l.record (p.processHistogramDataPoint catalog resource scope metric dp)

end Points

/-- One turn of the loop of `ProcessMetrics` over the metrics of a scope. -/
def Pipeline.recordMetric (p : Pipeline) (catalog : Catalog) (resource : AttrList) (scope : InstrumentationScope)
    (l : Ledger MetricReason MetricRow) (metric : Metric) : Ledger MetricReason MetricRow :=
  match checkMetricShape (p.metricDef metric.name) metric with
  | some reason => l.reject (metricDataPointCount metric.data) reason
  | none =>
    match metric.data with
    | .sum _ points => points.foldl (p.recordSumPoint catalog resource scope metric) l
    | .gauge points => points.foldl (p.recordGaugePoint catalog resource scope metric) l
    | .histogram _ points => points.foldl (p.recordHistogramPoint catalog resource scope metric) l
    | data => l.reject (metricPointCount data) (.unsupportedType data.typeText)

end argvio.otlp
