import Argvio.Catalog.File
import Argvio.Storage.Ratios

open argvio.catalog argvio.storage

namespace argvio.metricsapi

/-- An error answer. -/
structure HTTPError where
  status : Nat
  code : String
  message : String
  deriving DecidableEq

def statusBadRequest : Nat := 400

def statusUnauthorized : Nat := 401

def statusNotFound : Nat := 404

def statusInternalServerError : Nat := 500

/-- A bucket by its text. -/
def bucketOf (text : String) : Bucket :=
  if text = "hour" then .hour
  else if text = "day" then .day
  else if text = "week" then .week
  else if text = "month" then .month
  else .other text

def anyBucket : List Bucket := [.hour, .day, .week, .month]

/-- Reads the `bucket` parameter, which is empty when it is absent. -/
def parseBucket (param : String) (default_ : Bucket) (allowed : List Bucket) : Except String Bucket :=
  if param = "" then .ok default_
  else if bucketOf param ∈ allowed then .ok (bucketOf param)
  else .error ("bucket must be one of " ++ ", ".intercalate (allowed.map (fun b => "'" ++ b.text ++ "'")))

/-- A request for a ratio: the scope its caller was given, what its filters parse to,
and its other parameters, empty when absent. -/
structure RatioRequest where
  scope : Option TenantScope
  filters : Except String Filters
  service : String
  name : String
  bucket : String

/-- The arguments of `Ratio`. -/
structure RatioCall where
  scope : TenantScope
  filters : Filters
  service : String
  num : RatioOperand
  den : RatioOperand
  scale : GoFloat
  bucket : Bucket

structure RatioResponse (σ : Type) where
  service : String
  name : String
  definition : σ
  series : QueryBuilder.RatioSeries

section Handler

variable {σ : Type} (codec : SpecCodec σ)

/-- An operand with the kind of the metric it refers to, if that is declared. -/
def resolve (defs : GoMap String σ) (o : Operand) : Option RatioOperand :=
  let op : RatioOperand := { metric := o.metric, builtin := o.builtin, where_ := o.where_, agg := o.agg }
  if o.metric = "" then some op
  else
    match (defs.lookup o.metric).bind codec.unmarshal with
    | none => none
    | some ref => if ref.kind = "" ∨ ref.kind = kindRatio then none else some { op with kind := ref.kind }

/-- The ratio under a name, with its two operands. -/
def ratioSpec (defs : GoMap String σ) (name : String) : Option (σ × Metric × Operand × Operand) := do
  let raw ← defs.lookup name
  let spec ← codec.unmarshal raw
  if spec.kind ≠ kindRatio then none
  else return (raw, spec, ← spec.numerator, ← spec.denominator)

/-- The handler up to its call of `Ratio`, given what the database answers for the
active definitions: the stored definition and the call. -/
def ratioCall (definitions : TenantScope → String → Except String (GoMap String σ)) (r : RatioRequest) :
    Except HTTPError (σ × RatioCall) := do
  let some scope := r.scope | throw ⟨statusUnauthorized, "unauthorized", "missing tenant scope"⟩
  let f ← r.filters.mapError (fun err => ⟨statusBadRequest, "invalid_request", err⟩)
  if r.service = "" ∨ r.name = "" then
    throw ⟨statusBadRequest, "invalid_request", "service and name are required"⟩
  let defs ← (definitions scope r.service).mapError
    (fun _ => ⟨statusInternalServerError, "internal_error", "query failed"⟩)
  let some (raw, spec, numerator, denominator) := ratioSpec codec defs r.name
    | throw ⟨statusNotFound, "not_found", "no ratio " ++ r.name ++ " is declared for " ++ r.service⟩
  let (some num, some den) := (resolve codec defs numerator, resolve codec defs denominator)
    | throw ⟨statusNotFound, "not_found",
        "ratio " ++ r.name ++ " uses a metric that is no longer declared for " ++ r.service⟩
  let daily := num.ratioNeedsDailyBucket || den.ratioNeedsDailyBucket
  let refused : HTTPError := ⟨statusBadRequest, "invalid_request",
    "this ratio uses daily session data: bucket must be day, week or month"⟩
  let bucket ← (parseBucket r.bucket (if daily then .day else .hour) anyBucket).mapError (fun _ => refused)
  if daily ∧ bucket = .hour then throw refused
  let scale := if spec.scale.eq (.finite 0) = true then .finite 1 else spec.scale
  return (raw, ⟨scope, f, r.service, num, den, scale, bucket⟩)

/-- Serves `/v1/metrics/ratios`. -/
def handleRatios (definitions : TenantScope → String → Except String (GoMap String σ)) (dateTrunc : Bucket → Int → Int)
    (arith : QueryBuilder.FloatArith) (db : QueryBuilder.RatioDB) (r : RatioRequest) :
    Except HTTPError (RatioResponse σ) := do
  let (raw, call) ← ratioCall codec definitions r
  let series ← (QueryBuilder.ratio dateTrunc arith db call.scope call.filters call.service call.num call.den call.scale
    call.bucket).mapError (fun _ => ⟨statusInternalServerError, "internal_error", "query failed"⟩)
  return ⟨r.service, r.name, raw, series⟩

/-- The definitions of a file as the store takes them. -/
def definitionInputs (f : File) : Except String (List (MetricDefinitionInput σ)) :=
  f.metrics.mapM (fun m => (codec.specJSON m).map (fun spec => ⟨m.name, m.kind, spec⟩))

end Handler

end argvio.metricsapi
