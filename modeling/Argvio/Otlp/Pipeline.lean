import Argvio.Storage.Rows
import Argvio.Otlp.Attrs

open argvio.allowlist argvio.consent argvio.storage

namespace argvio.otlp

/-- The structural limits and vocabulary caps of the public server. A cap that is
not positive is unset. -/
structure Bounds where
  maxBatchSize : Int
  maxAttributeCount : Int
  maxAttributeKeyLength : Int
  maxAttributeStringValueLength : Int
  maxTimestampSkewPast : Int
  maxTimestampSkewFuture : Int
  maxErrorReasonsPerTenant : Int := 0
  maxCounterNamesPerTenant : Int := 0
  maxCounterLabelsPerName : Int := 0
  maxMeasureNamesPerTenant : Int := 0
  maxMeasureLabelsPerName : Int := 0
  maxValueNamesPerTenant : Int := 0
  maxValueLabelsPerName : Int := 0
  maxMetricDims : Int := 0
  maxDimValuesPerKey : Int := 0
  deriving DecidableEq

/-- What row building takes from other packages: the text of an OTLP value, and
`float64(us) / 1000.0`. -/
structure Externals where
  asString : Value → String
  microsToMillis : Int → GoFloat

/-- The context of one request; `now` is the time it was received. -/
structure Pipeline where
  schema : Schema
  tenant : tenant.Resolved
  bounds : Bounds
  now : Int
  ext : Externals

/-- Why a record is rejected. -/
inductive Reason where
  | resourceTooMany
  | recordTooMany
  | tier (err : TierError)
  | consent (reason : RejectReason)
  | logTimestamp
  | spanTimestamp
  deriving DecidableEq

def Reason.text (isPrint : Char → Bool) : Reason → String
  | .resourceTooMany => "resource attribute count exceeds max_attribute_count"
  | .recordTooMany => "record attribute count exceeds max_attribute_count"
  | .tier err => err.text isPrint
  | .consent reason => reason.text isPrint
  | .logTimestamp => "log record timestamp outside allowed skew"
  | .spanTimestamp => "span start_timestamp outside allowed skew"

/-- Whether `ts` is within `[now - past, now + future]`. -/
def checkTimestamp (ts now past future : Int) : Bool :=
  if ts < now - past then false else if ts > now + future then false else true

/-- A record whose attributes are extracted and whose tier is known. -/
structure Declared where
  tier : String
  merged : AttrMap
  structDropped : List String

/-- The first half of `resolveAndEvaluate`: extraction and tier resolution. -/
def Pipeline.resolve (p : Pipeline) (resourceAttrsRaw recordAttrsRaw : AttrList) : Except Reason Declared :=
  let b := p.bounds
  match extractAttrs resourceAttrsRaw b.maxAttributeCount b.maxAttributeKeyLength
      b.maxAttributeStringValueLength with
  | none => .error .resourceTooMany
  | some (resourceAttrs, resourceDropped) =>
    match extractAttrs recordAttrsRaw b.maxAttributeCount b.maxAttributeKeyLength
        b.maxAttributeStringValueLength with
    | none => .error .recordTooMany
    | some (recordAttrs, recordDropped) =>
      match resolveTier p.schema resourceAttrs recordAttrs with
      | .error err => .error (.tier err)
      | .ok tier =>
        .ok { tier := tier
              merged := mergeAttrs resourceAttrs recordAttrs
              structDropped := resourceDropped ++ recordDropped }

/-- The second half: the allowlist and tier rules, under the resolved tier. -/
def Pipeline.evaluate (p : Pipeline) (d : EventDef) (declared : Declared) :
    Except Reason (Acceptance × List String) :=
  match evaluateEvent p.schema d declared.tier p.tenant.config.tierCeiling
      p.tenant.config.tierEnforcementMode declared.merged with
  | .error reason => .error (.consent reason)
  | .ok acc => .ok (acc, declared.structDropped)

/-- The per-record pipeline shared by all signals. -/
def Pipeline.resolveAndEvaluate (p : Pipeline) (resourceAttrsRaw recordAttrsRaw : AttrList) (d : EventDef) :
    Except Reason (Acceptance × List String) := do
  let declared ← p.resolve resourceAttrsRaw recordAttrsRaw
  p.evaluate d declared

def clampInt16 (n : Int) : Int :=
  if n > 2 ^ 15 - 1 then 2 ^ 15 - 1 else if n < -2 ^ 15 then -2 ^ 15 else n

def clampInt32 (n : Int) : Int :=
  if n > 2 ^ 31 - 1 then 2 ^ 31 - 1 else if n < -2 ^ 31 then -2 ^ 31 else n

def strPtrOrNil (s : String) : Option String := if s = "" then none else some s

/-- Takes `k` out of the map when its value can be read at the wanted type. -/
def popAs {α : Type} (read : AttrValue → Option α) (m : AttrMap) (k : String) : Option α × AttrMap :=
  match (m.lookup k).bind read with
  | some a => (some a, m.erase k)
  | none => (none, m)

def popStr (m : AttrMap) (k : String) : Option String × AttrMap :=
  popAs (fun | .str s => some s | _ => none) m k

def popInt32 (m : AttrMap) (k : String) : Option Int × AttrMap :=
  popAs (fun | .int n => some (clampInt32 n) | _ => none) m k

def popBool (m : AttrMap) (k : String) : Option Bool × AttrMap :=
  popAs (fun | .bool b => some b | _ => none) m k

/-- Takes `k` out of the map whatever its value, and returns an integer within
the bounds. -/
def popBounded (m : AttrMap) (k : String) (lo hi : Int) : Option Int × AttrMap :=
  match m.lookup k with
  | none => (none, m)
  | some (.int n) => (if n < lo ∨ n > hi then none else some n, m.erase k)
  | some _ => (none, m.erase k)

/-- The columns every signal table promotes out of its attributes. -/
structure Promoted where
  cliVersion : Option String
  os : Option String
  arch : Option String
  commandName : Option String
  exitCode : Option Int
  isCI : Option Bool

def popPromoted (kept : AttrMap) : Promoted × AttrMap :=
  let cliVersion := popStr kept "cli.version"
  let os := popStr cliVersion.2 "cli.os"
  let arch := popStr os.2 "cli.arch"
  let commandName := popStr arch.2 "cli.command.name"
  let exitCode := popInt32 commandName.2 "cli.command.exit_code"
  let isCI := popBool exitCode.2 "cli.is_ci"
  ({ cliVersion := cliVersion.1
     os := os.1
     arch := arch.1
     commandName := commandName.1
     exitCode := exitCode.1
     isCI := isCI.1 }, isCI.2)

/-- The resource-usage columns of a span; implausible values are not reported. -/
structure Usage where
  peakRSSBytes : Option Int
  cpuTimeMs : Option Int

def popUsage (kept : AttrMap) : Usage × AttrMap :=
  let peakRSSBytes := popBounded kept "cli.process.peak_rss_bytes" 1 (2 ^ 40)
  let cpuTimeMs := popBounded peakRSSBytes.2 "cli.process.cpu_time_ms" 1 (31 * 24 * 3600 * 1000 * 1024)
  ({ peakRSSBytes := peakRSSBytes.1, cpuTimeMs := cpuTimeMs.1 }, cpuTimeMs.2)

/-- The build-footprint columns of a log record. -/
structure SessionFootprint where
  binarySizeBytes : Option Int
  startupMs : Option Int

def popSessionFootprint (kept : AttrMap) : SessionFootprint × AttrMap :=
  let binarySizeBytes := popBounded kept "cli.binary.size_bytes" 1 (4 * 2 ^ 30)
  let startupMs := popBounded binarySizeBytes.2 "cli.startup.duration_ms" 0 (3600 * 1000)
  ({ binarySizeBytes := binarySizeBytes.1, startupMs := startupMs.1 }, startupMs.2)

/-- What is left goes to the resource column or to the record column. -/
def Pipeline.splitRemainingAttrs (p : Pipeline) (kept : AttrMap) : Attrs × Attrs :=
  ((GoMap.keep (fun k _ => p.schema.isStandardResourceAttribute k) kept).toFinmap,
    (GoMap.keep (fun k _ => !p.schema.isStandardResourceAttribute k) kept).toFinmap)

end argvio.otlp
