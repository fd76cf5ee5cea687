import Argvio.GoMap
import Argvio.GoStrings
import Argvio.GoTypes

open gostrings

namespace argvio.allowlist

/-- A compiled regular expression, through the one method the schema calls. -/
structure Regexp where
  matchString : String → Bool

/-- `regexp.Compile`. Nothing about the accepted language is assumed. -/
abbrev RegexpCompiler := String → Except String Regexp

/-- The accepted value type for an attribute. Loading does not restrict the
declared name, so one outside the five known ones is kept as written. -/
inductive AttrType where
  | string
  | int
  | bool
  | double
  | stringArray
  | unknown (declared : String)
  deriving DecidableEq

/-- A consent tier name, ordered by rank (higher is more sensitive). -/
structure Tier where
  name : String
  rank : Int
  deriving DecidableEq

/-- One attribute as the schema file writes it: its type, bounds and minimum
consent tier. -/
structure AttrSpec where
  type : AttrType
  enum : List String := []
  maxLength : Int := 0
  maxItems : Int := 0
  pattern : String := ""
  keyPattern : String := ""
  minTier : String
  deriving DecidableEq

/-- An attribute definition after loading, with its key and compiled patterns. -/
structure AttrDef extends AttrSpec where
  key : String
  compiledPattern : Option Regexp
  compiledKeyPattern : Option Regexp

/-- The suffix of an attribute family key. -/
def familySuffix : String := ".*"

inductive MetricType where
  | sum
  | gauge
  | histogram
  | unknown (declared : String)
  deriving DecidableEq

def MetricType.text : MetricType → String
  | .sum => "sum"
  | .gauge => "gauge"
  | .histogram => "histogram"
  | .unknown declared => declared

inductive Temporality where
  | unset
  | delta
  | cumulative
  | unknown (declared : String)
  deriving DecidableEq

def Temporality.text : Temporality → String
  | .unset => ""
  | .delta => "delta"
  | .cumulative => "cumulative"
  | .unknown declared => declared

/-- One allowed metric name. -/
structure MetricDef where
  name : String
  type : MetricType
  unit : String := ""
  monotonic : Bool := false
  temporality : Temporality := .unset
  explicitBounds : List GoFloat := []
  requiredAttributes : List String := []
  allowedAttributes : List String
  deriving DecidableEq

/-- One allowed span name pattern. -/
structure SpanDef where
  namePattern : String
  allowedAttributes : List String
  deriving DecidableEq

/-- One allowed log record event name. -/
structure LogDef where
  eventName : String
  allowedAttributes : List String
  dropBody : Bool := false
  deriving DecidableEq

/-- The schema file as parsed, before validation. -/
structure SchemaFile where
  supportedSignalTypes : List String
  standardResourceAttributes : List String
  consentTiers : List Tier
  attributes : GoMap String AttrSpec
  metrics : List MetricDef
  spans : List SpanDef
  logs : List LogDef

/-- The loaded schema with the lookup indexes `finalize` builds. -/
structure Schema where
  consentTiers : List Tier
  attributes : GoMap String AttrDef
  spans : List SpanDef
  tierRanks : GoMap String Int
  standardResSet : Finset String
  signalTypeSet : Finset String
  metricsByName : GoMap String MetricDef
  logsByName : GoMap String LogDef
  families : List AttrDef

namespace Schema

/-- The numeric rank for a tier name, if it is known. -/
def tierRank (s : Schema) (name : String) : Option Int := s.tierRanks.lookup name

def isKnownSignalType (s : Schema) (signalType : String) : Bool := decide (signalType ∈ s.signalTypeSet)

def isStandardResourceAttribute (s : Schema) (key : String) : Bool := decide (key ∈ s.standardResSet)

def metricByName (s : Schema) (name : String) : Option MetricDef := s.metricsByName.lookup name

def logEventByName (s : Schema) (name : String) : Option LogDef := s.logsByName.lookup name

end Schema

/-- A pattern matches itself, or, with one trailing `*`, every name it starts. -/
def matchesPattern (pattern name : String) : Bool :=
  if pattern = name then true
  else if pattern.toList.getLast? = some '*' then decide (pattern.toList.dropLast <+: name.toList)
  else false

namespace Schema

/-- The first span entry whose pattern matches `name`. -/
def matchingSpanDef (s : Schema) (name : String) : Option SpanDef :=
  s.spans.find? (fun sp => matchesPattern sp.namePattern name)

/-- Whether family `f` covers `key`: its prefix leads the key and its key
pattern accepts the rest. -/
def familyCovers (f : AttrDef) (key : String) : Bool :=
  match cutPrefix key (trimSuffix f.key "*"), f.compiledKeyPattern with
  | some rest, some re => re.matchString rest
  | _, _ => false

/-- The attribute family key that `key` belongs to. A key that is itself
defined belongs to no family. -/
def familyOf (s : Schema) (key : String) : Option String :=
  match s.attributes.lookup key with
  | some _ => none
  | none => (s.families.find? (fun f => familyCovers f key)).map (·.key)

/-- The definition for `key`: its own, or its family's with the key replaced. -/
def attrDefFor (s : Schema) (key : String) : Option AttrDef :=
  match s.attributes.lookup key with
  | some d => some d
  | none =>
    match s.familyOf key with
    | some fam => (s.attributes.lookup fam).map (fun d => { d with key := key })
    | none => none

/-- Whether `key` is allowed by name or through the family it belongs to. -/
def isAllowed (s : Schema) (allowed : Finset String) (key : String) : Bool :=
  if key ∈ allowed then true
  else
    match s.familyOf key with
    | some fam => decide (fam ∈ allowed)
    | none => false

end Schema

/-- An `allowed_attributes` list as a set. -/
def allowedSet (keys : List String) : Finset String := keys.toFinset

end argvio.allowlist
