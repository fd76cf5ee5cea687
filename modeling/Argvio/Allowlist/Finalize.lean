import Argvio.Allowlist.Schema

open gostrings

namespace argvio.allowlist

/-- What an `allowed_attributes` list belongs to, for error messages. -/
inductive AttrOwner where
  | metric (name : String)
  | span (pattern : String)
  | log (eventName : String)
  deriving DecidableEq

/-- Why loading refuses a schema file. -/
inductive SchemaError where
  | noConsentTiers
  | unknownMinTier (key minTier : String)
  | patternNotString (key : String)
  | invalidPattern (key err : String)
  | familyWithoutKeyPattern (key : String)
  | keyPatternWithoutFamily (key : String)
  | invalidKeyPattern (key err : String)
  | undefinedAttribute (owner : AttrOwner) (key : String)
  | temporalityNotSupported (metric : String)
  | unknownTemporality (metric temporality : String)
  | boundsNotSupported (metric : String)
  | boundsNotIncreasing (metric : String)
  | requiredNotAllowed (metric key : String)
  deriving DecidableEq

/-- The message `finalize` returns, where `isPrint` is `unicode.IsPrint`. -/
def SchemaError.text (isPrint : Char → Bool) : SchemaError → String
  | .noConsentTiers => "allowlist: no consent_tiers defined"
  | .unknownMinTier k t =>
    "allowlist: attribute " ++ quote isPrint k ++ " references unknown min_tier " ++ quote isPrint t
  | .patternNotString k =>
    "allowlist: attribute " ++ quote isPrint k ++ ": pattern is only supported on type string"
  | .invalidPattern k err => "allowlist: attribute " ++ quote isPrint k ++ ": invalid pattern: " ++ err
  | .familyWithoutKeyPattern k =>
    "allowlist: attribute family " ++ quote isPrint k ++ " requires key_pattern"
  | .keyPatternWithoutFamily k =>
    "allowlist: attribute " ++ quote isPrint k ++
      ": key_pattern is only supported on a family (a key ending in " ++ quote isPrint familySuffix ++ ")"
  | .invalidKeyPattern k err =>
    "allowlist: attribute family " ++ quote isPrint k ++ ": invalid key_pattern: " ++ err
  | .undefinedAttribute owner k =>
    let who := match owner with
      | .metric name => "metric " ++ quote isPrint name
      | .span pattern => "span pattern " ++ quote isPrint pattern
      | .log eventName => "log event " ++ quote isPrint eventName
    "allowlist: " ++ who ++ ": references undefined attribute " ++ quote isPrint k
  | .temporalityNotSupported m =>
    "allowlist: metric " ++ quote isPrint m ++ ": temporality is only supported on types sum and histogram"
  | .unknownTemporality m t =>
    "allowlist: metric " ++ quote isPrint m ++ ": unknown temporality " ++ quote isPrint t
  | .boundsNotSupported m =>
    "allowlist: metric " ++ quote isPrint m ++ ": explicit_bounds is only supported on type histogram"
  | .boundsNotIncreasing m =>
    "allowlist: metric " ++ quote isPrint m ++ ": explicit_bounds must be finite and strictly increasing"
  | .requiredNotAllowed m k =>
    "allowlist: metric " ++ quote isPrint m ++ ": required attribute " ++ quote isPrint k ++
      " is not in allowed_attributes"

/-- The compiled value pattern; only string attributes may have one. -/
def compilePattern (compile : RegexpCompiler) (k : String) (spec : AttrSpec) :
    Except SchemaError (Option Regexp) :=
  if spec.pattern = "" then .ok none
  else if spec.type ≠ .string then .error (.patternNotString k)
  else
    match compile spec.pattern with
    | .error err => .error (.invalidPattern k err)
    | .ok re => .ok (some re)

/-- The compiled key pattern, required on a family and refused elsewhere. -/
def compileKeyPattern (compile : RegexpCompiler) (k : String) (spec : AttrSpec) :
    Except SchemaError (Option Regexp) :=
  let isFamily := hasSuffix k familySuffix
  if isFamily ∧ spec.keyPattern = "" then .error (.familyWithoutKeyPattern k)
  else if ¬ isFamily ∧ spec.keyPattern ≠ "" then .error (.keyPatternWithoutFamily k)
  else if isFamily then
    match compile spec.keyPattern with
    | .error err => .error (.invalidKeyPattern k err)
    | .ok re => .ok (some re)
  else .ok none

/-- The checks of one attribute, and its compiled definition. -/
def finalizeAttribute (compile : RegexpCompiler) (tierRanks : GoMap String Int) (k : String)
    (spec : AttrSpec) : Except SchemaError AttrDef :=
  match tierRanks.lookup spec.minTier with
  | none => .error (.unknownMinTier k spec.minTier)
  | some _ => do
    let pattern ← compilePattern compile k spec
    let keyPattern ← compileKeyPattern compile k spec
    return { spec with key := k, compiledPattern := pattern, compiledKeyPattern := keyPattern }

/-- The loop over the attribute map, in the order `range` visits it: every
definition replaces its entry, and the families are collected on the way. -/
def finalizeAttributes (compile : RegexpCompiler) (tierRanks : GoMap String Int) :
    List (Σ _ : String, AttrSpec) → GoMap String AttrDef → List AttrDef →
    Except SchemaError (GoMap String AttrDef × List AttrDef)
  | [], attributes, families => pure (attributes, families)
  | ⟨k, spec⟩ :: rest, attributes, families => do
    let d ← finalizeAttribute compile tierRanks k spec
    finalizeAttributes compile tierRanks rest (attributes.insert k d)
      (if hasSuffix k familySuffix then families ++ [d] else families)

/-- Families are tried longest key first, then by key. -/
def familyLe (a b : AttrDef) : Bool :=
  if len a.key ≠ len b.key then decide (len a.key > len b.key) else decide (a.key ≤ b.key)

/-- Every listed key must be a defined attribute. -/
def checkAttrRefs (attributes : GoMap String AttrDef) (owner : AttrOwner) :
    List String → Except SchemaError Unit
  | [] => pure ()
  | k :: keys =>
    if attributes.lookup k |>.isNone then throw (.undefinedAttribute owner k)
    else checkAttrRefs attributes owner keys

/-- Finite and strictly above the previous bound, one bound after the other. -/
def boundsIncreasing : Option GoFloat → List GoFloat → Bool
  | _, [] => true
  | previous, b :: rest =>
    b.isFinite && (match previous with | none => true | some p => !b.le p) &&
      boundsIncreasing (some b) rest

def checkTemporality (m : MetricDef) : Except SchemaError Unit :=
  match m.temporality with
  | .unset => .ok ()
  | .unknown t => .error (.unknownTemporality m.name t)
  | _ =>
    if m.type ≠ .sum ∧ m.type ≠ .histogram then .error (.temporalityNotSupported m.name) else .ok ()

def checkBounds (m : MetricDef) : Except SchemaError Unit :=
  if m.explicitBounds = [] then .ok ()
  else if m.type ≠ .histogram then .error (.boundsNotSupported m.name)
  else if boundsIncreasing none m.explicitBounds then .ok ()
  else .error (.boundsNotIncreasing m.name)

def checkRequired (m : MetricDef) : Except SchemaError Unit :=
  match m.requiredAttributes.find? (fun k => decide (k ∉ allowedSet m.allowedAttributes)) with
  | some k => .error (.requiredNotAllowed m.name k)
  | none => .ok ()

/-- The checks of one metric, in the order `finalize` makes them. -/
def checkMetric (attributes : GoMap String AttrDef) (m : MetricDef) : Except SchemaError Unit := do
  checkAttrRefs attributes (.metric m.name) m.allowedAttributes
  checkTemporality m
  checkBounds m
  checkRequired m

/-- The tier index: a name listed twice keeps its last rank. -/
def tierIndex (tiers : List Tier) : GoMap String Int :=
  GoMap.putAll ∅ (tiers.map (fun t => (t.name, t.rank)))

/-- Builds the derived indexes and validates internal consistency. -/
def finalize (compile : RegexpCompiler) (file : SchemaFile) : Except SchemaError Schema :=
  if (tierIndex file.consentTiers).entries = [] then .error .noConsentTiers
  else do
    let (attributes, families) ←
      finalizeAttributes compile (tierIndex file.consentTiers) file.attributes.entries ∅ []
    file.metrics.forM (checkMetric attributes)
    file.spans.forM (fun sp => checkAttrRefs attributes (.span sp.namePattern) sp.allowedAttributes)
    file.logs.forM (fun l => checkAttrRefs attributes (.log l.eventName) l.allowedAttributes)
    return {
      consentTiers := file.consentTiers
      attributes := attributes
      spans := file.spans
      tierRanks := tierIndex file.consentTiers
      standardResSet := file.standardResourceAttributes.toFinset
      signalTypeSet := file.supportedSignalTypes.toFinset
      metricsByName := GoMap.putAll ∅ (file.metrics.map (fun m => (m.name, m)))
      logsByName := GoMap.putAll ∅ (file.logs.map (fun l => (l.eventName, l)))
      families := families.insertionSort (fun a b => familyLe a b) }

end argvio.allowlist
