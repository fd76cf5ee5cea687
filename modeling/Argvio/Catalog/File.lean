import Argvio.GoTypes
import Argvio.GoMap
import Argvio.GoStrings

open gostrings

namespace argvio.catalog

/-- The only file format version. -/
def version : Int := 1

def kindCounter : String := "counter"

def kindDuration : String := "duration"

def kindValue : String := "value"

def kindRatio : String := "ratio"

def directionUpIsGood : String := "up_is_good"

def directionDownIsGood : String := "down_is_good"

def directionNeutral : String := "neutral"

def builtinCommandInvocations : String := "command_invocations"

def builtinSessions : String := "sessions"

def builtinActiveInstalls : String := "active_installs"

def aggSum : String := "sum"

def aggCount : String := "count"

def maxDims : Nat := 8

def maxTitleLength : Int := 100

def maxDescriptionLength : Int := 1000

def maxMetrics : Nat := 500

def units : List String := ["1", "By", "%", "ms"]

def tiers : List String := ["anonymous", "basic", "full", "optin_plus"]

def kinds : List String := [kindCounter, kindDuration, kindValue, kindRatio]

def directions : List String := [directionUpIsGood, directionDownIsGood, directionNeutral]

def builtins : List String := [builtinCommandInvocations, builtinSessions, builtinActiveInstalls]

/-- A match of `^[A-Za-z0-9][A-Za-z0-9._-]{0,127}$`. -/
def isServiceName (s : String) : Bool :=
  match s.toList with
  | [] => false
  | c :: rest =>
    c.isAlphanum && rest.all (fun c => c.isAlphanum || c = '.' || c = '_' || c = '-') && decide (rest.length ≤ 127)

/-- One side of a ratio. -/
structure Operand where
  metric : String := ""
  builtin : String := ""
  where_ : GoMap String String := ∅
  agg : String := ""
  deriving DecidableEq

/-- One definition of a catalog file. -/
structure Metric where
  name : String
  kind : String
  title : String
  description : String := ""
  unit : String := ""
  dims : List String := []
  direction : String := ""
  dimOrder : GoMap String (List String) := ∅
  minTier : String := ""
  numerator : Option Operand := none
  denominator : Option Operand := none
  scale : GoFloat := .finite 0
  deriving DecidableEq

/-- One `argvio.metrics.yaml`. -/
structure File where
  version : Int
  service : String
  metrics : List Metric
  deriving DecidableEq

namespace Metric

/-- The unit of a definition that gives none. -/
def defaultUnit (m : Metric) : String :=
  if m.kind = kindCounter ∨ m.kind = kindValue ∨ m.kind = kindRatio then "1"
  else if m.kind = kindDuration then "ms"
  else ""

def applyDefaults (m : Metric) : Metric :=
  { m with
    direction := if m.direction = "" then directionNeutral else m.direction
    unit := if m.unit = "" then m.defaultUnit else m.unit
    scale := if m.kind = kindRatio ∧ m.scale.eq (.finite 0) = true then .finite 1 else m.scale }

end Metric

def File.applyDefaults (f : File) : File := { f with metrics := f.metrics.map Metric.applyDefaults }

/-- What a check adds: its text when something is wrong. -/
def problem (wrong : Prop) [Decidable wrong] (text : String) : List String := if wrong then [text] else []

theorem problem_eq_nil {wrong : Prop} [Decidable wrong] {text : String} : problem wrong text = [] ↔ ¬ wrong := by
  unfold problem
  split <;> simp_all

/-- The order of one `range` over a map. -/
structure Visit where
  visit : ∀ {α : Type}, List α → List α
  perm : ∀ {α : Type} (l : List α), (visit l).Perm l

/-- The order in which the model keeps the entries. -/
def Visit.inOrder : Visit := ⟨fun l => l, fun l => .refl l⟩

/-- The loops over maps that check one definition. The two over the sides of a ratio
range over a map from the side to its operand. -/
inductive Loop where
  | dimOrder
  | sides
  | builtin (side : String)
  | filters (side : String)
  | references
  | reference (side : String)

section Validate

-- `isPrint` is `unicode.IsPrint`.
variable (isPrint : Char → Bool)

namespace Operand

/-- The problems of an operand over a built-in series. -/
def builtinProblems (order : Visit) (o : Operand) (at_ : String) : List String :=
  ((order.visit o.where_.entries).flatMap (fun e => problem (o.builtin ≠ builtinCommandInvocations ∨ e.1 ≠ "command")
    (at_ ++ ": builtin " ++ o.builtin ++ " can't be filtered on " ++ quote isPrint e.1 ++
      " (only command_invocations, on command)"))) ++
  problem (o.agg ≠ "") (at_ ++ ": agg only applies to a value metric")

/-- The problems of one entry of `where`. -/
def whereProblems (o : Operand) (at_ : String) (e : Σ _ : String, String) : List String :=
  if o.builtin ≠ "" ∧ e.1 = "command" then
    problem (trimSpace e.2 = "") (at_ ++ ": where command must not be empty")
  else
    problem (isShortIdentifier e.1 = false ∨ isShortIdentifier e.2 = false)
      (at_ ++ ": where " ++ e.1 ++ "=" ++ e.2 ++ ": key and value must be dimension identifiers")

def problems (builtin filters : Visit) (o : Operand) (at_ : String) : List String :=
  (if (o.metric = "") ↔ (o.builtin = "") then [at_ ++ ": set exactly one of metric and builtin"]
    else if o.builtin ≠ "" ∧ o.builtin ∉ builtins then
      [at_ ++ ": builtin must be command_invocations, sessions or active_installs, got " ++ quote isPrint o.builtin]
    else if o.builtin ≠ "" then o.builtinProblems isPrint builtin at_
    else []) ++
  problem (o.agg ≠ "" ∧ o.agg ≠ aggSum ∧ o.agg ≠ aggCount)
    (at_ ++ ": agg must be sum or count, got " ++ quote isPrint o.agg) ++
  (filters.visit o.where_.entries).flatMap (o.whereProblems at_)

end Operand

namespace Metric

/-- The two operands by side. -/
def sides (m : Metric) : List (String × Option Operand) :=
  [("numerator", m.numerator), ("denominator", m.denominator)]

/-- The loop over the dimensions, with those seen so far. -/
def dimProblems (at_ : String) : List String → List String → List String
  | _, [] => []
  | seen, d :: dims =>
    problem (isShortIdentifier d = false)
      (at_ ++ ": dim " ++ quote isPrint d ++ " must match ^[a-z0-9][a-z0-9._-]*$ and be at most 64 characters") ++
    problem (d ∈ seen) (at_ ++ ": dim " ++ quote isPrint d ++ " is listed twice") ++
    dimProblems at_ (d :: seen) dims

/-- The problems of one entry of `dim_order`. -/
def dimOrderProblems (m : Metric) (at_ : String) (e : Σ _ : String, List String) : List String :=
  problem (e.1 ∉ m.dims) (at_ ++ ": dim_order has " ++ quote isPrint e.1 ++ ", which isn't in dims") ++
  e.2.flatMap (fun v => problem (isShortIdentifier v = false)
    (at_ ++ ": dim_order[" ++ e.1 ++ "] value " ++ quote isPrint v ++ " is not a valid dimension value"))

def unitProblems (m : Metric) (at_ : String) : List String :=
  if m.kind ∉ kinds then []
  else if m.unit ∉ units then [at_ ++ ": unit must be one of 1, By, %, ms, got " ++ quote isPrint m.unit]
  else if m.kind = kindDuration ∧ m.unit ≠ "ms" then [at_ ++ ": a duration's unit is ms"]
  else if m.kind = kindValue ∧ m.unit = "ms" then
    [at_ ++ ": a value's unit is 1, By or %; time a duration instead"]
  else []

/-- The problems of one side of a ratio. -/
def sideProblems (order : Loop → Visit) (at_ : String) : String × Option Operand → List String
  | (side, none) => [at_ ++ ": " ++ side ++ " is required"]
  | (side, some o) => o.problems isPrint (order (.builtin side)) (order (.filters side)) (at_ ++ ": " ++ side)

def ratioProblems (order : Loop → Visit) (m : Metric) (at_ : String) : List String :=
  if m.kind = kindRatio then
    problem (m.dims.length > 0 ∨ m.dimOrder.entries.length > 0) (at_ ++ ": a ratio has no dims of its own") ++
    problem (m.scale.isFinite = false ∨ m.scale.le (.finite 0) = true) (at_ ++ ": scale must be a positive number") ++
    ((order .sides).visit m.sides).flatMap (sideProblems isPrint order at_)
  else
    problem (m.numerator.isSome = true ∨ m.denominator.isSome = true ∨ m.scale.eq (.finite 0) = false)
      (at_ ++ ": numerator, denominator and scale only apply to a ratio")

/-- Checks one definition on its own. -/
def problems (order : Loop → Visit) (m : Metric) (at_ : String) : List String :=
  problem (m.kind ∉ kinds)
    (at_ ++ ": kind must be counter, duration, value or ratio, got " ++ quote isPrint m.kind) ++
  problem (trimSpace m.title = "" ∨ len m.title > maxTitleLength)
    (at_ ++ ": title is required, at most " ++ toString maxTitleLength ++ " characters") ++
  problem (len m.description > maxDescriptionLength)
    (at_ ++ ": description must be at most " ++ toString maxDescriptionLength ++ " characters") ++
  m.unitProblems isPrint at_ ++
  problem (m.direction ∉ directions)
    (at_ ++ ": direction must be up_is_good, down_is_good or neutral, got " ++ quote isPrint m.direction) ++
  problem (m.minTier ≠ "" ∧ m.minTier ∉ tiers)
    (at_ ++ ": min_tier must be anonymous, basic, full or optin_plus, got " ++ quote isPrint m.minTier) ++
  problem (m.dims.length > maxDims)
    (at_ ++ ": at most " ++ toString maxDims ++ " dims, got " ++ toString m.dims.length) ++
  dimProblems isPrint at_ [] m.dims ++
  ((order .dimOrder).visit m.dimOrder.entries).flatMap (m.dimOrderProblems isPrint at_) ++
  m.ratioProblems isPrint order at_

/-- How problems name a definition, given its index in the file. -/
def at_ (m : Metric) (i : Nat) : String :=
  if m.name ≠ "" then "metric " ++ quote isPrint m.name else "metrics[" ++ toString i ++ "]"

/-- What a side of a ratio refers to: a metric of the file that is no ratio, with
filters on its dimensions. -/
def referenceProblems (order : Loop → Visit) (m : Metric) (byName : GoMap String Metric) :
    String × Option Operand → List String
  | (_, none) => []
  | (side, some o) =>
    let head := "metric " ++ quote isPrint m.name ++ ": " ++ side
    if o.metric = "" then []
    else
      match byName.lookup o.metric with
      | none => [head ++ " refers to " ++ quote isPrint o.metric ++ ", which the file doesn't define"]
      | some ref =>
        if ref.kind = kindRatio then
          [head ++ " refers to ratio " ++ quote isPrint o.metric ++
            "; a ratio can only use counters, durations or values"]
        else
          ((order (.reference side)).visit o.where_.entries).flatMap (fun e => problem (e.1 ∉ ref.dims)
            (head ++ " filters on " ++ quote isPrint e.1 ++ ", which " ++ quote isPrint o.metric ++
              " doesn't declare in dims")) ++
          problem (o.agg ≠ "" ∧ ref.kind ≠ kindValue)
            (head ++ " sets agg, which only applies to a value metric")

end Metric

/-- One turn of the loop over the definitions: the definitions by name and the
problems so far. -/
def checkMetric (order : ℕ → Loop → Visit) (acc : GoMap String Metric × List String) (entry : Metric × Nat) :
    GoMap String Metric × List String :=
  let m := entry.1
  let at_ := m.at_ isPrint entry.2
  let named :=
    if isShortIdentifier m.name = false then
      [at_ ++ ": name must match ^[a-z0-9][a-z0-9._-]*$ and be at most 64 characters"]
    else problem (m.name ∈ acc.1) (at_ ++ ": defined twice")
  (acc.1.insert m.name m, acc.2 ++ named ++ m.problems isPrint (order entry.2) at_)

/-- Lists every problem found in a file. -/
structure ValidationError where
  problems : List String
  deriving DecidableEq

def ValidationError.text (err : ValidationError) : String :=
  "catalog: invalid file:\n  - " ++ "\n  - ".intercalate err.problems

/-- The problems in the order they are found. -/
def File.problems (order : ℕ → Loop → Visit) (f : File) : List String :=
  let checked := f.metrics.zipIdx.foldl (checkMetric isPrint order) (∅, [])
  problem (f.version ≠ catalog.version) ("version must be " ++ toString catalog.version ++ ", got " ++ toString f.version) ++
  problem (isServiceName f.service = false)
    ("service " ++ quote isPrint f.service ++ " must be the CLI's name as its SDK sends it (service.name): " ++
      "letters, digits, '.', '_' or '-', at most 128") ++
  problem (f.metrics.length > maxMetrics)
    ("at most " ++ toString maxMetrics ++ " metrics per file, got " ++ toString f.metrics.length) ++
  checked.2 ++
  (f.metrics.zipIdx.filter (fun e => e.1.kind = kindRatio)).flatMap
    (fun e => ((order e.2 .references).visit e.1.sides).flatMap (e.1.referenceProblems isPrint (order e.2) checked.1))

/-- Checks a file against the format rules, with each map visited in some order. -/
def File.validateIn (order : ℕ → Loop → Visit) (f : File) : Except ValidationError Unit :=
  let p := (f.problems isPrint order).insertionSort (· ≤ ·)
  if p.length > 0 then .error ⟨p⟩ else .ok ()

def File.validate (f : File) : Except ValidationError Unit := f.validateIn isPrint (fun _ _ => .inOrder)

end Validate

/-- The same operand but for the order in which `range` visits its filters. -/
structure Operand.Same (o o' : Operand) : Prop where
  metric : o.metric = o'.metric
  builtin : o.builtin = o'.builtin
  where_ : GoMap.Same o.where_ o'.where_
  agg : o.agg = o'.agg

/-- The same definition but for the order in which `range` visits its maps. -/
structure Metric.Same (m m' : Metric) : Prop where
  name : m.name = m'.name
  kind : m.kind = m'.kind
  title : m.title = m'.title
  description : m.description = m'.description
  unit : m.unit = m'.unit
  dims : m.dims = m'.dims
  direction : m.direction = m'.direction
  dimOrder : GoMap.Same m.dimOrder m'.dimOrder
  minTier : m.minTier = m'.minTier
  numerator : Option.Rel Operand.Same m.numerator m'.numerator
  denominator : Option.Rel Operand.Same m.denominator m'.denominator
  scale : m.scale = m'.scale

/-- How a definition is stored: `json.Marshal` and `json.Unmarshal` with values `σ`
in between. A definition whose scale is finite can be marshalled, and comes back as
it was. -/
structure SpecCodec (σ : Type) where
  specJSON : Metric → Except String σ
  unmarshal : σ → Option Metric
  roundTrip : ∀ m : Metric, m.scale.isFinite = true →
    ∃ spec, specJSON m = .ok spec ∧ ∃ m', unmarshal spec = some m' ∧ Metric.Same m m'

end argvio.catalog
