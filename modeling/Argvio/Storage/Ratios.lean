import Argvio.Storage.MetricDefinitions
import Argvio.Storage.Predicates
import Argvio.Storage.Reach

namespace argvio.storage

/-- One side of a ratio metric, resolved against the catalog. -/
structure RatioOperand where
  kind : String := ""
  metric : String := ""
  builtin : String := ""
  where_ : GoMap String String := ∅
  agg : String := ""
  deriving DecidableEq

def ratioKindCounter : String := "counter"

def ratioKindDuration : String := "duration"

def ratioKindValue : String := "value"

def ratioBuiltinInvocations : String := "command_invocations"

def ratioBuiltinSessions : String := "sessions"

def ratioBuiltinActiveInstalls : String := "active_installs"

/-- Whether the operand reads a daily-only rollup. -/
def RatioOperand.ratioNeedsDailyBucket (o : RatioOperand) : Bool :=
  o.builtin = ratioBuiltinSessions || o.builtin = ratioBuiltinActiveInstalls

/-- An operand that `operandSeries` knows. -/
def RatioOperand.Known (o : RatioOperand) : Prop :=
  o.kind ∈ [ratioKindCounter, ratioKindDuration, ratioKindValue] ∨
    o.builtin ∈ [ratioBuiltinInvocations, ratioBuiltinSessions, ratioBuiltinActiveInstalls]

def caggCountersHourly : String := "cagg_counters_hourly"

def caggCountersDaily : String := "cagg_counters_daily"

def caggMeasuresHourly : String := "cagg_measures_hourly"

def caggMeasuresDaily : String := "cagg_measures_daily"

def caggValuesHourly : String := "cagg_values_hourly"

def caggValuesDaily : String := "cagg_values_daily"

def caggCommandStatsHourly : String := "cagg_command_stats_hourly"

def caggCommandStatsDaily : String := "cagg_command_stats_daily"

def caggSessionActivityDaily : String := "cagg_session_activity_daily"

/-- Maps an hourly rollup to its daily one. -/
def dailyOf (hourly : String) : String :=
  if hourly = caggCountersHourly then caggCountersDaily
  else if hourly = caggMeasuresHourly then caggMeasuresDaily
  else if hourly = caggValuesHourly then caggValuesDaily
  else if hourly = caggCommandStatsHourly then caggCommandStatsDaily
  else hourly

/-- The `%+v` rendering of an operand; a map is printed in the order of its keys. -/
def RatioOperand.text (o : RatioOperand) : String :=
  let keys := o.where_.keys.insertionSort (· ≤ ·)
  "\x7bKind:" ++ o.kind ++ " Metric:" ++ o.metric ++ " Builtin:" ++ o.builtin ++ " Where:map[" ++
    " ".intercalate (keys.map (fun k => k ++ ":" ++ (o.where_.lookup k).getD "")) ++ "] Agg:" ++ o.agg ++ "\x7d"

/-- Which of the database's answers an operand's query fails on. -/
inductive OperandFailure where
  | query (cause : String)
  | scan (cause : String)
  | activeInstalls (cause : String)
  deriving DecidableEq

inductive RatioError where
  | unknownOperand (o : RatioOperand)
  | bucket (err : QueryError)
  | database (failure : OperandFailure)

def RatioError.text (isPrint : Char → Bool) : RatioError → String
  | .unknownOperand o => "storage: unknown ratio operand " ++ o.text
  | .bucket err => err.text isPrint
  | .database (.query cause) => "storage: ratio operand: " ++ cause
  | .database (.scan cause) => "storage: scan ratio operand: " ++ cause
  | .database (.activeInstalls cause) => "storage: ratio active installs: " ++ cause

namespace QueryBuilder

def tenantIDColumn : Column := ⟨"tenant_id", by decide⟩

def commandNameColumn : Column := ⟨"command_name", by decide⟩

def cliVersionColumn : Column := ⟨"cli_version", by decide⟩

def osColumn : Column := ⟨"os", by decide⟩

def archColumn : Column := ⟨"arch", by decide⟩

def isCIColumn : Column := ⟨"is_ci", by decide⟩

def serviceNameColumn : Column := ⟨"service_name", by decide⟩

/-- The start of both families of predicates: the tenant and the window, where the
arguments that the builder passes on are times. -/
def windowPredicates (scope : TenantScope) (f : Filters) : PredicateBuilder Int :=
  ((newScopedPredicates scope tenantIDColumn).add ⟨"bucket >= $", "", by decide⟩ (.any f.from_)).add
    ⟨"bucket < $", "", by decide⟩ (.any f.to_)

def commandStatsPredicates (scope : TenantScope) (f : Filters) : PredicateBuilder Int :=
  (((((windowPredicates scope f).addIfAnyStr commandNameColumn f.commandNames).addIfAnyStr
    cliVersionColumn f.cliVersions).addIfAnyStr osColumn f.oses).addIfAnyStr archColumn f.arches).addIfNotNilBool
      isCIColumn f.isCI

def vendorPredicates (scope : TenantScope) (f : Filters) : PredicateBuilder Int :=
  (commandStatsPredicates scope f).addIfAnyStr serviceNameColumn f.services

def sessionActivityPredicates (scope : TenantScope) (f : Filters) : PredicateBuilder Int :=
  ((((windowPredicates scope f).addIfAnyStr cliVersionColumn f.cliVersions).addIfAnyStr osColumn f.oses).addIfAnyStr
    archColumn f.arches).addIfNotNilBool isCIColumn f.isCI

/-- A condition of a query over rows: its clause, its argument and the rows it keeps. -/
structure Condition (ρ : Type) where
  clauseFmt : ClauseFmt
  arg : Arg Int
  holds : ρ → Bool

namespace Condition

variable {ρ : Type}

def addAll (pb : PredicateBuilder Int) (cs : List (Condition ρ)) : PredicateBuilder Int :=
  cs.foldl (fun pb c => pb.add c.clauseFmt c.arg) pb

def window (tenantID : ρ → UUID) (bucket : ρ → Int) (scope : TenantScope) (f : Filters) : List (Condition ρ) :=
  [⟨tenantIDColumn.equals, .uuid scope.tenantID, fun row => tenantID row = scope.tenantID⟩,
    ⟨⟨"bucket >= $", "", by decide⟩, .any f.from_, fun row => f.from_ ≤ bucket row⟩,
    ⟨⟨"bucket < $", "", by decide⟩, .any f.to_, fun row => bucket row < f.to_⟩]

def anyStr (col : Column) (value : ρ → Option String) (vs : List String) : List (Condition ρ) :=
  if vs.length > 0 then [⟨col.equalsAny, .strs vs, fun row => anyOf vs (value row)⟩] else []

def notNilBool (col : Column) (value : ρ → Option Bool) (v : Option Bool) : List (Condition ρ) :=
  v.toList.map (fun v => ⟨col.equals, .bool v, fun row => value row = some v⟩)

variable (pb : PredicateBuilder Int) (col : Column)

theorem addAll_append (cs ds : List (Condition ρ)) : addAll pb (cs ++ ds) = addAll (addAll pb cs) ds :=
  List.foldl_append

theorem addAll_anyStr (value : ρ → Option String) (vs : List String) :
    addAll pb (anyStr col value vs) = pb.addIfAnyStr col vs := by
  unfold anyStr PredicateBuilder.addIfAnyStr
  split
  · rfl
  · rfl

theorem all_anyStr (value : ρ → Option String) (vs : List String) (row : ρ) :
    (anyStr col value vs).all (·.holds row) = ifAnyStr vs (value row) := by
  cases vs with
  | nil => rfl
  | cons v vs => simp [anyStr, ifAnyStr]

theorem addAll_notNilBool (value : ρ → Option Bool) (v : Option Bool) :
    addAll pb (notNilBool col value v) = pb.addIfNotNilBool col v := by
  cases v <;> rfl

theorem all_notNilBool (value : ρ → Option Bool) (v : Option Bool) (row : ρ) :
    (notNilBool col value v).all (·.holds row) = v.all (value row = some ·) := by
  cases v with
  | none => rfl
  | some v => simp [notNilBool]

end Condition

/-- The conditions on the rollup of session activity. -/
def sessionConditions (scope : TenantScope) (f : Filters) : List (Condition SessionRow) :=
  Condition.window SessionRow.tenantID SessionRow.bucket scope f ++
    Condition.anyStr cliVersionColumn SessionRow.cliVersion f.cliVersions ++
    Condition.anyStr osColumn SessionRow.os f.oses ++ Condition.anyStr archColumn SessionRow.arch f.arches ++
    Condition.notNilBool isCIColumn SessionRow.isCI f.isCI

/-- The clauses of the predicates are those of the conditions, in their order. -/
theorem addAll_sessionConditions (scope : TenantScope) (f : Filters) :
    Condition.addAll {} (sessionConditions scope f) = sessionActivityPredicates scope f := by
  unfold sessionConditions sessionActivityPredicates
  simp only [Condition.addAll_append, Condition.addAll_anyStr, Condition.addAll_notNilBool]
  rfl

/-- A row passes the filter of the counts of installs when each of those conditions keeps it. -/
theorem all_sessionConditions (scope : TenantScope) (f : Filters) (row : SessionRow) :
    (sessionConditions scope f).all (·.holds row) = storage.sessionActivityPredicates scope.tenantID f row := by
  unfold sessionConditions storage.sessionActivityPredicates
  simp only [List.all_append, Condition.all_anyStr, Condition.all_notNilBool]
  simp [Condition.window, Bool.and_assoc]

/-- The conditions on the rollup of values. -/
def vendorConditions (scope : TenantScope) (f : Filters) : List (Condition ValueRow) :=
  Condition.window ValueRow.tenantID ValueRow.bucket scope f ++
    Condition.anyStr commandNameColumn ValueRow.commandName f.commandNames ++
    Condition.anyStr cliVersionColumn ValueRow.cliVersion f.cliVersions ++
    Condition.anyStr osColumn ValueRow.os f.oses ++ Condition.anyStr archColumn ValueRow.arch f.arches ++
    Condition.notNilBool isCIColumn ValueRow.isCI f.isCI ++
    Condition.anyStr serviceNameColumn ValueRow.serviceName f.services

theorem addAll_vendorConditions (scope : TenantScope) (f : Filters) :
    Condition.addAll {} (vendorConditions scope f) = vendorPredicates scope f := by
  unfold vendorConditions vendorPredicates commandStatsPredicates
  simp only [Condition.addAll_append, Condition.addAll_anyStr, Condition.addAll_notNilBool]
  rfl

theorem all_vendorConditions (scope : TenantScope) (f : Filters) (row : ValueRow) :
    (vendorConditions scope f).all (·.holds row) = storage.vendorPredicates scope.tenantID f row := by
  unfold vendorConditions storage.vendorPredicates
  simp only [List.all_append, Condition.all_anyStr, Condition.all_notNilBool]
  simp [Condition.window, Bool.and_assoc]

def metricOperandPredicates (scope : TenantScope) (f : Filters) (service : String) (nameCol : Column) (name : String) :
    PredicateBuilder Int :=
  (vendorPredicates scope { f with services := [service] }).add nameCol.equals (.str name)

/-- What the switch over the operands sets. -/
structure OperandSource where
  table : String
  valueExpr : String
  labelCol : Option Column := none
  dailyOnly : Bool := false
  pb : PredicateBuilder Int

def operandSource (scope : TenantScope) (f : Filters) (service : String) (o : RatioOperand) :
    Except RatioError OperandSource :=
  if o.kind = ratioKindCounter then
    .ok
      { table := caggCountersHourly
        valueExpr := "sum(total)"
        labelCol := some ⟨"counter_label", by decide⟩
        pb := metricOperandPredicates scope f service ⟨"counter_name", by decide⟩ o.metric }
  else if o.kind = ratioKindDuration then
    .ok
      { table := caggMeasuresHourly
        valueExpr := "sum(measure_count)"
        labelCol := some ⟨"measure_label", by decide⟩
        pb := metricOperandPredicates scope f service ⟨"measure_name", by decide⟩ o.metric }
  else if o.kind = ratioKindValue then
    .ok
      { table := caggValuesHourly
        valueExpr := if o.agg = "count" then "sum(value_count)" else "sum(value_sum)"
        labelCol := some ⟨"value_label", by decide⟩
        pb := metricOperandPredicates scope f service ⟨"value_name", by decide⟩ o.metric }
  else if o.builtin = ratioBuiltinInvocations then
    .ok
      { table := caggCommandStatsHourly
        valueExpr := "sum(invocation_count)"
        pb := commandStatsPredicates scope
          ((o.where_.lookup "command").elim f (fun c => { f with commandNames := [c] })) }
  else if o.builtin = ratioBuiltinSessions then
    .ok
      { table := caggSessionActivityDaily
        valueExpr := "sum(session_count)"
        dailyOnly := true
        pb := sessionActivityPredicates scope f }
  else if o.builtin = ratioBuiltinActiveInstalls then
    .ok
      { table := caggSessionActivityDaily
        valueExpr := "distinct_count(rollup(install_hll))"
        dailyOnly := true
        pb := sessionActivityPredicates scope f }
  else .error (.unknownOperand o)

/-- The filter on the dimensions of a metric operand. -/
def OperandSource.predicates (src : OperandSource) (o : RatioOperand) : PredicateBuilder Int :=
  match src.labelCol with
  | none => src.pb
  | some labelCol =>
    ({ where_ := GoMap.putAll ∅ (o.where_.entries.map (fun e => (e.1, [e.2]))) } : DimQuery).addWhere src.pb labelCol

/-- The query for an operand's series, with its bucket expression as a function of
the bucket column. -/
structure OperandQuery where
  bucketExpr : Int → Int
  valueExpr : String
  table : String
  pb : PredicateBuilder Int

section Query

variable (dateTrunc : Bucket → Int → Int)

/-- Which bucket expression and table serve a bucket. -/
def OperandSource.bucketed (src : OperandSource) (bucket : Bucket) : Except QueryError ((Int → Int) × String) :=
  if src.dailyOnly then (rebucket dateTrunc bucket .day).map (fun expr => (expr, src.table))
  else if bucket = .hour then .ok (id, src.table)
  else (rebucket dateTrunc bucket .day).map (fun expr => (expr, dailyOf src.table))

/-- What `operandSeries` asks the database. -/
def operandQuery (scope : TenantScope) (f : Filters) (service : String) (o : RatioOperand) (bucket : Bucket) :
    Except RatioError OperandQuery := do
  let src ← operandSource scope f service o
  let (bucketExpr, table) ← (src.bucketed dateTrunc bucket).mapError .bucket
  return { bucketExpr := bucketExpr, valueExpr := src.valueExpr, table := table, pb := src.predicates o }

variable (scope : TenantScope) (f : Filters) (service : String) {o : RatioOperand}

/-- The switch has a case for a known operand, and only the operands over daily
series are restricted to days. -/
theorem exists_operandSource (h : o.Known) :
    ∃ src, operandSource scope f service o = .ok src ∧ (src.dailyOnly = true → o.ratioNeedsDailyBucket = true) := by
  unfold operandSource
  split
  · exact ⟨_, rfl, fun h => by cases h⟩
  split
  · exact ⟨_, rfl, fun h => by cases h⟩
  split
  · exact ⟨_, rfl, fun h => by cases h⟩
  split
  · exact ⟨_, rfl, fun h => by cases h⟩
  split
  · rename_i hsessions
    refine ⟨_, rfl, fun _ => ?_⟩
    simp [RatioOperand.ratioNeedsDailyBucket, hsessions]
  split
  · rename_i hinstalls
    refine ⟨_, rfl, fun _ => ?_⟩
    simp [RatioOperand.ratioNeedsDailyBucket, hinstalls]
  · rename_i hcounter hduration hvalue hinvocations hsessions hinstalls
    rcases h with h | h
    · simp [hcounter, hduration, hvalue] at h
    · simp [hinvocations, hsessions, hinstalls] at h

theorem exists_rebucket_day {b : Bucket} (hb : b ∈ [Bucket.day, .week, .month]) :
    ∃ expr, rebucket dateTrunc b .day = .ok expr := by
  simp only [List.mem_cons, List.not_mem_nil, or_false] at hb
  rcases hb with rfl | rfl | rfl <;> exact ⟨_, rfl⟩

/-- The query of a known operand exists for every bucket it has. -/
theorem exists_operandQuery (h : o.Known) {b : Bucket}
    (hb : b ∈ [Bucket.day, .week, .month] ∨ b = .hour ∧ o.ratioNeedsDailyBucket = false) :
    ∃ q, operandQuery dateTrunc scope f service o b = .ok q := by
  obtain ⟨src, hsrc, hdaily⟩ := exists_operandSource scope f service h
  obtain ⟨bucketed, hbucketed⟩ : ∃ bucketed, src.bucketed dateTrunc b = .ok bucketed := by
    unfold OperandSource.bucketed
    rcases hb with hb | ⟨rfl, hhourly⟩
    · obtain ⟨expr, hexpr⟩ := exists_rebucket_day dateTrunc hb
      rw [hexpr]
      split_ifs <;> exact ⟨_, rfl⟩
    · have hnot : ¬ src.dailyOnly = true := by
        intro honly
        rw [hdaily honly] at hhourly
        cases hhourly
      rw [if_neg hnot, if_pos rfl]
      exact ⟨_, rfl⟩
  unfold operandQuery
  rw [hsrc]
  exact ⟨_, Except.bind_eq_ok_iff.mpr ⟨src, rfl, Except.bind_eq_ok_iff.mpr ⟨bucketed, by rw [hbucketed]; rfl, rfl⟩⟩⟩

/-- The float operations of a ratio, with their rounding. -/
structure FloatArith where
  add : GoFloat → GoFloat → GoFloat
  mul : GoFloat → GoFloat → GoFloat
  div : GoFloat → GoFloat → GoFloat

/-- What the database answers: the rows of an operand's query, and the one row of the
query without buckets. -/
structure RatioDB where
  query : OperandQuery → Except OperandFailure (List (Int × Option GoFloat))
  queryRow : OperandQuery → Except OperandFailure (Option GoFloat)

variable (arith : FloatArith) (db : RatioDB) (scope : TenantScope) (f : Filters) (service : String)

/-- An operand's value per bucket and over the window. -/
def operandSeries (o : RatioOperand) (bucket : Bucket) : Except RatioError (GoMap Int GoFloat × GoFloat) := do
  let q ← operandQuery dateTrunc scope f service o bucket
  let rows ← (db.query q).mapError .database
  let (out, total) := rows.foldl (fun acc row =>
    row.2.elim acc (fun v => (acc.1.insert row.1 v, arith.add acc.2 v))) (∅, .finite 0)
  if o.builtin = ratioBuiltinActiveInstalls then
    let v ← (db.queryRow q).mapError .database
    return (out, v.getD (.finite 0))
  return (out, total)

/-- Once its query exists, an operand's series only fails when the database does. -/
theorem operandSeries_error {dateTrunc : Bucket → Int → Int} {arith : FloatArith} {db : RatioDB} {scope : TenantScope}
    {f : Filters} {service : String} {b : Bucket} {q : OperandQuery} {err : RatioError}
    (hq : operandQuery dateTrunc scope f service o b = .ok q)
    (h : operandSeries dateTrunc arith db scope f service o b = .error err) : ∃ failure, err = .database failure := by
  unfold operandSeries at h
  rw [hq] at h
  change ((db.query q).mapError RatioError.database >>= _) = _ at h
  cases hrows : db.query q with
  | error failure =>
    rw [hrows] at h
    cases h
    exact ⟨failure, rfl⟩
  | ok rows =>
    rw [hrows] at h
    change (if o.builtin = ratioBuiltinActiveInstalls then _ else _) = _ at h
    split at h
    · cases hrow : db.queryRow q with
      | error failure =>
        rw [hrow] at h
        cases h
        exact ⟨failure, rfl⟩
      | ok v =>
        rw [hrow] at h
        cases h
    · cases h

structure RatioPoint where
  bucket : Option Int
  numerator : GoFloat
  denominator : GoFloat
  value : Option GoFloat

structure RatioSeries where
  series : List RatioPoint
  total : RatioPoint

def ratioPoint (bucket : Option Int) (n d scale : GoFloat) : RatioPoint where
  bucket := bucket
  numerator := n
  denominator := d
  value := if d.eq (.finite 0) = true then none else some (arith.mul (arith.div n d) scale)

/-- Evaluates a ratio per bucket and over the window. -/
def ratio (num den : RatioOperand) (scale : GoFloat) (bucket : Bucket) : Except RatioError RatioSeries := do
  let (nb, nt) ← operandSeries dateTrunc arith db scope f service num bucket
  let (db_, dt) ← operandSeries dateTrunc arith db scope f service den bucket
  let buckets := (nb.keys ++ db_.keys.filter (· ∉ nb)).insertionSort (· ≤ ·)
  return {
    series := buckets.map (fun b => ratioPoint arith (some b) ((nb.lookup b).getD (.finite 0))
      ((db_.lookup b).getD (.finite 0)) scale)
    total := ratioPoint arith none nt dt scale }

/-- A ratio only fails when one of its operands does. -/
theorem ratio_error {dateTrunc : Bucket → Int → Int} {arith : FloatArith} {db : RatioDB} {scope : TenantScope}
    {f : Filters} {service : String} {num den : RatioOperand} {scale : GoFloat} {b : Bucket} {err : RatioError}
    (h : ratio dateTrunc arith db scope f service num den scale b = .error err) :
    ∃ o ∈ [num, den], operandSeries dateTrunc arith db scope f service o b = .error err := by
  unfold ratio at h
  cases hnum : operandSeries dateTrunc arith db scope f service num b with
  | error e =>
    rw [hnum] at h
    cases h
    exact ⟨num, by simp, hnum⟩
  | ok n =>
    cases hden : operandSeries dateTrunc arith db scope f service den b with
    | error e =>
      rw [hnum, hden] at h
      cases h
      exact ⟨den, by simp, hden⟩
    | ok d =>
      rw [hnum, hden] at h
      cases h

end Query

/-- The declared, non-deprecated definitions of one tenant's CLI by name. -/
def activeMetricDefinitions {σ : Type} (scope : TenantScope) (service : String) (t : Definitions σ) : GoMap String σ :=
  GoMap.putAll ∅ ((t.entries.filter (fun e =>
    e.1.tenantID = scope.tenantID ∧ e.1.service = service ∧ e.2.deprecatedAt = none)).map (fun e => (e.1.name, e.2.spec)))

theorem lookup_activeMetricDefinitions {σ : Type} (scope : TenantScope) (service name : String) (t : Definitions σ) :
    (activeMetricDefinitions scope service t).lookup name =
      ((t.lookup ⟨scope.tenantID, service, name⟩).filter (fun row => row.deprecatedAt = none)).map DefinitionRow.spec := by
  have hkeys : ∀ key key' : DefinitionKey, (key.tenantID = scope.tenantID ∧ key.service = service) →
      (key'.tenantID = scope.tenantID ∧ key'.service = service) → key.name = key'.name → key = key' := by
    rintro ⟨_, _, _⟩ ⟨_, _, _⟩ ⟨rfl, rfl⟩ ⟨hid, hservice⟩ hname
    cases hid
    cases hservice
    cases hname
    rfl
  have hlookup := GoMap.lookup_putAll_entries t
    (fun e => e.1.tenantID = scope.tenantID ∧ e.1.service = service ∧ e.2.deprecatedAt = none)
    DefinitionKey.name DefinitionRow.spec
    (fun e e' he he' => hkeys e.1 e'.1 ⟨(of_decide_eq_true he).1, (of_decide_eq_true he).2.1⟩
      ⟨(of_decide_eq_true he').1, (of_decide_eq_true he').2.1⟩)
    (k := ⟨scope.tenantID, service, name⟩)
    (fun e he => hkeys e.1 _ ⟨(of_decide_eq_true he).1, (of_decide_eq_true he).2.1⟩ ⟨rfl, rfl⟩)
  simpa [activeMetricDefinitions] using hlookup

end QueryBuilder

end argvio.storage
