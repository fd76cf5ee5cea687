import Argvio.GroupBy
import Argvio.Storage.DimExpr
import Argvio.Storage.HistAgg
import Mathlib.Data.Prod.Lex

namespace argvio.storage

/-- The bucket bounds of `cli.value`. -/
def valueBounds : List ℚ := [0, 1, 2, 5, 10, 20, 50, 100, 200, 500, 1000, 5000, 10000, 100000]

abbrev valueBucketCount : ℕ := 15

abbrev ValueAgg := HistAgg valueBucketCount

/-- A row of a values rollup: the data points of an hour or a day that agree on
every dimension, so there is at least one. -/
structure ValueRow where
  tenantID : UUID
  valueName : Option String
  valueLabel : Option String
  valueUnit : String
  serviceName : Option String
  commandName : Option String
  cliVersion : Option String
  os : Option String
  arch : Option String
  isCI : Option Bool
  bucket : Int
  agg : ValueAgg
  points_pos : 0 < agg.points

structure ValueStats where
  count : Int
  datapointCount : Int
  sum : ℚ
  mean : Option ℚ
  min : Option ℚ
  max : Option ℚ
  p50 : Option ℚ
  p90 : Option ℚ
  p99 : Option ℚ
  hitRate : Option ℚ
  deriving DecidableEq

/-- `valueAgg.stats`. -/
def valueStats (a : ValueAgg) : ValueStats where
  count := a.count
  datapointCount := a.points
  sum := a.sum.getD 0
  mean := if a.count > 0 then some (a.sum.getD 0 / (a.count : ℚ)) else none
  min := a.min
  max := a.max
  p50 := a.quantile valueBounds (50 / 100)
  p90 := a.quantile valueBounds (90 / 100)
  p99 := a.quantile valueBounds (99 / 100)
  hitRate := if a.count > 0 then some (1 - (a.buckets 0 : ℚ) / (a.count : ℚ)) else none

/-- The filters that the vendor-metric queries read. -/
structure Filters where
  from_ : Int
  to_ : Int
  commandNames : List String := []
  cliVersions : List String := []
  oses : List String := []
  arches : List String := []
  isCI : Option Bool := none
  services : List String := []
  limit : Int := 0
  offset : Int := 0

/-- A backstop against pages without a bound. -/
def clampLimit (limit : Int) : Int :=
  if limit ≤ 0 then 100
  else if limit > 1000 then 1000
  else limit

theorem clampLimit_pos (limit : Int) : 0 < clampLimit limit := by
  unfold clampLimit
  split_ifs <;> omega

theorem clampLimit_page {L : ℕ} (hL : 1 ≤ L) (hmax : L ≤ 1000) : (clampLimit (L : Int)).toNat = L := by
  unfold clampLimit
  rw [if_neg (by omega), if_neg (by omega), Int.toNat_natCast]

/-- `col = ANY(values)`, which a null column does not satisfy. -/
def anyOf (values : List String) (col : Option String) : Bool := col.any (· ∈ values)

/-- `addIfAnyStr`: no condition for an empty list. -/
def ifAnyStr (values : List String) (col : Option String) : Bool := values = [] || anyOf values col

def vendorPredicates (tenant : UUID) (f : Filters) (row : ValueRow) : Bool :=
  row.tenantID = tenant && decide (f.from_ ≤ row.bucket) && decide (row.bucket < f.to_) &&
    ifAnyStr f.commandNames row.commandName && ifAnyStr f.cliVersions row.cliVersion && ifAnyStr f.oses row.os &&
    ifAnyStr f.arches row.arch && f.isCI.all (row.isCI = some ·) && ifAnyStr f.services row.serviceName

/-- `addWhere`: for every key with values, the label carries one of them. -/
def DimQuery.whereHolds (d : DimQuery) (label : Option String) : Bool :=
  d.where_.entries.all (fun e =>
    e.2 = [] ||
      match dimExpr label e.1 with
      | .ok value => anyOf e.2 value
      | .error _ => false)

inductive Bucket where
  | hour
  | day
  | week
  | month
  | other (name : String)
  deriving DecidableEq

def Bucket.text : Bucket → String
  | .hour => "hour"
  | .day => "day"
  | .week => "week"
  | .month => "month"
  | .other name => name

/-- The granularities, finest first. -/
def bucketRank : Bucket → Option Nat
  | .hour => some 0
  | .day => some 1
  | .week => some 2
  | .month => some 3
  | .other _ => none

inductive QueryError where
  | unsupportedBucket (b : Bucket)
  | finerBucket (b grain : Bucket)
  | negativeOffset
  deriving DecidableEq

def QueryError.text (isPrint : Char → Bool) : QueryError → String
  | .unsupportedBucket b => "storage: unsupported bucket " ++ gostrings.quote isPrint b.text
  | .finerBucket b grain =>
    "storage: bucket " ++ gostrings.quote isPrint b.text ++ " is finer than this rollup's " ++
      gostrings.quote isPrint grain.text ++ " granularity"
  | .negativeOffset => "storage: value series: ERROR: OFFSET must not be negative (SQLSTATE 2201X)"

/-- How a rollup of one granularity is grouped into another, given `date_trunc` in UTC. -/
def rebucket (dateTrunc : Bucket → Int → Int) (b grain : Bucket) : Except QueryError (Int → Int) :=
  match bucketRank b with
  | none => .error (.unsupportedBucket b)
  | some rank =>
    if rank < (bucketRank grain).getD 0 then .error (.finerBucket b grain)
    else if b = grain then .ok id
    else .ok (dateTrunc b)

structure ValuePoint where
  bucket : Int
  stats : ValueStats
  deriving DecidableEq

structure ValueLabelStats where
  label : Option String
  stats : ValueStats
  deriving DecidableEq

structure ValueDetail where
  name : String
  unit : String
  stats : ValueStats
  series : List ValuePoint
  labels : List ValueLabelStats
  deriving DecidableEq

/-- The values rollups, hourly and daily. -/
structure ValueRollups where
  hourly : List ValueRow
  daily : List ValueRow

/-- One call of `ValueSeries`, without the breakdown by dimensions and the reach. -/
structure ValueQuery where
  tenant : UUID
  filters : Filters
  name : String
  label : Option String
  dims : DimQuery
  bucket : Bucket

namespace ValueQuery

variable (rollups : ValueRollups) (c : ValueQuery)

def table : List ValueRow := if c.bucket = .hour then rollups.hourly else rollups.daily

def grain : Bucket := if c.bucket = .hour then .hour else .day

def predicates (withLabel : Bool) (row : ValueRow) : Bool :=
  vendorPredicates c.tenant c.filters row && decide (row.valueName = some c.name) &&
    (!withLabel || c.label.all (row.valueLabel = some ·)) && c.dims.whereHolds row.valueLabel

/-- The rows of the window that satisfy the filters. -/
def rows : List ValueRow := (c.table rollups).filter (c.predicates true)

/-- What the query selects for a group of rows. -/
def aggregates (group : List ValueRow) : ValueAgg := (group.map ValueRow.agg).sum

/-- What the first query returns for a bucket. -/
structure SeriesRow where
  bucket : Int
  unit : String
  agg : ValueAgg

def seriesRow (bucketExpr : Int → Int) (k : Int) : SeriesRow :=
  let group := groupby.group (fun row : ValueRow => bucketExpr row.bucket) (c.rows rollups) k
  { bucket := k, unit := (group.map ValueRow.valueUnit).max?.getD "", agg := aggregates group }

/-- The buckets of the window, oldest first. -/
def buckets (bucketExpr : Int → Int) : List Int :=
  groupby.keys (fun row : ValueRow => bucketExpr row.bucket) (c.rows rollups)

/-- The page of buckets that the first query returns. -/
def seriesRows (bucketExpr : Int → Int) : List SeriesRow :=
  (groupby.page c.filters.offset.toNat (clampLimit c.filters.limit).toNat (c.buckets rollups bucketExpr)).map
    (c.seriesRow rollups bucketExpr)

/-- By count, largest first, then by label with null last. -/
def labelBefore (a b : Option String × ValueAgg) : Bool :=
  a.2.count > b.2.count ||
    (a.2.count = b.2.count &&
      match a.1, b.1 with
      | some x, some y => decide (x ≤ y)
      | _, none => true
      | none, some _ => false)

/-- What the second query returns: a page of labels. -/
def labelRows : List (Option String × ValueAgg) :=
  let rows := (c.table rollups).filter (c.predicates false)
  let labels := (rows.map ValueRow.valueLabel).dedup
  let groups := labels.map (fun label => (label, aggregates (rows.filter (fun row => row.valueLabel = label))))
  (groups.insertionSort (fun a b => labelBefore a b = true)).take (clampLimit c.filters.limit).toNat

end ValueQuery

/-- One value's statistics per bucket, over the window and per label. -/
def valueSeries (dateTrunc : Bucket → Int → Int) (rollups : ValueRollups) (c : ValueQuery) :
    Except QueryError ValueDetail := do
  let bucketExpr ← rebucket dateTrunc c.bucket c.grain
  if c.filters.offset < 0 then throw .negativeOffset
  let rows := c.seriesRows rollups bucketExpr
  let window := rows.foldl (fun window row => window.merge row.agg) HistAgg.zero
  pure
    { name := c.name
      unit := rows.foldl (fun _ row => row.unit) "1"
      stats := valueStats window
      series := rows.map (fun row => { bucket := row.bucket, stats := valueStats row.agg })
      labels := (c.labelRows rollups).map (fun l => { label := l.1, stats := valueStats l.2 }) }

/-- A row of the logs table. Its time is in microseconds, as the database keeps it. -/
structure StoredLog extends LogRow where
  id : UUID

/-- The logs table with its primary key. -/
structure LogTable where
  rows : List StoredLog
  primaryKey : (rows.map (fun r => (r.tenantID, r.time, r.id))).Nodup

/-- The place of a row by time and id. -/
def placeOf (time : Int) (id : UUID) : Int ×ₗ ℕ := toLex (time, id.toNat)

/-- The install-attributed completions of a tenant that satisfy the filters. -/
def sessionEventPredicates (tenant : UUID) (f : Filters) (row : StoredLog) : Bool :=
  row.tenantID = tenant && row.eventName = eventCommandCompleted && decide (f.from_ ≤ row.time) &&
    decide (row.time < f.to_) && (row.logAttributes.lookup attrInstallID).isSome &&
    ifAnyStr f.commandNames row.commandName && ifAnyStr f.cliVersions row.cliVersion && ifAnyStr f.oses row.os &&
    ifAnyStr f.arches row.arch && f.isCI.all (row.isCI = some ·)

theorem tenantID_of_sessionEventPredicates {tenant : UUID} {f : Filters} {row : StoredLog}
    (h : sessionEventPredicates tenant f row = true) : row.tenantID = tenant := by
  simp only [sessionEventPredicates, Bool.and_eq_true, decide_eq_true_eq, and_assoc] at h
  exact h.1

/-- What is read off some rows of one tenant has different places. -/
theorem LogTable.nodup_filterMap {α : Type} (table : LogTable) {tenant : UUID} {p : StoredLog → Bool}
    {read : StoredLog → Option α} {place : α → Int ×ₗ ℕ} (hp : ∀ r, p r = true → r.tenantID = tenant)
    (hread : ∀ r a, read r = some a → place a = placeOf r.time r.id) :
    (((table.rows.filter p).filterMap read).map place).Nodup := by
  have hrows : (table.rows.filter p).Pairwise (fun x y => placeOf x.time x.id ≠ placeOf y.time y.id) := by
    have hkey := (List.pairwise_map.mp table.primaryKey).filter p
    refine hkey.imp_of_mem (fun {x y} hx hy hne heq => hne ?_)
    obtain ⟨htime, hid⟩ := Prod.mk.inj (toLex.injective heq)
    rw [hp x (List.mem_filter.mp hx).2, hp y (List.mem_filter.mp hy).2, htime, BitVec.eq_of_toNat_eq hid]
  refine List.pairwise_map.mpr (List.pairwise_filterMap.mpr (hrows.imp ?_))
  intro x y hne a ha b hb
  rwa [hread x a ha, hread y b hb]

/-- The log of a completed command of the install `i`, at a second. -/
def completedLog (second : Int) (id : UUID) (command : String) : StoredLog :=
  { (default : LogRow) with
    time := second * 1000000
    tenantID := 1
    eventName := eventCommandCompleted
    commandName := some command
    logAttributes := Finmap.singleton attrInstallID (.str "i")
    id }

def hourOfLogs : List StoredLog :=
  [completedLog 0 1 "init", completedLog 20 2 "build", completedLog 30 3 "build", completedLog 3600 4 "test"]

theorem nodup_hourOfLogs : (hourOfLogs.map (fun r => (r.tenantID, r.time, r.id))).Nodup := by decide

/-- Three commands within half a minute, and one an hour later. -/
def hourTable : LogTable := ⟨hourOfLogs, nodup_hourOfLogs⟩

def wholeHour : Filters where
  from_ := 0
  to_ := 3601 * 1000000

end argvio.storage
