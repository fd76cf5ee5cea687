import Argvio.Storage.ValueWindow

open List

namespace argvio.storage

/-- The queries that count installs per bucket or group. -/
inductive CountQuery where
  | activeInstalls
  | reach
  | reachPerGroup
  deriving DecidableEq

def CountQuery.text : CountQuery → String
  | .activeInstalls => "active installs"
  | .reach => "reach"
  | .reachPerGroup => "reach per group"

inductive InstallCountError where
  | bucket (err : QueryError)
  | negativeOffset
  | scan (query : CountQuery)
  deriving DecidableEq

/-- The text of an error, given that of a scan of NULL into an integer. -/
def InstallCountError.text (isPrint : Char → Bool) (scanNull : String) : InstallCountError → String
  | .bucket err => err.text isPrint
  | .negativeOffset => "storage: active installs: ERROR: OFFSET must not be negative (SQLSTATE 2201X)"
  | .scan query => "storage: scan " ++ query.text ++ ": " ++ scanNull

/-- The install ids that a sketch is fed; `hyperloglog()` ignores NULLs. -/
def installIDs (points : List (Option String)) : Finset String := (points.filterMap id).toFinset

/-- `distinct_count(rollup(install_hll))` over some points: an estimate, and NULL over no ids. -/
def distinctCount (estimate : Finset String → Int) (points : List (Option String)) : Option Int :=
  if installIDs points = ∅ then none else some (estimate (installIDs points))

/-- Scans each row's key and count, the count into an integer that takes no NULL. -/
def scanCounts {κ : Type} (query : CountQuery) (rows : List (κ × Option Int)) :
    Except InstallCountError (List (κ × Int)) :=
  rows.mapM (fun row =>
    match row.2 with
    | some n => .ok (row.1, n)
    | none => .error (.scan query))

/-- The count of each of some groups of rows. -/
def countsOf {ρ κ : Type} [DecidableEq κ] (estimate : Finset String → Int) (key : ρ → κ)
    (points : ρ → List (Option String)) (rows : List ρ) (ks : List κ) : List (κ × Option Int) :=
  ks.map (fun k => (k, distinctCount estimate ((rows.filter (fun r => key r = k)).flatMap points)))

/-- A row of `cagg_session_activity_daily`: the sessions of a day that agree on every
dimension, each with its install id if it carries one. -/
structure SessionRow where
  tenantID : UUID
  cliVersion : Option String
  os : Option String
  arch : Option String
  isCI : Option Bool
  bucket : Int
  sessions : List (Option String)
  sessions_ne_nil : sessions ≠ []

def sessionActivityPredicates (tenant : UUID) (f : Filters) (row : SessionRow) : Bool :=
  row.tenantID = tenant && decide (f.from_ ≤ row.bucket) && decide (row.bucket < f.to_) &&
    ifAnyStr f.cliVersions row.cliVersion && ifAnyStr f.oses row.os && ifAnyStr f.arches row.arch &&
    f.isCI.all (row.isCI = some ·)

structure ActiveInstallsPoint where
  bucket : Int
  activeInstalls : Int
  deriving DecidableEq

section Queries

variable (estimate : Finset String → Int) (dateTrunc : Bucket → Int → Int) (sessions : List SessionRow) (tenant : UUID)
  (f : Filters)

/-- The buckets of the page that `ActiveInstalls` returns. -/
def activeBuckets (bucketExpr : Int → Int) : List Int :=
  groupby.page f.offset.toNat (clampLimit f.limit).toNat
    (groupby.keys (fun row : SessionRow => bucketExpr row.bucket) (sessions.filter (sessionActivityPredicates tenant f)))

def activeInstalls (bucket : Bucket) : Except InstallCountError (List ActiveInstallsPoint) := do
  let bucketExpr ← (rebucket dateTrunc bucket .day).mapError .bucket
  if f.offset < 0 then throw .negativeOffset
  let rows := sessions.filter (sessionActivityPredicates tenant f)
  let counts ← scanCounts .activeInstalls (countsOf estimate (fun row : SessionRow => bucketExpr row.bucket)
    SessionRow.sessions rows (activeBuckets sessions tenant f bucketExpr))
  pure (counts.map (fun e => ⟨e.1, e.2⟩))

/-- A row of a rollup of counters, measures or values: the data points of an hour or a day
that agree on every dimension, each with its install id if it carries one. -/
structure VendorRow where
  tenantID : UUID
  name : Option String
  label : Option String
  serviceName : Option String
  commandName : Option String
  cliVersion : Option String
  os : Option String
  arch : Option String
  isCI : Option Bool
  bucket : Int
  points : List (Option String)
  points_ne_nil : points ≠ []

def VendorRow.datapointCount (row : VendorRow) : Int := row.points.length

def VendorRow.installDatapointCount (row : VendorRow) : Int := (row.points.filterMap id).length

/-- A counter's, measure's or value's rollups. -/
structure VendorRollups where
  hourly : List VendorRow
  daily : List VendorRow

/-- The rows that one series is made of. The arguments of the three series are the same. -/
def VendorRollups.rows (rollups : VendorRollups) (c : ValueQuery) : List VendorRow :=
  (if c.bucket = .hour then rollups.hourly else rollups.daily).filter (fun row =>
    row.tenantID = c.tenant && decide (c.filters.from_ ≤ row.bucket) && decide (row.bucket < c.filters.to_) &&
      ifAnyStr c.filters.commandNames row.commandName && ifAnyStr c.filters.cliVersions row.cliVersion &&
      ifAnyStr c.filters.oses row.os && ifAnyStr c.filters.arches row.arch &&
      c.filters.isCI.all (row.isCI = some ·) && ifAnyStr c.filters.services row.serviceName &&
      decide (row.name = some c.name) && c.label.all (row.label = some ·) && c.dims.whereHolds row.label)

structure Reach where
  installsReached : Int
  reportedShare : Option ℚ
  activeInstalls : Int
  activeShare : Option ℚ
  deriving DecidableEq

structure ReachResult where
  window : Reach
  perBucket : GoMap Int Int
  perGroup : GoMap (List UInt8) Int

/-- `sum` in SQL, which is NULL over no rows. -/
def sqlSum : List Int → Option Int
  | [] => none
  | l => some l.sum

/-- The values of the grouped-by keys in a label; a key's pattern always compiles. -/
def DimQuery.groupValues (d : DimQuery) (label : Option String) : List (Option String) :=
  d.groupBy.map (fun key =>
    match dimExpr label key with
    | .ok value => value
    | .error _ => none)

/-- A comparable identity for a group's values. -/
def groupKey (values : List (Option String)) : List UInt8 :=
  values.flatMap (fun
    | none => [0, 0xff]
    | some v => 1 :: v.toUTF8.toList ++ [0xff])

/-- The reach over a window whose data points and active installs are counted. -/
def windowReach (rows : List VendorRow) : Reach :=
  let reached := (distinctCount estimate (rows.flatMap VendorRow.points)).getD 0
  let active := distinctCount estimate
    ((sessions.filter (sessionActivityPredicates tenant f)).flatMap SessionRow.sessions)
  { installsReached := reached
    reportedShare :=
      match sqlSum (rows.map VendorRow.datapointCount), sqlSum (rows.map VendorRow.installDatapointCount) with
      | some points, some withInstall => if points > 0 then some ((withInstall : ℚ) / points) else none
      | _, _ => none
    activeInstalls := active.getD 0
    activeShare := active.bind (fun n => if n > 0 then some ((reached : ℚ) / n) else none) }

/-- Counts the installs behind some rows of a vendor rollup: over the window, per bucket and,
if the query groups by dimensions, per group. -/
def reach (rows : List VendorRow) (bucketExpr : Int → Int) (dims : DimQuery) : Except InstallCountError ReachResult := do
  let bucketOf := fun row : VendorRow => bucketExpr row.bucket
  let perBucket ← scanCounts .reach (countsOf estimate bucketOf VendorRow.points rows (rows.map bucketOf).dedup)
  let window := windowReach estimate sessions tenant f rows
  if dims.groupBy = [] then
    return { window, perBucket := GoMap.putAll ∅ perBucket, perGroup := ∅ }
  let groupOf := fun row : VendorRow => dims.groupValues row.label
  let perGroup ← scanCounts .reachPerGroup (countsOf estimate groupOf VendorRow.points rows (rows.map groupOf).dedup)
  return {
    window
    perBucket := GoMap.putAll ∅ perBucket
    perGroup := GoMap.putAll ∅ (perGroup.map (fun e => (groupKey e.1, e.2))) }

end Queries

/-- What the reach adds to a series: the window's reach, and the installs behind each bucket
and each group of the response. -/
structure SeriesReach where
  window : Reach
  series : List (Int × Int)
  groups : List (List (Option String) × Int)

/-- The reach part of a series query, for a response with some buckets and groups. -/
def seriesReach (estimate : Finset String → Int) (dateTrunc : Bucket → Int → Int) (sessions : List SessionRow)
    (rollups : VendorRollups) (c : ValueQuery) (series : List Int) (groups : List (List (Option String))) :
    Except InstallCountError SeriesReach := do
  let bucketExpr ← (rebucket dateTrunc c.bucket c.grain).mapError .bucket
  let r ← reach estimate sessions c.tenant c.filters (rollups.rows c) bucketExpr c.dims
  return {
    window := r.window
    series := series.map (fun b => (b, (r.perBucket.lookup b).getD 0))
    groups := groups.map (fun values => (values, (r.perGroup.lookup (groupKey values)).getD 0)) }

/-- What the install counts are read from. -/
structure InstallData where
  counters : VendorRollups
  measures : VendorRollups
  values : VendorRollups
  sessions : List SessionRow

section Series

variable (estimate : Finset String → Int) (dateTrunc : Bucket → Int → Int) (data : InstallData) (c : ValueQuery)
  (series : List Int) (groups : List (List (Option String)))

def counterSeriesReach : Except InstallCountError SeriesReach :=
  seriesReach estimate dateTrunc data.sessions data.counters c series groups

def measureSeriesReach : Except InstallCountError SeriesReach :=
  seriesReach estimate dateTrunc data.sessions data.measures c series groups

def valueSeriesReach : Except InstallCountError SeriesReach :=
  seriesReach estimate dateTrunc data.sessions data.values c series groups

end Series

theorem distinctCount_ne_none_iff {estimate : Finset String → Int} {points : List (Option String)} :
    distinctCount estimate points ≠ none ↔ ∃ id, some id ∈ points := by
  have hempty : installIDs points = ∅ ↔ ¬ ∃ id, some id ∈ points := by
    unfold installIDs
    rw [toFinset_eq_empty_iff, filterMap_eq_nil_iff, not_exists]
    constructor
    · intro hnone id hid
      cases hnone _ hid
    · intro hnone p hp
      cases p with
      | none => rfl
      | some id => exact absurd hp (hnone id)
  unfold distinctCount
  split
  · rename_i hids
    exact iff_of_false (not_not_intro rfl) (hempty.mp hids)
  · rename_i hids
    exact iff_of_true nofun (not_not.mp (mt hempty.mpr hids))

variable {κ : Type} {query : CountQuery} {rows : List (κ × Option Int)}

/-- A scan that succeeds has read every row's key and count. -/
theorem scanCounts_eq_ok_iff {out : List (κ × Int)} :
    scanCounts query rows = .ok out ↔ rows = out.map (fun e => (e.1, some e.2)) := by
  unfold scanCounts
  induction rows generalizing out with
  | nil =>
    constructor
    · intro hout
      cases hout
      rfl
    · intro hout
      rw [map_eq_nil_iff.mp hout.symm]
      rfl
  | cons row rows ih =>
    obtain ⟨k, count⟩ := row
    rw [mapM_cons]
    cases count with
    | none =>
      refine iff_of_false nofun fun heq => ?_
      cases out <;> simp at heq
    | some n =>
      simp only [Except.bind_eq_ok_iff, ih]
      cases out with
      | nil => simp [pure, Except.pure]
      | cons e out => simp [pure, Except.pure, Prod.ext_iff, and_comm]

theorem exists_scanCounts_iff : (∃ out, scanCounts query rows = .ok out) ↔ ∀ row ∈ rows, row.2 ≠ none := by
  simp only [scanCounts_eq_ok_iff]
  constructor
  · rintro ⟨out, rfl⟩ row hrow
    obtain ⟨e, _, rfl⟩ := mem_map.mp hrow
    exact Option.some_ne_none _
  intro hcounts
  refine ⟨rows.map (fun row => (row.1, row.2.getD 0)), ?_⟩
  rw [map_map]
  conv_lhs => rw [← map_id rows]
  refine map_congr_left fun row hrow => ?_
  obtain ⟨n, hn⟩ := Option.ne_none_iff_exists'.mp (hcounts row hrow)
  simp [hn, Prod.ext_iff]

section Groups

variable {ρ κ : Type} [DecidableEq κ] {estimate : Finset String → Int} {key : ρ → κ} {points : ρ → List (Option String)}
  {rows : List ρ}

/-- Some row of a group has an install id. -/
def Reported (key : ρ → κ) (points : ρ → List (Option String)) (rows : List ρ) (k : κ) : Prop :=
  ∃ r ∈ rows, key r = k ∧ ∃ id, some id ∈ points r

/-- There are rows of a group, and none of them has an install id. -/
def Anonymous (key : ρ → κ) (points : ρ → List (Option String)) (rows : List ρ) (k : κ) : Prop :=
  (∃ r ∈ rows, key r = k) ∧ ¬ Reported key points rows k

variable (estimate) in
theorem exists_scanCounts_countsOf_iff (query : CountQuery) {ks : List κ} :
    (∃ out, scanCounts query (countsOf estimate key points rows ks) = .ok out) ↔
      ∀ k ∈ ks, Reported key points rows k := by
  rw [exists_scanCounts_iff]
  unfold countsOf
  rw [forall_mem_map]
  refine forall₂_congr fun k _ => ?_
  rw [distinctCount_ne_none_iff]
  unfold Reported
  constructor
  · rintro ⟨id, hid⟩
    obtain ⟨r, hr, hid⟩ := mem_flatMap.mp hid
    obtain ⟨hr, hkey⟩ := mem_filter.mp hr
    exact ⟨r, hr, of_decide_eq_true hkey, id, hid⟩
  · rintro ⟨r, hr, hkey, id, hid⟩
    exact ⟨id, mem_flatMap.mpr ⟨r, mem_filter.mpr ⟨hr, decide_eq_true hkey⟩, hid⟩⟩

theorem mem_of_scanCounts_countsOf {ks : List κ} {counts : List (κ × Int)} {e : κ × Int}
    (hcounts : scanCounts query (countsOf estimate key points rows ks) = .ok counts) (he : e ∈ counts) : e.1 ∈ ks := by
  have hmem : (e.1, some e.2) ∈ countsOf estimate key points rows ks := by
    rw [scanCounts_eq_ok_iff.mp hcounts]
    exact mem_map_of_mem he
  obtain ⟨k, hk, heq⟩ := mem_map.mp hmem
  have hkey : k = e.1 := congrArg Prod.fst heq
  rwa [← hkey]

theorem forall_reported_iff :
    (∀ k ∈ (rows.map key).dedup, Reported key points rows k) ↔ ∀ k, ¬ Anonymous key points rows k := by
  unfold Anonymous
  simp only [mem_dedup, mem_map, not_and, not_not]

end Groups

section Reach

variable {estimate : Finset String → Int} {dateTrunc : Bucket → Int → Int} {sessions : List SessionRow} {tenant : UUID}
  {f : Filters}

variable {b : Bucket} {bucketExpr : Int → Int}

theorem exists_reach_iff {rows : List VendorRow} {dims : DimQuery} :
    (∃ r, reach estimate sessions tenant f rows bucketExpr dims = .ok r) ↔
      (∀ k, ¬ Anonymous (fun row : VendorRow => bucketExpr row.bucket) VendorRow.points rows k) ∧
        (dims.groupBy ≠ [] →
          ∀ values, ¬ Anonymous (fun row : VendorRow => dims.groupValues row.label) VendorRow.points rows values) := by
  rw [← forall_reported_iff, ← forall_reported_iff,
    ← exists_scanCounts_countsOf_iff estimate .reach, ← exists_scanCounts_countsOf_iff estimate .reachPerGroup]
  unfold reach
  constructor
  · rintro ⟨r, hr⟩
    rw [Except.bind_eq_ok_iff] at hr
    obtain ⟨perBucket, hperBucket, hr⟩ := hr
    refine ⟨⟨perBucket, hperBucket⟩, fun hgroupBy => ?_⟩
    dsimp only at hr
    rw [if_neg hgroupBy, Except.bind_eq_ok_iff] at hr
    obtain ⟨perGroup, hperGroup, _⟩ := hr
    exact ⟨perGroup, hperGroup⟩
  · rintro ⟨⟨perBucket, hperBucket⟩, hgroups⟩
    dsimp only
    rw [hperBucket]
    dsimp only [bind, Except.bind]
    by_cases hgroupBy : dims.groupBy = []
    · rw [if_pos hgroupBy]
      exact ⟨_, rfl⟩
    · obtain ⟨perGroup, hperGroup⟩ := hgroups hgroupBy
      rw [if_neg hgroupBy, hperGroup]
      exact ⟨_, rfl⟩

/-- The sizes a daily rollup can be broken into. -/
def Bucket.Daily (b : Bucket) : Prop := b = .day ∨ b = .week ∨ b = .month

theorem rebucket_day_ok_iff :
    rebucket dateTrunc b .day = .ok bucketExpr ↔ b.Daily ∧ bucketExpr = b.startOf dateTrunc := by
  cases b <;> simp [rebucket, bucketRank, Bucket.Daily, Bucket.startOf, eq_comm]

theorem rebucket_grain_ok_iff {c : ValueQuery} :
    rebucket dateTrunc c.bucket c.grain = .ok bucketExpr ↔
      c.bucket.Supported ∧ bucketExpr = c.bucket.startOf dateTrunc := by
  unfold ValueQuery.grain Bucket.Supported
  cases c.bucket <;> simp [rebucket, bucketRank, Bucket.startOf, eq_comm]

theorem mapError_eq_ok_iff {ε ε' α : Type} {x : Except ε α} {g : ε → ε'} {a : α} :
    x.mapError g = .ok a ↔ x = .ok a := by
  cases x <;> simp [Except.mapError]

theorem activeInstalls_eq_ok_iff {points : List ActiveInstallsPoint} :
    activeInstalls estimate dateTrunc sessions tenant f b = .ok points ↔
      b.Daily ∧ 0 ≤ f.offset ∧ ∃ counts,
        scanCounts .activeInstalls (countsOf estimate (fun row : SessionRow => b.startOf dateTrunc row.bucket)
          SessionRow.sessions (sessions.filter (sessionActivityPredicates tenant f))
          (activeBuckets sessions tenant f (b.startOf dateTrunc))) = .ok counts ∧
        points = counts.map (fun e => ⟨e.1, e.2⟩) := by
  unfold activeInstalls
  constructor
  · intro hpoints
    rw [Except.bind_eq_ok_iff] at hpoints
    obtain ⟨bucketExpr, hexpr, hpoints⟩ := hpoints
    rw [mapError_eq_ok_iff, rebucket_day_ok_iff] at hexpr
    obtain ⟨hb, rfl⟩ := hexpr
    split at hpoints
    · cases hpoints
    rename_i hoffset
    rw [Except.bind_eq_ok_iff] at hpoints
    obtain ⟨counts, hcounts, hpoints⟩ := hpoints
    cases hpoints
    exact ⟨hb, not_lt.mp hoffset, counts, hcounts, rfl⟩
  · rintro ⟨hb, hoffset, counts, hcounts, rfl⟩
    rw [rebucket_day_ok_iff.mpr ⟨hb, rfl⟩]
    dsimp only [Except.mapError, bind, Except.bind]
    rw [if_neg (not_lt.mpr hoffset)]
    dsimp only [pure, Except.pure]
    rw [hcounts]

/-- `ActiveInstalls` answers, with 0 for every bucket whose sessions carry no install id. -/
def ActiveInstallsAnswers (estimate : Finset String → Int) (dateTrunc : Bucket → Int → Int)
    (sessions : List SessionRow) (tenant : UUID) (f : Filters) (b : Bucket) : Prop :=
  ∃ points, activeInstalls estimate dateTrunc sessions tenant f b = .ok points ∧
    ∀ point ∈ points, Anonymous (fun row : SessionRow => b.startOf dateTrunc row.bucket) SessionRow.sessions
      (sessions.filter (sessionActivityPredicates tenant f)) point.bucket → point.activeInstalls = 0

theorem activeInstallsAnswers_iff :
    ActiveInstallsAnswers estimate dateTrunc sessions tenant f b ↔
      b.Daily ∧ 0 ≤ f.offset ∧ ∀ k ∈ activeBuckets sessions tenant f (b.startOf dateTrunc),
        Reported (fun row : SessionRow => b.startOf dateTrunc row.bucket) SessionRow.sessions
          (sessions.filter (sessionActivityPredicates tenant f)) k := by
  rw [← exists_scanCounts_countsOf_iff estimate .activeInstalls]
  constructor
  · rintro ⟨points, hpoints, _⟩
    obtain ⟨hb, hoffset, counts, hcounts, _⟩ := activeInstalls_eq_ok_iff.mp hpoints
    exact ⟨hb, hoffset, counts, hcounts⟩
  rintro ⟨hb, hoffset, counts, hcounts⟩
  refine ⟨_, activeInstalls_eq_ok_iff.mpr ⟨hb, hoffset, counts, hcounts, rfl⟩, ?_⟩
  -- No bucket that was read is without an install id.
  intro point hpoint hanonymous
  obtain ⟨e, he, rfl⟩ := mem_map.mp hpoint
  refine absurd ?_ hanonymous.2
  refine (exists_scanCounts_countsOf_iff estimate .activeInstalls).mp ⟨counts, hcounts⟩ e.1 ?_
  exact mem_of_scanCounts_countsOf hcounts he

/-- A series is given its reach, with 0 for every bucket and every group whose data points
carry no install id. -/
def ReachAnswers (dateTrunc : Bucket → Int → Int) (rollups : VendorRollups) (c : ValueQuery)
    (result : Except InstallCountError SeriesReach) : Prop :=
  ∃ part, result = .ok part ∧
    (∀ e ∈ part.series, Anonymous (fun row : VendorRow => c.bucket.startOf dateTrunc row.bucket) VendorRow.points
      (rollups.rows c) e.1 → e.2 = 0) ∧
    (c.dims.groupBy ≠ [] → ∀ e ∈ part.groups, Anonymous (fun row : VendorRow => c.dims.groupValues row.label)
      VendorRow.points (rollups.rows c) e.1 → e.2 = 0)

/-- Every bucket of a series, and every group if it is broken down, has an install id. -/
def VendorRollups.AllReported (dateTrunc : Bucket → Int → Int) (rollups : VendorRollups) (c : ValueQuery) : Prop :=
  (∀ k, ¬ Anonymous (fun row : VendorRow => c.bucket.startOf dateTrunc row.bucket) VendorRow.points (rollups.rows c) k) ∧
    (c.dims.groupBy ≠ [] →
      ∀ values, ¬ Anonymous (fun row : VendorRow => c.dims.groupValues row.label) VendorRow.points (rollups.rows c) values)

theorem reachAnswers_iff (rollups : VendorRollups) (c : ValueQuery) (series : List Int)
    (groups : List (List (Option String))) :
    ReachAnswers dateTrunc rollups c (seriesReach estimate dateTrunc sessions rollups c series groups) ↔
      c.bucket.Supported ∧ rollups.AllReported dateTrunc c := by
  unfold VendorRollups.AllReported
  constructor
  · rintro ⟨part, hpart, _⟩
    unfold seriesReach at hpart
    rw [Except.bind_eq_ok_iff] at hpart
    obtain ⟨bucketExpr, hexpr, hpart⟩ := hpart
    rw [mapError_eq_ok_iff, rebucket_grain_ok_iff] at hexpr
    obtain ⟨hsupported, rfl⟩ := hexpr
    rw [Except.bind_eq_ok_iff] at hpart
    obtain ⟨r, hr, _⟩ := hpart
    exact ⟨hsupported, exists_reach_iff.mp ⟨r, hr⟩⟩
  · rintro ⟨hsupported, hreported⟩
    obtain ⟨r, hr⟩ : ∃ r, reach estimate sessions c.tenant c.filters (rollups.rows c) (c.bucket.startOf dateTrunc)
        c.dims = .ok r := exists_reach_iff.mpr hreported
    obtain ⟨part, hpart⟩ : ∃ part, seriesReach estimate dateTrunc sessions rollups c series groups = .ok part := by
      unfold seriesReach
      rw [rebucket_grain_ok_iff.mpr ⟨hsupported, rfl⟩]
      dsimp only [Except.mapError, bind, Except.bind]
      rw [hr]
      exact ⟨_, rfl⟩
    exact ⟨part, hpart, fun e _ hanonymous => absurd hanonymous (hreported.1 e.1),
      fun hgroupBy e _ hanonymous => absurd hanonymous (hreported.2 hgroupBy e.1)⟩

/-- The install counts are returned exactly when the bucket size and the page are valid and
no bucket or group that is read is without an install id. -/
theorem install_counts_answer_iff (estimate : Finset String → Int) (dateTrunc : Bucket → Int → Int) (data : InstallData)
    (c : ValueQuery) (series : List Int) (groups : List (List (Option String))) :
    (ActiveInstallsAnswers estimate dateTrunc data.sessions c.tenant c.filters c.bucket ↔
      c.bucket.Daily ∧ 0 ≤ c.filters.offset ∧
        ∀ k ∈ activeBuckets data.sessions c.tenant c.filters (c.bucket.startOf dateTrunc),
          Reported (fun row : SessionRow => c.bucket.startOf dateTrunc row.bucket) SessionRow.sessions
            (data.sessions.filter (sessionActivityPredicates c.tenant c.filters)) k) ∧
    (ReachAnswers dateTrunc data.counters c (counterSeriesReach estimate dateTrunc data c series groups) ↔
      c.bucket.Supported ∧ data.counters.AllReported dateTrunc c) ∧
    (ReachAnswers dateTrunc data.measures c (measureSeriesReach estimate dateTrunc data c series groups) ↔
      c.bucket.Supported ∧ data.measures.AllReported dateTrunc c) ∧
    (ReachAnswers dateTrunc data.values c (valueSeriesReach estimate dateTrunc data c series groups) ↔
      c.bucket.Supported ∧ data.values.AllReported dateTrunc c) :=
  ⟨activeInstallsAnswers_iff, reachAnswers_iff data.counters c series groups,
    reachAnswers_iff data.measures c series groups, reachAnswers_iff data.values c series groups⟩

end Reach

/-- A day with one session and one data point of a counter, neither with an install id. -/
def anonymousData : InstallData where
  counters :=
    { hourly := []
      daily := [⟨1, some "deploys", none, none, none, none, none, none, none, 0, [none], by decide⟩] }
  measures := ⟨[], []⟩
  values := ⟨[], []⟩
  sessions := [⟨1, none, none, none, none, 0, [none], by decide⟩]

def anonymousQuery : ValueQuery where
  tenant := 1
  filters := { from_ := 0, to_ := 1 }
  name := "deploys"
  label := none
  dims := { reach := true }
  bucket := .day

/-- Both counts fail on that day, though the database does not. -/
theorem install_counts_fail_on_anonymous_day :
    activeInstalls (fun ids => ids.card) (fun _ t => t) anonymousData.sessions 1 anonymousQuery.filters .day =
        .error (.scan .activeInstalls) ∧
      counterSeriesReach (fun ids => ids.card) (fun _ t => t) anonymousData anonymousQuery [0] [] =
        .error (.scan .reach) := by
  constructor
  · rfl
  · rfl

end argvio.storage
