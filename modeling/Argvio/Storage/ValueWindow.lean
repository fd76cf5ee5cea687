import Argvio.GoTypes
import Argvio.Storage.Values

namespace argvio.storage

variable {dateTrunc : Bucket → Int → Int} {rollups : ValueRollups} {c : ValueQuery}

/-- The sizes a series can be broken into. -/
def Bucket.Supported (b : Bucket) : Prop := (bucketRank b).isSome = true

/-- The bucket a row of the rollups falls in. -/
def Bucket.startOf (dateTrunc : Bucket → Int → Int) : Bucket → Int → Int
  | .hour => id
  | .day => id
  | b => dateTrunc b

theorem rebucket_grain (hbucket : c.bucket.Supported) :
    rebucket dateTrunc c.bucket c.grain = .ok (c.bucket.startOf dateTrunc) := by
  unfold ValueQuery.grain Bucket.Supported at *
  cases hb : c.bucket with
  | other name =>
    rw [hb] at hbucket
    cases hbucket
  | hour | day | week | month => rfl

/-- The same call for another page. -/
def ValueQuery.paged (c : ValueQuery) (limit offset : Int) : ValueQuery :=
  { c with filters := { c.filters with limit := limit, offset := offset } }

/-- The statistics of the merge of every row in the window. -/
def windowStats (rollups : ValueRollups) (c : ValueQuery) : ValueStats :=
  valueStats (((c.rows rollups).map ValueRow.agg).foldl HistAgg.merge .zero)

theorem foldl_seriesRows (rows : List ValueQuery.SeriesRow) :
    rows.foldl (fun window row => window.merge row.agg) HistAgg.zero = (rows.map ValueQuery.SeriesRow.agg).sum := by
  rw [← HistAgg.foldl_merge, List.foldl_map]

section Series

variable {bucketExpr : Int → Int}

/-- The buckets of the window together hold its rows. -/
theorem sum_seriesRow_buckets :
    ((c.buckets rollups bucketExpr).map (fun k => (c.seriesRow rollups bucketExpr k).agg)).sum =
      ((c.rows rollups).map ValueRow.agg).sum :=
  groupby.sum_groups ValueRow.agg

theorem points_seriesRow_pos {k : Int} (hk : k ∈ c.buckets rollups bucketExpr) :
    0 < (c.seriesRow rollups bucketExpr k).agg.points := by
  change 0 < (List.sum _ : ValueAgg).points
  rw [HistAgg.sum_points, List.map_map]
  exact groupby.sum_pos_of_ne_nil (fun row _ => row.points_pos) (groupby.group_ne_nil hk)

end Series

/-- What a call returns as statistics: those of its page of buckets. -/
theorem valueSeries_stats (hbucket : c.bucket.Supported) :
    (valueSeries dateTrunc rollups c).map ValueDetail.stats =
      if c.filters.offset < 0 then .error .negativeOffset
      else .ok (valueStats ((c.seriesRows rollups (c.bucket.startOf dateTrunc)).map ValueQuery.SeriesRow.agg).sum) := by
  unfold valueSeries
  rw [rebucket_grain hbucket]
  by_cases hoffset : c.filters.offset < 0
  · simp [hoffset, bind, Except.bind, throw, throwThe, MonadExceptOf.throw, Except.map]
  · simp [hoffset, bind, Except.bind, pure, Except.pure, Except.map, foldl_seriesRows]

/-- The statistics of a page are those of the whole window exactly when the page has
every bucket. -/
theorem stats_seriesRows_eq_iff {bucketExpr : Int → Int} (hoffset : 0 ≤ c.filters.offset) :
    valueStats ((c.seriesRows rollups bucketExpr).map ValueQuery.SeriesRow.agg).sum = windowStats rollups c ↔
      c.rows rollups = [] ∨
        c.filters.offset = 0 ∧ (c.buckets rollups bucketExpr).length ≤ clampLimit c.filters.limit := by
  have hlimit := clampLimit_pos c.filters.limit
  have hwhole := @sum_seriesRow_buckets rollups c bucketExpr
  unfold windowStats ValueQuery.seriesRows
  rw [HistAgg.foldl_merge, List.map_map]
  constructor
  · intro hstats
    -- Every bucket has a data point, so the data points tell whether one is missing.
    have hpoints := congrArg ValueStats.datapointCount hstats
    simp only [valueStats] at hpoints
    rw [← hwhole, HistAgg.sum_points, HistAgg.sum_points, List.map_map, List.map_map] at hpoints
    rcases groupby.covers_of_sum_page_eq (fun k hk => points_seriesRow_pos hk) hpoints with hnil | ⟨hzero, hlen⟩
    · exact .inl (groupby.keys_eq_nil_iff.mp hnil)
    · exact .inr ⟨by omega, by omega⟩
  · intro hcovers
    have hpage : groupby.page c.filters.offset.toNat (clampLimit c.filters.limit).toNat (c.buckets rollups bucketExpr) =
        c.buckets rollups bucketExpr := by
      rcases hcovers with hnil | ⟨hzero, hlen⟩
      · have hbuckets : c.buckets rollups bucketExpr = [] := groupby.keys_eq_nil_iff.mpr hnil
        rw [hbuckets]
        simp [groupby.page]
      · rw [hzero]
        exact groupby.page_of_length_le (by omega)
    rw [hpage, ← hwhole]
    rfl

/-- A call returns the statistics of the whole window exactly when the page has every
bucket of the window. -/
theorem valueSeries_window_iff (hbucket : c.bucket.Supported) (limit offset : Int) :
    (∃ detail, valueSeries dateTrunc rollups (c.paged limit offset) = .ok detail ∧ detail.stats = windowStats rollups c) ↔
      0 ≤ offset ∧ (c.rows rollups = [] ∨
        offset = 0 ∧ (c.buckets rollups (c.bucket.startOf dateTrunc)).length ≤ clampLimit limit) := by
  have hstats : (valueSeries dateTrunc rollups (c.paged limit offset)).map ValueDetail.stats =
      if offset < 0 then .error .negativeOffset
      else
        .ok (valueStats (((c.paged limit offset).seriesRows rollups (c.bucket.startOf dateTrunc)).map
          ValueQuery.SeriesRow.agg).sum) := valueSeries_stats hbucket
  have hpage := @stats_seriesRows_eq_iff rollups (c.paged limit offset) (c.bucket.startOf dateTrunc)
  rw [← Except.map_eq_ok_iff, hstats]
  by_cases hoffset : offset < 0
  · simp [hoffset]
  · have hnonneg : 0 ≤ offset := not_lt.mp hoffset
    rw [if_neg hoffset, Except.ok.injEq, and_iff_right hnonneg]
    exact hpage hnonneg

/-- One value recorded in an hour. -/
def oneValue (bucket : Int) : ValueRow where
  tenantID := 1
  valueName := some "scan.findings"
  valueLabel := none
  valueUnit := "1"
  serviceName := none
  commandName := none
  cliVersion := none
  os := none
  arch := none
  isCI := none
  bucket := bucket
  agg :=
    { count := 1, points := 1, sum := some 3, min := some 3, max := some 3, buckets := fun i => if i.val = 3 then 1 else 0 }
  points_pos := by decide

def twoHours : ValueRollups where
  hourly := [oneValue 0, oneValue 3600]
  daily := []

def findingsQuery : ValueQuery where
  tenant := 1
  filters := { from_ := 0, to_ := 86400 }
  name := "scan.findings"
  label := none
  dims := {}
  bucket := .hour

theorem valueSeries_window_iff_two_hours :
    ∃ detail, valueSeries (fun _ t => t) twoHours (findingsQuery.paged 2 0) = .ok detail ∧
      detail.stats = windowStats twoHours findingsQuery := by
  have hbuckets : (findingsQuery.buckets twoHours (Bucket.hour.startOf (fun _ t => t))).length = 2 := by decide +kernel
  have hbucket : findingsQuery.bucket.Supported := rfl
  refine (valueSeries_window_iff hbucket 2 0).mpr ⟨le_refl 0, .inr ⟨rfl, ?_⟩⟩
  exact le_of_eq (congrArg Nat.cast hbuckets)

/-- With a page of one bucket the statistics count one of the two values. -/
theorem valueSeries_counts_page :
    ((valueSeries (fun _ t => t) twoHours (findingsQuery.paged 1 0)).map (fun detail => detail.stats.count)).toOption =
        some 1 ∧
      ((valueSeries (fun _ t => t) twoHours (findingsQuery.paged 2 0)).map (fun detail => detail.stats.count)).toOption =
        some 2 ∧
      (windowStats twoHours findingsQuery).count = 2 := by
  decide +kernel

end argvio.storage
