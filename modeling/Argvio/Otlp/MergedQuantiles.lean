import Argvio.Otlp.V1Dims
import Argvio.Storage.HistAgg
import Argvio.Storage.Quantiles

open histogram List
open argvio.allowlist argvio.consent argvio.storage

namespace argvio.otlp

/-- A metric with fixed bucket bounds, which the allowlist requires to be finite and
strictly increasing. -/
structure FixedBounds (d : MetricDef) where
  bounds : List ℚ
  explicit : d.explicitBounds = bounds.map .finite
  nonempty : bounds ≠ []
  increasing : bounds.Pairwise (· < ·)

/-- A data point of such a metric that was accepted and stored, with the observations
it describes. Its counts are right; its min and max are right or left out. -/
structure StoredPoint {d : MetricDef} (b : FixedBounds d) where
  dp : HistogramDataPoint
  obs : List ℚ
  row : MetricRow
  accepted : checkHistogramPoint d dp = none
  stored : ∃ (p : Pipeline) (catalog : Catalog) (resource : AttrList) (scope : InstrumentationScope) (metric : Metric),
    p.metricDef metric.name = d ∧ p.processHistogramDataPoint catalog resource scope metric dp = .ok row
  nonneg : ∀ x ∈ obs, 0 ≤ x
  counts_true : dp.bucketCounts.map UInt64.toNat = counts b.bounds obs
  min_true : ∀ m ∈ dp.min, ∃ lo, obs.min? = some lo ∧ m = .finite lo
  max_true : ∀ m ∈ dp.max, ∃ hi, obs.max? = some hi ∧ m = .finite hi

namespace StoredPoint

variable {d : MetricDef} {b : FixedBounds d}

/-- The min and the max a point reports. -/
def min? (p : StoredPoint b) : Option ℚ := p.dp.min.bind GoFloat.rat?

def max? (p : StoredPoint b) : Option ℚ := p.dp.max.bind GoFloat.rat?

/-- What the rollups take from a point. -/
def agg (p : StoredPoint b) : HistAgg (b.bounds.length + 1) := .ofRow p.row

variable (p : StoredPoint b)

theorem row_eq :
    p.row.histogramMin = p.dp.min ∧ p.row.histogramMax = p.dp.max ∧
      p.row.histogramBucketCounts = p.dp.bucketCounts.map clampInt64 := by
  obtain ⟨_, _, _, _, _, _, hstored⟩ := p.stored
  unfold Pipeline.processHistogramDataPoint at hstored
  obtain ⟨admitted, _, hrow⟩ := Except.map_eq_ok_iff.mp hstored
  rw [← hrow]
  exact ⟨rfl, rfl, rfl⟩

theorem agg_min : p.agg.min = p.min? := congrArg (Option.bind · GoFloat.rat?) p.row_eq.1

theorem agg_max : p.agg.max = p.max? := congrArg (Option.bind · GoFloat.rat?) p.row_eq.2.1

/-- A point with fewer than 2^63 observations keeps its counts. -/
theorem agg_buckets (hfits : p.obs.length < 2 ^ 63) (i : Fin (b.bounds.length + 1)) :
    p.agg.buckets i = inside b.bounds p.obs i := by
  have hcount : (p.dp.bucketCounts[i.val]?).map UInt64.toNat = some (inside b.bounds p.obs i) := by
    rw [← getElem?_map, p.counts_true]
    exact getElem?_counts b.bounds p.obs (Nat.le_of_lt_succ i.isLt)
  obtain ⟨c, hc, hinside⟩ := Option.map_eq_some_iff.mp hcount
  have hle : inside b.bounds p.obs i ≤ p.obs.length := countP_le_length
  have hclamp : clampInt64 c = c.toNat := if_neg (by omega)
  change p.row.histogramBucketCounts.getD i 0 = _
  rw [p.row_eq.2.2, getD, getElem?_map, hc, ← hinside]
  exact hclamp

theorem nonneg_min? {m : ℚ} (hm : p.min? = some m) : 0 ≤ m := by
  obtain ⟨value, hvalue, hrat⟩ := Option.bind_eq_some_iff.mp hm
  obtain ⟨lo, hlo, rfl⟩ := p.min_true value hvalue
  obtain rfl := Option.some.inj hrat
  exact p.nonneg lo (min?_mem hlo)

end StoredPoint

section Merged

variable {d : MetricDef} {b : FixedBounds d}

/-- All observations behind some points. -/
def observations (points : List (StoredPoint b)) : List ℚ := points.flatMap StoredPoint.obs

/-- The histogram the queries merge from some points. -/
def mergedAgg (points : List (StoredPoint b)) : HistAgg (b.bounds.length + 1) :=
  (points.map StoredPoint.agg).foldl HistAgg.merge .zero

def reportedMins (points : List (StoredPoint b)) : List ℚ := points.filterMap StoredPoint.min?

def reportedMaxes (points : List (StoredPoint b)) : List ℚ := points.filterMap StoredPoint.max?

variable {points : List (StoredPoint b)}

theorem mergedAgg_min : (mergedAgg points).min = (reportedMins points).min? := by
  rw [mergedAgg, HistAgg.foldl_merge, HistAgg.sum_min, filterMap_map]
  simp only [Function.comp_def, StoredPoint.agg_min, reportedMins]

theorem mergedAgg_max : (mergedAgg points).max = (reportedMaxes points).max? := by
  rw [mergedAgg, HistAgg.foldl_merge, HistAgg.sum_max, filterMap_map]
  simp only [Function.comp_def, StoredPoint.agg_max, reportedMaxes]

theorem mergedAgg_buckets (hfits : (observations points).length < 2 ^ 63) (i : Fin (b.bounds.length + 1)) :
    (mergedAgg points).buckets i = inside b.bounds (observations points) i := by
  rw [mergedAgg, HistAgg.foldl_merge, HistAgg.sum_buckets, map_map]
  induction points with
  | nil => rfl
  | cons p rest ih =>
    have hsplit : observations (p :: rest) = p.obs ++ observations rest := flatMap_cons
    rw [hsplit, length_append] at hfits
    rw [map_cons, sum_cons, ih (by omega), Function.comp_apply, p.agg_buckets (by omega), hsplit, inside, inside,
      inside, countP_append, Nat.cast_add]

/-- The merged buckets are those of all observations. -/
theorem ofFn_mergedAgg_buckets (hfits : (observations points).length < 2 ^ 63) :
    ofFn (mergedAgg points).buckets = bucketCounts b.bounds (observations points) := by
  have hbuckets : (mergedAgg points).buckets = fun i : Fin _ => (inside b.bounds (observations points) i : Int) :=
    funext (mergedAgg_buckets hfits)
  rw [hbuckets, bucketCounts, counts, map_map, ofFn_eq_map, ← map_coe_finRange_eq_range, map_map]
  rfl

/-- The extremes some points report leave a range within reach: the largest max is
not below it, and the smallest min is not above it unless the largest max is within. -/
def ExtremesReach (points : List (StoredPoint b)) (lower upper : ℚ) : Prop :=
  (reportedMaxes points = [] ∨ ∃ m ∈ reportedMaxes points, lower ≤ m) ∧
    (reportedMins points = [] ∨ (∃ m ∈ reportedMins points, m ≤ upper) ∨
      (reportedMaxes points ≠ [] ∧ ∀ m ∈ reportedMaxes points, m ≤ upper))

theorem extremesReach_iff {lower upper : ℚ} :
    ExtremesReach points lower upper ↔
      (∀ m ∈ (mergedAgg points).max, lower ≤ m) ∧
        ((∀ m ∈ (mergedAgg points).min, m ≤ upper) ∨ ∃ m ∈ (mergedAgg points).max, m ≤ upper) := by
  rw [mergedAgg_min, mergedAgg_max, forall_mem_max?_iff, forall_mem_min?_iff, exists_mem_max?_iff, or_assoc]
  rfl

theorem nonneg_mergedAgg_min {m : ℚ} (hm : m ∈ (mergedAgg points).min) : 0 ≤ m := by
  rw [mergedAgg_min] at hm
  obtain ⟨p, _, hp⟩ := mem_filterMap.mp (min?_mem hm)
  exact p.nonneg_min? hp

theorem nonneg_observations {x : ℚ} (hx : x ∈ observations points) : 0 ≤ x := by
  obtain ⟨p, _, hmem⟩ := mem_flatMap.mp hx
  exact p.nonneg x hmem

/-- The bucket of an observation is not taken to start below its range. -/
theorem rangeLower_le_bucketLower {x : ℚ} (hx : x ∈ observations points) (hlast : bucketOf b.bounds x < b.bounds.length) :
    rangeLower b.bounds 0 (bucketOf b.bounds x) ≤ bucketLower b.bounds (mergedAgg points).min (bucketOf b.bounds x) := by
  have hupper := @le_rangeUpper b.bounds x x b.increasing le_rfl
  rw [rangeUpper, if_pos hlast] at hupper
  unfold rangeLower bucketLower
  by_cases hfirst : bucketOf b.bounds x = 0
  · rw [hfirst] at hupper ⊢
    rw [if_pos rfl, if_neg (lt_irrefl 0)]
    split_ifs with hmin hzero
    · obtain ⟨m, hm, _⟩ := (Option.any_eq_true _ _).mp hmin
      rw [hm]
      exact nonneg_mergedAgg_min hm
    · exact (nonneg_observations hx).trans hupper
    · exact le_rfl
  · rw [if_neg hfirst, if_pos (Nat.pos_of_ne_zero hfirst)]

/-- Short of the last bucket, the quantile of merged points is in the bucket of the
observation with its rank exactly when the reported extremes leave it within reach. -/
theorem mergedQuantile_in_bucket_iff (hfits : (observations points).length < 2 ^ 63) {q x : ℚ} (hq : 0 < q) (hq1 : q ≤ 1)
    (hx : nthSmallest (observations points) ⌈q * (observations points).length⌉₊ = some x)
    (hlast : bucketOf b.bounds x < b.bounds.length) :
    (∃ v, (mergedAgg points).quantile b.bounds q = some v ∧ rangeLower b.bounds 0 (bucketOf b.bounds x) ≤ v ∧
        v ≤ b.bounds.getD (bucketOf b.bounds x) 0) ↔
      ExtremesReach points (rangeLower b.bounds 0 (bucketOf b.bounds x)) (b.bounds.getD (bucketOf b.bounds x) 0) := by
  have hobs : observations points ≠ [] := by
    intro hnil
    rw [hnil] at hx
    cases hx
  obtain ⟨y, hy, hnth, hfalls, hvalue⟩ :=
    @exists_histQuantile b.bounds _ _ hobs hq hq1 (mergedAgg points).min (mergedAgg points).max
  obtain rfl : x = y := Option.some.inj (hx.symm.trans hnth)
  have hinside := hfalls.interpolate_mem b.increasing (mergedAgg points).min (mergedAgg points).max
  rw [bucketUpper, if_pos hlast] at hinside
  have hlower := (rangeLower_le_bucketLower hy hlast).trans hinside.1
  rw [extremesReach_iff, HistAgg.quantile, ofFn_mergedAgg_buckets hfits, hvalue]
  simp only [Option.some.injEq, exists_eq_left', le_clampEstimate_iff, clampEstimate_le_iff, hlower, hinside.2, true_or,
    true_and]

end Merged

section V1Measures

def measureMetric : Metric where
  name := "cli.measure"
  unit := "ms"
  data := .empty

def measureRecord : AttrList := [(tierAttrKey, .str "anonymous"), ("cli.measure.name", .str "scan")]

/-- The definition of `cli.measure` in v1, and that the pipeline admits a point of it. -/
theorem v1_measure_admitted :
    (v1Pipeline.metricDef "cli.measure").explicitBounds = measureBounds.map .finite ∧
      (v1Pipeline.admitPoint ∅ [] "cli.measure" 0 measureRecord).toOption.isSome = true := by
  decide +kernel

def v1MeasureBounds : FixedBounds (v1Pipeline.metricDef "cli.measure") where
  bounds := measureBounds
  explicit := v1_measure_admitted.1
  nonempty := by decide
  increasing := by decide +kernel

/-- A data point for some durations, with or without their extremes. -/
def measurePoint (obs : List ℚ) (extremes : Bool) : HistogramDataPoint where
  timestamp := 0
  attributes := measureRecord
  count := .ofNat obs.length
  sum := none
  min := if extremes then obs.min?.map .finite else none
  max := if extremes then obs.max?.map .finite else none
  explicitBounds := measureBounds.map .finite
  bucketCounts := (counts measureBounds obs).map UInt64.ofNat

theorem stored_measurePoint (obs : List ℚ) (extremes : Bool) :
    ∃ row, v1Pipeline.processHistogramDataPoint ∅ [] ⟨"", ""⟩ measureMetric (measurePoint obs extremes) = .ok row := by
  have hadmitted := Except.eq_ok_of_isSome v1_measure_admitted.2
  unfold Pipeline.processHistogramDataPoint
  exact Except.exists_map_eq_ok_iff.mpr ⟨_, hadmitted⟩

/-- An extreme that a point reports is the one of its durations. -/
theorem eq_finite_of_reported {extremes : Bool} {extreme : Option ℚ} {m : GoFloat}
    (hm : m ∈ if extremes then extreme.map GoFloat.finite else none) : ∃ x, extreme = some x ∧ m = .finite x := by
  cases extremes with
  | false => cases hm
  | true =>
    obtain ⟨x, hx, rfl⟩ := Option.map_eq_some_iff.mp hm
    exact ⟨x, hx, rfl⟩

section Stored

variable {obs : List ℚ} {extremes : Bool}
  (hcount : addBucketCounts 0 (measurePoint obs extremes).bucketCounts = some (measurePoint obs extremes).count)
  (hvalid : ¬ ((measurePoint obs extremes).sum.any (!validDuration ·) ∨
    (measurePoint obs extremes).min.any (!validDuration ·) ∨ (measurePoint obs extremes).max.any (!validDuration ·)))

include hcount hvalid

theorem accepted_measurePoint {d : MetricDef} (hd : d.explicitBounds = measureBounds.map .finite) :
    checkHistogramPoint d (measurePoint obs extremes) = none := by
  have hsame : ¬ ((measureBounds.map GoFloat.finite).zip (measureBounds.map GoFloat.finite)).any
      (fun pair => !GoFloat.eq pair.2 pair.1) = true := by decide +kernel
  have hlength : (measurePoint obs extremes).bucketCounts.length = (measureBounds.map GoFloat.finite).length + 1 := by
    simp [measurePoint]
  have hbounds : (measurePoint obs extremes).explicitBounds = measureBounds.map GoFloat.finite := rfl
  unfold checkHistogramPoint
  rw [hd, hbounds, if_neg (by decide), if_neg (not_not.mpr rfl), if_neg hsame, if_neg (not_not.mpr hlength), hcount]
  dsimp only
  rw [if_neg (not_not.mpr rfl), if_neg hvalid]

/-- Some durations as a stored data point. -/
theorem exists_storedMeasure (hnonneg : ∀ x ∈ obs, 0 ≤ x)
    (hcounts : (measurePoint obs extremes).bucketCounts.map UInt64.toNat = counts measureBounds obs) :
    ∃ p : StoredPoint v1MeasureBounds, p.dp = measurePoint obs extremes ∧ p.obs = obs := by
  obtain ⟨row, hrow⟩ := stored_measurePoint obs extremes
  refine ⟨⟨measurePoint obs extremes, obs, row, accepted_measurePoint hcount hvalid v1_measure_admitted.1,
    ⟨v1Pipeline, ∅, [], ⟨"", ""⟩, measureMetric, rfl, hrow⟩, hnonneg, hcounts, ?_, ?_⟩, rfl, rfl⟩
  · exact fun m hm => eq_finite_of_reported hm
  · exact fun m hm => eq_finite_of_reported hm

end Stored

/-- A slow run that reports its extremes and three fast ones in a point that may or
may not report its own. -/
theorem exists_measurePoints (extremes : Bool) :
    ∃ points : List (StoredPoint v1MeasureBounds), observations points = [1000, 2, 2, 2] ∧
      reportedMins points = (if extremes then [1000, 2] else [1000]) ∧
      reportedMaxes points = (if extremes then [1000, 2] else [1000]) := by
  obtain ⟨slow, hslow, hslowObs⟩ := @exists_storedMeasure [1000] true (by decide +kernel) (by decide +kernel)
    (by decide +kernel) (by decide +kernel)
  obtain ⟨fast, hfast, hfastObs⟩ : ∃ p : StoredPoint v1MeasureBounds, p.dp = measurePoint [2, 2, 2] extremes ∧
      p.obs = [2, 2, 2] := by
    cases extremes <;>
      exact exists_storedMeasure (by decide +kernel) (by decide +kernel) (by decide +kernel) (by decide +kernel)
  refine ⟨[slow, fast], by simp [observations, hslowObs, hfastObs], ?_, ?_⟩
  · simp only [reportedMins, StoredPoint.min?, hslow, hfast, filterMap_cons, filterMap_nil]
    cases extremes <;> decide +kernel
  · simp only [reportedMaxes, StoredPoint.max?, hslow, hfast, filterMap_cons, filterMap_nil]
    cases extremes <;> decide +kernel

theorem mergedQuantile_in_bucket_iff_both_report :
    ∃ points : List (StoredPoint v1MeasureBounds), observations points = [1000, 2, 2, 2] ∧
      nthSmallest (observations points) 2 = some 2 ∧
      ∃ v, (mergedAgg points).quantile measureBounds (1 / 2) = some v ∧ 1 ≤ v ∧ v ≤ 5 := by
  obtain ⟨points, hobs, hmins, hmaxes⟩ := exists_measurePoints true
  have hrank : nthSmallest [1000, 2, 2, (2 : ℚ)] 2 = some 2 := by decide +kernel
  have hceil : ⌈(1 / 2 : ℚ) * (observations points).length⌉₊ = 2 := by
    rw [hobs]
    decide +kernel
  have hbucket : bucketOf v1MeasureBounds.bounds 2 = 1 := by decide +kernel
  have hreach : ExtremesReach points 1 5 := by
    rw [ExtremesReach, hmins, hmaxes]
    decide +kernel
  have hiff := @mergedQuantile_in_bucket_iff _ _ points (by rw [hobs]; decide) (1 / 2) 2 (by norm_num) (by norm_num)
    (by rw [hceil, hobs]; exact hrank) (by rw [hbucket]; decide)
  rw [hbucket] at hiff
  exact ⟨points, hobs, by rw [hobs]; exact hrank, hiff.mpr hreach⟩

/-- When only the slow run reports its extremes, the median is 1000 ms although the
second of the four durations is in the bucket from 1 to 5 ms. -/
theorem mergedQuantile_outside_bucket :
    ∃ points : List (StoredPoint v1MeasureBounds), observations points = [1000, 2, 2, 2] ∧
      nthSmallest (observations points) 2 = some 2 ∧ bucketOf measureBounds 2 = 1 ∧
      (mergedAgg points).quantile measureBounds (1 / 2) = some 1000 := by
  obtain ⟨points, hobs, hmins, hmaxes⟩ := exists_measurePoints false
  have hbuckets : ofFn (mergedAgg points).buckets = bucketCounts measureBounds [1000, 2, 2, 2] := by
    rw [ofFn_mergedAgg_buckets (by rw [hobs]; decide), hobs]
    rfl
  refine ⟨points, hobs, by rw [hobs]; decide +kernel, by decide +kernel, ?_⟩
  rw [HistAgg.quantile, mergedAgg_min, mergedAgg_max, hmins, hmaxes, hbuckets]
  decide +kernel

end V1Measures

end argvio.otlp
