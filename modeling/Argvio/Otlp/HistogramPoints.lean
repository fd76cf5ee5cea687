import Argvio.Otlp.LogRuns
import Argvio.Otlp.Metrics
import Mathlib.Data.UInt

open argvio.allowlist argvio.storage List

namespace argvio.otlp

section Saturated

variable {l : List ℕ} {bound : ℕ}

theorem sum_map_min_of_le (hle : l.sum ≤ bound) : (l.map (min bound)).sum = l.sum := by
  induction l with
  | nil => rfl
  | cons n l ih =>
    rw [sum_cons] at hle
    rw [map_cons, sum_cons, sum_cons, ih (by omega), min_eq_right (by omega)]

theorem sum_map_min_eq_zero_iff (hbound : 0 < bound) : (l.map (min bound)).sum = 0 ↔ l.sum = 0 := by
  induction l with
  | nil => rfl
  | cons n l ih =>
    rw [map_cons, sum_cons, sum_cons, Nat.add_eq_zero_iff, Nat.add_eq_zero_iff, ih]
    have hmin : min bound n = 0 ↔ n = 0 := by omega
    rw [hmin]

/-- Cutting each summand at a bound below their sum gives the bound exactly when one
summand is the whole sum. -/
theorem sum_map_min_eq_iff (hbound : 0 < bound) (hlt : bound < l.sum) :
    (l.map (min bound)).sum = bound ↔ l.sum ∈ l := by
  have hsplit : ∀ (before after : List ℕ) (n : ℕ), bound ≤ n →
      (((before ++ n :: after).map (min bound)).sum = bound ↔ before.sum = 0 ∧ after.sum = 0) := by
    intro before after n hn
    rw [← sum_map_min_eq_zero_iff hbound, ← sum_map_min_eq_zero_iff (l := after) hbound, map_append, map_cons,
      sum_append, sum_cons, min_eq_left hn]
    omega
  constructor
  · intro hsum
    by_cases hall : ∀ n ∈ l, n ≤ bound
    · have hsame : l.map (min bound) = l := by
        conv_rhs => rw [← map_id l]
        exact map_congr_left fun n hn => min_eq_right (hall n hn)
      rw [hsame] at hsum
      omega
    · push Not at hall
      obtain ⟨n, hmem, hn⟩ := hall
      obtain ⟨before, after, rfl⟩ := append_of_mem hmem
      obtain ⟨hbefore, hafter⟩ := (hsplit before after n hn.le).mp hsum
      simp [hbefore, hafter]
  · intro hmem
    obtain ⟨before, after, hl⟩ := append_of_mem hmem
    have hsum := congrArg sum hl
    rw [sum_append, sum_cons] at hsum
    rw [hl]
    exact (hsplit before after l.sum hlt.le).mpr ⟨by omega, by omega⟩

end Saturated

/-- The exact sum of bucket counts. -/
def exactSum (counts : List UInt64) : ℕ := (counts.map UInt64.toNat).sum

theorem toNat_add_lt_iff (a b : UInt64) : a + b < a ↔ 2 ^ 64 ≤ a.toNat + b.toNat := by
  have ha := a.toNat_lt
  have hb := b.toNat_lt
  rw [UInt64.lt_iff_toNat_lt, UInt64.toNat_add]
  omega

/-- The addition in 64 bits succeeds exactly when the exact sum fits, with that sum. -/
theorem addBucketCounts_eq_some_iff {total sum : UInt64} {counts : List UInt64} :
    addBucketCounts total counts = some sum ↔
      total.toNat + exactSum counts < 2 ^ 64 ∧ sum.toNat = total.toNat + exactSum counts := by
  unfold exactSum
  induction counts generalizing total with
  | nil =>
    have htotal := total.toNat_lt
    simp only [addBucketCounts, Option.some.injEq, map_nil, sum_nil, Nat.add_zero, htotal, true_and]
    rw [← UInt64.toNat_inj]
    exact eq_comm
  | cons c counts ih =>
    rw [map_cons, sum_cons]
    unfold addBucketCounts
    by_cases hwrap : total + c < total
    · rw [if_pos hwrap]
      have hover := (toNat_add_lt_iff total c).mp hwrap
      refine iff_of_false (by simp) ?_
      omega
    · have hfits := (toNat_add_lt_iff total c).not.mp hwrap
      have hadd : (total + c).toNat = total.toNat + c.toNat := by
        rw [UInt64.toNat_add]
        omega
      rw [if_neg hwrap, ih, hadd, Nat.add_assoc]

/-- Neither negative, nor infinite, nor not a number. -/
def IsDuration (v : GoFloat) : Prop := ∃ x : ℚ, 0 ≤ x ∧ v = .finite x

theorem validDuration_iff (v : GoFloat) : validDuration v = true ↔ IsDuration v := by
  unfold validDuration IsDuration
  cases v with
  | nan | finite x => simp [GoFloat.le]
  | inf negative => cases negative <;> simp [GoFloat.le]

/-- A histogram data point with the declared bounds whose counts add up. -/
@[mk_iff] structure HistogramDataPoint.Fits (dp : HistogramDataPoint) (bounds : List GoFloat) : Prop where
  bounds_eq : List.Forall₂ (fun b declared => GoFloat.eq b declared = true) dp.explicitBounds bounds
  bucketCounts_length : dp.bucketCounts.length = dp.explicitBounds.length + 1
  sum_lt : exactSum dp.bucketCounts < 2 ^ 64
  sum_eq : exactSum dp.bucketCounts = dp.count.toNat
  sum_valid : ∀ v ∈ dp.sum, IsDuration v
  min_valid : ∀ v ∈ dp.min, IsDuration v
  max_valid : ∀ v ∈ dp.max, IsDuration v

section Point

variable {d : MetricDef} {dp : HistogramDataPoint}

theorem zip_any_eq_false_iff {bounds declared : List GoFloat} (hlength : bounds.length = declared.length) :
    (declared.zip bounds).any (fun pair => !GoFloat.eq pair.2 pair.1) = false ↔
      List.Forall₂ (fun b declared => GoFloat.eq b declared = true) bounds declared := by
  induction bounds generalizing declared with
  | nil =>
    cases declared with
    | nil => simp
    | cons b declared => cases hlength
  | cons a bounds ih =>
    cases declared with
    | nil => cases hlength
    | cons b declared =>
      have htail := ih (Nat.succ.inj hlength)
      rw [zip_cons_cons, any_cons, Bool.or_eq_false_iff, htail, forall₂_cons]
      simp

theorem any_not_valid_iff (v : Option GoFloat) : v.any (!validDuration ·) = false ↔ ∀ x ∈ v, IsDuration x := by
  cases v with
  | none => simp
  | some x => simp [← validDuration_iff]

theorem checkHistogramPoint_eq_none_iff (hbounds : d.explicitBounds ≠ []) :
    checkHistogramPoint d dp = none ↔ dp.Fits d.explicitBounds := by
  unfold checkHistogramPoint
  rw [if_neg hbounds]
  by_cases hlength : dp.explicitBounds.length ≠ d.explicitBounds.length
  · rw [if_pos hlength]
    exact iff_of_false (by simp) fun hfits => hlength hfits.bounds_eq.length_eq
  rw [if_neg hlength]
  have hlength := not_ne_iff.mp hlength
  cases hsame : (d.explicitBounds.zip dp.explicitBounds).any (fun pair => !GoFloat.eq pair.2 pair.1) with
  | true =>
    refine iff_of_false (by simp) fun hfits => ?_
    rw [(zip_any_eq_false_iff hlength).mpr hfits.bounds_eq] at hsame
    cases hsame
  | false =>
    rw [if_neg (by simp)]
    by_cases hcounts : dp.bucketCounts.length ≠ d.explicitBounds.length + 1
    · rw [if_pos hcounts]
      refine iff_of_false (by simp) fun hfits => hcounts ?_
      rw [hfits.bucketCounts_length, hlength]
    rw [if_neg hcounts]
    have hsum : addBucketCounts 0 dp.bucketCounts = some dp.count ↔
        exactSum dp.bucketCounts < 2 ^ 64 ∧ exactSum dp.bucketCounts = dp.count.toNat := by
      rw [addBucketCounts_eq_some_iff, UInt64.toNat_zero, Nat.zero_add]
      exact and_congr_right fun _ => eq_comm
    by_cases htotal : addBucketCounts 0 dp.bucketCounts ≠ some dp.count
    · refine iff_of_false ?_ fun hfits => htotal (hsum.mpr ⟨hfits.sum_lt, hfits.sum_eq⟩)
      cases hadd : addBucketCounts 0 dp.bucketCounts with
      | none => simp
      | some total =>
        have hne : total ≠ dp.count := by
          rintro rfl
          exact htotal hadd
        simp [hne]
    have htotal := not_ne_iff.mp htotal
    rw [htotal]
    dsimp only
    rw [if_neg (not_not_intro rfl)]
    by_cases hvalues : dp.sum.any (!validDuration ·) = true ∨ dp.min.any (!validDuration ·) = true ∨
        dp.max.any (!validDuration ·) = true
    · rw [if_pos hvalues]
      refine iff_of_false (by simp) fun hfits => ?_
      rw [(any_not_valid_iff _).mpr hfits.sum_valid, (any_not_valid_iff _).mpr hfits.min_valid,
        (any_not_valid_iff _).mpr hfits.max_valid] at hvalues
      simp at hvalues
    rw [if_neg hvalues]
    simp only [not_or, Bool.not_eq_true, any_not_valid_iff] at hvalues
    obtain ⟨hsum_valid, hmin_valid, hmax_valid⟩ := hvalues
    obtain ⟨hlt, heq⟩ := hsum.mp htotal
    exact iff_of_true rfl ⟨(zip_any_eq_false_iff hlength).mp hsame, (not_ne_iff.mp hcounts).trans (by rw [hlength]), hlt,
      heq, hsum_valid, hmin_valid, hmax_valid⟩

/-- A point is accepted for a metric with fixed bounds exactly when it has those bounds and
its counts, as unbounded numbers, add up. -/
theorem histogram_acceptance_exact (hbounds : d.explicitBounds ≠ []) :
    checkHistogramPoint d dp = none ↔
      List.Forall₂ (fun b declared => GoFloat.eq b declared = true) dp.explicitBounds d.explicitBounds ∧
        dp.bucketCounts.length = dp.explicitBounds.length + 1 ∧ exactSum dp.bucketCounts < 2 ^ 64 ∧
        exactSum dp.bucketCounts = dp.count.toNat ∧ (∀ v ∈ dp.sum, IsDuration v) ∧ (∀ v ∈ dp.min, IsDuration v) ∧
        ∀ v ∈ dp.max, IsDuration v := by
  rw [checkHistogramPoint_eq_none_iff hbounds, HistogramDataPoint.fits_iff]

theorem histogram_acceptance_two_buckets :
    checkHistogramPoint { name := "d", type := .histogram, explicitBounds := [.finite 1], allowedAttributes := [] }
        ⟨0, [], 3, none, none, none, [.finite 1], [1, 2]⟩ = none ∧ exactSum [1, 2] = (3 : UInt64).toNat := by
  have haccepted : checkHistogramPoint
      { name := "d", type := .histogram, explicitBounds := [.finite 1], allowedAttributes := [] }
      ⟨0, [], 3, none, none, none, [.finite 1], [1, 2]⟩ = none := by decide
  exact ⟨haccepted, ((histogram_acceptance_exact (by decide)).mp haccepted).2.2.2.1⟩

theorem clampInt64_eq (n : UInt64) : clampInt64 n = (min (2 ^ 63 - 1) n.toNat : ℕ) := by
  unfold clampInt64
  split <;> omega

theorem sum_map_clampInt64 (counts : List UInt64) :
    (counts.map clampInt64).sum = (((counts.map UInt64.toNat).map (min (2 ^ 63 - 1))).sum : ℕ) := by
  induction counts with
  | nil => rfl
  | cons n counts ih =>
    simp only [map_cons, sum_cons, Nat.cast_add]
    rw [ih, clampInt64_eq]

theorem processHistogramDataPoint_counts {p : Pipeline} {catalog : Catalog} {resource : AttrList}
    {scope : InstrumentationScope} {metric : Metric} {row : MetricRow}
    (hstored : p.processHistogramDataPoint catalog resource scope metric dp = .ok row) :
    row.histogramCount = some (clampInt64 dp.count) ∧
      row.histogramBucketCounts = dp.bucketCounts.map clampInt64 := by
  unfold Pipeline.processHistogramDataPoint at hstored
  cases hadmitted : p.admitPoint catalog resource metric.name dp.timestamp dp.attributes with
  | error reason =>
    rw [hadmitted] at hstored
    cases hstored
  | ok admitted =>
    rw [hadmitted] at hstored
    cases hstored
    exact ⟨rfl, rfl⟩

/-- What is stored of an accepted point adds up exactly when its count fits a signed column
or one bucket holds all of it. -/
theorem stored_counts_add_up_iff {p : Pipeline} {catalog : Catalog} {resource : AttrList} {scope : InstrumentationScope}
    {metric : Metric} {row : MetricRow} (hbounds : d.explicitBounds ≠ []) (haccepted : checkHistogramPoint d dp = none)
    (hstored : p.processHistogramDataPoint catalog resource scope metric dp = .ok row) :
    row.histogramCount = some row.histogramBucketCounts.sum ↔
      dp.count.toNat ≤ 2 ^ 63 - 1 ∨ dp.count ∈ dp.bucketCounts := by
  have hfits := (checkHistogramPoint_eq_none_iff hbounds).mp haccepted
  have hcount := processHistogramDataPoint_counts hstored
  have hsum := hfits.sum_eq
  unfold exactSum at hsum
  rw [hcount.1, hcount.2, Option.some.injEq, clampInt64_eq, sum_map_clampInt64, Int.natCast_inj]
  by_cases hsmall : dp.count.toNat ≤ 2 ^ 63 - 1
  · rw [sum_map_min_of_le (by omega), hsum, min_eq_right hsmall]
    exact iff_of_true rfl (.inl hsmall)
  have hmem : (dp.bucketCounts.map UInt64.toNat).sum ∈ dp.bucketCounts.map UInt64.toNat ↔
      dp.count ∈ dp.bucketCounts := by
    rw [hsum]
    exact mem_map_of_injective (fun _ _ => UInt64.toNat_inj.mp)
  rw [min_eq_left (by omega), eq_comm, sum_map_min_eq_iff (by decide) (by omega), hmem]
  exact (or_iff_right hsmall).symm

end Point

/-- A metric with one fixed bound. -/
def runtimeDef : MetricDef where
  name := "cli.runtime"
  type := .histogram
  explicitBounds := [.finite 1]
  allowedAttributes := []

def runtimePipeline : Pipeline :=
  { samplePipeline with
    schema := (finalize consent.sampleCompile { consent.sampleFile with metrics := [runtimeDef] }).toOption.get rfl }

/-- A data point of the metric with two bucket counts. -/
def runtimePoint (count below above : UInt64) : HistogramDataPoint where
  timestamp := 0
  attributes := [(consent.tierAttrKey, .str "basic")]
  count := count
  sum := none
  min := none
  max := none
  explicitBounds := [.finite 1]
  bucketCounts := [below, above]

def storedRuntime (dp : HistogramDataPoint) : Except MetricReason MetricRow :=
  runtimePipeline.processHistogramDataPoint ∅ [] ⟨"", ""⟩ ⟨"cli.runtime", "", .histogram .delta [dp]⟩ dp

theorem storedRuntime_ok (count below above : UInt64) :
    ∃ row, storedRuntime (runtimePoint count below above) = .ok row := ⟨_, rfl⟩

theorem stored_counts_add_up_small :
    ∃ row, storedRuntime (runtimePoint 3 1 2) = .ok row ∧ row.histogramCount = some row.histogramBucketCounts.sum := by
  obtain ⟨row, hrow⟩ := storedRuntime_ok 3 1 2
  exact ⟨row, hrow, (stored_counts_add_up_iff (d := runtimeDef) (by decide) (by decide) hrow).mpr (.inl (by decide))⟩

/-- A point of 2^63 + 1 runs is accepted, and what is stored of it does not add up. -/
theorem stored_counts_saturate :
    checkHistogramPoint (runtimePipeline.metricDef "cli.runtime") (runtimePoint (2 ^ 63 + 1) (2 ^ 63) 1) = none ∧
      ∃ row, storedRuntime (runtimePoint (2 ^ 63 + 1) (2 ^ 63) 1) = .ok row ∧
        row.histogramCount = some (2 ^ 63 - 1) ∧ row.histogramBucketCounts = [2 ^ 63 - 1, 1] := by
  obtain ⟨row, hrow⟩ := storedRuntime_ok (2 ^ 63 + 1) (2 ^ 63) 1
  obtain ⟨hcount, hbuckets⟩ := processHistogramDataPoint_counts hrow
  refine ⟨by decide +kernel, row, hrow, hcount.trans ?_, hbuckets.trans ?_⟩
  · decide +kernel
  · decide +kernel

end argvio.otlp
