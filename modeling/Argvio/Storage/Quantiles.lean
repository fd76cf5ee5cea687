import Argvio.Storage.Percentiles

open histogram List

namespace argvio.storage

/-- The bucket counts of some observations. -/
def bucketCounts (bounds obs : List ℚ) : List Int := (counts bounds obs).map Int.ofNat

/-- The quantile of some observations, from their histogram and their extremes. -/
def quantileOf (bounds obs : List ℚ) (q : ℚ) : Option ℚ :=
  histQuantile bounds obs.min? obs.max? (bucketCounts bounds obs) q

/-- The closed range of a bucket; the first starts at `lo` and the last ends at `hi`. -/
def rangeLower (bounds : List ℚ) (lo : ℚ) (i : ℕ) : ℚ := if i = 0 then lo else bounds.getD (i - 1) 0

def rangeUpper (bounds : List ℚ) (hi : ℚ) (i : ℕ) : ℚ := if i < bounds.length then bounds.getD i 0 else hi

section Observations

variable {bounds obs : List ℚ} {q : ℚ}

/-- How many observations are in the buckets before one. -/
def below (bounds obs : List ℚ) (i : ℕ) : ℕ := obs.countP (bucketOf bounds · < i)

def inside (bounds obs : List ℚ) (i : ℕ) : ℕ := obs.countP (bucketOf bounds · = i)

theorem below_succ (i : ℕ) : below bounds obs (i + 1) = below bounds obs i + inside bounds obs i :=
  countP_bucketOf_succ bounds obs i

theorem below_mono : Monotone (below bounds obs) :=
  monotone_nat_of_le_succ (fun i => by rw [below_succ]; exact Nat.le_add_right _ _)

theorem sum_bucketCounts : (bucketCounts bounds obs).sum = obs.length := by
  have hsum := sum_counts bounds obs
  rw [bucketCounts, ← hsum]
  exact (sum_map_hom (counts bounds obs) id (Nat.castAddMonoidHom Int)).trans (by simp)

theorem getElem?_bucketCounts {i : ℕ} {c : Int} (hc : (bucketCounts bounds obs)[i]? = some c) :
    i ≤ bounds.length ∧ c = inside bounds obs i := by
  obtain ⟨hi, _⟩ := List.getElem?_eq_some_iff.mp hc
  simp only [bucketCounts, length_map, length_counts] at hi
  rw [bucketCounts, getElem?_map, getElem?_counts bounds obs (by omega)] at hc
  exact ⟨by omega, (Option.some.inj hc).symm⟩

theorem sum_take_bucketCounts {i : ℕ} (hi : i ≤ bounds.length) :
    ((bucketCounts bounds obs).take i).sum = below bounds obs i := by
  rw [below, ← sum_take_counts bounds obs (by omega), bucketCounts, ← map_take]
  exact (sum_map_hom _ id (Nat.castAddMonoidHom Int)).trans (by simp)

/-- A rank falls in the bucket of the observation that has it. -/
structure FallsIn (bounds obs : List ℚ) (rank : ℚ) (i : ℕ) : Prop where
  below_lt : (below bounds obs i : ℚ) < rank
  le_upto : rank ≤ (below bounds obs i + inside bounds obs i : ℕ)

/-- The quantile with any extremes is estimated in the bucket of the observation of
that rank. -/
theorem exists_histQuantile (hobs : obs ≠ []) (hq : 0 < q) (hq1 : q ≤ 1) (min max : Option ℚ) :
    ∃ x ∈ obs, nthSmallest obs ⌈q * obs.length⌉₊ = some x ∧
      FallsIn bounds obs (q * obs.length) (bucketOf bounds x) ∧
      histQuantile bounds min max (bucketCounts bounds obs) q =
        some (clampEstimate min max (interpolate bounds min max (q * obs.length) (bucketOf bounds x)
          (below bounds obs (bucketOf bounds x)) (inside bounds obs (bucketOf bounds x)))) := by
  have hlen : (0 : ℚ) < obs.length := by exact_mod_cast length_pos_iff.mpr hobs
  have hcounts : ∀ c ∈ bucketCounts bounds obs, 0 ≤ c := by
    intro c hc
    obtain ⟨n, _, rfl⟩ := mem_map.mp hc
    exact Int.natCast_nonneg n
  have hrank : q * obs.length ≤ ((0 + (bucketCounts bounds obs).sum : Int) : ℚ) := by
    rw [sum_bucketCounts]
    simpa using mul_le_of_le_one_left hlen.le hq1
  obtain ⟨i, c, hc, hfound, hlow, hhigh⟩ :=
    @rankBucket_spec (q * obs.length) _ hcounts 0 0 (by simpa using mul_pos hq hlen) hrank
  obtain ⟨hi, rfl⟩ := getElem?_bucketCounts hc
  rw [sum_take_bucketCounts hi, zero_add] at hfound hlow hhigh
  have hfalls : FallsIn bounds obs (q * obs.length) i := ⟨by exact_mod_cast hlow, by exact_mod_cast hhigh⟩
  have hupto : obs.countP (bucketOf bounds · ≤ i) = below bounds obs i + inside bounds obs i := by
    rw [← below_succ, below]
    simp only [Nat.lt_succ_iff]
  obtain ⟨x, hx, hnth, rfl⟩ := nthSmallest_class (bucketOf_mono bounds) (Nat.lt_ceil.mpr hfalls.below_lt)
    (hupto ▸ Nat.ceil_le.mpr hfalls.le_upto)
  refine ⟨x, hx, hnth, hfalls, ?_⟩
  have htotal : ¬ ((obs.length : Int) ≤ 0) := by
    have := length_pos_iff.mpr hobs
    omega
  rw [histQuantile, sum_bucketCounts]
  simp only [if_neg htotal, Int.cast_natCast, hfound, Option.map_some, zero_add]

/-- A larger rank falls in the same bucket or a later one. -/
theorem FallsIn.le {rank rank' : ℚ} {i i' : ℕ} (h : FallsIn bounds obs rank i) (h' : FallsIn bounds obs rank' i')
    (hrank : rank ≤ rank') : i ≤ i' := by
  by_contra hlt
  have hmono : below bounds obs (i' + 1) ≤ below bounds obs i := below_mono (by omega)
  rw [below_succ] at hmono
  have hcast : ((below bounds obs i' + inside bounds obs i' : ℕ) : ℚ) ≤ below bounds obs i := by exact_mod_cast hmono
  linarith [h.below_lt, h'.le_upto]

/-- The estimate of a rank is inside its bucket, whatever the extremes. -/
theorem FallsIn.interpolate_mem {rank : ℚ} {i : ℕ} (h : FallsIn bounds obs rank i) (hbounds : bounds.Pairwise (· < ·))
    (min max : Option ℚ) :
    bucketLower bounds min i ≤ interpolate bounds min max rank i (below bounds obs i) (inside bounds obs i) ∧
      interpolate bounds min max rank i (below bounds obs i) (inside bounds obs i) ≤
        bucketUpper bounds max i (bucketLower bounds min i) :=
  storage.interpolate_mem hbounds (by exact_mod_cast h.below_lt) (by exact_mod_cast h.le_upto)

section Range

variable {x lo hi : ℚ}

theorem rangeLower_le (hbounds : bounds.Pairwise (· < ·)) (hlo : lo ≤ x) :
    rangeLower bounds lo (bucketOf bounds x) ≤ x := by
  unfold rangeLower
  split_ifs with hfirst
  · exact hlo
  · have hle := bucketOf_le bounds x
    have hget := @getElem?_bounds bounds (bucketOf bounds x - 1) (by omega)
    exact ((lt_bucketOf_iff (hbounds.imp le_of_lt) hget).mp (by omega)).le

theorem le_rangeUpper (hbounds : bounds.Pairwise (· < ·)) (hhi : x ≤ hi) :
    x ≤ rangeUpper bounds hi (bucketOf bounds x) := by
  unfold rangeUpper
  split_ifs with hlast
  · have hget := getElem?_bounds hlast
    exact not_lt.mp (fun hlt => lt_irrefl _ ((lt_bucketOf_iff (hbounds.imp le_of_lt) hget).mpr hlt))
  · exact hhi

/-- The estimate of a rank in a bucket, with both extremes known. -/
def estimateIn (bounds obs : List ℚ) (lo hi rank : ℚ) (i : ℕ) : ℚ :=
  clampEstimate (some lo) (some hi)
    (interpolate bounds (some lo) (some hi) rank i (below bounds obs i) (inside bounds obs i))

theorem estimateIn_mem_extremes (hle : lo ≤ hi) (rank : ℚ) (i : ℕ) :
    lo ≤ estimateIn bounds obs lo hi rank i ∧ estimateIn bounds obs lo hi rank i ≤ hi := by
  refine ⟨le_clampEstimate_iff.mpr ⟨.inr ⟨lo, rfl, le_refl lo⟩, ?_⟩, clampEstimate_le_iff.mpr (.inr ⟨hi, rfl, le_refl hi⟩)⟩
  rintro m ⟨⟩
  exact hle

theorem estimateIn_mem_range {rank : ℚ} (hbounds : bounds.Pairwise (· < ·)) (hlo : lo ≤ x) (hhi : x ≤ hi)
    (hfalls : FallsIn bounds obs rank (bucketOf bounds x)) :
    rangeLower bounds lo (bucketOf bounds x) ≤ estimateIn bounds obs lo hi rank (bucketOf bounds x) ∧
      estimateIn bounds obs lo hi rank (bucketOf bounds x) ≤ rangeUpper bounds hi (bucketOf bounds x) := by
  have hinside := hfalls.interpolate_mem hbounds (some lo) (some hi)
  have hextremes := @estimateIn_mem_extremes bounds obs lo hi (hlo.trans hhi) rank (bucketOf bounds x)
  have hxlow := rangeLower_le hbounds hlo
  have hxhigh := le_rangeUpper hbounds hhi
  constructor
  · by_cases hfirst : bucketOf bounds x = 0
    · rw [rangeLower, if_pos hfirst]
      exact hextremes.1
    · have hlower : bucketLower bounds (some lo) (bucketOf bounds x) = rangeLower bounds lo (bucketOf bounds x) := by
        rw [bucketLower, rangeLower, if_pos (Nat.pos_of_ne_zero hfirst), if_neg hfirst]
      refine le_clampEstimate_iff.mpr ⟨.inl (hlower ▸ hinside.1), ?_⟩
      rintro m ⟨⟩
      exact hxlow.trans hhi
  · by_cases hlast : bucketOf bounds x < bounds.length
    · have hupper : bucketUpper bounds (some hi) (bucketOf bounds x) (bucketLower bounds (some lo) (bucketOf bounds x)) =
          rangeUpper bounds hi (bucketOf bounds x) := by
        rw [bucketUpper, rangeUpper, if_pos hlast, if_pos hlast]
      refine clampEstimate_le_iff.mpr (.inl ⟨hupper ▸ hinside.2, ?_⟩)
      rintro m ⟨⟩
      exact hlo.trans hxhigh
    · rw [rangeUpper, if_neg hlast]
      exact hextremes.2

/-- The estimates of two ranks are in the order of the ranks. -/
theorem estimateIn_le {x' rank rank' : ℚ} (hbounds : bounds.Pairwise (· < ·)) (hlo : lo ≤ x) (hhi : x ≤ hi)
    (hlo' : lo ≤ x') (hhi' : x' ≤ hi) (hfalls : FallsIn bounds obs rank (bucketOf bounds x))
    (hfalls' : FallsIn bounds obs rank' (bucketOf bounds x')) (hrank : rank ≤ rank') :
    estimateIn bounds obs lo hi rank (bucketOf bounds x) ≤ estimateIn bounds obs lo hi rank' (bucketOf bounds x') := by
  rcases (hfalls.le hfalls' hrank).eq_or_lt with hsame | hlater
  · rw [← hsame]
    exact clampEstimate_mono _ _ (interpolate_mono hbounds (Int.natCast_nonneg _) hrank)
  · -- Between two buckets there is a bound.
    have hlen := bucketOf_le bounds x'
    have hupper := (estimateIn_mem_range hbounds hlo hhi hfalls).2
    have hlower := (estimateIn_mem_range hbounds hlo' hhi' hfalls').1
    rw [rangeUpper, if_pos (by omega)] at hupper
    rw [rangeLower, if_neg (by omega)] at hlower
    refine hupper.trans (le_trans ?_ hlower)
    rcases (Nat.le_sub_one_of_lt hlater).eq_or_lt with heq | hlt
    · rw [heq]
    · exact (getD_bounds_lt hbounds hlt (by omega)).le

end Range

theorem quantileOf_nil : quantileOf bounds [] q = none := by
  have htotal := @sum_bucketCounts bounds []
  simp [quantileOf, histQuantile, htotal]

theorem exists_extremes (hobs : obs ≠ []) :
    ∃ lo hi, obs.min? = some lo ∧ obs.max? = some hi ∧ ∀ x ∈ obs, lo ≤ x ∧ x ≤ hi := by
  cases hmin : obs.min? with
  | none => exact absurd (min?_eq_none_iff.mp hmin) hobs
  | some lo =>
    cases hmax : obs.max? with
    | none => exact absurd (max?_eq_none_iff.mp hmax) hobs
    | some hi => exact ⟨lo, hi, rfl, rfl, fun x hx => ⟨(min?_eq_some_iff.mp hmin).2 x hx, (max?_eq_some_iff.mp hmax).2 x hx⟩⟩

/-- The quantile of some observations is between their extremes and in the bucket of
the observation with its rank, and does not decrease with the rank. -/
theorem quantileOf_sound (_hne : bounds ≠ []) (hbounds : bounds.Pairwise (· < ·)) (hq : 0 < q) (hq1 : q ≤ 1) :
    (quantileOf bounds obs q = none ↔ obs = []) ∧
      ∀ v, quantileOf bounds obs q = some v →
        (∃ lo hi x, obs.min? = some lo ∧ obs.max? = some hi ∧ nthSmallest obs ⌈q * obs.length⌉₊ = some x ∧
          lo ≤ v ∧ v ≤ hi ∧
          rangeLower bounds lo (bucketOf bounds x) ≤ v ∧ v ≤ rangeUpper bounds hi (bucketOf bounds x) ∧
          |v - x| ≤ rangeUpper bounds hi (bucketOf bounds x) - rangeLower bounds lo (bucketOf bounds x)) ∧
        ∀ q' v', q ≤ q' → q' ≤ 1 → quantileOf bounds obs q' = some v' → v ≤ v' := by
  rcases eq_or_ne obs [] with rfl | hobs
  · simp [quantileOf_nil]
  obtain ⟨lo, hi, hmin, hmax, hextremes⟩ := exists_extremes hobs
  have hfind (p : ℚ) (hp : 0 < p) (hp1 : p ≤ 1) : ∃ x ∈ obs, nthSmallest obs ⌈p * obs.length⌉₊ = some x ∧
      FallsIn bounds obs (p * obs.length) (bucketOf bounds x) ∧
      quantileOf bounds obs p = some (estimateIn bounds obs lo hi (p * obs.length) (bucketOf bounds x)) := by
    rw [quantileOf, hmin, hmax]
    exact exists_histQuantile hobs hp hp1 (some lo) (some hi)
  obtain ⟨x, hx, hnth, hfalls, hvalue⟩ := hfind q hq hq1
  obtain ⟨hlo, hhi⟩ := hextremes x hx
  refine ⟨by simp [hvalue, hobs], fun v hv => ⟨?_, ?_⟩⟩
  · obtain rfl := Option.some.inj (hvalue.symm.trans hv)
    obtain ⟨hvlo, hvhi⟩ := @estimateIn_mem_extremes bounds obs lo hi (hlo.trans hhi) (q * obs.length) (bucketOf bounds x)
    obtain ⟨hlower, hupper⟩ := estimateIn_mem_range hbounds hlo hhi hfalls
    refine ⟨lo, hi, x, hmin, hmax, hnth, hvlo, hvhi, hlower, hupper, ?_⟩
    have hxlower := rangeLower_le hbounds hlo
    have hxupper := le_rangeUpper hbounds hhi
    rw [abs_le]
    constructor <;> linarith
  · intro q' v' hqq hq1' hv'
    obtain ⟨x', hx', _, hfalls', hvalue'⟩ := hfind q' (hq.trans_le hqq) hq1'
    obtain ⟨hlo', hhi'⟩ := hextremes x' hx'
    obtain rfl := Option.some.inj (hvalue.symm.trans hv)
    obtain rfl := Option.some.inj (hvalue'.symm.trans hv')
    have hrank : q * obs.length ≤ q' * obs.length := mul_le_mul_of_nonneg_right hqq (Nat.cast_nonneg _)
    exact estimateIn_le hbounds hlo hhi hlo' hhi' hfalls hfalls' hrank

theorem quantileOf_sound_median :
    quantileOf [1, 5, 10] [7, 0, 3, 20, 7] (1 / 2) = some (25 / 4) ∧
      ∃ x, nthSmallest [7, 0, 3, 20, 7] 3 = some x ∧ bucketOf [1, 5, 10] x = 2 ∧ |25 / 4 - x| ≤ (10 : ℚ) - 5 := by
  have hvalue : quantileOf [1, 5, 10] [7, 0, 3, 20, 7] (1 / 2) = some (25 / 4) := by decide +kernel
  have hbounds : [1, 5, (10 : ℚ)].Pairwise (· < ·) := by decide +kernel
  have hsound := (quantileOf_sound (by decide) hbounds (by norm_num) (by norm_num)).2 (25 / 4) hvalue
  obtain ⟨_, _, x, _, _, hnth, _, _, _, _, hwidth⟩ := hsound.1
  have hrank : ⌈(1 / 2 : ℚ) * [7, 0, 3, 20, (7 : ℚ)].length⌉₊ = 3 := by decide +kernel
  rw [hrank] at hnth
  obtain rfl : x = 7 := Option.some.inj (hnth.symm.trans (by decide +kernel))
  have hbucket : bucketOf [1, 5, 10] (7 : ℚ) = 2 := by decide +kernel
  refine ⟨hvalue, 7, hnth, hbucket, ?_⟩
  simpa [hbucket, rangeUpper, rangeLower] using hwidth

end Observations

end argvio.storage
