import Argvio.Histogram
import Mathlib.Data.List.GetD
import Mathlib.Data.Rat.Floor

open List

namespace argvio.storage

/-- The loop of `histQuantile`: the bucket a rank falls in, with the count of the
buckets before it and its own. -/
def rankBucket (rank : ℚ) : ℕ → Int → List Int → Option (ℕ × Int × Int)
  | _, _, [] => none
  | i, cum, c :: rest =>
    if c = 0 then rankBucket rank (i + 1) cum rest
    -- `i < len(counts)-1` holds as long as there are buckets left.
    else if ((cum + c : Int) : ℚ) < rank ∧ rest ≠ [] then rankBucket rank (i + 1) (cum + c) rest
    else some (i, cum, c)

section Estimate

variable (bounds : List ℚ) (min max : Option ℚ)

/-- Where a bucket is taken to start. -/
def bucketLower (i : ℕ) : ℚ :=
  if 0 < i then bounds.getD (i - 1) 0
  else if min.any (· < bounds.getD 0 0) then min.getD 0
  else if bounds.getD 0 0 ≤ 0 then bounds.getD 0 0
  else 0

/-- Where a bucket is taken to end. -/
def bucketUpper (i : ℕ) (lower : ℚ) : ℚ :=
  if i < bounds.length then bounds.getD i 0
  else if max.any (· > lower) then max.getD 0
  else lower

def clampEstimate (v : ℚ) : ℚ :=
  let v := if min.any (v < ·) then min.getD 0 else v
  if max.any (v > ·) then max.getD 0 else v

/-- The estimate inside a bucket, before it is clamped. -/
def interpolate (rank : ℚ) (i : ℕ) (cum c : Int) : ℚ :=
  let lower := bucketLower bounds min i
  let upper := bucketUpper bounds max i lower
  lower + (upper - lower) * (rank - cum) / c

/-- Estimates the `q`-quantile of the observations behind `counts`, one per bucket of
`bounds`; there is none without observations. -/
def histQuantile (counts : List Int) (q : ℚ) : Option ℚ :=
  let total := counts.sum
  if total ≤ 0 then none
  else
    let rank := q * total
    (rankBucket rank 0 0 counts).map (fun found =>
      clampEstimate min max (interpolate bounds min max rank found.1 found.2.1 found.2.2))

end Estimate

/-- The bucket bounds of `cli.measure`, in milliseconds. -/
def measureBounds : List ℚ := [1, 5, 10, 50, 100, 500, 1000, 5000, 10000, 60000, 300000]

/-- The search ends in the bucket where the running count reaches the rank. -/
theorem rankBucket_spec {rank : ℚ} {counts : List Int} (hcounts : ∀ c ∈ counts, 0 ≤ c) (k : ℕ) {cum : Int}
    (hlow : (cum : ℚ) < rank) (hhigh : rank ≤ ((cum + counts.sum : Int) : ℚ)) :
    ∃ i c, counts[i]? = some c ∧ rankBucket rank k cum counts = some (k + i, cum + (counts.take i).sum, c) ∧
      ((cum + (counts.take i).sum : Int) : ℚ) < rank ∧ rank ≤ ((cum + (counts.take i).sum + c : Int) : ℚ) := by
  induction counts generalizing k cum with
  | nil => exact absurd hlow (not_lt.mpr (by simpa using hhigh))
  | cons c rest ih =>
    obtain ⟨hc, hrest⟩ := forall_mem_cons.mp hcounts
    rw [sum_cons] at hhigh
    have hmove (next : Int) (hnext : next = cum + c) (hlow' : (next : ℚ) < rank) :
        ∃ i d, (c :: rest)[i]? = some d ∧
          rankBucket rank (k + 1) next rest = some (k + i, cum + ((c :: rest).take i).sum, d) ∧
          ((cum + ((c :: rest).take i).sum : Int) : ℚ) < rank ∧
          rank ≤ ((cum + ((c :: rest).take i).sum + d : Int) : ℚ) := by
      subst hnext
      obtain ⟨i, d, hd, hfound, hlo, hhi⟩ := ih hrest (k + 1) hlow' (by rwa [add_assoc])
      refine ⟨i + 1, d, by simpa using hd, ?_, ?_, ?_⟩
      · rw [hfound, take_succ_cons, sum_cons, add_assoc, add_assoc, Nat.add_comm 1 i]
      · rwa [take_succ_cons, sum_cons, ← add_assoc]
      · rwa [take_succ_cons, sum_cons, ← add_assoc]
    unfold rankBucket
    by_cases hzero : c = 0
    · rw [if_pos hzero]
      exact hmove cum (by omega) hlow
    rw [if_neg hzero]
    by_cases hshort : ((cum + c : Int) : ℚ) < rank
    · have hne : rest ≠ [] := by
        rintro rfl
        exact absurd hshort (not_lt.mpr (by simpa using hhigh))
      rw [if_pos ⟨hshort, hne⟩]
      exact hmove (cum + c) rfl hshort
    · rw [if_neg (fun h => hshort h.1)]
      exact ⟨0, c, rfl, by simp, by simpa using hlow, by simpa using not_lt.mp hshort⟩

theorem le_clampEstimate_iff {min max : Option ℚ} {a v : ℚ} :
    a ≤ clampEstimate min max v ↔ (a ≤ v ∨ ∃ m ∈ min, a ≤ m) ∧ ∀ m ∈ max, a ≤ m := by
  cases min <;> cases max <;> simp only [clampEstimate, Option.any, Option.mem_def, Option.getD] <;> grind

theorem clampEstimate_le_iff {min max : Option ℚ} {b v : ℚ} :
    clampEstimate min max v ≤ b ↔ (v ≤ b ∧ ∀ m ∈ min, m ≤ b) ∨ ∃ m ∈ max, m ≤ b := by
  cases min <;> cases max <;> simp only [clampEstimate, Option.any, Option.mem_def, Option.getD] <;> grind

theorem clampEstimate_mono (min max : Option ℚ) : Monotone (clampEstimate min max) := by
  intro v w hvw
  have hself := le_clampEstimate_iff.mp (le_refl (clampEstimate min max v))
  refine le_clampEstimate_iff.mpr ⟨hself.1.imp_left (fun h => h.trans hvw), hself.2⟩

section Bounds

variable {bounds : List ℚ} {min max : Option ℚ} {i : ℕ}

theorem getElem?_bounds (hi : i < bounds.length) : bounds[i]? = some (bounds.getD i 0) := by
  simp [getD, hi]

section Increasing

variable (hbounds : bounds.Pairwise (· < ·))

include hbounds

theorem getD_bounds_lt {j : ℕ} (hij : i < j) (hj : j < bounds.length) : bounds.getD i 0 < bounds.getD j 0 := by
  have hi : i < bounds.length := hij.trans hj
  rw [getD_eq_getElem _ _ hi, getD_eq_getElem _ _ hj]
  exact pairwise_iff_getElem.mp hbounds i j hi hj hij

theorem bucketLower_le_bucketUpper :
    bucketLower bounds min i ≤ bucketUpper bounds max i (bucketLower bounds min i) := by
  by_cases hlast : i < bounds.length
  · rw [bucketUpper, if_pos hlast, bucketLower]
    by_cases hfirst : 0 < i
    · rw [if_pos hfirst]
      exact (getD_bounds_lt hbounds (by omega) hlast).le
    obtain rfl : i = 0 := by omega
    rw [if_neg hfirst]
    split_ifs with hmin hzero
    · obtain ⟨m, rfl, hm⟩ := Option.any_eq_true _ _ |>.mp hmin
      exact (of_decide_eq_true hm).le
    · exact le_refl _
    · exact (not_le.mp hzero).le
  · rw [bucketUpper, if_neg hlast]
    split_ifs with hmax
    · obtain ⟨m, rfl, hm⟩ := Option.any_eq_true _ _ |>.mp hmax
      exact (of_decide_eq_true hm).le
    · exact le_refl _

theorem interpolate_mem {rank : ℚ} {cum c : Int} (hlow : (cum : ℚ) < rank) (hhigh : rank ≤ ((cum + c : Int) : ℚ)) :
    bucketLower bounds min i ≤ interpolate bounds min max rank i cum c ∧
      interpolate bounds min max rank i cum c ≤ bucketUpper bounds max i (bucketLower bounds min i) := by
  have hle := @bucketLower_le_bucketUpper bounds min max i hbounds
  simp only [interpolate]
  generalize bucketLower bounds min i = lower at hle ⊢
  generalize bucketUpper bounds max i lower = upper at hle ⊢
  push_cast at hhigh
  have hc : (0 : ℚ) < c := by linarith
  have hshare : (rank - cum) / c ≤ 1 := by
    rw [div_le_one hc]
    linarith
  have hshare0 : 0 ≤ (rank - cum) / c := div_nonneg (by linarith) hc.le
  rw [mul_div_assoc]
  constructor
  · have := mul_nonneg (sub_nonneg.mpr hle) hshare0
    linarith
  · have := mul_le_of_le_one_right (sub_nonneg.mpr hle) hshare
    linarith

theorem interpolate_mono {rank rank' : ℚ} {cum c : Int} (hc : 0 ≤ c) (hrank : rank ≤ rank') :
    interpolate bounds min max rank i cum c ≤ interpolate bounds min max rank' i cum c := by
  have hle := @bucketLower_le_bucketUpper bounds min max i hbounds
  simp only [interpolate]
  have hc' : (0 : ℚ) ≤ c := by exact_mod_cast hc
  have hwidth := sub_nonneg.mpr hle
  gcongr

end Increasing

end Bounds

end argvio.storage
