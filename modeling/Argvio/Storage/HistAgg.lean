import Argvio.OptLeast
import Argvio.Storage.Percentiles
import Argvio.Storage.Rows

open List

namespace argvio.storage

/-- The merged histogram of some data points: `measureAgg` and `valueAgg`, which
differ in the number of buckets. -/
@[ext] structure HistAgg (n : ℕ) where
  count : Int
  points : Int
  sum : Option ℚ
  min : Option ℚ
  max : Option ℚ
  buckets : Fin n → Int
  deriving DecidableEq

namespace HistAgg

variable {n : ℕ}

def zero : HistAgg n where
  count := 0
  points := 0
  sum := none
  min := none
  max := none
  buckets := fun _ => 0

/-- Counts and buckets sum, min and max widen. -/
def merge (a b : HistAgg n) : HistAgg n where
  count := a.count + b.count
  points := a.points + b.points
  sum :=
    match b.sum with
    | none => a.sum
    | some s => some (s + a.sum.getD 0)
  min :=
    match b.min with
    | none => a.min
    | some m => if a.min.all (m < ·) then some m else a.min
  max :=
    match b.max with
    | none => a.max
    | some m => if a.max.all (m > ·) then some m else a.max
  buckets := fun i => a.buckets i + b.buckets i

/-- What the rollups take from one row of the metrics table. The values of a row whose
metric has fixed bounds are finite. -/
def ofRow (row : MetricRow) : HistAgg n where
  count := row.histogramCount.getD 0
  points := 1
  sum := row.histogramSum.bind GoFloat.rat?
  min := row.histogramMin.bind GoFloat.rat?
  max := row.histogramMax.bind GoFloat.rat?
  buckets := fun i => row.histogramBucketCounts.getD i 0

/-- The quantile of a merged histogram. -/
def quantile (bounds : List ℚ) (a : HistAgg n) (q : ℚ) : Option ℚ :=
  histQuantile bounds a.min a.max (ofFn a.buckets) q

/-- A sum over nullable values, which ignores a NULL. -/
def optSum (a b : Option ℚ) : Option ℚ :=
  match b with
  | none => a
  | some s => some (s + a.getD 0)

theorem optSum_comm (a b : Option ℚ) : optSum a b = optSum b a := by
  cases a <;> cases b <;> simp [optSum, add_comm]

theorem optSum_assoc (a b c : Option ℚ) : optSum (optSum a b) c = optSum a (optSum b c) := by
  cases a <;> cases b <;> cases c <;> simp [optSum, add_comm, add_left_comm]

variable (l : List (HistAgg n)) (a b : HistAgg n)

theorem merge_min : (a.merge b).min = optMin a.min b.min := by
  unfold merge
  cases hb : b.min with
  | none => simp
  | some m =>
    cases ha : a.min with
    | none => rfl
    | some k =>
      simp only [Option.all_some, decide_eq_true_eq, optMin]
      split_ifs with hlt
      · rw [min_eq_right hlt.le]
      · rw [min_eq_left (not_lt.mp hlt)]

/-- The greatest of nullable values is the least in the reverse order. -/
theorem merge_max : (a.merge b).max = optMin (α := ℚᵒᵈ) a.max b.max := by
  unfold merge
  cases hb : b.max with
  | none => exact (optMin_none (α := ℚᵒᵈ) a.max).symm
  | some m =>
    cases ha : a.max with
    | none => rfl
    | some k =>
      simp only [Option.all_some, decide_eq_true_eq, gt_iff_lt]
      split_ifs with hlt
      · exact congrArg some (min_eq_right (α := ℚᵒᵈ) hlt.le).symm
      · exact congrArg some (min_eq_left (α := ℚᵒᵈ) (not_lt.mp hlt)).symm

theorem merge_comm : a.merge b = b.merge a := by
  ext1
  · exact add_comm _ _
  · exact add_comm _ _
  · exact optSum_comm _ _
  · rw [merge_min, merge_min, optMin_comm]
  · rw [merge_max, merge_max]
    exact optMin_comm (α := ℚᵒᵈ) _ _
  · exact funext (fun i => add_comm _ _)

theorem merge_assoc (a b c : HistAgg n) : (a.merge b).merge c = a.merge (b.merge c) := by
  ext1
  · exact add_assoc _ _ _
  · exact add_assoc _ _ _
  · exact optSum_assoc _ _ _
  · rw [merge_min, merge_min, merge_min, merge_min, optMin_assoc]
  · rw [merge_max, merge_max, merge_max, merge_max]
    exact optMin_assoc (α := ℚᵒᵈ) _ _ _
  · exact funext (fun i => add_assoc _ _ _)

theorem merge_zero : a.merge zero = a := by
  ext1 <;> simp [merge, zero]

instance : Zero (HistAgg n) := ⟨zero⟩

instance : Add (HistAgg n) := ⟨merge⟩

/-- Merging does not depend on order or grouping. -/
instance : AddCommMonoid (HistAgg n) where
  add_assoc := merge_assoc
  zero_add := fun a => (merge_comm zero a).trans (merge_zero a)
  add_zero := merge_zero
  add_comm := merge_comm
  nsmul := nsmulRec

theorem foldl_merge : l.foldl merge zero = l.sum := sum_eq_foldl.symm

/-- A value that merges by addition is summed over a list. -/
theorem sum_additive {α : Type} [AddMonoid α] {f : HistAgg n → α} (hzero : f zero = 0)
    (hmerge : ∀ a b, f (a.merge b) = f a + f b) (l : List (HistAgg n)) : f l.sum = (l.map f).sum :=
  map_list_sum (⟨⟨f, hzero⟩, hmerge⟩ : HistAgg n →+ α) l

@[simp] theorem sum_points : l.sum.points = (l.map points).sum := sum_additive rfl (fun _ _ => rfl) l

theorem sum_buckets (i : Fin n) : l.sum.buckets i = (l.map (fun a => a.buckets i)).sum :=
  sum_additive (f := fun a => a.buckets i) rfl (fun _ _ => rfl) l

/-- A value that merges to the least one reported is, over a list, the least of all. -/
theorem sum_least {α : Type} [LinearOrder α] {f : HistAgg n → Option α} (hzero : f zero = none)
    (hmerge : ∀ a b, f (a.merge b) = optMin (f a) (f b)) (l : List (HistAgg n)) : f l.sum = (l.filterMap f).min? := by
  induction l with
  | nil => exact hzero
  | cons a l ih =>
    have hcons : f (a :: l).sum = optMin (f a) (f l.sum) := by
      rw [sum_cons]
      exact hmerge a l.sum
    rw [hcons, ih, filterMap_cons]
    cases f a with
    | none => rfl
    | some m =>
      rw [min?_cons]
      cases (l.filterMap f).min? <;> rfl

theorem sum_min : l.sum.min = (l.filterMap HistAgg.min).min? := sum_least rfl merge_min l

theorem sum_max : l.sum.max = (l.filterMap HistAgg.max).max? :=
  @sum_least n ℚᵒᵈ _ HistAgg.max rfl merge_max l

@[simp] theorem sum_count : l.sum.count = (l.map count).sum := sum_additive rfl (fun _ _ => rfl) l

theorem sum_sum : l.sum.sum = (l.map HistAgg.sum).foldr optSum none := by
  induction l with
  | nil => rfl
  | cons a l ih =>
    rw [sum_cons, map_cons, foldr_cons, ← ih]
    rfl

/-- `sum` in SQL: NULL without a value that is not. -/
def nullSum (l : List (Option ℚ)) : Option ℚ := if l.filterMap id = [] then none else some (l.filterMap id).sum

theorem nullSum_cons (a : Option ℚ) (l : List (Option ℚ)) : nullSum (a :: l) = optSum a (nullSum l) := by
  unfold nullSum optSum
  cases a with
  | none =>
    rw [filterMap_cons_none rfl]
    split_ifs <;> simp
  | some s =>
    have hcons : (some s :: l).filterMap id = s :: l.filterMap id := rfl
    rw [hcons, if_neg (by simp)]
    split_ifs with hnil
    · rw [hnil, sum_singleton]
    · rw [sum_cons, add_comm]
      rfl

/-- What `measureAggregates` and `valueAggregates` select for a group of rollup rows. -/
def sqlAggregate (rows : List (HistAgg n)) : HistAgg n where
  count := (rows.map count).sum
  points := (rows.map points).sum
  sum := nullSum (rows.map HistAgg.sum)
  min := (rows.filterMap HistAgg.min).min?
  max := (rows.filterMap HistAgg.max).max?
  buckets := fun i => (rows.map (fun a => a.buckets i)).sum

/-- The aggregates of the database are the merge of the rows. -/
theorem sqlAggregate_eq_sum (rows : List (HistAgg n)) : sqlAggregate rows = rows.sum := by
  have hsum : nullSum (rows.map HistAgg.sum) = (rows.map HistAgg.sum).foldr optSum none := by
    induction rows.map HistAgg.sum with
    | nil => rfl
    | cons a l ih => rw [nullSum_cons, foldr_cons, ih]
  ext1
  · exact (sum_count rows).symm
  · exact (sum_points rows).symm
  · rw [sum_sum, ← hsum]
    rfl
  · exact (sum_min rows).symm
  · exact (sum_max rows).symm
  · exact funext (fun i => (sum_buckets rows i).symm)

end HistAgg

end argvio.storage
