import Argvio.Storage.VendorGroups

namespace argvio.storage

namespace HistAgg

variable {n : ℕ}

/-- Aggregating the buckets and merging them, in whatever order, is aggregating the rows. -/
theorem foldl_merge_sqlAggregate {rows : List (HistAgg n)} {parts : List (List (HistAgg n))} {order : List (HistAgg n)}
    (hparts : parts.flatten.Perm rows) (horder : order.Perm (parts.map sqlAggregate)) :
    order.foldl merge zero = sqlAggregate rows := by
  have hmap : parts.map sqlAggregate = parts.map List.sum := List.map_congr_left (fun part _ => sqlAggregate_eq_sum part)
  calc order.foldl merge zero = order.sum := foldl_merge order
    _ = (parts.map List.sum).sum := by rw [horder.sum_eq, hmap]
    _ = parts.flatten.sum := List.sum_flatten.symm
    _ = rows.sum := hparts.sum_eq
    _ = sqlAggregate rows := (sqlAggregate_eq_sum rows).symm

end HistAgg

namespace Breakdown

variable {ρ α τ σ π ω : Type} [LinearOrder ω] {k : Breakdown ρ α τ σ π ω} {dq : DimQuery} {bucketExpr : Int → Int}
  {pb : ρ → Bool} {table : List ρ} {l : List (GroupedRow α)} {limit : ℕ} {g : VendorGroup σ π}

/-- A group is that of the values in some row's label. -/
theorem Answers.exists_of_mem_groups (h : k.Answers dq bucketExpr pb table l) (hg : g ∈ k.groups dq limit l) :
    ∃ r ∈ table.filter pb, g = k.close (k.groupOf dq l (dq.groupValues (k.label r))) := by
  rw [groups_eq_ranking h.length_values] at hg
  obtain ⟨values, hvalues, rfl⟩ := List.mem_map.mp hg
  have hseen := (List.perm_insertionSort _ _).mem_iff.mp (List.mem_of_mem_take hvalues)
  have hmem := ((h.perm.map GroupedRow.values).mem_iff.mp (firstseen.mem_firstSeen.mp hseen))
  obtain ⟨r, hr, rfl⟩ := List.mem_map.mp (mem_map_values_iff.mp hmem)
  exact ⟨r, hr, rfl⟩

/-- A group's statistics are those of the rows with its values. -/
theorem Answers.stats_eq [AddCommMonoid τ] {value : ρ → τ} (hk : k.Adds value)
    (h : k.Answers dq bucketExpr pb table l) (hg : g ∈ k.groups dq limit l) {label : Option String}
    (hdims : GoMap.Same g.dims (dq.dimsOf (dq.groupValues label))) :
    g.stats = k.stats ((k.rowsOf dq (table.filter pb) (dq.groupValues label)).map value).sum := by
  obtain ⟨r, -, rfl⟩ := h.exists_of_mem_groups hg
  rw [← DimQuery.groupValues_eq_of_dimsOf hdims, ← h.total_eq hk]
  rfl

/-- Groups of the same values have the same statistics, whatever buckets they are broken into. -/
theorem Answers.stats_eq_of_same [AddCommMonoid τ] {value : ρ → τ} (hk : k.Adds value)
    {bucketExpr' : Int → Int} {l' : List (GroupedRow α)} {limit' : ℕ} {g' : VendorGroup σ π}
    (h : k.Answers dq bucketExpr pb table l) (h' : k.Answers dq bucketExpr' pb table l')
    (hg : g ∈ k.groups dq limit l) (hg' : g' ∈ k.groups dq limit' l') (hdims : GoMap.Same g.dims g'.dims) :
    g.stats = g'.stats := by
  obtain ⟨r, -, hclose⟩ := h'.exists_of_mem_groups hg'
  have hdims' : GoMap.Same g'.dims (dq.dimsOf (dq.groupValues (k.label r))) := by
    rw [hclose]
    exact GoMap.Same.refl _
  rw [h.stats_eq hk hg (List.Perm.trans hdims hdims'), h'.stats_eq hk hg' hdims']

end Breakdown

/-- Statistics do not depend on how the rows of a rollup are broken into buckets. -/
theorem stats_independent_of_bucket_size :
    (∀ (n : ℕ) (a b c : HistAgg n), (a.merge b).merge c = a.merge (b.merge c) ∧ a.merge b = b.merge a ∧
      a.merge .zero = a ∧ HistAgg.zero.merge a = a) ∧
    (∀ (n : ℕ) (rows : List (HistAgg n)) (parts : List (List (HistAgg n))) (order : List (HistAgg n)),
      parts.flatten.Perm rows → order.Perm (parts.map HistAgg.sqlAggregate) →
        order.foldl HistAgg.merge .zero = HistAgg.sqlAggregate rows) ∧
    (∀ (table : List (RollupRow MeasureAgg)) (pb : RollupRow MeasureAgg → Bool) (dq : DimQuery)
      (bucketExpr₁ bucketExpr₂ : Int → Int) (limit₁ limit₂ : ℕ) (l₁ l₂ : List (GroupedRow MeasureAgg)),
      measureBreakdown.Answers dq bucketExpr₁ pb table l₁ → measureBreakdown.Answers dq bucketExpr₂ pb table l₂ →
        ∀ g₁ ∈ measureGroups dq limit₁ l₁, ∀ g₂ ∈ measureGroups dq limit₂ l₂,
          GoMap.Same g₁.dims g₂.dims → g₁.stats = g₂.stats) ∧
    (∀ (table : List ValueRow) (pb : ValueRow → Bool) (dq : DimQuery)
      (bucketExpr₁ bucketExpr₂ : Int → Int) (limit₁ limit₂ : ℕ) (l₁ l₂ : List (GroupedRow ValueAgg)),
      valueBreakdown.Answers dq bucketExpr₁ pb table l₁ → valueBreakdown.Answers dq bucketExpr₂ pb table l₂ →
        ∀ g₁ ∈ valueGroups dq limit₁ l₁, ∀ g₂ ∈ valueGroups dq limit₂ l₂,
          GoMap.Same g₁.dims g₂.dims → g₁.stats = g₂.stats) := by
  refine ⟨fun n a b c => ?_, fun n rows parts order => ?_, ?_, ?_⟩
  · exact ⟨HistAgg.merge_assoc a b c, HistAgg.merge_comm a b, HistAgg.merge_zero a,
      (HistAgg.merge_comm .zero a).trans (HistAgg.merge_zero a)⟩
  · exact HistAgg.foldl_merge_sqlAggregate
  · intro table pb dq bucketExpr₁ bucketExpr₂ limit₁ limit₂ l₁ l₂ h₁ h₂ g₁ hg₁ g₂ hg₂
    exact h₁.stats_eq_of_same measureBreakdown_adds h₂ hg₁ hg₂
  · intro table pb dq bucketExpr₁ bucketExpr₂ limit₁ limit₂ l₁ l₂ h₁ h₂ g₁ hg₁ g₂ hg₂
    exact h₁.stats_eq_of_same valueBreakdown_adds h₂ hg₁ hg₂

/-- A row without a sum in one hour and one with a sum in the next: the group of both has the statistics of
the day. -/
theorem stats_independent_of_bucket_size_nulls :
    let silent : MeasureAgg := { count := 1, points := 1, sum := none, min := none, max := none, buckets := fun _ => 1 }
    let loud : MeasureAgg := { count := 2, points := 1, sum := some 7, min := some 3, max := some 4, buckets := fun _ => 2 }
    let row (bucket : Int) (agg : MeasureAgg) : RollupRow MeasureAgg :=
      { tenantID := 1, name := some "latency", label := none, serviceName := none, commandName := none,
        cliVersion := none, os := none, arch := none, isCI := none, bucket, agg }
    let dq : DimQuery := { groupBy := ["plan"] }
    let hourly : List (GroupedRow MeasureAgg) := [⟨0, [none], silent⟩, ⟨1, [none], loud⟩]
    let daily : List (GroupedRow MeasureAgg) := [⟨0, [none], HistAgg.sqlAggregate [silent, loud]⟩]
    [HistAgg.sqlAggregate [loud], HistAgg.sqlAggregate [silent]].foldl HistAgg.merge .zero =
      HistAgg.sqlAggregate [silent, loud] ∧
    measureBreakdown.Answers dq id (fun _ => true) [row 0 silent, row 1 loud] hourly ∧
    measureBreakdown.Answers dq (fun _ => 0) (fun _ => true) [row 0 silent, row 1 loud] daily ∧
    ∃ g₁ ∈ measureGroups dq 1 hourly, ∃ g₂ ∈ measureGroups dq 1 daily, g₁.stats = g₂.stats := by
  intro silent loud row dq hourly daily
  obtain ⟨-, hmerge, hgroups, -⟩ := stats_independent_of_bucket_size
  have hhourly : measureBreakdown.Answers dq id (fun _ => true) [row 0 silent, row 1 loud] hourly :=
    ⟨by decide +kernel, by decide⟩
  have hdaily : measureBreakdown.Answers dq (fun _ => 0) (fun _ => true) [row 0 silent, row 1 loud] daily :=
    ⟨by decide +kernel, by decide⟩
  have hgroup₁ : measureBreakdown.close (measureBreakdown.groupOf dq hourly [none]) ∈ measureGroups dq 1 hourly := by
    rw [measureGroups, Breakdown.groups_eq_ranking (by decide)]
    exact List.mem_map_of_mem (by decide +kernel)
  have hgroup₂ : measureBreakdown.close (measureBreakdown.groupOf dq daily [none]) ∈ measureGroups dq 1 daily := by
    rw [measureGroups, Breakdown.groups_eq_ranking (by decide)]
    exact List.mem_map_of_mem (by decide +kernel)
  refine ⟨?_, hhourly, hdaily, _, hgroup₁, _, hgroup₂, ?_⟩
  · exact hmerge _ [silent, loud] [[silent], [loud]] _ (List.Perm.refl _) (List.Perm.swap _ _ [])
  · exact hgroups _ _ dq id (fun _ => 0) 1 1 _ _ hhourly hdaily _ hgroup₁ _ hgroup₂ (GoMap.Same.refl _)

end argvio.storage
