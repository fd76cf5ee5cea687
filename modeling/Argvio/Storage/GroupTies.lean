import Argvio.Storage.VendorGroups

open List

namespace argvio.storage

open firstseen tiedorder

theorem eq_of_map_eq {α β : Type} {f : α → β} {l₁ l₂ : List α} (hf : ∀ x ∈ l₁, ∀ y ∈ l₂, f x = f y → x = y)
    (h : l₁.map f = l₂.map f) : l₁ = l₂ := by
  induction l₁ generalizing l₂ with
  | nil => exact (map_eq_nil_iff.mp h.symm).symm
  | cons x l₁ ih =>
    cases l₂ with
    | nil => cases h
    | cons y l₂ =>
      obtain ⟨hhead, htail⟩ := cons.inj h
      rw [hf x mem_cons_self y mem_cons_self hhead,
        ih (fun a ha b hb => hf a (mem_cons_of_mem x ha) b (mem_cons_of_mem y hb)) htail]

namespace Breakdown

section Combinations

variable {ρ α τ σ π ω : Type} (k : Breakdown ρ α τ σ π ω) (dq : DimQuery)

/-- The combinations of values that some rows of a rollup carry. -/
def combinations (rows : List ρ) : List (List (Option String)) :=
  (rows.map (fun row => dq.groupValues (k.label row))).dedup

theorem combinations_perm (bucketExpr : Int → Int) (pb : ρ → Bool) (table : List ρ) :
    (firstSeen ((k.groupedRows dq bucketExpr pb table).map GroupedRow.values)).Perm
      (k.combinations dq (table.filter pb)) := by
  refine (perm_ext_iff_of_nodup (nodup_firstSeen _) (nodup_dedup _)).mpr (fun values => ?_)
  rw [mem_firstSeen, mem_map_values_iff, mem_dedup]

end Combinations

section Weights

variable {ρ α τ σ π ω : Type} [AddCommMonoid τ] (k : Breakdown ρ α τ σ π ω) (value : ρ → τ) (dq : DimQuery)

/-- What the rows with some values weigh together. -/
def windowWeight (rows : List ρ) (values : List (Option String)) : ω :=
  k.weight (k.stats ((k.rowsOf dq rows values).map value).sum)

variable {k value dq} in
theorem Answers.weightIn_eq {bucketExpr : Int → Int} {pb : ρ → Bool} {table : List ρ} {l : List (GroupedRow α)}
    (h : k.Answers dq bucketExpr pb table l) (hk : k.Adds value) :
    k.weightIn dq l = k.windowWeight value dq (table.filter pb) := by
  funext values
  unfold windowWeight
  rw [← h.total_eq hk]
  rfl

end Weights

section Ties

variable {ρ α τ σ π ω : Type} [AddCommMonoid τ] [LinearOrder ω] (k : Breakdown ρ α τ σ π ω) (value : ρ → τ)
  (dq : DimQuery) (bucketExpr : Int → Int) (rows : List ρ)

/-- The combinations that come before one in the ranking: those that weigh more, and those that
weigh as much and begin earlier. -/
def ahead (values : List (Option String)) : List (List (Option String)) :=
  (k.combinations dq rows).filter (fun other =>
    k.windowWeight value dq rows values < k.windowWeight value dq rows other ∨
      k.windowWeight value dq rows other = k.windowWeight value dq rows values ∧
        k.firstBucket dq bucketExpr rows other < k.firstBucket dq bucketExpr rows values)

/-- Two combinations that weigh the same and begin in the same bucket have `limit` others
before them. -/
def TiedBeyond (limit : ℕ) : Prop :=
  ∀ x ∈ k.combinations dq rows, ∀ y ∈ k.combinations dq rows, x ≠ y →
    k.windowWeight value dq rows x = k.windowWeight value dq rows y →
      k.firstBucket dq bucketExpr rows x = k.firstBucket dq bucketExpr rows y →
        limit ≤ (k.ahead value dq bucketExpr rows x).length

variable {k value dq bucketExpr rows} {pb : ρ → Bool} {table : List ρ} {l₁ l₂ : List (GroupedRow α)} {limit : ℕ}

theorem before_eq_length_ahead (values : List (Option String)) :
    before (place (k.windowWeight value dq (table.filter pb)) (k.firstBucket dq bucketExpr (table.filter pb)))
        (firstSeen ((k.groupedRows dq bucketExpr pb table).map GroupedRow.values)) values =
      (k.ahead value dq bucketExpr (table.filter pb) values).length := by
  unfold before ahead
  rw [(k.combinations_perm dq bucketExpr pb table).countP_eq, countP_eq_length_filter]
  congr 1
  exact filter_congr (fun other _ => decide_eq_decide.mpr place_lt_iff)

/-- The groups of two answers are the same exactly when the ranked combinations are. -/
theorem groups_eq_iff_ranking (hk : k.Adds value) (h₁ : k.Answers dq bucketExpr pb table l₁)
    (h₂ : k.Answers dq bucketExpr pb table l₂) :
    k.groups dq limit l₁ = k.groups dq limit l₂ ↔
      (ranking GroupedRow.values (k.windowWeight value dq (table.filter pb)) l₁).take limit =
        (ranking GroupedRow.values (k.windowWeight value dq (table.filter pb)) l₂).take limit := by
  rw [groups_eq_ranking h₁.length_values, groups_eq_ranking h₂.length_values, h₁.weightIn_eq hk, h₂.weightIn_eq hk,
    h₁.groupOf_eq h₂]
  refine ⟨eq_of_map_eq (fun x hx y hy heq => ?_), fun heq => by rw [heq]⟩
  have hlabel : ∀ {l : List (GroupedRow α)} {values : List (Option String)}, k.Answers dq bucketExpr pb table l →
      values ∈ (ranking GroupedRow.values (k.windowWeight value dq (table.filter pb)) l).take limit →
        ∃ r, dq.groupValues (k.label r) = values := by
    intro l values h hvalues
    have hseen := (arranges_ranking _ firstBucket_groupedRows h).perm.mem_iff.mp (mem_of_mem_take hvalues)
    obtain ⟨r, -, hr⟩ := mem_map.mp (mem_map_values_iff.mp (mem_firstSeen.mp hseen))
    exact ⟨r, hr⟩
  obtain ⟨r, rfl⟩ := hlabel h₁ hx
  obtain ⟨r', rfl⟩ := hlabel h₂ hy
  have hdims : dq.dimsOf (dq.groupValues (k.label r)) = dq.dimsOf (dq.groupValues (k.label r')) :=
    congrArg VendorGroup.dims heq
  refine DimQuery.groupValues_eq_of_dimsOf ?_
  rw [hdims]
  exact GoMap.Same.refl _

/-- When the groups do not depend on the order of the rows within a bucket. -/
theorem groups_eq_iff_tiedBeyond (hk : k.Adds value) :
    (∀ l₁ l₂, k.Answers dq bucketExpr pb table l₁ → k.Answers dq bucketExpr pb table l₂ →
        k.groups dq limit l₁ = k.groups dq limit l₂) ↔
      k.TiedBeyond value dq bucketExpr (table.filter pb) limit := by
  have hranking := ranking_take_eq_iff (k.windowWeight value dq (table.filter pb)) nodup_groupedRows
    (@firstBucket_groupedRows _ _ _ _ _ _ k dq bucketExpr pb table) limit
  have hgroups : (∀ l₁ l₂, k.Answers dq bucketExpr pb table l₁ → k.Answers dq bucketExpr pb table l₂ →
        k.groups dq limit l₁ = k.groups dq limit l₂) ↔
      ∀ l₁ l₂, Arranges GroupedRow.bucket (k.groupedRows dq bucketExpr pb table) l₁ →
        Arranges GroupedRow.bucket (k.groupedRows dq bucketExpr pb table) l₂ →
          (ranking GroupedRow.values (k.windowWeight value dq (table.filter pb)) l₁).take limit =
            (ranking GroupedRow.values (k.windowWeight value dq (table.filter pb)) l₂).take limit :=
    forall₄_congr (fun _ _ h₁ h₂ => groups_eq_iff_ranking hk h₁ h₂)
  rw [hgroups, hranking]
  unfold TiedBeyond
  simp only [(k.combinations_perm dq bucketExpr pb table).mem_iff, place_eq_iff, and_imp, before_eq_length_ahead]

end Ties

end Breakdown

/-- The groups of a breakdown do not depend on the order of the rows within a bucket exactly
when combinations of values that weigh the same and begin in the same bucket are cut off by the
limit. -/
theorem groups_row_order_iff (dq : DimQuery) (bucketExpr : Int → Int) (limit : ℕ) :
    (∀ (table : List (RollupRow CounterSums)) (pb : RollupRow CounterSums → Bool),
      (∀ l₁ l₂, counterBreakdown.Answers dq bucketExpr pb table l₁ → counterBreakdown.Answers dq bucketExpr pb table l₂ →
          counterGroups dq limit l₁ = counterGroups dq limit l₂) ↔
        counterBreakdown.TiedBeyond (fun row => row.agg.total) dq bucketExpr (table.filter pb) limit) ∧
    (∀ (table : List (RollupRow MeasureAgg)) (pb : RollupRow MeasureAgg → Bool),
      (∀ l₁ l₂, measureBreakdown.Answers dq bucketExpr pb table l₁ → measureBreakdown.Answers dq bucketExpr pb table l₂ →
          measureGroups dq limit l₁ = measureGroups dq limit l₂) ↔
        measureBreakdown.TiedBeyond RollupRow.agg dq bucketExpr (table.filter pb) limit) ∧
    (∀ (table : List ValueRow) (pb : ValueRow → Bool),
      (∀ l₁ l₂, valueBreakdown.Answers dq bucketExpr pb table l₁ → valueBreakdown.Answers dq bucketExpr pb table l₂ →
          valueGroups dq limit l₁ = valueGroups dq limit l₂) ↔
        valueBreakdown.TiedBeyond ValueRow.agg dq bucketExpr (table.filter pb) limit) :=
  ⟨fun _ _ => Breakdown.groups_eq_iff_tiedBeyond counterBreakdown_adds,
    fun _ _ => Breakdown.groups_eq_iff_tiedBeyond measureBreakdown_adds,
    fun _ _ => Breakdown.groups_eq_iff_tiedBeyond valueBreakdown_adds⟩

/-- Two groups of one bucket with the same total: which of them a limit of one keeps is up to
the database. -/
theorem groups_of_tied_rows :
    let dq : DimQuery := { groupBy := ["plan"] }
    let row := fun label : Option String =>
      ({ tenantID := 1, name := some "builds", label, serviceName := none, commandName := none, cliVersion := none,
         os := none, arch := none, isCI := none, bucket := 0, agg := { total := 3, datapointCount := 1 } } :
        RollupRow CounterSums)
    let table := [row none, row (some "plan=pro")]
    let free : GroupedRow CounterSums := { bucket := 0, values := [none], agg := { total := 3, datapointCount := 1 } }
    let pro : GroupedRow CounterSums :=
      { bucket := 0, values := [some "pro"], agg := { total := 3, datapointCount := 1 } }
    counterBreakdown.Answers dq id (fun _ => true) table [free, pro] ∧
      counterBreakdown.Answers dq id (fun _ => true) table [pro, free] ∧
      (counterGroups dq 1 [free, pro]).map (fun g => g.dims.lookup "plan") = [some none] ∧
      (counterGroups dq 1 [pro, free]).map (fun g => g.dims.lookup "plan") = [some (some "pro")] := by
  intro dq row table free pro
  have hrows : counterBreakdown.groupedRows dq id (fun _ => true) table = [free, pro] := by
    decide +kernel
  have hsorted : ∀ l : List (GroupedRow CounterSums), l.Perm [free, pro] →
      l.Pairwise (fun x y => x.bucket ≤ y.bucket) := by
    intro l hl
    refine pairwise_of_forall_mem_list (fun x hx y hy => ?_)
    have hbucket : ∀ z ∈ [free, pro], z.bucket = 0 := by decide
    rw [hbucket x (hl.mem_iff.mp hx), hbucket y (hl.mem_iff.mp hy)]
  have hlength : ∀ l : List (GroupedRow CounterSums), l.Perm [free, pro] →
      ∀ z ∈ l, z.values.length = dq.groupBy.length := by
    intro l hl z hz
    have hall : ∀ z ∈ [free, pro], z.values.length = dq.groupBy.length := by decide
    exact hall z (hl.mem_iff.mp hz)
  refine ⟨⟨?_, hsorted _ (List.Perm.refl _)⟩, ⟨?_, hsorted _ (List.Perm.swap _ _ [])⟩, ?_, ?_⟩
  · rw [hrows]
  · rw [hrows]
    exact List.Perm.swap _ _ []
  · unfold counterGroups
    rw [Breakdown.groups_eq_ranking (hlength _ (List.Perm.refl _))]
    decide +kernel
  · unfold counterGroups
    rw [Breakdown.groups_eq_ranking (hlength _ (List.Perm.swap _ _ []))]
    decide +kernel

end argvio.storage
