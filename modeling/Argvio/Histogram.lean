import Mathlib.Data.List.Sort
import Mathlib.Algebra.GroupWithZero.Nat

open List

namespace histogram

variable {α : Type} [LinearOrder α]

/-- The `k`-th smallest element of a list, counted from one. -/
def nthSmallest (l : List α) (k : ℕ) : Option α := (l.insertionSort (· ≤ ·))[k - 1]?

/-- In a sorted list, the elements with a property that smaller ones inherit come first. -/
theorem lt_countP_iff {l : List α} (hl : l.Pairwise (· ≤ ·)) {p : α → Bool} (hp : ∀ a b, a ≤ b → p b = true → p a = true)
    (j : ℕ) : j < l.countP p ↔ ∃ a, l[j]? = some a ∧ p a = true := by
  induction l generalizing j with
  | nil => simp
  | cons a rest ih =>
    obtain ⟨hhead, htail⟩ := pairwise_cons.mp hl
    by_cases ha : p a = true
    · rw [countP_cons_of_pos ha]
      cases j with
      | zero => simp [ha]
      | succ j => simpa using ih htail j
    · have hnone : ∀ b ∈ rest, ¬ p b = true := fun b hb hpb => ha (hp a b (hhead b hb) hpb)
      rw [countP_cons_of_neg ha, countP_eq_zero.mpr hnone]
      refine iff_of_false (Nat.not_lt_zero j) ?_
      rintro ⟨b, hb, hpb⟩
      rcases mem_cons.mp (mem_of_getElem? hb) with rfl | hmem
      · exact ha hpb
      · exact hnone b hmem hpb

/-- Sorting elements into numbered classes that respect the order, the `k`-th smallest
is in the class where the running count reaches `k`. -/
theorem nthSmallest_class {f : α → ℕ} (hf : Monotone f) {l : List α} {i k : ℕ} (hlow : l.countP (f · < i) < k)
    (hhigh : k ≤ l.countP (f · ≤ i)) : ∃ x ∈ l, nthSmallest l k = some x ∧ f x = i := by
  have hperm := perm_insertionSort (· ≤ ·) l
  have hsorted := pairwise_insertionSort (· ≤ ·) l
  rw [← hperm.countP_eq] at hlow hhigh
  have hbelow := lt_countP_iff hsorted (p := fun x => decide (f x < i))
    (fun a b hab hb => decide_eq_true ((hf hab).trans_lt (of_decide_eq_true hb))) (k - 1)
  have hupto := lt_countP_iff hsorted (p := fun x => decide (f x ≤ i))
    (fun a b hab hb => decide_eq_true ((hf hab).trans (of_decide_eq_true hb))) (k - 1)
  obtain ⟨x, hx, hle⟩ := hupto.mp (by omega)
  have hge : ¬ f x < i := by
    intro hlt
    have hcount := hbelow.mpr ⟨x, hx, decide_eq_true hlt⟩
    omega
  have hmem := hperm.mem_iff.mp (mem_of_getElem? hx)
  exact ⟨x, hmem, hx, le_antisymm (of_decide_eq_true hle) (not_lt.mp hge)⟩

section Extremes

variable {l : List α} {a : α}

theorem forall_mem_min?_iff [Std.LawfulOrderMin α] : (∀ m ∈ l.min?, m ≤ a) ↔ l = [] ∨ ∃ m ∈ l, m ≤ a := by
  cases hmin : l.min? with
  | none => simp [min?_eq_none_iff.mp hmin]
  | some m =>
    obtain ⟨hmem, hleast⟩ := min?_eq_some_iff.mp hmin
    constructor
    · intro h
      exact .inr ⟨m, hmem, h m rfl⟩
    · rintro (rfl | ⟨k, hk, hle⟩) _ ⟨⟩
      · cases hmem
      · exact (hleast k hk).trans hle

theorem forall_mem_max?_iff [Std.LawfulOrderMax α] : (∀ m ∈ l.max?, a ≤ m) ↔ l = [] ∨ ∃ m ∈ l, a ≤ m := by
  cases hmax : l.max? with
  | none => simp [max?_eq_none_iff.mp hmax]
  | some m =>
    obtain ⟨hmem, hgreatest⟩ := max?_eq_some_iff.mp hmax
    constructor
    · intro h
      exact .inr ⟨m, hmem, h m rfl⟩
    · rintro (rfl | ⟨k, hk, hle⟩) _ ⟨⟩
      · cases hmem
      · exact hle.trans (hgreatest k hk)

theorem exists_mem_max?_iff [Std.LawfulOrderMax α] : (∃ m ∈ l.max?, m ≤ a) ↔ l ≠ [] ∧ ∀ m ∈ l, m ≤ a := by
  cases hmax : l.max? with
  | none => simp [max?_eq_none_iff.mp hmax]
  | some m =>
    obtain ⟨hmem, hgreatest⟩ := max?_eq_some_iff.mp hmax
    constructor
    · rintro ⟨_, ⟨⟩, hle⟩
      exact ⟨ne_nil_of_mem hmem, fun k hk => (hgreatest k hk).trans hle⟩
    · rintro ⟨_, hle⟩
      exact ⟨m, rfl, hle m hmem⟩

end Extremes

/-- The bucket of a value: its bounds are excluded below and included above. -/
def bucketOf (bounds : List α) (x : α) : ℕ := bounds.countP (· < x)

theorem bucketOf_mono (bounds : List α) : Monotone (bucketOf bounds) := by
  intro a b hab
  exact countP_mono_left (fun c _ hc => decide_eq_true ((of_decide_eq_true hc).trans_le hab))

theorem bucketOf_le (bounds : List α) (x : α) : bucketOf bounds x ≤ bounds.length := countP_le_length

section Bounds

variable {bounds : List α} {x b : α} {i : ℕ}

theorem lt_bucketOf_iff (hbounds : bounds.Pairwise (· ≤ ·)) (hb : bounds[i]? = some b) : i < bucketOf bounds x ↔ b < x := by
  have hcount := lt_countP_iff hbounds (p := fun c => decide (c < x))
    (fun a c hac hc => decide_eq_true (hac.trans_lt (of_decide_eq_true hc))) i
  unfold bucketOf
  rw [hcount]
  simp [hb]

end Bounds

/-- How many values there are in each bucket. -/
def counts (bounds l : List α) : List ℕ :=
  (range (bounds.length + 1)).map (fun i => l.countP (bucketOf bounds · = i))

variable (bounds l : List α)

@[simp] theorem length_counts : (counts bounds l).length = bounds.length + 1 := by simp [counts]

theorem getElem?_counts {i : ℕ} (hi : i ≤ bounds.length) :
    (counts bounds l)[i]? = some (l.countP (bucketOf bounds · = i)) := by
  unfold counts
  rw [getElem?_map, getElem?_range (by omega)]
  rfl

theorem countP_bucketOf_succ (i : ℕ) :
    l.countP (bucketOf bounds · < i + 1) = l.countP (bucketOf bounds · < i) + l.countP (bucketOf bounds · = i) := by
  induction l with
  | nil => rfl
  | cons x rest ih =>
    simp only [countP_cons, ih, decide_eq_true_eq]
    split_ifs <;> omega

/-- The buckets below one hold the values that belong there. -/
theorem sum_take_counts {i : ℕ} (hi : i ≤ bounds.length + 1) :
    ((counts bounds l).take i).sum = l.countP (bucketOf bounds · < i) := by
  induction i with
  | zero => simp
  | succ i ih =>
    rw [take_add_one, sum_append, ih (by omega), getElem?_counts bounds l (by omega), countP_bucketOf_succ]
    simp

theorem sum_counts : (counts bounds l).sum = l.length := by
  have htake := sum_take_counts bounds l (i := bounds.length + 1) le_rfl
  rw [take_of_length_le (by simp)] at htake
  rw [htake]
  refine countP_eq_length.mpr (fun x _ => decide_eq_true ?_)
  exact Nat.lt_succ_of_le (bucketOf_le bounds x)

end histogram
