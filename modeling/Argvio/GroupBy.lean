import Mathlib.Algebra.BigOperators.Group.Finset.Piecewise
import Mathlib.Algebra.Order.BigOperators.Group.List
import Mathlib.Algebra.Order.Group.Int
import Mathlib.Data.List.Sort
import Mathlib.Algebra.Ring.Int.Defs

open List

namespace groupby

section Groups

variable {ρ κ : Type} [LinearOrder κ] (key : ρ → κ) (rows : List ρ)

/-- The keys of some rows, each once and in order. -/
def keys : List κ := (rows.map key).dedup.insertionSort (· ≤ ·)

/-- The rows with a key. -/
def group (k : κ) : List ρ := rows.filter (fun r => key r = k)

variable {key rows}

theorem mem_keys {k : κ} : k ∈ keys key rows ↔ ∃ r ∈ rows, key r = k := by
  simp [keys]

theorem nodup_keys : (keys key rows).Nodup := (perm_insertionSort _ _).nodup_iff.mpr (nodup_dedup _)

theorem group_ne_nil {k : κ} (hk : k ∈ keys key rows) : group key rows k ≠ [] := by
  obtain ⟨r, hr, heq⟩ := mem_keys.mp hk
  exact ne_nil_of_mem (mem_filter.mpr ⟨hr, decide_eq_true heq⟩)

theorem keys_eq_nil_iff : keys key rows = [] ↔ rows = [] := by
  constructor
  · intro h
    refine eq_nil_iff_forall_not_mem.mpr (fun r hr => ?_)
    have hmem : key r ∈ keys key rows := mem_keys.mpr ⟨r, hr, rfl⟩
    rw [h] at hmem
    cases hmem
  · rintro rfl
    rfl

variable {μ : Type} [AddCommMonoid μ]

/-- Aggregating each group over any keys that cover the rows and then the groups is
aggregating the rows. -/
theorem sum_groups_of_cover (f : ρ → μ) {ks : List κ} (hks : ks.Nodup) (hcover : ∀ r ∈ rows, key r ∈ ks) :
    (ks.map (fun k => ((group key rows k).map f).sum)).sum = (rows.map f).sum := by
  induction rows with
  | nil => simp [group]
  | cons r rest ih =>
    obtain ⟨hr, hrest⟩ := forall_mem_cons.mp hcover
    have hgroup (k : κ) : ((group key (r :: rest) k).map f).sum =
        (if key r = k then f r else 0) + ((group key rest k).map f).sum := by
      unfold group
      by_cases hk : key r = k <;> simp [hk]
    have hone : (ks.map (fun k => if key r = k then f r else 0)).sum = f r := by
      rw [← sum_toFinset _ hks, Finset.sum_ite_eq, if_pos (mem_toFinset.mpr hr)]
    simp only [hgroup]
    rw [sum_map_add, hone, ih hrest, map_cons, sum_cons]

theorem sum_groups (f : ρ → μ) :
    ((keys key rows).map (fun k => ((group key rows k).map f).sum)).sum = (rows.map f).sum :=
  sum_groups_of_cover f nodup_keys (fun r hr => mem_keys.mpr ⟨r, hr, rfl⟩)

end Groups

section Page

variable {α : Type}

/-- `LIMIT limit OFFSET offset`. -/
def page (offset limit : ℕ) (l : List α) : List α := (l.drop offset).take limit

variable {l : List α} {w : α → Int}

theorem page_of_length_le {limit : ℕ} (h : l.length ≤ limit) : page 0 limit l = l :=
  take_of_length_le (by simpa using h)

theorem sum_take_page_drop (offset limit : ℕ) (l : List α) (w : α → Int) :
    (l.map w).sum = ((l.take offset).map w).sum + ((page offset limit l).map w).sum +
      ((l.drop (offset + limit)).map w).sum := by
  have hsplit : l = l.take offset ++ (page offset limit l ++ l.drop (offset + limit)) := by
    rw [page, ← drop_drop, take_append_drop, take_append_drop]
  conv_lhs => rw [hsplit]
  rw [map_append, map_append, sum_append, sum_append, add_assoc]

theorem sum_pos_of_ne_nil (hw : ∀ a ∈ l, 0 < w a) (hne : l ≠ []) : 0 < (l.map w).sum := by
  refine sum_pos _ (fun x hx => ?_) (by simpa using hne)
  obtain ⟨a, ha, rfl⟩ := mem_map.mp hx
  exact hw a ha

theorem sum_nonneg_of_pos (hw : ∀ a ∈ l, 0 < w a) : 0 ≤ (l.map w).sum := by
  rcases eq_or_ne l [] with rfl | hne
  · rfl
  · exact (sum_pos_of_ne_nil hw hne).le

/-- Positive weights add up to the same on a page as on the whole list only when the
page is the whole list. -/
theorem covers_of_sum_page_eq {offset limit : ℕ} (hw : ∀ a ∈ l, 0 < w a)
    (hsum : ((page offset limit l).map w).sum = (l.map w).sum) : l = [] ∨ offset = 0 ∧ l.length ≤ limit := by
  have hall := sum_take_page_drop offset limit l w
  have hbefore := fun a (ha : a ∈ l.take offset) => hw a (mem_of_mem_take ha)
  have hafter := fun a (ha : a ∈ l.drop (offset + limit)) => hw a (mem_of_mem_drop ha)
  have hbefore0 := sum_nonneg_of_pos hbefore
  have hafter0 := sum_nonneg_of_pos hafter
  rcases eq_or_ne l [] with hnil | hne
  · exact .inl hnil
  have htake : l.take offset = [] := by
    by_contra hsome
    have := sum_pos_of_ne_nil hbefore hsome
    omega
  have hdrop : l.drop (offset + limit) = [] := by
    by_contra hsome
    have := sum_pos_of_ne_nil hafter hsome
    omega
  have hzero : offset = 0 := by simpa [hne] using htake
  have hlen := drop_eq_nil_iff.mp hdrop
  exact .inr ⟨hzero, by omega⟩

end Page

section Join

/-- Of rows read off distinct keys, a join on the key finds the one of that key. -/
theorem filter_filterMap_of_nodup {κ ρ : Type} [DecidableEq κ] {ks : List κ} {row : κ → Option ρ} {key : ρ → κ}
    (hkey : ∀ k r, row k = some r → key r = k) (hnodup : ks.Nodup) {k : κ} {r : ρ} (hk : k ∈ ks)
    (hr : row k = some r) : (ks.filterMap row).filter (fun r => key r = k) = [r] := by
  induction ks with
  | nil => cases hk
  | cons k' ks ih =>
    obtain ⟨hnew, hnodup⟩ := nodup_cons.mp hnodup
    rcases mem_cons.mp hk with rfl | hin
    · rw [filterMap_cons_some hr, filter_cons_of_pos (by simp [hkey k r hr])]
      refine congrArg (r :: ·) (filter_eq_nil_iff.mpr fun r' hr' => ?_)
      obtain ⟨k'', hin, hrow⟩ := mem_filterMap.mp hr'
      simp only [hkey k'' r' hrow, decide_eq_true_eq]
      rintro rfl
      exact hnew hin
    · cases hrow : row k' with
      | none =>
        rw [filterMap_cons_none hrow]
        exact ih hnodup hin
      | some r' =>
        have hne : key r' ≠ k := by
          rw [hkey k' r' hrow]
          rintro rfl
          exact hnew hin
        rw [filterMap_cons_some hrow, filter_cons_of_neg (by simpa using hne)]
        exact ih hnodup hin

end Join

end groupby
