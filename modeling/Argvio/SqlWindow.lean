import Mathlib.Data.List.Destutter
import Mathlib.Data.List.Sort
import Mathlib.Algebra.GroupWithZero.Nat

open List

namespace sqlwindow

/-- What the rows of a window are partitioned by, and what orders each partition. -/
structure Window (ρ κ β : Type) where
  part : ρ → κ
  ord : ρ → β

variable {ρ κ β : Type} [DecidableEq κ] [LinearOrder β]

namespace Window

section Functions

variable (w : Window ρ κ β) (rows : List ρ)

/-- The rows of a partition, in order. -/
def partition (k : κ) : List ρ := (rows.filter (fun x => w.part x = k)).insertionSort (fun x y => w.ord x ≤ w.ord y)

/-- No two rows of a partition have the same place in the order. -/
def Untied : Prop := rows.Pairwise (fun x y => w.part x = w.part y → w.ord x ≠ w.ord y)

/-- The rows before a row in its partition. -/
def preceding (r : ρ) : List ρ := (w.partition rows (w.part r)).filter (fun x => w.ord x < w.ord r)

def lag (r : ρ) : Option ρ := (w.preceding rows r).getLast?

def rowNumber (r : ρ) : ℕ := (w.preceding rows r).length + 1

/-- A sum up to a row; its frame is the default one. -/
def sumUpTo (f : ρ → ℕ) (r : ρ) : ℕ :=
  (((w.partition rows (w.part r)).filter (fun x => w.ord x ≤ w.ord r)).map f).sum

end Functions

section Partitions

variable {w : Window ρ κ β} {rows l : List ρ} {k : κ} {r : ρ} {u v : List ρ}

theorem mem_partition : r ∈ w.partition rows k ↔ r ∈ rows ∧ w.part r = k := by
  rw [partition, mem_insertionSort, mem_filter, decide_eq_true_eq]

theorem perm_partition (k : κ) : (w.partition rows k).Perm (rows.filter (fun x => w.part x = k)) :=
  perm_insertionSort _ _

/-- Without ties a partition is strictly ordered. -/
theorem Untied.pairwise_partition (h : w.Untied rows) (k : κ) :
    (w.partition rows k).Pairwise (fun x y => w.ord x < w.ord y) := by
  have hsorted : (w.partition rows k).Pairwise (fun x y => w.ord x ≤ w.ord y) := by
    have htotal : Std.Total (fun x y : ρ => w.ord x ≤ w.ord y) := ⟨fun x y => le_total (w.ord x) (w.ord y)⟩
    have htrans : IsTrans ρ (fun x y => w.ord x ≤ w.ord y) := ⟨fun _ _ _ => le_trans⟩
    exact pairwise_insertionSort _ _
  have hne : (w.partition rows k).Pairwise (fun x y => w.ord x ≠ w.ord y) := by
    have hfilter : (rows.filter (fun x => w.part x = k)).Pairwise (fun x y => w.ord x ≠ w.ord y) := by
      refine List.Pairwise.imp_of_mem ?_ (List.Pairwise.filter _ h)
      intro x y hx hy hxy
      have hpart : w.part x = w.part y :=
        (of_decide_eq_true (mem_filter.mp hx).2).trans (of_decide_eq_true (mem_filter.mp hy).2).symm
      exact hxy hpart
    exact (perm_partition k).symm.pairwise hfilter (fun hxy => hxy.symm)
  exact (hsorted.and hne).imp (fun hxy => lt_of_le_of_ne hxy.1 hxy.2)

theorem part_of_partition (h : w.partition rows k = u ++ r :: v) : w.part r = k :=
  (mem_partition.mp (h ▸ mem_append_right u mem_cons_self)).2

section Split

variable (hw : w.Untied rows) (h : w.partition rows k = u ++ r :: v)

include hw h

/-- Where a row is in its partition is where the window functions see it. -/
theorem Untied.split : (∀ x ∈ u, w.ord x < w.ord r) ∧ ∀ x ∈ v, w.ord r < w.ord x := by
  have hsorted := hw.pairwise_partition k
  rw [h, pairwise_append, pairwise_cons] at hsorted
  exact ⟨fun x hx => hsorted.2.2 x hx r mem_cons_self, hsorted.2.1.1⟩

theorem Untied.preceding_eq : w.preceding rows r = u := by
  obtain ⟨hu, hv⟩ := hw.split h
  rw [preceding, part_of_partition h, h, filter_append, filter_cons_of_neg (by simp),
    filter_eq_self.mpr (fun x hx => decide_eq_true (hu x hx)),
    filter_eq_nil_iff.mpr (fun x hx => by simpa using (hv x hx).le), append_nil]

theorem Untied.lag_eq : w.lag rows r = u.getLast? := by
  rw [lag, hw.preceding_eq h]

theorem Untied.rowNumber_eq : w.rowNumber rows r = u.length + 1 := by
  rw [rowNumber, hw.preceding_eq h]

theorem Untied.sumUpTo_eq (f : ρ → ℕ) : w.sumUpTo rows f r = (u.map f).sum + f r := by
  obtain ⟨hu, hv⟩ := hw.split h
  rw [sumUpTo, part_of_partition h, h, filter_append, filter_cons_of_pos (by simp),
    filter_eq_self.mpr (fun x hx => decide_eq_true (hu x hx).le),
    filter_eq_nil_iff.mpr (fun x hx => by simpa using hv x hx), map_append, sum_append]
  simp

end Split

section Ordered

variable (hw : w.Untied rows)

include hw

/-- From row to row of a partition, the row before is the last one seen and a running sum grows by
the row's own summand. -/
theorem Untied.isChain_partition (k : κ) (f : ρ → ℕ) :
    (w.partition rows k).IsChain (fun a b =>
      w.lag rows b = some a ∧ w.sumUpTo rows f b = w.sumUpTo rows f a + f b) := by
  refine isChain_iff_forall_rel_of_append_cons_cons.mpr (fun a b u v h => ?_)
  have hb : w.partition rows k = (u ++ [a]) ++ b :: v := by rw [h, append_assoc, singleton_append]
  constructor
  · rw [hw.lag_eq hb, getLast?_concat]
  · rw [hw.sumUpTo_eq h, hw.sumUpTo_eq hb, map_append, sum_append]
    simp

/-- A partition is the only arrangement of its rows in strict order. -/
theorem Untied.partition_eq (hperm : l.Perm (rows.filter (fun x => w.part x = k)))
    (hsorted : l.Pairwise (fun x y => w.ord x < w.ord y)) : w.partition rows k = l := by
  have hanti : Std.Antisymm (fun x y : ρ => w.ord x < w.ord y) := ⟨fun x y hxy hyx => absurd hxy hyx.not_gt⟩
  exact List.Perm.eq_of_pairwise' (hw.pairwise_partition k) hsorted ((perm_partition k).trans hperm.symm)

theorem Untied.pairwise_rowNumber (k : κ) :
    (w.partition rows k).Pairwise (fun x y => w.rowNumber rows x < w.rowNumber rows y) := by
  have htrans : IsTrans ρ (fun x y => w.rowNumber rows x < w.rowNumber rows y) := ⟨fun _ _ _ => lt_trans⟩
  refine isChain_iff_pairwise.mp (isChain_iff_forall_rel_of_append_cons_cons.mpr (fun a b u v h => ?_))
  have hb : w.partition rows k = (u ++ [a]) ++ b :: v := by rw [h, append_assoc, singleton_append]
  rw [hw.rowNumber_eq h, hw.rowNumber_eq hb, length_append, length_singleton]
  omega

/-- The row number is an order of the rows without ties, in which the partitions stay as they are. -/
theorem Untied.untied_rowNumber : (⟨w.part, w.rowNumber rows⟩ : Window ρ κ ℕ).Untied rows := by
  refine hw.imp_of_mem (fun {x y} hx hy hne hpart heq => hne hpart ?_)
  have hnumbers : (w.partition rows (w.part y)).Pairwise (fun x y => w.rowNumber rows x = w.rowNumber rows y → x = y) :=
    (hw.pairwise_rowNumber _).imp (fun hlt heq => absurd heq hlt.ne)
  have hsame := hnumbers.forall_of_forall_of_flip (fun _ _ _ => rfl)
    ((hw.pairwise_rowNumber _).imp (fun hlt heq => absurd heq hlt.ne'))
  rw [hsame (mem_partition.mpr ⟨hx, hpart⟩) (mem_partition.mpr ⟨hy, rfl⟩) heq]

theorem Untied.partition_rowNumber (k : κ) :
    (⟨w.part, w.rowNumber rows⟩ : Window ρ κ ℕ).partition rows k = w.partition rows k :=
  hw.untied_rowNumber.partition_eq (perm_partition k) (hw.pairwise_rowNumber k)

theorem Untied.partition_filter (p : ρ → Bool) (k : κ) :
    w.partition (rows.filter p) k = (w.partition rows k).filter p := by
  refine Untied.partition_eq (List.Pairwise.filter p hw) ?_ ((hw.pairwise_partition k).filter p)
  rw [filter_comm]
  exact (perm_partition k).filter p

theorem Untied.filter_rowNumber (k : κ) (n : ℕ) :
    (w.partition rows k).filter (fun x => w.rowNumber rows x ≤ n) = (w.partition rows k).take n := by
  have hsplit := (take_append_drop n (w.partition rows k)).symm
  have hfirst : ∀ x ∈ (w.partition rows k).take n, w.rowNumber rows x ≤ n := by
    intro x hx
    obtain ⟨u, v, htake⟩ := append_of_mem hx
    rw [htake, append_assoc, cons_append] at hsplit
    have hlength : u.length < n := by
      have hle := length_take_le n (w.partition rows k)
      rw [htake, length_append, length_cons] at hle
      omega
    rw [hw.rowNumber_eq hsplit]
    exact hlength
  have hlater : ∀ x ∈ (w.partition rows k).drop n, ¬ w.rowNumber rows x ≤ n := by
    intro x hx
    obtain ⟨u, v, hdrop⟩ := append_of_mem hx
    have hlong : n < (w.partition rows k).length := by
      by_contra hshort
      rw [drop_eq_nil_of_le (not_lt.mp hshort)] at hx
      cases hx
    rw [hdrop, ← append_assoc] at hsplit
    rw [hw.rowNumber_eq hsplit, length_append, length_take_of_le hlong.le]
    omega
  conv_lhs => rw [hsplit]
  rw [filter_append, filter_eq_self.mpr (fun x hx => decide_eq_true (hfirst x hx)),
    filter_eq_nil_iff.mpr (fun x hx => by simpa using hlater x hx), append_nil]

end Ordered

end Partitions

end Window

/-- The values of the rows that differ from the row before them are all the values, without repetitions. -/
theorem destutter'_map_filter {σ : Type} [DecidableEq σ] {f : ρ → σ} {p : ρ → Bool} {l : List ρ} {a : ρ}
    (hp : ∀ u r v, l = u ++ r :: v → (p r = true ↔ f (u.getLast?.getD a) ≠ f r)) :
    f a :: (l.filter p).map f = (l.map f).destutter' (· ≠ ·) (f a) := by
  induction l generalizing a with
  | nil => rfl
  | cons r rest ih =>
    have hfirst := hp [] r rest rfl
    have hrest := @ih r (fun u r' v h => by
      have hlater := hp (r :: u) r' v (by rw [h, cons_append])
      rwa [getLast?_cons, Option.getD_some] at hlater)
    rw [map_cons, destutter'_cons]
    by_cases hr : f a = f r
    · rw [filter_cons_of_neg (fun h => hfirst.mp h hr), if_neg (not_not.mpr hr), hr]
      exact hrest
    · rw [filter_cons_of_pos (hfirst.mpr hr), if_pos hr, map_cons, hrest]

section Runs

variable {label : ρ → ℕ} {R : ρ → ρ → Bool} {l : List ρ}

/-- A label that grows by one wherever two neighbours are not related. -/
def Numbers (R : ρ → ρ → Bool) (label : ρ → ℕ) (l : List ρ) : Prop :=
  l.IsChain (fun a b => label b = label a + if R a b then 0 else 1)

theorem Numbers.pairwise_le (h : Numbers R label l) : l.Pairwise (fun x y => label x ≤ label y) := by
  have htrans : IsTrans ρ (fun x y => label x ≤ label y) := ⟨fun _ _ _ => le_trans⟩
  refine isChain_iff_pairwise.mp (h.imp (fun a b hab => ?_))
  omega

/-- Two rows have the same label exactly if all neighbours from the one to the other are related. -/
theorem Numbers.eq_iff {x y : ρ} {m : List ρ} (h : Numbers R label (x :: (m ++ [y]))) :
    label x = label y ↔ (x :: (m ++ [y])).IsChain (fun a b => R a b = true) := by
  induction m generalizing x with
  | nil =>
    have hstep : label y = label x + if R x y then 0 else 1 := (isChain_cons_cons.mp h).1
    rw [nil_append, isChain_cons_cons, and_iff_left (isChain_singleton y)]
    split_ifs at hstep with hxy
    · exact iff_of_true (by omega) hxy
    · exact iff_of_false (by omega) hxy
  | cons z m ih =>
    obtain ⟨hstep, hrest⟩ := isChain_cons_cons.mp h
    have hle : label z ≤ label y :=
      (pairwise_cons.mp (Numbers.pairwise_le hrest)).1 y (mem_append_right m (mem_singleton_self y))
    rw [cons_append, isChain_cons_cons, ← ih hrest]
    split_ifs at hstep with hxz
    · rw [and_iff_right hxz]
      exact ⟨fun heq => by omega, fun heq => by omega⟩
    · exact iff_of_false (by omega) (fun hand => hxz hand.1)

end Runs

end sqlwindow
