import Mathlib.Data.List.Sort

open List

namespace tiedorder

section Arrangements

variable {α ω : Type} [LinearOrder ω] (rank : α → ω)

/-- An order of some rows by rank, which says nothing about rows of the same rank. -/
structure Arranges (rows l : List α) : Prop where
  perm : l.Perm rows
  sorted : l.Pairwise (fun x y => rank x ≤ rank y)

/-- How many rows have to come before `x`. -/
def before (rows : List α) (x : α) : ℕ := rows.countP (fun y => rank y < rank x)

/-- How many rows may come before `x`, counting itself. -/
def upTo (rows : List α) (x : α) : ℕ := rows.countP (fun y => rank y ≤ rank x)

variable {rank} {rows l l₁ l₂ : List α} {x y : α} {i n : ℕ}

theorem Arranges.before_eq (h : Arranges rank rows l) : before rank l x = before rank rows x := h.perm.countP_eq _

theorem Arranges.upTo_eq (h : Arranges rank rows l) : upTo rank l x = upTo rank rows x := h.perm.countP_eq _

theorem upTo_le_length : upTo rank rows x ≤ rows.length := countP_le_length

/-- A row is where its rank allows it to be. -/
theorem Arranges.index_bounds (h : Arranges rank rows l) (hi : l[i]? = some x) :
    before rank rows x ≤ i ∧ i < upTo rank rows x := by
  obtain ⟨hlt, hx⟩ := List.getElem?_eq_some_iff.mp hi
  have hsplit : l = l.take i ++ x :: l.drop (i + 1) := by
    rw [← hx, getElem_cons_drop hlt, take_append_drop]
  have hsorted := h.sorted
  rw [hsplit, pairwise_append, pairwise_cons] at hsorted
  obtain ⟨-, ⟨hafter, -⟩, hbefore⟩ := hsorted
  have hlength : (l.take i).length = i := length_take_of_le hlt.le
  rw [← h.before_eq, ← h.upTo_eq]
  constructor
  · unfold before
    rw [hsplit, countP_append, countP_cons_of_neg (by simp)]
    have hnone : (l.drop (i + 1)).countP (fun y => rank y < rank x) = 0 := by
      rw [countP_eq_zero]
      intro y hy
      simpa using hafter y hy
    rw [hnone, Nat.add_zero]
    exact countP_le_length.trans_eq hlength
  · unfold upTo
    rw [hsplit, countP_append, countP_cons_of_pos (by simp)]
    have hall : (l.take i).countP (fun y => rank y ≤ rank x) = (l.take i).length := by
      rw [countP_eq_length]
      intro y hy
      simpa using hbefore y hy x mem_cons_self
    rw [hall, hlength]
    omega

theorem upTo_le_before (hlt : rank x < rank y) : upTo rank rows x ≤ before rank rows y := by
  refine countP_mono_left (fun z _ hz => ?_)
  simp only [decide_eq_true_eq] at hz ⊢
  exact hz.trans_lt hlt

theorem upTo_eq_add :
    upTo rank rows x = before rank rows x + (rows.filter (fun y => rank y = rank x)).length := by
  unfold upTo before
  rw [← countP_eq_length_filter]
  induction rows with
  | nil => rfl
  | cons y rest ih =>
    simp only [countP_cons, ih]
    rcases lt_trichotomy (rank y) (rank x) with hlt | heq | hgt
    · simp [hlt, hlt.le, hlt.ne]
      omega
    · simp [heq]
      omega
    · simp [hgt.ne', not_lt.mpr hgt.le, not_le.mpr hgt]

/-- Rows of different rank do not compete for a place. -/
theorem rank_eq_of_index (h₁ : Arranges rank rows l₁) (h₂ : Arranges rank rows l₂) (hx : l₁[i]? = some x)
    (hy : l₂[i]? = some y) : rank x = rank y := by
  have hbx := h₁.index_bounds hx
  have hby := h₂.index_bounds hy
  rcases lt_trichotomy (rank x) (rank y) with hlt | heq | hgt
  · have hle := @upTo_le_before _ _ _ rank rows _ _ hlt
    omega
  · exact heq
  · have hle := @upTo_le_before _ _ _ rank rows _ _ hgt
    omega

/-- Ties below the first `n` places do not show in them. -/
theorem Arranges.take_eq (h₁ : Arranges rank rows l₁) (h₂ : Arranges rank rows l₂)
    (hties : ∀ x ∈ rows, ∀ y ∈ rows, x ≠ y → rank x = rank y → n ≤ before rank rows x) :
    l₁.take n = l₂.take n := by
  refine ext_getElem? (fun i => ?_)
  by_cases hi : i < n
  · rw [getElem?_take_of_lt hi, getElem?_take_of_lt hi]
    have hlength : l₁.length = l₂.length := h₁.perm.length_eq.trans h₂.perm.length_eq.symm
    by_cases hin : i < l₁.length
    · have hx := getElem?_eq_getElem hin
      have hy := getElem?_eq_getElem (hlength ▸ hin)
      rw [hx, hy]
      by_contra hne
      have hties' := hties _ (h₁.perm.mem_iff.mp (mem_of_getElem? hx)) _
        (h₂.perm.mem_iff.mp (mem_of_getElem? hy)) (fun heq => hne (congrArg some heq))
        (rank_eq_of_index h₁ h₂ hx hy)
      have hbound := (h₁.index_bounds hx).1
      omega
    · rw [getElem?_eq_none (not_lt.mp hin), getElem?_eq_none (hlength ▸ not_lt.mp hin)]
  · have hle : n ≤ i := not_lt.mp hi
    rw [getElem?_eq_none (by simp; omega), getElem?_eq_none (by simp; omega)]

theorem Arranges.filter (h : Arranges rank rows l) (p : α → Bool) : Arranges rank (rows.filter p) (l.filter p) where
  perm := h.perm.filter p
  sorted := h.sorted.filter p

/-- Without ties there is one order. -/
theorem Arranges.eq_of_untied (h₁ : Arranges rank rows l₁) (h₂ : Arranges rank rows l₂)
    (huntied : ∀ x ∈ rows, ∀ y ∈ rows, rank x = rank y → x = y) : l₁ = l₂ := by
  have htake := h₁.take_eq (n := rows.length) h₂ (fun x hx y hy hne heq => absurd (huntied x hx y hy heq) hne)
  rwa [take_of_length_le h₁.perm.length_eq.le, take_of_length_le h₂.perm.length_eq.le] at htake

/-- A row with only lower ranks before it has the first place that its rank allows. -/
theorem Arranges.getElem?_before (h : Arranges rank rows l) (hx : x ∈ rows)
    (hlower : l.Pairwise (fun u v => v = x → rank u < rank x)) : l[before rank rows x]? = some x := by
  obtain ⟨front, back, rfl⟩ := append_of_mem (h.perm.mem_iff.mpr hx)
  have hindex : (front ++ x :: back)[front.length]? = some x := by
    rw [getElem?_append_right le_rfl, Nat.sub_self]
    rfl
  have hle := (h.index_bounds hindex).1
  have hge : front.length ≤ before rank rows x := by
    have hall : front.countP (fun u => rank u < rank x) = front.length := by
      rw [countP_eq_length]
      intro u hu
      exact decide_eq_true ((pairwise_append.mp hlower).2.2 u hu x mem_cons_self rfl)
    rw [← h.before_eq]
    unfold before
    rw [countP_append]
    omega
  rw [le_antisymm hle hge]
  exact hindex

/-- The rows below a rank, those of it and those above it are all the rows. -/
theorem perm_filter_append (c : ω) :
    (rows.filter (fun y => rank y < c) ++ (rows.filter (fun y => rank y = c) ++ rows.filter (fun y => c < rank y))).Perm
      rows := by
  have hrest : (rows.filter (fun y => rank y = c) ++ rows.filter (fun y => c < rank y)).Perm
      (rows.filter (fun y => !decide (rank y < c))) := by
    have hsplit := (filter_append_perm (fun y => decide (rank y = c))
      (rows.filter (fun y => !decide (rank y < c)))).symm
    rw [filter_filter, filter_filter] at hsplit
    refine (List.Perm.of_eq ?_).trans hsplit.symm
    congr 1
    · refine filter_congr (fun y _ => ?_)
      by_cases hc : rank y = c <;> simp [hc]
    · refine filter_congr (fun y _ => ?_)
      rcases lt_trichotomy (rank y) c with hlt | heq | hgt
      · simp [hlt, hlt.le]
      · simp [heq]
      · simp [hgt, hgt.ne', not_lt.mpr hgt.le]
  exact (List.Perm.append_left _ hrest).trans (filter_append_perm _ rows)

/-- The rows of one rank in some order, between those below it and those above. -/
theorem arranges_append {c : ω} {tied : List α} (htied : tied.Perm (rows.filter (fun y => rank y = c))) :
    Arranges rank rows
      ((rows.filter (fun y => rank y < c)).insertionSort (fun x y => rank x ≤ rank y) ++
        (tied ++ (rows.filter (fun y => c < rank y)).insertionSort (fun x y => rank x ≤ rank y))) where
  perm := by
    have hbelow := perm_insertionSort (fun x y => rank x ≤ rank y) (rows.filter (fun y => rank y < c))
    have habove := perm_insertionSort (fun x y => rank x ≤ rank y) (rows.filter (fun y => c < rank y))
    exact (hbelow.append (htied.append habove)).trans (perm_filter_append c)
  sorted := by
    have htotal : Std.Total (fun x y : α => rank x ≤ rank y) := ⟨fun x y => le_total (rank x) (rank y)⟩
    have htrans : IsTrans α (fun x y => rank x ≤ rank y) := ⟨fun _ _ _ => le_trans⟩
    have hmem : ∀ y ∈ tied, rank y = c := by
      intro y hy
      simpa using (mem_filter.mp (htied.mem_iff.mp hy)).2
    rw [pairwise_append, pairwise_append]
    refine ⟨pairwise_insertionSort _ _, ⟨?_, pairwise_insertionSort _ _, ?_⟩, ?_⟩
    · exact pairwise_of_forall_mem_list (fun x hx y hy => by rw [hmem x hx, hmem y hy])
    · intro x hx y hy
      rw [mem_insertionSort, mem_filter, decide_eq_true_eq] at hy
      rw [hmem x hx]
      exact hy.2.le
    · intro x hx y hy
      rw [mem_insertionSort, mem_filter, decide_eq_true_eq] at hx
      rw [mem_append, mem_insertionSort, mem_filter, decide_eq_true_eq] at hy
      rcases hy with hy | hy
      · rw [hmem y hy]
        exact hx.2.le
      · exact (hx.2.trans hy.2).le

/-- Every place that its rank allows a row is its place in some order. -/
theorem exists_arranges (hx : x ∈ rows) (hlow : before rank rows x ≤ i) (hhigh : i < upTo rank rows x) :
    ∃ l, Arranges rank rows l ∧ l[i]? = some x := by
  obtain ⟨front, back, htied⟩ := append_of_mem
    (mem_filter.mpr ⟨hx, decide_eq_true (Eq.refl (rank x))⟩ : x ∈ rows.filter (fun y => rank y = rank x))
  -- `x` goes to the `j`-th place among the rows of its rank.
  let j := i - before rank rows x
  let others := front ++ back
  have hperm : (others.take j ++ x :: others.drop j).Perm (rows.filter (fun y => rank y = rank x)) := by
    rw [htied]
    refine perm_middle.trans ?_
    rw [take_append_drop]
    exact perm_middle.symm
  refine ⟨_, arranges_append hperm, ?_⟩
  have hbefore : ((rows.filter (fun y => rank y < rank x)).insertionSort (fun x y => rank x ≤ rank y)).length =
      before rank rows x := by
    rw [length_insertionSort, before, countP_eq_length_filter]
  have hothers : others.length + 1 + before rank rows x = upTo rank rows x := by
    rw [upTo_eq_add, htied]
    simp [others]
    omega
  have hj : (others.take j).length = j := length_take_of_le (by omega)
  rw [getElem?_append_right (by omega), hbefore, append_assoc,
    getElem?_append_right (by omega), hj, Nat.sub_self]
  rfl

end Arrangements

end tiedorder
