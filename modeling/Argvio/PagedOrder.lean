import Argvio.GroupBy
import Argvio.TiedOrder

open List

namespace tiedorder

open groupby

variable {α ω : Type} [LinearOrder ω] {rank : α → ω} {rows l : List α} {order : ℕ → List α} {x : α} {L N m : ℕ}

/-- The pages of `L` rows at the first `N` offsets, each cut from an order of its own. -/
def pages (L N : ℕ) (order : ℕ → List α) : List α := (range N).flatMap (fun m => page (m * L) L (order m))

variable (rank) in
/-- No page ends between two rows of the same rank. -/
def Unsplit (rows : List α) (L : ℕ) : Prop :=
  ∀ x ∈ rows, ∀ m, m * L ≤ before rank rows x ∨ upTo rank rows x ≤ m * L

theorem mem_page_iff : x ∈ page (m * L) L l ↔ ∃ i, m * L ≤ i ∧ i < (m + 1) * L ∧ l[i]? = some x := by
  unfold page
  rw [mem_iff_getElem?]
  constructor
  · rintro ⟨j, hj⟩
    obtain ⟨hlt, -⟩ := List.getElem?_eq_some_iff.mp hj
    rw [length_take] at hlt
    rw [getElem?_take_of_lt (by omega), getElem?_drop] at hj
    refine ⟨m * L + j, Nat.le_add_right _ _, ?_, hj⟩
    rw [Nat.succ_mul]
    omega
  · rintro ⟨i, hle, hlt, hi⟩
    rw [Nat.succ_mul] at hlt
    refine ⟨i - m * L, ?_⟩
    rw [getElem?_take_of_lt (by omega), getElem?_drop, Nat.add_sub_cancel' hle]
    exact hi

/-- If no tie is split, a row has one page, whatever the order. -/
theorem Unsplit.mem_page_iff (hsplit : Unsplit rank rows L) (hL : 0 < L) (hl : Arranges rank rows l) (hx : x ∈ rows) :
    x ∈ page (m * L) L l ↔ m = before rank rows x / L := by
  have hlow : before rank rows x / L * L ≤ before rank rows x := Nat.div_mul_le_self _ _
  have hhigh : upTo rank rows x ≤ (before rank rows x / L + 1) * L := by
    refine (hsplit x hx _).resolve_left (Nat.not_le.mpr ?_)
    exact Nat.lt_of_div_lt_div (by rw [Nat.mul_div_cancel _ hL]; exact Nat.lt_succ_self _)
  rw [tiedorder.mem_page_iff]
  constructor
  · rintro ⟨i, hle, hlt, hi⟩
    obtain ⟨hbefore, hupTo⟩ := hl.index_bounds hi
    refine Nat.le_antisymm ?_ ?_
    · exact Nat.lt_succ_iff.mp (Nat.lt_of_mul_lt_mul_right (lt_of_le_of_lt hle (hupTo.trans_le hhigh)))
    · exact Nat.lt_succ_iff.mp (Nat.lt_of_mul_lt_mul_right (lt_of_le_of_lt (hlow.trans hbefore) hlt))
  · rintro rfl
    obtain ⟨i, hi⟩ := mem_iff_getElem?.mp (hl.perm.mem_iff.mpr hx)
    obtain ⟨hbefore, hupTo⟩ := hl.index_bounds hi
    exact ⟨i, hlow.trans hbefore, hupTo.trans_le hhigh, hi⟩

theorem nodup_page (hrows : rows.Nodup) (hl : Arranges rank rows l) : (page (m * L) L l).Nodup := by
  have hnodup : l.Nodup := hl.perm.nodup_iff.mpr hrows
  exact (hnodup.sublist (drop_sublist _ _)).sublist (take_sublist _ _)

theorem Unsplit.pages_perm (hsplit : Unsplit rank rows L) (hL : 0 < L) (hrows : rows.Nodup)
    (horder : ∀ m, Arranges rank rows (order m)) (hN : rows.length ≤ N * L) : (pages L N order).Perm rows := by
  have hmem : ∀ {m : ℕ} {x : α}, x ∈ page (m * L) L (order m) → x ∈ rows := fun hx =>
    (horder _).perm.mem_iff.mp (mem_of_mem_drop (mem_of_mem_take hx))
  have hnodup : (pages L N order).Nodup := by
    refine nodup_flatMap.mpr ⟨fun m _ => nodup_page hrows (horder m), ?_⟩
    refine nodup_range.imp (fun {m m'} hne x hx hx' => hne ?_)
    rw [(hsplit.mem_page_iff hL (horder m) (hmem hx)).mp hx, (hsplit.mem_page_iff hL (horder m') (hmem hx)).mp hx']
  refine (perm_ext_iff_of_nodup hnodup hrows).mpr (fun x => ⟨fun hx => ?_, fun hx => ?_⟩)
  · obtain ⟨m, -, hx⟩ := mem_flatMap.mp hx
    exact hmem hx
  refine mem_flatMap.mpr ⟨before rank rows x / L, ?_, (hsplit.mem_page_iff hL (horder _) hx).mpr rfl⟩
  have hlt : before rank rows x < rows.length := by
    obtain ⟨i, hi⟩ := mem_iff_getElem?.mp ((horder 0).perm.mem_iff.mpr hx)
    obtain ⟨hbefore, hupTo⟩ := (horder 0).index_bounds hi
    exact (hbefore.trans_lt hupTo).trans_le upTo_le_length
  exact mem_range.mpr ((Nat.div_lt_iff_lt_mul hL).mpr (hlt.trans_le hN))

/-- A row of a tie that a page splits can be the last of that page in one order and the first
of the next in another. -/
theorem exists_pages_not_nodup (hL : 0 < L) (hx : x ∈ rows) (hlow : before rank rows x < (m + 1) * L)
    (hhigh : (m + 1) * L < upTo rank rows x) :
    ∃ order : ℕ → List α, (∀ k, Arranges rank rows (order k)) ∧ ∀ N, m + 1 < N → ¬ (pages L N order).Nodup := by
  obtain ⟨last, hlast, hindex⟩ := exists_arranges hx (Nat.le_sub_one_of_lt hlow) (by omega)
  obtain ⟨first, hfirst, hindex'⟩ := exists_arranges hx hlow.le hhigh
  let order := fun k => if k = m then last else first
  have horder : ∀ k, Arranges rank rows (order k) := by
    intro k
    by_cases hk : k = m
    · simpa [order, hk] using hlast
    · simpa [order, hk] using hfirst
  refine ⟨order, horder, fun N hN hnodup => ?_⟩
  have hin : x ∈ page (m * L) L (order m) := by
    refine mem_page_iff.mpr ⟨(m + 1) * L - 1, ?_, ?_, ?_⟩
    · rw [Nat.succ_mul]
      omega
    · rw [Nat.succ_mul]
      omega
    · simpa [order] using hindex
  have hin' : x ∈ page ((m + 1) * L) L (order (m + 1)) := by
    refine mem_page_iff.mpr ⟨(m + 1) * L, le_rfl, ?_, ?_⟩
    · rw [Nat.succ_mul (m + 1)]
      omega
    · simpa [order] using hindex'
  have hpair := pairwise_iff_getElem.mp (nodup_flatMap.mp hnodup).2 m (m + 1)
    (by simp; omega) (by simp; omega) (Nat.lt_succ_self m)
  simp only [getElem_range] at hpair
  exact hpair hin hin'

/-- Reading page after page gives every row once, whatever the order of tied rows in each
request, exactly when no tie is split. -/
theorem pages_perm_iff (hrows : rows.Nodup) (hL : 0 < L) :
    (∀ order : ℕ → List α, (∀ m, Arranges rank rows (order m)) → ∀ N, rows.length ≤ N * L →
        (pages L N order).Perm rows) ↔ Unsplit rank rows L := by
  refine ⟨fun hperm x hx m => ?_, fun hsplit order horder N hN => hsplit.pages_perm hL hrows horder hN⟩
  by_contra hboundary
  rw [not_or, Nat.not_le, Nat.not_le] at hboundary
  obtain ⟨hlow, hhigh⟩ := hboundary
  cases m with
  | zero =>
    rw [Nat.zero_mul] at hlow
    exact absurd hlow (Nat.not_lt_zero _)
  | succ m =>
    obtain ⟨order, horder, hrepeat⟩ := exists_pages_not_nodup hL hx hlow hhigh
    have hlength := @upTo_le_length _ _ _ rank rows x
    have hN : rows.length ≤ rows.length * L := Nat.le_mul_of_pos_right _ hL
    have hroom : m + 1 < rows.length := by
      refine lt_of_le_of_lt (Nat.le_mul_of_pos_right (m + 1) hL) ?_
      omega
    exact hrepeat rows.length hroom ((hperm order horder rows.length hN).nodup_iff.mpr hrows)

/-- Rows that a projection tells apart are paged as their projections are. -/
theorem map_pages_perm_iff {β : Type} {f : α → β} (hrows : rows.Nodup) (hf : ∀ x ∈ rows, ∀ y ∈ rows, f x = f y → x = y)
    (horder : ∀ m, Arranges rank rows (order m)) :
    ((pages L N order).map f).Perm (rows.map f) ↔ (pages L N order).Perm rows := by
  refine ⟨fun hperm => ?_, fun hperm => hperm.map f⟩
  have hmem : ∀ x ∈ pages L N order, x ∈ rows := by
    intro x hx
    obtain ⟨m, -, hx⟩ := mem_flatMap.mp hx
    exact (horder m).perm.mem_iff.mp (mem_of_mem_drop (mem_of_mem_take hx))
  have hnodup : (pages L N order).Nodup := (hperm.nodup_iff.mpr (hrows.map_on hf)).of_map
  refine (perm_ext_iff_of_nodup hnodup hrows).mpr (fun x => ⟨hmem x, fun hx => ?_⟩)
  obtain ⟨y, hy, heq⟩ := mem_map.mp (hperm.mem_iff.mpr (mem_map_of_mem hx))
  rwa [← hf y (hmem y hy) x hx heq]

/-- Rows of different ranks are never split. -/
theorem unsplit_of_injective (hrows : rows.Nodup) (hrank : Function.Injective rank) : Unsplit rank rows L := by
  intro x _ m
  have hsame : ∀ y ∈ rows.filter (fun y => rank y = rank x), y = x :=
    fun y hy => hrank (of_decide_eq_true (mem_filter.mp hy).2)
  have hone := hrows.filter (fun y => rank y = rank x)
  rw [eq_replicate_of_mem hsame, nodup_replicate] at hone
  rw [upTo_eq_add]
  omega

/-- Requests that are all answered, and what their pages make together. -/
theorem exists_mapM_ok_iff {ε α : Type} (N : ℕ) (answer : ℕ → List α) (rows : List α) :
    (∃ pages, (range N).mapM (fun m => (Except.ok (answer m) : Except ε (List α))) = .ok pages ∧
        pages.flatten.Perm rows) ↔ ((range N).flatMap answer).Perm rows := by
  have hall : (range N).mapM (fun m => (Except.ok (answer m) : Except ε (List α))) =
      .ok ((range N).map answer) := mapM_pure
  rw [hall, flatMap_def]
  constructor
  · rintro ⟨pages, hpages, hperm⟩
    cases hpages
    exact hperm
  · exact fun hperm => ⟨_, rfl, hperm⟩

end tiedorder
