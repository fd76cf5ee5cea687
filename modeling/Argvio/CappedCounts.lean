import Argvio.CappedTable
import Mathlib.Algebra.Order.BigOperators.Group.Finset
import Mathlib.Algebra.Order.Ring.Int

open List

section Folded

variable {α κ γ : Type} [DecidableEq κ] {keys : List κ} {known : Finset κ} {counts : κ → Int} {room : Int}

/-- There is nothing to decide about keys that are known. -/
theorem planCapped_of_known (hknown : ∀ k ∈ keys, k ∈ known) : planCapped keys known counts room = ([], 0) := by
  have hfresh : freshByCount keys known counts = [] := by
    rw [eq_nil_iff_forall_not_mem]
    intro k hk
    obtain ⟨hmem, hnew⟩ := mem_freshByCount.mp hk
    exact hnew (hknown k hmem)
  simp [planCapped, hfresh]

theorem drop_eq_filter_notMem_take {l : List κ} (hnodup : l.Nodup) (n : Nat) :
    l.drop n = l.filter (fun k => k ∉ l.take n) := by
  have hsplit : l.take n ++ l.drop n = l := take_append_drop n l
  have hdisjoint : (l.take n).Disjoint (l.drop n) := disjoint_of_nodup_append (hsplit.symm ▸ hnodup)
  have htake : (l.take n).filter (fun k => k ∉ l.take n) = [] := by
    simp [filter_eq_nil_iff]
  have hdrop : (l.drop n).filter (fun k => k ∉ l.take n) = l.drop n := by
    rw [filter_eq_self]
    intro k hk
    simpa using fun htake => hdisjoint htake hk
  calc l.drop n = (l.take n).filter (fun k => k ∉ l.take n) ++ (l.drop n).filter (fun k => k ∉ l.take n) := by
        rw [htake, hdrop, nil_append]
    _ = (l.take n ++ l.drop n).filter (fun k => k ∉ l.take n) := by rw [filter_append]
    _ = l.filter (fun k => k ∉ l.take n) := by rw [hsplit]

/-- The records past the cap are those of the fresh keys that are not admitted. -/
theorem snd_planCapped (hnodup : keys.Nodup) :
    (planCapped keys known counts room).2 =
      ((keys.filter (fun k => k ∉ known ∧ k ∉ (planCapped keys known counts room).1)).map counts).sum := by
  have hperm := perm_freshByCount keys known counts
  have hfresh : (freshByCount keys known counts).Nodup := hperm.nodup_iff.mpr (hnodup.filter _)
  unfold planCapped
  dsimp only
  rw [drop_eq_filter_notMem_take hfresh, ((hperm.filter _).map counts).sum_eq, filter_filter]
  congr 2
  apply filter_congr
  intro k _
  simp [Bool.and_comm]

/-- Nothing is past the cap when there is room for every fresh key. -/
theorem snd_planCapped_eq_zero_iff (hcounts : ∀ k ∈ keys, 0 < counts k) :
    (planCapped keys known counts room).2 = 0 ↔ ((keys.filter (fun k => k ∉ known)).length : Int) ≤ max room 0 := by
  have hperm := perm_freshByCount keys known counts
  rw [← hperm.length_eq]
  unfold planCapped
  dsimp only
  constructor
  · intro hzero
    by_contra hmore
    obtain ⟨k, rest, hdrop⟩ : ∃ k rest, (freshByCount keys known counts).drop room.toNat = k :: rest := by
      apply exists_cons_of_ne_nil
      intro hnil
      have hlength := drop_eq_nil_iff.mp hnil
      omega
    have hpos : ∀ a ∈ k :: rest, 0 < counts a := by
      intro a ha
      rw [← hdrop] at ha
      exact hcounts a (mem_freshByCount.mp (mem_of_mem_drop ha)).1
    have hsum : 0 < ((k :: rest).map counts).sum := by
      apply sum_pos
      · simpa using hpos
      · simp
    rw [hdrop] at hzero
    omega
  · intro hle
    have hnil : (freshByCount keys known counts).drop room.toNat = [] := drop_eq_nil_iff.mpr (by omega)
    rw [hnil]
    rfl

/-- The same, with the fresh keys as the rows that they would get. -/
theorem snd_planCapped_eq_zero_iff_card [DecidableEq γ] {row : κ → γ} (hrow : Function.Injective row)
    (hnodup : keys.Nodup) (hcounts : ∀ k ∈ keys, 0 < counts k) {fresh : Finset γ}
    (hfresh : ∀ r, r ∈ fresh ↔ ∃ k ∈ keys, k ∉ known ∧ row k = r) :
    (planCapped keys known counts room).2 = 0 ↔ (fresh.card : Int) ≤ max room 0 := by
  have hrows : fresh = (keys.filter (fun k => k ∉ known)).toFinset.image row := by
    ext r
    simp [hfresh, and_assoc]
  rw [snd_planCapped_eq_zero_iff hcounts, hrows, Finset.card_image_of_injective _ hrow,
    toFinset_card_of_nodup (hnodup.filter _)]

theorem snd_planCapped_nonneg (hcounts : ∀ k ∈ keys, 0 < counts k) : 0 ≤ (planCapped keys known counts room).2 := by
  apply sum_nonneg
  intro n hn
  obtain ⟨k, hk, rfl⟩ := mem_map.mp hn
  exact (hcounts k (mem_freshByCount.mp (mem_of_mem_drop hk)).1).le

/-- When nothing is past the cap, every fresh key is admitted. -/
theorem mem_planCapped_of_snd_eq_zero (hcounts : ∀ k ∈ keys, 0 < counts k)
    (hzero : (planCapped keys known counts room).2 = 0) {k : κ} (hkey : k ∈ keys) (hnew : k ∉ known) :
    k ∈ (planCapped keys known counts room).1 := by
  have hperm := perm_freshByCount keys known counts
  have hlength := (snd_planCapped_eq_zero_iff hcounts).mp hzero
  rw [← hperm.length_eq] at hlength
  change k ∈ (freshByCount keys known counts).take room.toNat
  rw [take_of_length_le (by omega)]
  exact mem_freshByCount.mpr ⟨hkey, hnew⟩

variable (f : α → κ)

theorem countP_mem_cons {k : κ} {rest : List κ} (hk : k ∉ rest) (l : List α) :
    l.countP (fun a => f a ∈ k :: rest) = l.countP (fun a => f a = k) + l.countP (fun a => f a ∈ rest) := by
  induction l with
  | nil => rfl
  | cons a l ih =>
    rw [countP_cons, countP_cons, countP_cons, ih]
    by_cases ha : f a = k
    · simp only [ha, hk, mem_cons_self, decide_true, decide_false, if_true, Bool.false_eq_true, if_false]
      omega
    · simp only [mem_cons, ha, false_or, decide_false, Bool.false_eq_true, if_false]
      omega

/-- Counting each key on its own counts the records of any of them. -/
theorem sum_countP_eq_countP_mem (hnodup : keys.Nodup) (l : List α) :
    (keys.map (fun k => (l.countP (fun a => f a = k) : Int))).sum = (l.countP (fun a => f a ∈ keys) : Int) := by
  induction keys with
  | nil => simp
  | cons k rest ih =>
    obtain ⟨hk, hrest⟩ := nodup_cons.mp hnodup
    rw [map_cons, sum_cons, ih hrest, countP_mem_cons f hk, Int.natCast_add]

/-- When keys are counted over some records, so are those past the cap. -/
theorem snd_planCapped_eq_countP (l : List α) (hnodup : keys.Nodup)
    (hcounts : ∀ k ∈ keys, counts k = (l.countP (fun a => f a = k) : Int)) :
    (planCapped keys known counts room).2 =
      (l.countP (fun a => f a ∈ keys ∧ f a ∉ known ∧ f a ∉ (planCapped keys known counts room).1) : Int) := by
  rw [snd_planCapped hnodup]
  generalize (planCapped keys known counts room).1 = admitted
  have hmap : (keys.filter (fun k => k ∉ known ∧ k ∉ admitted)).map counts =
      (keys.filter (fun k => k ∉ known ∧ k ∉ admitted)).map (fun k => (l.countP (fun a => f a = k) : Int)) := by
    apply map_congr_left
    intro k hk
    exact hcounts k (mem_of_mem_filter hk)
  rw [hmap, sum_countP_eq_countP_mem f (hnodup.filter _)]
  congr 1
  apply countP_congr
  intro a _
  simp [mem_filter]

/-- The same for keys in groups, each with a cap of its own. -/
theorem sum_planCapped_eq_countP [DecidableEq γ] (g : α → γ) (f : α → κ) (l : List α) {groups : List γ}
    (hgroups : groups.Nodup) {keys : γ → List κ} {known : γ → Finset κ} {counts : γ → κ → Int} {room : γ → Int}
    (hkeys : ∀ i, (keys i).Nodup)
    (hcounts : ∀ i, ∀ k ∈ keys i, counts i k = (l.countP (fun a => g a = i ∧ f a = k) : Int)) :
    (groups.map (fun i => (planCapped (keys i) (known i) (counts i) (room i)).2)).sum =
      (l.countP (fun a => g a ∈ groups ∧ f a ∈ keys (g a) ∧ f a ∉ known (g a) ∧
        f a ∉ (planCapped (keys (g a)) (known (g a)) (counts (g a)) (room (g a))).1) : Int) := by
  generalize hadmitted : (fun i => (planCapped (keys i) (known i) (counts i) (room i)).1) = admitted
  let past : α → Bool := fun a => f a ∈ keys (g a) ∧ f a ∉ known (g a) ∧ f a ∉ admitted (g a)
  have hgroup : ∀ i, (planCapped (keys i) (known i) (counts i) (room i)).2 =
      ((l.filter past).countP (fun a => g a = i) : Int) := by
    intro i
    have hfilter : ∀ k ∈ keys i, counts i k = ((l.filter (fun a => g a = i)).countP (fun a => f a = k) : Int) := by
      intro k hk
      rw [hcounts i k hk, countP_filter]
      congr 1
      apply countP_congr
      intro a _
      simp [and_comm]
    rw [snd_planCapped_eq_countP f _ (hkeys i) hfilter, countP_filter, countP_filter]
    congr 1
    apply countP_congr
    intro a _
    by_cases hi : g a = i
    · subst hi
      simp [past, ← hadmitted]
    · simp [hi]
  rw [map_congr_left (fun i _ => hgroup i), sum_countP_eq_countP_mem g hgroups, countP_filter]
  congr 1
  apply countP_congr
  intro a _
  simp [past, ← hadmitted]

end Folded

section Optimal

variable {κ : Type} [DecidableEq κ] {counts : κ → Int}

/-- No choice of `n` elements of a list sorted by weight weighs more than the first `n`. -/
theorem sum_le_sum_take {l : List κ} (hsorted : l.Pairwise (fun a b => counts b ≤ counts a))
    (hnonneg : ∀ a ∈ l, 0 ≤ counts a) {chosen : Finset κ} {n : Nat} (hsubset : chosen ⊆ l.toFinset)
    (hcard : chosen.card ≤ n) : ∑ a ∈ chosen, counts a ≤ ((l.take n).map counts).sum := by
  induction l generalizing chosen n with
  | nil =>
    have hempty : chosen = ∅ := Finset.subset_empty.mp hsubset
    simp [hempty]
  | cons a l ih =>
    obtain ⟨ha, hl⟩ := pairwise_cons.mp hsorted
    have hrest : ∀ b ∈ l, 0 ≤ counts b := fun b hb => hnonneg b (mem_cons_of_mem a hb)
    rcases chosen.eq_empty_or_nonempty with rfl | hne
    · rw [Finset.sum_empty]
      apply sum_nonneg
      intro x hx
      obtain ⟨b, hb, rfl⟩ := mem_map.mp hx
      exact hnonneg b (mem_of_mem_take hb)
    -- One chosen element, the head when it is chosen, makes way for the head.
    obtain ⟨b, hb, hle, herase⟩ : ∃ b ∈ chosen, counts b ≤ counts a ∧ chosen.erase b ⊆ l.toFinset := by
      by_cases hmem : a ∈ chosen
      · refine ⟨a, hmem, le_refl _, fun c hc => ?_⟩
        obtain ⟨hca, hc⟩ := Finset.mem_erase.mp hc
        simpa [hca] using hsubset hc
      have hl : chosen ⊆ l.toFinset := by
        intro c hc
        have hca : c ≠ a := fun heq => hmem (heq ▸ hc)
        simpa [hca] using hsubset hc
      obtain ⟨b, hb⟩ := hne
      exact ⟨b, hb, ha b (mem_toFinset.mp (hl hb)), (Finset.erase_subset b chosen).trans hl⟩
    have hpos : 0 < chosen.card := Finset.card_pos.mpr ⟨b, hb⟩
    obtain ⟨m, rfl⟩ : ∃ m, n = m + 1 := ⟨n - 1, by omega⟩
    have hcard' : (chosen.erase b).card ≤ m := by
      rw [Finset.card_erase_of_mem hb]
      omega
    calc ∑ c ∈ chosen, counts c = counts b + ∑ c ∈ chosen.erase b, counts c := (Finset.add_sum_erase chosen counts hb).symm
      _ ≤ counts a + ((l.take m).map counts).sum := add_le_add hle (ih hl hrest herase hcard')
      _ = (((a :: l).take (m + 1)).map counts).sum := by rw [take_succ_cons, map_cons, sum_cons]

variable {keys : List κ} {known : Finset κ} {room : Int}

variable (keys known counts room) in
/-- What is folded and what is admitted make up all records of fresh keys. -/
theorem snd_planCapped_add_sum :
    (planCapped keys known counts room).2 + ((planCapped keys known counts room).1.map counts).sum =
      ((keys.filter (fun k => k ∉ known)).map counts).sum := by
  have hperm := perm_freshByCount keys known counts
  unfold planCapped
  dsimp only
  rw [← (hperm.map counts).sum_eq, add_comm, ← sum_append, ← map_append, take_append_drop]

/-- A choice of fresh keys folds the records of those it leaves out. -/
def FoldsTo (keys : List κ) (known : Finset κ) (counts : κ → Int) (room : Int) (folded : Int) : Prop :=
  ∃ chosen ⊆ (keys.filter (fun k => k ∉ known)).toFinset, (chosen.card : Int) ≤ max room 0 ∧
    folded = ∑ k ∈ (keys.filter (fun k => k ∉ known)).toFinset \ chosen, counts k

theorem sum_sdiff_eq (hnodup : keys.Nodup) {chosen : Finset κ}
    (hsubset : chosen ⊆ (keys.filter (fun k => k ∉ known)).toFinset) :
    ∑ k ∈ (keys.filter (fun k => k ∉ known)).toFinset \ chosen, counts k =
      ((keys.filter (fun k => k ∉ known)).map counts).sum - ∑ k ∈ chosen, counts k := by
  rw [← sum_toFinset counts (hnodup.filter _), ← Finset.sum_sdiff hsubset]
  exact (add_sub_cancel_right _ _).symm

theorem foldsTo_planCapped (hnodup : keys.Nodup) :
    FoldsTo keys known counts room (planCapped keys known counts room).2 := by
  have hfresh : (planCapped keys known counts room).1.Nodup := nodup_planCapped hnodup
  have hsubset : (planCapped keys known counts room).1.toFinset ⊆ (keys.filter (fun k => k ∉ known)).toFinset := by
    intro k hk
    obtain ⟨hkey, hnew⟩ := mem_of_mem_planCapped (mem_toFinset.mp hk)
    exact mem_toFinset.mpr (mem_filter.mpr ⟨hkey, decide_eq_true hnew⟩)
  refine ⟨_, hsubset, ?_, ?_⟩
  · rw [toFinset_card_of_nodup hfresh]
    exact length_planCapped_le
  · have hsum := snd_planCapped_add_sum counts keys known room
    rw [sum_sdiff_eq hnodup hsubset, sum_toFinset counts hfresh]
    omega

/-- Admitting the most frequent fresh keys folds the fewest records. -/
theorem snd_planCapped_le (hnodup : keys.Nodup) (hcounts : ∀ k ∈ keys, 0 ≤ counts k)
    (hsorted : (freshByCount keys known counts).Pairwise (fun a b => counts b ≤ counts a)) {folded : Int}
    (hchoice : FoldsTo keys known counts room folded) : (planCapped keys known counts room).2 ≤ folded := by
  obtain ⟨chosen, hsubset, hcard, rfl⟩ := hchoice
  have hperm := perm_freshByCount keys known counts
  have hfresh : chosen ⊆ (freshByCount keys known counts).toFinset := by
    rw [toFinset_eq_of_perm _ _ hperm]
    exact hsubset
  have hbest : ∑ k ∈ chosen, counts k ≤ ((planCapped keys known counts room).1.map counts).sum :=
    sum_le_sum_take hsorted (fun k hk => hcounts k (mem_freshByCount.mp hk).1) hfresh (by omega)
  have hsum := snd_planCapped_add_sum counts keys known room
  rw [sum_sdiff_eq hnodup hsubset]
  omega

end Optimal
