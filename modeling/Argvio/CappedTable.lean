import Mathlib.Data.Finset.Lattice.Fold
import Mathlib.Data.List.Sort
import Mathlib.Algebra.Ring.Int.Defs

open List

/-- A table of keys with the time each was last seen. -/
structure CappedTable (κ : Type) where
  keys : Finset κ
  lastSeen : κ → Int

namespace CappedTable

def empty {κ : Type} : CappedTable κ := { keys := ∅, lastSeen := fun _ => 0 }

/-- `DELETE ... WHERE`: the rows whose key and time a test accepts are gone. -/
def deleteWhere {κ : Type} (t : CappedTable κ) (p : κ → Int → Bool) : CappedTable κ where
  keys := t.keys.filter (fun k => ¬ p k (t.lastSeen k))
  lastSeen := t.lastSeen

theorem mem_keys_deleteWhere {κ : Type} {t : CappedTable κ} {p : κ → Int → Bool} {k : κ} :
    k ∈ (t.deleteWhere p).keys ↔ k ∈ t.keys ∧ p k (t.lastSeen k) = false := by
  simp [deleteWhere]

variable {κ : Type} [DecidableEq κ]

/-- `INSERT ... ON CONFLICT DO NOTHING`. -/
def insertNew (t : CappedTable κ) (ks : List κ) (now : Int) : CappedTable κ where
  keys := t.keys ∪ ks.toFinset
  lastSeen := fun k => if k ∈ ks ∧ k ∉ t.keys then now else t.lastSeen k

/-- Moves the time forward on the listed rows last seen before `staleBefore`. -/
def touch (t : CappedTable κ) (ks : List κ) (now staleBefore : Int) : CappedTable κ where
  keys := t.keys
  lastSeen := fun k => if k ∈ ks ∧ k ∈ t.keys ∧ t.lastSeen k < staleBefore then now else t.lastSeen k

/-- Which of the listed keys have a row. -/
def known (t : CappedTable κ) (ks : List κ) : Finset κ := ks.toFinset ∩ t.keys

/-- Whether a listed key that has a row was last seen before `staleBefore`. -/
def stale (t : CappedTable κ) (ks : List κ) (staleBefore : Int) : Bool :=
  ks.any (fun k => k ∈ t.keys ∧ t.lastSeen k < staleBefore)

variable (t : CappedTable κ)

variable (ks : List κ) (now staleBefore : Int)

@[simp] theorem keys_insertNew (now : Int) :
    (t.insertNew ks now).keys = t.keys ∪ ks.toFinset := rfl

@[simp] theorem keys_touch :
    (t.touch ks now staleBefore).keys = t.keys := rfl

@[simp] theorem insertNew_nil (now : Int) : t.insertNew [] now = t := by
  simp [insertNew]

@[simp] theorem touch_nil : t.touch [] now staleBefore = t := by
  simp [touch]

end CappedTable

/-- The listed keys that are not known yet, most frequent first. The sort is
stable, so keys of equal count stay in list order. -/
def freshByCount {κ : Type} [DecidableEq κ] (keys : List κ) (known : Finset κ) (counts : κ → Int) : List κ :=
  (keys.filter (fun k => k ∉ known)).insertionSort (fun a b => counts a ≥ counts b)

/-- Which fresh keys fit in `room` free slots, and how many records carry the rest. -/
def planCapped {κ : Type} [DecidableEq κ] (keys : List κ) (known : Finset κ) (counts : κ → Int) (room : Int) :
    List κ × Int :=
  let fresh := freshByCount keys known counts
  (fresh.take room.toNat, ((fresh.drop room.toNat).map counts).sum)

section Plan

variable {κ : Type} [DecidableEq κ] {keys : List κ} {known : Finset κ} {counts : κ → Int} {room : Int} {k : κ}

theorem mem_freshByCount : k ∈ freshByCount keys known counts ↔ k ∈ keys ∧ k ∉ known := by
  simp [freshByCount, mem_insertionSort]

theorem perm_freshByCount (keys : List κ) (known : Finset κ) (counts : κ → Int) :
    (freshByCount keys known counts).Perm (keys.filter (fun k => k ∉ known)) :=
  perm_insertionSort _ _

theorem mem_of_mem_planCapped (h : k ∈ (planCapped keys known counts room).1) : k ∈ keys ∧ k ∉ known :=
  mem_freshByCount.mp (mem_of_mem_take h)

theorem length_planCapped_le : ((planCapped keys known counts room).1.length : Int) ≤ max room 0 := by
  have hlength : (planCapped keys known counts room).1.length ≤ room.toNat := length_take_le _ _
  omega

/-- A fresh key is left out only when the plan takes all the room. -/
theorem le_length_planCapped (hkey : k ∈ keys) (hfresh : k ∉ known)
    (hout : k ∉ (planCapped keys known counts room).1) : room ≤ (planCapped keys known counts room).1.length := by
  have hmem : k ∈ freshByCount keys known counts := mem_freshByCount.mpr ⟨hkey, hfresh⟩
  change k ∉ (freshByCount keys known counts).take room.toNat at hout
  change room ≤ ((freshByCount keys known counts).take room.toNat).length
  have hlength : room.toNat < (freshByCount keys known counts).length := by
    by_contra hshort
    rw [take_of_length_le (not_lt.mp hshort)] at hout
    exact hout hmem
  rw [length_take]
  omega

theorem planCapped_of_full (hfull : room ≤ 0) : (planCapped keys known counts room).1 = [] := by
  have hroom : room.toNat = 0 := by omega
  unfold planCapped
  rw [hroom]
  rfl

theorem nodup_planCapped (hnodup : keys.Nodup) : (planCapped keys known counts room).1.Nodup := by
  have hperm := perm_freshByCount keys known counts
  exact (hperm.nodup_iff.mpr (hnodup.filter _)).sublist (take_sublist _ _)

/-- While there is room, a batch with a fresh key gets one of its keys in. -/
theorem exists_mem_planCapped (hroom : 0 < room) (hkey : k ∈ keys) (hfresh : k ∉ known) :
    ∃ a, a ∈ (planCapped keys known counts room).1 := by
  have hmem : k ∈ freshByCount keys known counts := mem_freshByCount.mpr ⟨hkey, hfresh⟩
  have hpos : 0 < room.toNat := by omega
  obtain ⟨a, rest, hsplit⟩ := exists_cons_of_ne_nil (ne_nil_of_mem hmem)
  obtain ⟨n, hn⟩ := Nat.exists_eq_succ_of_ne_zero hpos.ne'
  refine ⟨a, ?_⟩
  show a ∈ (freshByCount keys known counts).take room.toNat
  rw [hsplit, hn, take_succ_cons]
  exact mem_cons_self

end Plan

/-- Adding as many keys as a count left free keeps a table that has not grown
since within its bound. -/
theorem card_union_le_of_room {κ : Type} [DecidableEq κ] {current added : Finset κ} {size limit : Int}
    (hadded : (added.card : Int) ≤ max (limit - size) 0) (hsize : (current.card : Int) ≤ size) {bound : Nat}
    (hbound : current.card ≤ bound) (hlimit : limit ≤ bound) : (current ∪ added).card ≤ bound := by
  have hunion := Finset.card_union_le current added
  rcases le_total (limit - size) 0 with hfull | hfree
  · rw [max_eq_right hfull] at hadded
    omega
  · rw [max_eq_left hfree] at hadded
    omega

/-- A key of a batch is left without a row only when the table is full after it,
where `row` says which row stands for a key. -/
theorem le_card_of_left_out {κ ρ : Type} [DecidableEq κ] [DecidableEq ρ] {row : κ → ρ} (hrow : Function.Injective row)
    {rows rows' : Finset ρ} {keys : List κ} (known : Finset κ) (counts : κ → Int) {limit : Int}
    (hnodup : keys.Nodup) (hknown : ∀ k ∈ keys, (k ∈ known ↔ row k ∈ rows)) (hrows : rows ⊆ rows')
    (hadded : ∀ k ∈ (planCapped keys known counts (limit - rows.card)).1, row k ∈ rows') {k : κ} (hkey : k ∈ keys)
    (hout : row k ∉ rows') : limit ≤ rows'.card := by
  have hroom := le_length_planCapped hkey (fun h => hout (hrows ((hknown k hkey).mp h))) (fun h => hout (hadded k h))
  have hplanned : (planCapped keys known counts (limit - rows.card)).1.Nodup := nodup_planCapped hnodup
  have hfresh : ∀ k ∈ (planCapped keys known counts (limit - rows.card)).1, row k ∉ rows := by
    intro k hk hold
    obtain ⟨hmem, hnew⟩ := mem_of_mem_planCapped hk
    exact hnew ((hknown k hmem).mpr hold)
  generalize (planCapped keys known counts (limit - rows.card)).1 = plan at hadded hroom hplanned hfresh
  have hdisjoint : Disjoint rows (plan.map row).toFinset := by
    rw [Finset.disjoint_right]
    intro r hr
    obtain ⟨k', hk', rfl⟩ := mem_map.mp (mem_toFinset.mp hr)
    exact hfresh k' hk'
  have hsubset : rows ∪ (plan.map row).toFinset ⊆ rows' := by
    refine Finset.union_subset hrows fun r hr => ?_
    obtain ⟨k', hk', rfl⟩ := mem_map.mp (mem_toFinset.mp hr)
    exact hadded k' hk'
  have hcard := Finset.card_le_card hsubset
  rw [Finset.card_union_of_disjoint hdisjoint, toFinset_card_of_nodup (hplanned.map hrow),
    length_map] at hcard
  omega

/-- A read that finds as many rows as the batch has values has found the batch. -/
theorem subset_of_card_eq_length {κ : Type} [DecidableEq κ] {found : Finset κ} {asked : List κ}
    (hfound : found ⊆ asked.toFinset) (hcard : found.card = asked.length) : asked.toFinset ⊆ found := by
  have hle := toFinset_card_le asked
  have heq := Finset.eq_of_subset_of_card_le hfound (by omega)
  exact heq.ge

/-- In an ordered list, the first `n` elements are those with fewer than `n` before them. -/
theorem mem_take_iff_of_pairwise {κ : Type} {r : κ → κ → Prop} [DecidableRel r]
    (hasymm : ∀ a b, r a b → ¬ r b a) {l : List κ} (hl : l.Pairwise r) {k : κ} {n : Nat} :
    k ∈ l.take n ↔ k ∈ l ∧ (l.filter (fun a => r a k)).length < n := by
  induction l generalizing n with
  | nil => simp
  | cons a l ih =>
    obtain ⟨ha, hrest⟩ := pairwise_cons.mp hl
    cases n with
    | zero => simp
    | succ n =>
      rw [take_succ_cons, mem_cons, mem_cons, ih hrest]
      by_cases hk : k = a
      · subst hk
        have hself : ¬ r k k := fun h => hasymm k k h h
        have hnone : l.filter (fun b => r b k) = [] := by
          rw [filter_eq_nil_iff]
          intro b hb
          simpa using hasymm k b (ha b hb)
        simp [hself, hnone]
      · by_cases hmem : k ∈ l
        · simp [hk, hmem, ha k hmem]
        · simp [hk, hmem]

/-- `a` is admitted before `b`: more frequent, or as frequent and smaller. -/
def Ahead {κ : Type} [LinearOrder κ] (counts : κ → Int) (a b : κ) : Prop :=
  counts b < counts a ∨ counts a = counts b ∧ a < b

section Order

variable {κ : Type} [LinearOrder κ] {keys : List κ} {known : Finset κ} {counts : κ → Int} {room : Int} {k : κ}

instance : DecidableRel (Ahead counts) := fun _ _ => inferInstanceAs (Decidable (_ ∨ _))

theorem Ahead.asymm {a b : κ} (h : Ahead counts a b) : ¬ Ahead counts b a := by
  rcases h with hcount | ⟨hcount, hlt⟩
  · rintro (hcount' | ⟨hcount', _⟩) <;> omega
  · rintro (hcount' | ⟨_, hlt'⟩)
    · omega
    · exact lt_asymm hlt hlt'

theorem Ahead.le {a b : κ} (h : Ahead counts a b) : counts b ≤ counts a := by
  rcases h with hcount | ⟨hcount, -⟩ <;> omega

theorem Ahead.orderedInsert {a : κ} {l : List κ} (hl : l.Pairwise (Ahead counts)) (ha : ∀ b ∈ l, a < b) :
    (l.orderedInsert (fun a b => counts a ≥ counts b) a).Pairwise (Ahead counts) := by
  induction l with
  | nil => simp
  | cons b l ih =>
    obtain ⟨hb, hrest⟩ := pairwise_cons.mp hl
    rw [List.orderedInsert]
    by_cases hcount : counts a ≥ counts b
    · rw [if_pos hcount]
      refine pairwise_cons.mpr ⟨?_, hl⟩
      intro c hc
      have hle : counts c ≤ counts b := by
        rcases mem_cons.mp hc with rfl | hmem
        · exact le_refl _
        · rcases hb c hmem with hlt | ⟨heq, _⟩ <;> omega
      rcases lt_or_eq_of_le (hle.trans hcount) with hlt | heq
      · exact .inl hlt
      · exact .inr ⟨heq.symm, ha c hc⟩
    · rw [if_neg hcount]
      refine pairwise_cons.mpr ⟨?_, ih hrest (fun c hc => ha c (mem_cons_of_mem _ hc))⟩
      intro c hc
      rcases (mem_orderedInsert (r := fun a b => counts a ≥ counts b)).mp hc with rfl | hmem
      · exact .inl (by omega)
      · exact hb c hmem

/-- The fresh keys stand in the order in which they are admitted. -/
theorem pairwise_freshByCount (hkeys : keys.Pairwise (· < ·)) :
    (freshByCount keys known counts).Pairwise (Ahead counts) := by
  unfold freshByCount
  have hfresh : (keys.filter (fun k => k ∉ known)).Pairwise (· < ·) := hkeys.filter _
  generalize keys.filter (fun k => k ∉ known) = fresh at hfresh
  induction fresh with
  | nil => simp
  | cons a l ih =>
    obtain ⟨ha, hl⟩ := pairwise_cons.mp hfresh
    rw [insertionSort_cons]
    refine Ahead.orderedInsert (ih hl) ?_
    intro b hb
    exact ha b ((mem_insertionSort (r := fun a b => counts a ≥ counts b)).mp hb)

/-- A fresh key fits when fewer keys than there is room for are ahead of it. -/
theorem mem_planCapped_iff (hkeys : keys.Pairwise (· < ·)) :
    k ∈ (planCapped keys known counts room).1 ↔ (k ∈ keys ∧ k ∉ known) ∧
      (((keys.filter (fun a => a ∉ known ∧ Ahead counts a k)).length : Nat) : Int) < room := by
  have hperm := perm_freshByCount keys known counts
  have hlength : ((freshByCount keys known counts).filter (fun a => Ahead counts a k)).length =
      (keys.filter (fun a => a ∉ known ∧ Ahead counts a k)).length := by
    rw [(hperm.filter _).length_eq, filter_filter]
    congr 1
    apply filter_congr
    intro a _
    simp [and_comm]
  have htake : (planCapped keys known counts room).1 = (freshByCount keys known counts).take room.toNat := rfl
  rw [htake, mem_take_iff_of_pairwise (fun a b => Ahead.asymm) (pairwise_freshByCount hkeys), mem_freshByCount,
    hlength]
  exact and_congr_right fun _ => Int.lt_toNat

end Order
