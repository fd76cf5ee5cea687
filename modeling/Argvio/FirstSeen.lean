import Argvio.TiedOrder
import Mathlib.Data.Prod.Lex

open List

namespace firstseen

open tiedorder

section Keys

variable {κ ρ : Type} [DecidableEq κ] {key : ρ → κ}

/-- Each key once, in the order in which they first occur. -/
def firstSeen : List κ → List κ
  | [] => []
  | k :: l => k :: (firstSeen l).filter (· ≠ k)

@[simp] theorem mem_firstSeen {l : List κ} {k : κ} : k ∈ firstSeen l ↔ k ∈ l := by
  induction l with
  | nil => rfl
  | cons k' l ih =>
    rw [firstSeen, mem_cons, mem_cons, mem_filter, ih]
    by_cases hk : k = k' <;> simp [hk]

theorem nodup_firstSeen (l : List κ) : (firstSeen l).Nodup := by
  induction l with
  | nil => exact nodup_nil
  | cons k l ih =>
    rw [firstSeen, nodup_cons]
    exact ⟨by simp, ih.filter _⟩

/-- One more key is new, or was seen before. -/
theorem firstSeen_concat (l : List κ) (k : κ) :
    firstSeen (l ++ [k]) = if k ∈ l then firstSeen l else firstSeen l ++ [k] := by
  induction l with
  | nil => rfl
  | cons k' l ih =>
    rw [cons_append, firstSeen, ih, firstSeen]
    by_cases hk : k = k'
    · subst hk
      by_cases hl : k ∈ l <;> simp [hl]
    · by_cases hl : k ∈ l <;> simp [hl, hk]

theorem firstSeen_perm {l l' : List κ} (h : l.Perm l') : (firstSeen l).Perm (firstSeen l') :=
  (perm_ext_iff_of_nodup (nodup_firstSeen l) (nodup_firstSeen l')).mpr (fun k => by
    rw [mem_firstSeen, mem_firstSeen, h.mem_iff])

/-- What holds between rows in their order holds of the first row of a key and every row of
a key seen later. -/
theorem pairwise_firstSeen {R : ρ → ρ → Prop} {l : List ρ} (h : l.Pairwise R) :
    (firstSeen (l.map key)).Pairwise (fun x y => ∃ r ∈ l, key r = x ∧ ∀ r' ∈ l, key r' = y → R r r') := by
  induction l with
  | nil => exact List.Pairwise.nil
  | cons r l ih =>
    obtain ⟨hr, hl⟩ := pairwise_cons.mp h
    rw [map_cons, firstSeen, pairwise_cons]
    refine ⟨fun y hy => ?_, ?_⟩
    · have hne : y ≠ key r := by simpa using (mem_filter.mp hy).2
      refine ⟨r, mem_cons_self, rfl, fun r' hr' hkey => ?_⟩
      rcases mem_cons.mp hr' with rfl | hin
      · exact absurd hkey.symm hne
      · exact hr r' hin
    · refine ((ih hl).filter _).imp_of_mem (fun _ hy hxy => ?_)
      obtain ⟨r₁, hr₁, hx, hall⟩ := hxy
      refine ⟨r₁, mem_cons_of_mem r hr₁, hx, fun r' hr' hkey => ?_⟩
      rcases mem_cons.mp hr' with rfl | hin
      · exact absurd hkey.symm (by simpa using (mem_filter.mp hy).2)
      · exact hall r' hin hkey

end Keys

section Stable

variable {α : Type} {r S : α → α → Prop} [DecidableRel r] [Std.Total r] [IsTrans α r]

theorem pairwise_orderedInsert_stable {a : α} {l : List α} (hS : ∀ b ∈ l, S a b)
    (hl : l.Pairwise (fun a b => r a b ∧ (r b a → S a b))) :
    (l.orderedInsert r a).Pairwise (fun a b => r a b ∧ (r b a → S a b)) := by
  induction l with
  | nil => exact pairwise_singleton _ _
  | cons b l ih =>
    obtain ⟨hb, hrest⟩ := pairwise_cons.mp hl
    rw [orderedInsert_cons]
    by_cases hab : r a b
    · rw [if_pos hab]
      refine pairwise_cons.mpr ⟨fun c hc => ⟨?_, fun _ => hS c hc⟩, hl⟩
      rcases mem_cons.mp hc with rfl | hin
      · exact hab
      · exact IsTrans.trans _ _ _ hab (hb c hin).1
    · rw [if_neg hab]
      refine pairwise_cons.mpr ⟨fun c hc => ?_, ih (fun c hc => hS c (mem_cons_of_mem b hc)) hrest⟩
      rcases (mem_orderedInsert r).mp hc with rfl | hin
      · exact ⟨(Std.Total.total c b).resolve_left hab, fun hca => absurd hca hab⟩
      · exact hb c hin

/-- A stable sort keeps the order of what the sort does not tell apart. -/
theorem pairwise_insertionSort_stable {l : List α} (hl : l.Pairwise S) :
    (l.insertionSort r).Pairwise (fun a b => r a b ∧ (r b a → S a b)) := by
  induction l with
  | nil => exact List.Pairwise.nil
  | cons a l ih =>
    obtain ⟨ha, hrest⟩ := pairwise_cons.mp hl
    rw [insertionSort_cons]
    exact pairwise_orderedInsert_stable (fun b hb => ha b (mem_insertionSort _ |>.mp hb)) (ih hrest)

end Stable

section Place

variable {κ β ω : Type} {weight : κ → ω} {first : κ → β} {x y : κ}

/-- What the place of a key in the ranking goes by. -/
def place (weight : κ → ω) (first : κ → β) (k : κ) : ωᵒᵈ ×ₗ β := toLex (OrderDual.toDual (weight k), first k)

theorem place_lt_iff [LinearOrder β] [LinearOrder ω] :
    place weight first x < place weight first y ↔ weight y < weight x ∨ weight x = weight y ∧ first x < first y := by
  rw [place, place, Prod.Lex.toLex_lt_toLex]
  exact Iff.rfl

theorem place_eq_iff :
    place weight first x = place weight first y ↔ weight x = weight y ∧ first x = first y := by
  rw [place, place, toLex.injective.eq_iff, Prod.mk.injEq]
  exact Iff.rfl

end Place

section Ranking

variable {ρ κ β ω : Type} [DecidableEq κ] [LinearOrder β] [LinearOrder ω] (key : ρ → κ) (bucket : ρ → β)
  (weight : κ → ω)

/-- The keys of some rows by weight, greatest first, and otherwise as they are first seen. -/
def ranking (l : List ρ) : List κ := (firstSeen (l.map key)).insertionSort (fun x y => weight y ≤ weight x)

/-- The bucket in which a key first occurs. -/
structure FirstBucket (rows : List ρ) (first : κ → β) : Prop where
  le : ∀ r ∈ rows, first (key r) ≤ bucket r
  attained : ∀ r ∈ rows, ∃ r' ∈ rows, key r' = key r ∧ bucket r' = first (key r)

variable {key bucket} {rows l : List ρ} {first : κ → β} {x y : κ}

/-- In the ranking, a key comes after those of a greater weight, and after those of the same
weight that the rows put before it. -/
theorem pairwise_ranking {S : κ → κ → Prop} (h : (firstSeen (l.map key)).Pairwise S) :
    (ranking key weight l).Pairwise (fun x y => weight y ≤ weight x ∧ (weight x ≤ weight y → S x y)) := by
  have htotal : Std.Total (fun x y : κ => weight y ≤ weight x) := ⟨fun x y => le_total (weight y) (weight x)⟩
  have htrans : IsTrans κ (fun x y => weight y ≤ weight x) := ⟨fun _ _ _ hxy hyz => hyz.trans hxy⟩
  exact pairwise_insertionSort_stable h

/-- Whatever the order within the buckets, the ranking is one by weight and first bucket. -/
theorem arranges_ranking (hfirst : FirstBucket key bucket rows first) (hl : Arranges bucket rows l) :
    Arranges (place weight first) (firstSeen (rows.map key)) (ranking key weight l) where
  perm := (perm_insertionSort _ _).trans (firstSeen_perm (hl.perm.map key))
  sorted := by
    have hseen : (firstSeen (l.map key)).Pairwise (fun x y => first x ≤ first y) := by
      refine (pairwise_firstSeen hl.sorted).imp_of_mem (fun {x y} _ hy hxy => ?_)
      obtain ⟨r, hr, rfl, hall⟩ := hxy
      obtain ⟨r₀, hr₀, rfl⟩ := mem_map.mp (mem_firstSeen.mp hy)
      obtain ⟨r', hr', hkey, hbucket⟩ := hfirst.attained r₀ (hl.perm.mem_iff.mp hr₀)
      calc first (key r) ≤ bucket r := hfirst.le r (hl.perm.mem_iff.mp hr)
        _ ≤ bucket r' := hall r' (hl.perm.mem_iff.mpr hr') hkey
        _ = first (key r₀) := hbucket
    refine (pairwise_ranking weight hseen).imp (fun {x y} hxy => ?_)
    rw [← not_lt, place_lt_iff]
    rintro (hlt | ⟨heq, hlt⟩)
    · exact absurd hxy.1 (not_le.mpr hlt)
    · exact absurd (hxy.2 heq.ge) (not_le.mpr hlt)

/-- A row that comes first in its bucket has only rows of earlier buckets before it. -/
theorem pairwise_of_first {r : ρ} (hrows : rows.Nodup) (hl : Arranges bucket rows l)
    (hr : l[before bucket rows r]? = some r) :
    l.Pairwise (fun r₁ r₂ => bucket r₁ ≤ bucket r₂ ∧ (r₂ = r → bucket r₁ < bucket r)) := by
  have hnodup : l.Nodup := hl.perm.nodup_iff.mpr hrows
  rw [pairwise_iff_getElem]
  intro i j hi hj hij
  refine ⟨pairwise_iff_getElem.mp hl.sorted i j hi hj hij, fun heq => ?_⟩
  have hplace : j = before bucket rows r := by
    refine (getElem?_inj hj hnodup).mp ?_
    rw [getElem?_eq_getElem hj, heq, hr]
  have hle : bucket l[i] ≤ bucket r := by
    rw [← heq]
    exact pairwise_iff_getElem.mp hl.sorted i j hi hj hij
  refine lt_of_le_of_ne hle (fun htied => ?_)
  have hbound := (hl.index_bounds (getElem?_eq_getElem hi)).1
  have hsame : before bucket rows l[i] = before bucket rows r := by
    unfold before
    rw [htied]
  omega

/-- A key can be the first of those that share its place. -/
theorem exists_ranking (hrows : rows.Nodup) (hfirst : FirstBucket key bucket rows first)
    (hx : x ∈ firstSeen (rows.map key)) :
    ∃ l, Arranges bucket rows l ∧
      (ranking key weight l)[before (place weight first) (firstSeen (rows.map key)) x]? = some x := by
  obtain ⟨r₀, hr₀, rfl⟩ := mem_map.mp (mem_firstSeen.mp hx)
  obtain ⟨r, hr, hkey, hbucket⟩ := hfirst.attained r₀ hr₀
  have hroom : before bucket rows r < upTo bucket rows r := by
    rw [upTo_eq_add]
    have hpos := length_pos_of_mem
      (mem_filter.mpr ⟨hr, decide_eq_true (Eq.refl (bucket r))⟩ : r ∈ rows.filter (fun y => bucket y = bucket r))
    omega
  obtain ⟨l, hl, hplace⟩ := exists_arranges hr le_rfl hroom
  refine ⟨l, hl, ?_⟩
  have hseen : (firstSeen (l.map key)).Pairwise (fun u v => v = key r₀ → first u < first (key r₀)) := by
    refine (pairwise_firstSeen (pairwise_of_first hrows hl hplace)).imp (fun {u v} huv => ?_)
    rintro rfl
    obtain ⟨r₁, hr₁, rfl, hall⟩ := huv
    have hlt := (hall r (hl.perm.mem_iff.mpr hr) hkey).2 rfl
    rw [hbucket] at hlt
    exact (hfirst.le r₁ (hl.perm.mem_iff.mp hr₁)).trans_lt hlt
  have hranked : (ranking key weight l).Pairwise
      (fun u v => v = key r₀ → place weight first u < place weight first (key r₀)) := by
    refine (pairwise_ranking weight hseen).imp (fun {u v} huv => ?_)
    rintro rfl
    rw [place_lt_iff]
    rcases huv.1.lt_or_eq with hlt | heq
    · exact .inl hlt
    · exact .inr ⟨heq.symm, huv.2 heq.ge rfl⟩
  exact (arranges_ranking weight hfirst hl).getElem?_before hx hranked

/-- The first `n` keys do not depend on the order within the buckets exactly when two keys of
one weight that first occur in one bucket have at least `n` before them. -/
theorem ranking_take_eq_iff (hrows : rows.Nodup) (hfirst : FirstBucket key bucket rows first) (n : ℕ) :
    (∀ l₁ l₂, Arranges bucket rows l₁ → Arranges bucket rows l₂ →
        (ranking key weight l₁).take n = (ranking key weight l₂).take n) ↔
      ∀ x ∈ firstSeen (rows.map key), ∀ y ∈ firstSeen (rows.map key), x ≠ y →
        place weight first x = place weight first y →
          n ≤ before (place weight first) (firstSeen (rows.map key)) x := by
  constructor
  · intro hsame x hx y hy hne hplace
    by_contra hroom
    obtain ⟨l₁, hl₁, hx₁⟩ := exists_ranking weight hrows hfirst hx
    obtain ⟨l₂, hl₂, hy₂⟩ := exists_ranking weight hrows hfirst hy
    have hbefore : before (place weight first) (firstSeen (rows.map key)) y =
        before (place weight first) (firstSeen (rows.map key)) x := by
      unfold before
      rw [hplace]
    rw [hbefore] at hy₂
    have htake := congrArg (fun l => l[before (place weight first) (firstSeen (rows.map key)) x]?) (hsame l₁ l₂ hl₁ hl₂)
    rw [getElem?_take_of_lt (not_le.mp hroom), getElem?_take_of_lt (not_le.mp hroom), hx₁, hy₂] at htake
    exact hne (Option.some.inj htake)
  · intro hties l₁ l₂ hl₁ hl₂
    exact (arranges_ranking weight hfirst hl₁).take_eq (arranges_ranking weight hfirst hl₂) hties

end Ranking

end firstseen
