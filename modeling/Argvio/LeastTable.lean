import Argvio.GoMap
import Argvio.OptLeast

open List

namespace leasttable

section Sightings

variable {κ α : Type} [LinearOrder α] {s s' t t' : Set (κ × α)}

/-- Some of the sightings in `t`, with one of each key that none in `t` comes before. -/
structure StandsFor (s t : Set (κ × α)) : Prop where
  subset : s ⊆ t
  exists_le : ∀ k a, (k, a) ∈ t → ∃ b ≤ a, (k, b) ∈ s

theorem StandsFor.union (h : StandsFor s t) (h' : StandsFor s' t') : StandsFor (s ∪ s') (t ∪ t') where
  subset := Set.union_subset_union h.subset h'.subset
  exists_le := by
    rintro k a (ha | ha)
    · obtain ⟨b, hle, hb⟩ := h.exists_le k a ha
      exact ⟨b, hle, .inl hb⟩
    · obtain ⟨b, hle, hb⟩ := h'.exists_le k a ha
      exact ⟨b, hle, .inr hb⟩

theorem StandsFor.refl (s : Set (κ × α)) : StandsFor s s := ⟨subset_rfl, fun _ a ha => ⟨a, le_rfl, ha⟩⟩

theorem StandsFor.iUnion {ι : Type} {l : List ι} {s t : ι → Set (κ × α)} (h : ∀ i ∈ l, StandsFor (s i) (t i)) :
    StandsFor {e | ∃ i ∈ l, e ∈ s i} {e | ∃ i ∈ l, e ∈ t i} where
  subset := by
    rintro e ⟨i, hi, he⟩
    exact ⟨i, hi, (h i hi).subset he⟩
  exists_le := by
    rintro k a ⟨i, hi, ha⟩
    obtain ⟨b, hle, hb⟩ := (h i hi).exists_le k a ha
    exact ⟨b, hle, i, hi, hb⟩

theorem StandsFor.optLeast (h : StandsFor s t) {k : κ} {x : Option α} (hx : OptLeast {a | (k, a) ∈ s} x) :
    OptLeast {a | (k, a) ∈ t} x := by
  cases x with
  | none =>
    have hempty : {a | (k, a) ∈ s} = ∅ := hx
    refine Set.eq_empty_of_forall_notMem fun a ha => ?_
    obtain ⟨b, _, hb⟩ := h.exists_le k a ha
    exact Set.notMem_empty b (hempty ▸ hb)
  | some c =>
    obtain ⟨hmem, hleast⟩ := hx
    refine ⟨h.subset hmem, fun a ha => ?_⟩
    obtain ⟨b, hle, hb⟩ := h.exists_le k a ha
    exact (hleast hb).trans hle

variable [DecidableEq κ]

/-- The values sighted under a key. -/
def valuesOf (l : List (κ × α)) (k : κ) : List α := (l.filter (fun e => e.1 = k)).map Prod.snd

omit [LinearOrder α] in
theorem mem_valuesOf {l : List (κ × α)} {k : κ} {a : α} : a ∈ valuesOf l k ↔ (k, a) ∈ l := by
  simp [valuesOf]

/-- `SELECT key, min(value) ... GROUP BY key`, in some order. -/
def groupMin (l : List (κ × α)) : List (κ × α) :=
  (l.map Prod.fst).dedup.filterMap (fun k => (valuesOf l k).min?.map (fun a => (k, a)))

theorem mem_groupMin {l : List (κ × α)} {k : κ} {a : α} : (k, a) ∈ groupMin l ↔ (valuesOf l k).min? = some a := by
  constructor
  · intro h
    obtain ⟨k', _, hk'⟩ := mem_filterMap.mp h
    obtain ⟨a', ha', heq⟩ := Option.map_eq_some_iff.mp hk'
    cases heq
    exact ha'
  · intro h
    have hsighted := mem_valuesOf.mp (min?_eq_some_iff.mp h).1
    refine mem_filterMap.mpr ⟨k, mem_dedup.mpr (mem_map_of_mem hsighted), ?_⟩
    rw [h]
    rfl

theorem standsFor_groupMin (l : List (κ × α)) : StandsFor {e | e ∈ groupMin l} {e | e ∈ l} where
  subset := fun _ he => mem_valuesOf.mp (min?_eq_some_iff.mp (mem_groupMin.mp he)).1
  exists_le := by
    intro k a ha
    have hin : a ∈ valuesOf l k := mem_valuesOf.mpr ha
    cases hmin : (valuesOf l k).min? with
    | none =>
      rw [min?_eq_none_iff.mp hmin] at hin
      cases hin
    | some b => exact ⟨b, (min?_eq_some_iff.mp hmin).2 a hin, mem_groupMin.mpr hmin⟩

end Sightings

section Table

variable {κ α : Type} [DecidableEq κ] [LinearOrder α] {m m' : GoMap κ α} {s t : Set (κ × α)}

/-- An upsert that keeps the lesser of two values. -/
def see (m : GoMap κ α) (k : κ) (a : α) : GoMap κ α :=
  match m.lookup k with
  | some b => if a < b then m.insert k a else m
  | none => m.insert k a

theorem lookup_see (m : GoMap κ α) (k k' : κ) (a : α) :
    (see m k a).lookup k' = if k' = k then optMin (m.lookup k') (some a) else m.lookup k' := by
  unfold see
  by_cases hk : k' = k
  · subst hk
    rw [if_pos rfl]
    cases hold : m.lookup k' with
    | none => exact AList.lookup_insert _
    | some b =>
      dsimp only [optMin]
      split
      · rename_i hlt
        rw [AList.lookup_insert, min_eq_right hlt.le]
      · rename_i hle
        rw [hold, min_eq_left (not_lt.mp hle)]
  · rw [if_neg hk]
    split
    · split
      · exact AList.lookup_insert_ne hk
      · rfl
    · exact AList.lookup_insert_ne hk

/-- The table holds the least value that some sightings have for each key. -/
def Records (m : GoMap κ α) (s : Set (κ × α)) : Prop := ∀ k, OptLeast {a | (k, a) ∈ s} (m.lookup k)

theorem records_empty : Records (∅ : GoMap κ α) ∅ := fun _ => rfl

theorem Records.see (h : Records m s) (e : κ × α) : Records (see m e.1 e.2) (s ∪ {e}) := by
  intro k
  rw [lookup_see]
  by_cases hk : k = e.1
  · subst hk
    rw [if_pos rfl]
    have hone : OptLeast {a | (e.1, a) ∈ ({e} : Set (κ × α))} (some e.2) := by
      refine ⟨rfl, ?_⟩
      rintro a ha
      exact (congrArg Prod.snd ha).ge
    exact (h e.1).union hone
  · rw [if_neg hk]
    have hsame : {a | (k, a) ∈ s ∪ {e}} = {a | (k, a) ∈ s} := by
      ext a
      have hne : (k, a) ≠ e := fun heq => hk (congrArg Prod.fst heq)
      simp [hne]
    rw [hsame]
    exact h k

/-- Upserts one after another record what was sighted before and by them. -/
theorem Records.foldl (h : Records m s) (ops : List (κ × α)) :
    Records (ops.foldl (fun m op => leasttable.see m op.1 op.2) m) (s ∪ {op | op ∈ ops}) := by
  induction ops generalizing m s with
  | nil => simpa using h
  | cons op ops ih =>
    have hset : s ∪ {e | e ∈ op :: ops} = s ∪ {op} ∪ {e | e ∈ ops} := by
      ext e
      simp only [Set.mem_union, Set.mem_ofPred_eq, Set.mem_singleton_iff, mem_cons, or_assoc]
    rw [hset]
    exact ih (h.see op)

/-- What a table records determines it. -/
theorem Records.same (h : Records m s) (h' : Records m' s) : m.Same m' :=
  GoMap.same_of_lookup fun k => (h k).unique (h' k)

theorem Records.of_standsFor (h : Records m s) (hstands : StandsFor s t) : Records m t := fun k => hstands.optLeast (h k)

/-- The rows of a table. -/
def rows (m : GoMap κ α) : List (κ × α) := m.entries.map (fun e => (e.1, e.2))

omit [LinearOrder α] in
theorem mem_rows {k : κ} {a : α} : (k, a) ∈ rows m ↔ m.lookup k = some a := by
  unfold rows
  rw [← Option.mem_def, AList.mem_lookup_iff, mem_map]
  constructor
  · rintro ⟨⟨_, _⟩, he, heq⟩
    cases heq
    exact he
  · intro he
    exact ⟨⟨k, a⟩, he, rfl⟩

/-- The rows of a table stand for all it records. -/
theorem Records.standsFor_rows (h : Records m s) : StandsFor {e | e ∈ rows m} s where
  subset := by
    rintro ⟨k, a⟩ ha
    have hk := h k
    rw [mem_rows.mp ha] at hk
    exact hk.1
  exists_le := by
    intro k a ha
    obtain ⟨b, hb, hleast⟩ := (h k).isLeast ha
    exact ⟨b, hleast.2 ha, mem_rows.mpr hb⟩

end Table

end leasttable
