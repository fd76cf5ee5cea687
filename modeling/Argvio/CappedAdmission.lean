import Argvio.CappedTable

open Finset

/-- Rows come in and move forward, and where they do it is to one of some times. -/
structure Onward {κ : Type} (times : Int → Prop) (r r' : κ → Option Int) : Prop where
  later : ∀ k a, r k = some a → ∃ b, r' k = some b ∧ a ≤ b
  source : ∀ k b, r' k = some b → r k = some b ∨ times b

/-- A key has a row, last seen no earlier than a given time. -/
def SeenSince {κ : Type} (r : κ → Option Int) (time : Int) (k : κ) : Prop := ∃ a, r k = some a ∧ time ≤ a

section Onward

variable {κ : Type} {times times' : Int → Prop} {r r' r'' : κ → Option Int} {k : κ}

theorem Onward.refl (times : Int → Prop) (r : κ → Option Int) : Onward times r r where
  later := fun _ a ha => ⟨a, ha, le_refl a⟩
  source := fun _ _ hb => .inl hb

theorem Onward.trans (h : Onward times r r') (h' : Onward times r' r'') : Onward times r r'' where
  later := by
    intro k a ha
    obtain ⟨b, hb, hab⟩ := h.later k a ha
    obtain ⟨c, hc, hbc⟩ := h'.later k b hb
    exact ⟨c, hc, hab.trans hbc⟩
  source := by
    intro k c hc
    rcases h'.source k c hc with hb | htime
    · exact h.source k c hb
    · exact .inr htime

theorem Onward.mono (h : Onward times r r') (htimes : ∀ a, times a → times' a) : Onward times' r r' where
  later := h.later
  source := fun k b hb => (h.source k b hb).imp_right (htimes b)

theorem Onward.comp {j : Type} (h : Onward times r r') (f : j → κ) :
    Onward times (fun i => r (f i)) (fun i => r' (f i)) where
  later := fun i => h.later (f i)
  source := fun i => h.source (f i)

/-- Rows of which some go onward and the others stay go onward. -/
theorem Onward.of_part {j : Type} {q q' : j → Option Int} (h : Onward times q q')
    (hrows : ∀ k, (∃ i, r k = q i ∧ r' k = q' i) ∨ r' k = r k) : Onward times r r' where
  later := by
    intro k a ha
    rcases hrows k with ⟨i, hr, hr'⟩ | hsame
    · rw [hr] at ha
      rw [hr']
      exact h.later i a ha
    · rw [hsame]
      exact ⟨a, ha, le_refl a⟩
  source := by
    intro k b hb
    rcases hrows k with ⟨i, hr, hr'⟩ | hsame
    · rw [hr'] at hb
      rw [hr]
      exact h.source i b hb
    · rw [← hsame]
      exact .inl hb

theorem Onward.isSome (h : Onward times r r') (hrow : (r k).isSome = true) : (r' k).isSome = true := by
  obtain ⟨a, ha⟩ := Option.isSome_iff_exists.mp hrow
  obtain ⟨b, hb, -⟩ := h.later k a ha
  rw [hb]
  rfl

theorem SeenSince.onward {time : Int} (hseen : SeenSince r time k) (h : Onward times r r') : SeenSince r' time k := by
  obtain ⟨a, ha, htime⟩ := hseen
  obtain ⟨b, hb, hab⟩ := h.later k a ha
  exact ⟨b, hb, htime.trans hab⟩

end Onward

namespace CappedTable

variable {κ : Type} [DecidableEq κ] {t : CappedTable κ} {ks : List κ} {now staleBefore : Int} {k : κ}

/-- When a key was last seen, if it has a row. -/
def row (t : CappedTable κ) (k : κ) : Option Int := if k ∈ t.keys then some (t.lastSeen k) else none

theorem row_eq_some {a : Int} : t.row k = some a ↔ k ∈ t.keys ∧ t.lastSeen k = a := by
  simp [row]

@[simp] theorem isSome_row : (t.row k).isSome = true ↔ k ∈ t.keys := by
  simp [row]

/-- The rows that the test of a deletion does not accept stay. -/
theorem row_deleteWhere_eq_some {p : κ → Int → Bool} {a : Int} :
    (t.deleteWhere p).row k = some a ↔ t.row k = some a ∧ p k a = false := by
  rw [row_eq_some, row_eq_some, mem_keys_deleteWhere]
  constructor
  · rintro ⟨⟨hk, hp⟩, rfl⟩
    exact ⟨⟨hk, rfl⟩, hp⟩
  · rintro ⟨⟨hk, rfl⟩, hp⟩
    exact ⟨⟨hk, hp⟩, rfl⟩

theorem onward_insertNew (t : CappedTable κ) (ks : List κ) (now : Int) :
    Onward (fun a => a = now) t.row (t.insertNew ks now).row where
  later := by
    intro k a ha
    obtain ⟨hk, rfl⟩ := row_eq_some.mp ha
    refine ⟨t.lastSeen k, row_eq_some.mpr ⟨mem_union_left _ hk, ?_⟩, le_refl _⟩
    exact if_neg fun h => h.2 hk
  source := by
    intro k b hb
    obtain ⟨hk, rfl⟩ := row_eq_some.mp hb
    by_cases hold : k ∈ t.keys
    · exact .inl (row_eq_some.mpr ⟨hold, (if_neg fun h => h.2 hold).symm⟩)
    · have hnew : k ∈ ks := List.mem_toFinset.mp ((mem_union.mp hk).resolve_left hold)
      exact .inr (if_pos ⟨hnew, hold⟩)

theorem onward_touch (t : CappedTable κ) (ks : List κ) (hstale : staleBefore ≤ now) :
    Onward (fun a => a = now) t.row (t.touch ks now staleBefore).row where
  later := by
    intro k a ha
    obtain ⟨hk, rfl⟩ := row_eq_some.mp ha
    refine ⟨_, row_eq_some.mpr ⟨hk, rfl⟩, ?_⟩
    unfold touch
    dsimp only
    split
    · rename_i h
      omega
    · exact le_refl _
  source := by
    intro k b hb
    obtain ⟨hk, rfl⟩ := row_eq_some.mp hb
    unfold touch
    dsimp only
    split
    · exact .inr rfl
    · exact .inl (row_eq_some.mpr ⟨hk, rfl⟩)

/-- What a touch leaves is not stale. -/
theorem seenSince_touch (hstale : staleBefore ≤ now) (hk : k ∈ ks) (hrow : k ∈ t.keys) :
    SeenSince (t.touch ks now staleBefore).row staleBefore k := by
  refine ⟨_, row_eq_some.mpr ⟨hrow, rfl⟩, ?_⟩
  unfold touch
  dsimp only
  split
  · exact hstale
  · rename_i hfresh
    by_contra hlt
    exact hfresh ⟨hk, hrow, not_le.mp hlt⟩

theorem seenSince_of_not_stale (hstale : t.stale ks staleBefore = false) (hk : k ∈ ks) (hrow : k ∈ t.keys) :
    SeenSince t.row staleBefore k := by
  refine ⟨_, row_eq_some.mpr ⟨hrow, rfl⟩, ?_⟩
  by_contra hlt
  have hsome : t.stale ks staleBefore = true :=
    List.any_eq_true.mpr ⟨k, hk, decide_eq_true ⟨hrow, not_le.mp hlt⟩⟩
  rw [hstale] at hsome
  cases hsome

end CappedTable

/-- A batch of keys to admit into one capped table: what it counts there, what it
would add, and its answers. -/
structure FlatCall (κ σ α : Type) where
  keys : List κ
  now : Int
  staleBefore : Int
  size : CappedTable κ → σ
  add : Finset κ → σ → List κ
  /-- The answer when there is no key to look up. -/
  nothing : α
  /-- The answer when every key is known. -/
  allKnown : α
  answer : Finset κ → σ → α
  admits : α → κ → Prop
  stale_le : staleBefore ≤ now
  admits_answer : ∀ known size, ∀ k ∈ keys, admits (answer known size) k → k ∈ known ∨ k ∈ add known size

/-- Where a call stands. The writes of an open transaction are not in the table yet. -/
inductive FlatPhase (κ σ α : Type) where
  | start
  | touching
  | waiting
  | locked
  | reread (known : Finset κ)
  | counted (known : Finset κ) (size : σ)
  | inserted (known : Finset κ) (size : σ)
  | touched (known : Finset κ) (size : σ)
  | returned (answer : α)
  | failed

/-- The phases between taking the lock and the end of the transaction. -/
def FlatPhase.holds {κ σ α : Type} : FlatPhase κ σ α → Bool
  | .locked => true
  | .reread _ => true
  | .counted _ _ => true
  | .inserted _ _ => true
  | .touched _ _ => true
  | _ => false

namespace FlatCall

variable {κ σ α : Type} [DecidableEq κ]

/-- The next statement of a call: the fast way reads and perhaps touches, the slow
way does all its writes when it commits. -/
def advance (c : FlatCall κ σ α) (t : CappedTable κ) : FlatPhase κ σ α → Option (CappedTable κ × FlatPhase κ σ α)
  | .start =>
    if c.keys = [] then some (t, .returned c.nothing)
    else if (t.known c.keys).card = c.keys.length then
      if t.stale c.keys c.staleBefore then some (t, .touching) else some (t, .returned c.allKnown)
    else some (t, .waiting)
  | .touching => some (t.touch c.keys c.now c.staleBefore, .returned c.allKnown)
  | .waiting => some (t, .locked)
  | .locked => some (t, .reread (t.known c.keys))
  | .reread known => some (t, .counted known (c.size t))
  | .counted known size => some (t, .inserted known size)
  | .inserted known size => some (t, .touched known size)
  | .touched known size =>
    some ((t.insertNew (c.add known size) c.now).touch c.keys c.now c.staleBefore, .returned (c.answer known size))
  | .returned _ => none
  | .failed => none

section Kept

variable {c : FlatCall κ σ α} {t t' : CappedTable κ} {p p' : FlatPhase κ σ α}

theorem advance_ne_start (h : c.advance t p = some (t', p')) : p' ≠ .start := by
  rintro rfl
  cases p with
  | start =>
    simp only [advance] at h
    split at h
    · cases h
    · split at h
      · split at h <;> cases h
      · cases h
  | _ => cases h

theorem onward_advance (h : c.advance t p = some (t', p')) : Onward (fun a => a = c.now) t.row t'.row := by
  cases p with
  | start =>
    have hsame : t' = t := by
      simp only [advance] at h
      split at h
      · cases h
        rfl
      · split at h
        · split at h <;> cases h <;> rfl
        · cases h
          rfl
    rw [hsame]
    exact .refl _ _
  | touching =>
    cases h
    exact t.onward_touch c.keys c.stale_le
  | touched known size =>
    cases h
    exact (t.onward_insertNew _ _).trans (CappedTable.onward_touch _ _ c.stale_le)
  | returned answer | failed => cases h
  | _ =>
    cases h
    exact .refl _ _

/-- The keys a call goes on to rely on. -/
def relied (c : FlatCall κ σ α) : FlatPhase κ σ α → Finset κ
  | .touching => c.keys.toFinset
  | .reread known => known
  | .counted known _ => known
  | .inserted known _ => known
  | .touched known _ => known
  | _ => ∅

/-- What a call keeps: the keys it relies on have rows, and once it has returned so
have those of its batch that it admitted or that had a row before, not stale. -/
structure Kept (c : FlatCall κ σ α) (before : κ → Prop) (t : CappedTable κ) (p : FlatPhase κ σ α) : Prop where
  rows : ∀ k, before k → k ∈ t.keys
  relied : c.relied p ⊆ t.keys
  seen : ∀ a, p = .returned a → ∀ k ∈ c.keys, before k ∨ c.admits a k → SeenSince t.row c.staleBefore k

variable {before : κ → Prop}

theorem Kept.onward (h : c.Kept before t p) {times : Int → Prop} (honward : Onward times t.row t'.row) :
    c.Kept before t' p where
  rows := fun k hk => CappedTable.isSome_row.mp (honward.isSome (CappedTable.isSome_row.mpr (h.rows k hk)))
  relied := fun _ hk => CappedTable.isSome_row.mp (honward.isSome (CappedTable.isSome_row.mpr (h.relied hk)))
  seen := fun a hp k hk hkept => (h.seen a hp k hk hkept).onward honward

theorem Kept.failed (h : c.Kept before t p) : c.Kept before t .failed where
  rows := h.rows
  relied := empty_subset _
  seen := fun _ hp => by cases hp

theorem keys_subset_of_known (hknown : (t.known c.keys).card = c.keys.length) : ∀ k ∈ c.keys, k ∈ t.keys := by
  intro k hk
  have hfound := subset_of_card_eq_length inter_subset_left hknown (List.mem_toFinset.mpr hk)
  exact (mem_inter.mp hfound).2

theorem Kept.advance (hkept : c.Kept before t p) (h : c.advance t p = some (t', p')) : c.Kept before t' p' := by
  have hbefore := (hkept.onward (onward_advance h)).rows
  cases p with
  | start =>
    simp only [FlatCall.advance] at h
    split at h
    · rename_i hnone
      cases h
      refine ⟨hbefore, empty_subset _, fun a _ k hk => ?_⟩
      rw [hnone] at hk
      cases hk
    split at h
    · rename_i hknown
      have hrows := keys_subset_of_known hknown
      split at h
      · cases h
        exact ⟨hbefore, fun k hk => hrows k (List.mem_toFinset.mp hk), fun a hp => by cases hp⟩
      · rename_i hfresh
        cases h
        refine ⟨hbefore, empty_subset _, fun a _ k hk _ => ?_⟩
        exact CappedTable.seenSince_of_not_stale (Bool.eq_false_iff.mpr hfresh) hk (hrows k hk)
    · cases h
      exact ⟨hbefore, empty_subset _, fun a hp => by cases hp⟩
  | touching =>
    cases h
    refine ⟨hbefore, empty_subset _, fun a _ k hk _ => ?_⟩
    exact CappedTable.seenSince_touch c.stale_le hk (hkept.relied (List.mem_toFinset.mpr hk))
  | waiting =>
    cases h
    exact ⟨hbefore, empty_subset _, fun a hp => by cases hp⟩
  | locked =>
    cases h
    exact ⟨hbefore, inter_subset_right, fun a hp => by cases hp⟩
  | touched known size =>
    cases h
    refine ⟨hbefore, empty_subset _, fun a hp k hk hadmitted => ?_⟩
    cases hp
    refine CappedTable.seenSince_touch c.stale_le hk ?_
    rcases hadmitted with hold | hadmitted
    · exact hbefore k hold
    · rcases c.admits_answer known size k hk hadmitted with hread | hadded
      · exact mem_union_left _ (hkept.relied hread)
      · exact mem_union_right _ (List.mem_toFinset.mpr hadded)
  | returned answer | failed => cases h
  | _ =>
    cases h
    exact ⟨hbefore, hkept.relied, fun a hp => by cases hp⟩

end Kept

end FlatCall
