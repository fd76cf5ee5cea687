import Argvio.Storage.Semver

namespace argvio.storage.Texts

section Order

variable {τ : Type} [Ord τ] [Std.TransOrd τ] (T : Texts τ)

theorem comparePreIdent_swap (a b : τ) : T.comparePreIdent a b = (T.comparePreIdent b a).swap := by
  unfold comparePreIdent
  cases T.parseUint a with
  | none =>
    cases T.parseUint b with
    | none => exact Std.OrientedOrd.eq_swap
    | some nb => rfl
  | some na =>
    cases T.parseUint b with
    | none => rfl
    | some nb => exact Std.OrientedOrd.eq_swap

instance : Std.OrientedCmp T.comparePreIdent := ⟨T.comparePreIdent_swap _ _⟩

instance : Std.TransCmp T.comparePreIdent where
  isLE_trans {a b c} hab hbc := by
    unfold comparePreIdent at *
    -- Numbers are below the rest, and each kind has an order of its own.
    cases ha : T.parseUint a <;> cases hb : T.parseUint b <;> cases hc : T.parseUint c <;> simp only [ha, hb, hc] at hab hbc ⊢
    · exact Std.TransOrd.isLE_trans hab hbc
    · cases hbc
    · cases hab
    · cases hab
    · rfl
    · cases hbc
    · rfl
    · exact Std.TransOrd.isLE_trans hab hbc

omit [Std.TransOrd τ] in
theorem comparePre_eq_compareLex : T.comparePre = List.compareLex T.comparePreIdent := by
  funext as bs
  induction as generalizing bs with
  | nil => cases bs <;> rfl
  | cons a as ih =>
    cases bs with
    | nil => rfl
    | cons b bs => rw [comparePre, List.compareLex_cons_cons, ih]

instance : Std.TransCmp T.comparePre := T.comparePre_eq_compareLex ▸ inferInstance

instance : Std.TransCmp T.comparePrerelease where
  eq_swap {a b} := by
    cases a with
    | nil => cases b <;> rfl
    | cons a as =>
      cases b with
      | nil => rfl
      | cons b bs => exact @Std.OrientedCmp.eq_swap _ T.comparePre _ (a :: as) (b :: bs)
  isLE_trans {a b c} hab hbc := by
    cases a with
    | nil =>
      cases b with
      | nil => exact hbc
      | cons b bs => cases hab
    | cons a as =>
      cases c with
      | nil => rfl
      | cons c cs =>
        cases b with
        | nil => cases hbc
        | cons b bs => exact @Std.TransCmp.isLE_trans _ T.comparePre _ (a :: as) (b :: bs) (c :: cs) hab hbc

/-- An order of what is taken from a value. -/
theorem transCmp_comap {α β : Type} (cmp : β → β → Ordering) [Std.TransCmp cmp] (f : α → β) :
    Std.TransCmp (fun a b => cmp (f a) (f b)) where
  eq_swap {a b} := @Std.OrientedCmp.eq_swap _ cmp _ (f a) (f b)
  isLE_trans {a b c} := @Std.TransCmp.isLE_trans _ cmp _ (f a) (f b) (f c)

instance : Std.TransCmp T.compareSemver := by
  have hpre := transCmp_comap T.comparePrerelease Semver.pre
  have hlex : Std.TransCmp (compareLex (compareOn Semver.major) (compareLex (compareOn Semver.minor)
      (compareLex (compareOn Semver.patch) (fun va vb : Semver τ => T.comparePrerelease va.pre vb.pre)))) := inferInstance
  exact hlex

/-- What may be missing in its order, and last when it is. -/
def compareOption {α : Type} (cmp : α → α → Ordering) : Option α → Option α → Ordering
  | some a, some b => cmp a b
  | some _, none => .lt
  | none, some _ => .gt
  | none, none => .eq

instance {α : Type} (cmp : α → α → Ordering) [Std.TransCmp cmp] : Std.TransCmp (compareOption cmp) where
  eq_swap {a b} := by
    cases a with
    | none => cases b <;> rfl
    | some a =>
      cases b with
      | none => rfl
      | some b => exact @Std.OrientedCmp.eq_swap _ cmp _ a b
  isLE_trans {a b c} hab hbc := by
    cases c with
    | none => cases a <;> rfl
    | some c =>
      cases b with
      | none => cases hbc
      | some b =>
        cases a with
        | none => cases hab
        | some a => exact @Std.TransCmp.isLE_trans _ cmp _ a b c hab hbc

variable [DecidableEq τ]

omit [Std.TransOrd τ] in
/-- Reported versions are sorted by their rank, then as versions, then as texts. -/
theorem compareVersionKeys_eq (a b : Option τ) : T.compareVersionKeys a b =
    (compare (T.versionRank a) (T.versionRank b)).then
      ((compareOption T.compareSemver (a.bind T.parseSemver) (b.bind T.parseSemver)).then (compare a b)) := by
  unfold compareVersionKeys
  by_cases hrank : T.versionRank a = T.versionRank b
  · have hself : compare (T.versionRank b) (T.versionRank b) = .eq := Std.ReflCmp.compare_self
    rw [if_neg (not_not.mpr hrank), hrank, hself]
    cases a with
    | none =>
      cases b with
      | none => rfl
      | some b => cases hb : T.parseSemver b <;> simp [versionRank, hb] at hrank
    | some a =>
      cases b with
      | none => cases ha : T.parseSemver a <;> simp [versionRank, ha] at hrank
      | some b =>
        unfold compareVersions
        cases ha : T.parseSemver a <;> cases hb : T.parseSemver b <;> simp [versionRank, ha, hb] at hrank ⊢ <;> rfl
  · rw [if_pos hrank]
    cases horder : compare (T.versionRank a) (T.versionRank b) with
    | eq => exact absurd (Std.LawfulEqCmp.eq_of_compare horder) hrank
    | lt | gt => rfl

instance : Std.TransCmp T.compareVersionKeys := by
  have hparsed := transCmp_comap (compareOption T.compareSemver) (fun a : Option τ => a.bind T.parseSemver)
  have hlex : Std.TransCmp (compareLex (compareOn T.versionRank) (compareLex (fun a b : Option τ =>
      compareOption T.compareSemver (a.bind T.parseSemver) (b.bind T.parseSemver)) compare)) := inferInstance
  have heq : T.compareVersionKeys = compareLex (compareOn T.versionRank) (compareLex (fun a b : Option τ =>
      compareOption T.compareSemver (a.bind T.parseSemver) (b.bind T.parseSemver)) compare) :=
    funext₂ T.compareVersionKeys_eq
  rwa [heq]

instance [Std.LawfulEqOrd τ] : Std.LawfulEqCmp T.compareVersionKeys where
  eq_of_compare {a b} h := by
    rw [T.compareVersionKeys_eq, Ordering.then_eq_eq, Ordering.then_eq_eq] at h
    exact Std.LawfulEqCmp.eq_of_compare h.2.2

end Order

end argvio.storage.Texts

namespace argvio.storage.raw

open gobytes

instance : Std.TransCmp compareVersionKeys := inferInstanceAs (Std.TransCmp bytes.compareVersionKeys)

instance : Std.LawfulEqCmp compareVersionKeys := inferInstanceAs (Std.LawfulEqCmp bytes.compareVersionKeys)

/-- What a sort by `compareVersionKeys` takes as in order. -/
def Before (a b : Option Text) : Prop := (compareVersionKeys a b).isLE = true

instance : DecidableRel Before := fun _ _ => inferInstanceAs (Decidable (_ = true))

instance : Std.Total Before := ⟨fun a b => by
  unfold Before
  rw [@Std.OrientedCmp.eq_swap _ compareVersionKeys _ b a]
  cases compareVersionKeys a b
  · exact .inl rfl
  · exact .inl rfl
  · exact .inr rfl⟩

instance : IsTrans (Option Text) Before := ⟨fun _ _ _ hab hbc => Std.TransCmp.isLE_trans hab hbc⟩

instance : Std.Antisymm Before := ⟨fun a b hab hba => by
  refine Std.LawfulEqCmp.eq_of_compare (Std.OrientedCmp.isLE_antisymm hab hba)⟩

end argvio.storage.raw
