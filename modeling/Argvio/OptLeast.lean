import Mathlib.Order.Bounds.Basic
import Mathlib.Order.MinMax

/-- `LEAST` over nullable values, which ignores a NULL. -/
def optMin {α : Type} [LinearOrder α] : Option α → Option α → Option α
  | none, b => b
  | some a, none => some a
  | some a, some b => some (min a b)

/-- The least element of a set, NULL when the set is empty. -/
def OptLeast {α : Type} [LinearOrder α] (s : Set α) : Option α → Prop
  | none => s = ∅
  | some a => IsLeast s a

section OptLeast

variable {α : Type} [LinearOrder α] {s t : Set α} {a b : Option α}

@[simp] theorem optMin_none (a : Option α) : optMin a none = a := by
  cases a <;> rfl

theorem optMin_self (a : Option α) : optMin a a = a := by
  cases a with
  | none => rfl
  | some x => exact congrArg some (min_self x)

theorem optMin_comm (a b : Option α) : optMin a b = optMin b a := by
  cases a with
  | none => cases b <;> rfl
  | some x =>
    cases b with
    | none => rfl
    | some y => exact congrArg some (min_comm x y)

theorem optMin_assoc (a b c : Option α) : optMin (optMin a b) c = optMin a (optMin b c) := by
  cases a with
  | none => rfl
  | some x =>
    cases b with
    | none => rfl
    | some y =>
      cases c with
      | none => rfl
      | some z => exact congrArg some (min_assoc x y z)

theorem map_optMin {f : α → α} (hf : Monotone f) (a b : Option α) : (optMin a b).map f = optMin (a.map f) (b.map f) := by
  cases a with
  | none => rfl
  | some x =>
    cases b with
    | none => rfl
    | some y => exact congrArg some hf.map_min

theorem OptLeast.union (hs : OptLeast s a) (ht : OptLeast t b) : OptLeast (s ∪ t) (optMin a b) := by
  cases a with
  | none =>
    have hempty : s = ∅ := hs
    rw [hempty, Set.empty_union]
    exact ht
  | some x =>
    cases b with
    | none =>
      have hempty : t = ∅ := ht
      rw [hempty, Set.union_empty]
      exact hs
    | some y => exact IsLeast.union hs ht

theorem OptLeast.unique (ha : OptLeast s a) (hb : OptLeast s b) : a = b := by
  cases a with
  | none =>
    cases b with
    | none => rfl
    | some y =>
      have hempty : s = ∅ := ha
      exact absurd (IsLeast.nonempty hb) (Set.not_nonempty_iff_eq_empty.mpr hempty)
  | some x =>
    cases b with
    | none =>
      have hempty : s = ∅ := hb
      exact absurd (IsLeast.nonempty ha) (Set.not_nonempty_iff_eq_empty.mpr hempty)
    | some y => exact congrArg some (IsLeast.unique ha hb)

theorem OptLeast.isLeast {x : α} (hs : OptLeast s a) (hx : x ∈ s) : ∃ y, a = some y ∧ IsLeast s y := by
  cases a with
  | none =>
    have hempty : s = ∅ := hs
    rw [hempty] at hx
    exact absurd hx (Set.notMem_empty x)
  | some y => exact ⟨y, rfl, hs⟩

end OptLeast
