import Mathlib.Data.Rat.Cast.Order
import Mathlib.Logic.Basic
import Mathlib.Tactic.Ring

/-- What an `int64` operation keeps of its exact result. -/
def wrapInt64 (n : Int) : Int := n.bmod (2 ^ 64)

theorem wrapInt64_of_range {n : Int} (hlow : -2 ^ 63 ≤ n) (hhigh : n < 2 ^ 63) : wrapInt64 n = n := by
  unfold wrapInt64
  apply Int.bmod_eq_of_le
  · omega
  · omega

theorem le_wrapInt64 (n : Int) : -2 ^ 63 ≤ wrapInt64 n := by
  have hle := Int.le_bmod (x := n) (m := 2 ^ 64) (by decide)
  unfold wrapInt64
  omega

theorem wrapInt64_mul (a b : Int) : wrapInt64 (wrapInt64 a * b) = wrapInt64 (a * b) := Int.bmod_mul_bmod

/-- What a conversion to `int32` keeps. -/
def wrapInt32 (n : Int) : Int := n.bmod (2 ^ 32)

/-- `time.Second`. -/
def second : Int := 10 ^ 9

/-- `t.Sub(u)`, with times in nanoseconds after the zero time: a difference that no
`Duration` holds becomes the nearest one. -/
def subTime (t u : Int) : Int := max (-2 ^ 63) (min (t - u) (2 ^ 63 - 1))

/-- A difference that is not rounded up is one of times in the right order. -/
theorem subTime_le_of_pos {t u : Int} (h : 0 < subTime t u) : subTime t u ≤ t - u := by
  unfold subTime at h ⊢
  omega

/-- A Go `float64`, with exact rationals for its finite values. Rounding and the
sign of zero are not represented. -/
inductive GoFloat where
  | nan
  | inf (negative : Bool)
  | finite (value : ℚ)
  deriving DecidableEq

namespace GoFloat

/-- The `<=` operator: false as soon as one side is not a number. -/
def le : GoFloat → GoFloat → Bool
  | nan, _ => false
  | _, nan => false
  | inf true, _ => true
  | _, inf false => true
  | inf false, _ => false
  | _, inf true => false
  | finite a, finite b => decide (a ≤ b)

/-- The `==` operator. -/
def eq (a b : GoFloat) : Bool := a.le b && b.le a

/-- Neither `math.IsNaN` nor `math.IsInf(_, 0)`. -/
def isFinite : GoFloat → Bool
  | finite _ => true
  | _ => false

/-- The value of a finite float. -/
def rat? : GoFloat → Option ℚ
  | finite a => some a
  | _ => none

end GoFloat

section Results

variable {ε α β : Type} {x : Except ε α}

/-- A Go function that returns a value or an error succeeds on a sequence of two
calls exactly when both calls do. -/
theorem Except.bind_eq_ok_iff {f : α → Except ε β} {y : β} :
    (x >>= f) = .ok y ↔ ∃ a, x = .ok a ∧ f a = .ok y := by
  cases x <;> simp [bind, Except.bind]

/-- A loop that stops at the first error succeeds when no element raises one. -/
theorem Except.forM_eq_ok_iff {f : α → Except ε Unit} {l : List α} : l.forM f = .ok () ↔ ∀ x ∈ l, f x = .ok () := by
  induction l with
  | nil => simp [pure, Except.pure]
  | cons x rest ih =>
    change (f x >>= fun _ => rest.forM f) = .ok () ↔ _
    rw [Except.bind_eq_ok_iff, List.forall_mem_cons]
    constructor
    · rintro ⟨_, hx, hrest⟩
      exact ⟨hx, ih.mp hrest⟩
    · rintro ⟨hx, hrest⟩
      exact ⟨(), hx, ih.mpr hrest⟩

theorem Except.map_eq_ok_iff {f : α → β} {b : β} :
    x.map f = .ok b ↔ ∃ a, x = .ok a ∧ f a = b := by
  cases x <;> simp [Except.map]

theorem Except.exists_map_eq_ok_iff {f : α → β} :
    (∃ b, x.map f = .ok b) ↔ ∃ a, x = .ok a := by
  cases x <;> simp [Except.map]

/-- A call that is known to succeed returns its value. -/
theorem Except.eq_ok_of_isSome (h : x.toOption.isSome = true) : x = .ok (x.toOption.get h) := by
  cases x with
  | error err => cases h
  | ok a => rfl

/-- Two runs that fail with the same error, or succeed with related results. -/
def Except.Agree {ε α β : Type} (R : α → β → Prop) : Except ε α → Except ε β → Prop
  | .error e, .error e' => e = e'
  | .ok a, .ok b => R a b
  | _, _ => False

theorem Except.Agree.mono {R S : α → β → Prop} {y : Except ε β} (hxy : Except.Agree R x y)
    (hRS : ∀ a b, R a b → S a b) : Except.Agree S x y := by
  cases x with
  | error e =>
    cases y with
    | error e' => exact hxy
    | ok b => exact hxy.elim
  | ok a =>
    cases y with
    | error e' => exact hxy.elim
    | ok b => exact hRS a b hxy

theorem Except.Agree.bind {ε α β γ δ : Type} {R : α → β → Prop} {S : γ → δ → Prop} {x : Except ε α}
    {y : Except ε β} {f : α → Except ε γ} {g : β → Except ε δ} (hxy : Except.Agree R x y)
    (hfg : ∀ a b, x = .ok a → y = .ok b → R a b → Except.Agree S (f a) (g b)) :
    Except.Agree S (x >>= f) (y >>= g) := by
  cases x with
  | error e =>
    cases y with
    | error e' => exact hxy
    | ok b => exact hxy.elim
  | ok a =>
    cases y with
    | error e' => exact hxy.elim
    | ok b => exact hfg a b rfl rfl hxy

theorem Except.Agree.map_eq {ε α β γ : Type} {R : α → β → Prop} {x : Except ε α} {y : Except ε β}
    {f : α → γ} {g : β → γ} (hxy : Except.Agree R x y) (hfg : ∀ a b, R a b → f a = g b) :
    x.map f = y.map g := by
  cases x with
  | error e =>
    cases y with
    | error e' => exact congrArg Except.error hxy
    | ok b => exact hxy.elim
  | ok a =>
    cases y with
    | error e' => exact hxy.elim
    | ok b => exact congrArg Except.ok (hfg a b hxy)

end Results
