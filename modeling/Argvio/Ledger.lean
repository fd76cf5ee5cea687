import Mathlib.Data.List.Basic

open List

/-- What a loop over records has decided so far: how many it accepted and
rejected, the latest reason, and a row for each accepted one. -/
structure Ledger (ε ρ : Type) where
  accepted : Int := 0
  rejected : Int := 0
  sample : Option ε := none
  rows : List ρ := []

namespace Ledger

variable {ε ρ α : Type}

def accept (l : Ledger ε ρ) (row : ρ) : Ledger ε ρ :=
  { l with accepted := l.accepted + 1, rows := l.rows ++ [row] }

def reject (l : Ledger ε ρ) (n : Nat) (reason : ε) : Ledger ε ρ :=
  { l with rejected := l.rejected + n, sample := some reason }

def record (l : Ledger ε ρ) : Except ε ρ → Ledger ε ρ
  | .ok row => l.accept row
  | .error reason => l.reject 1 reason

/-- The ledger counts each of some verdicts once, and has a row for each accepted
one, in order. -/
structure Counts (l : Ledger ε ρ) (verdicts : List (Except ε ρ)) : Prop where
  accepted : l.accepted = l.rows.length
  total : l.accepted + l.rejected = verdicts.length
  rows : l.rows = verdicts.filterMap Except.toOption

theorem mem_filterMap_toOption {verdicts : List (Except ε ρ)} {row : ρ} :
    row ∈ verdicts.filterMap Except.toOption ↔ .ok row ∈ verdicts := by
  rw [mem_filterMap]
  constructor
  · rintro ⟨verdict, hmem, hok⟩
    cases verdict with
    | error reason => cases hok
    | ok row' =>
      cases hok
      exact hmem
  · intro hmem
    exact ⟨.ok row, hmem, rfl⟩

theorem Counts.empty : ({} : Ledger ε ρ).Counts [] := ⟨rfl, rfl, rfl⟩

variable {l : Ledger ε ρ} {verdicts : List (Except ε ρ)}

theorem Counts.accept (h : l.Counts verdicts) (row : ρ) : (l.accept row).Counts (verdicts ++ [.ok row]) := by
  obtain ⟨haccepted, htotal, hrows⟩ := h
  refine ⟨?_, ?_, ?_⟩
  · simp [Ledger.accept, haccepted]
  · simp only [Ledger.accept, length_append, length_singleton]
    omega
  · simp [Ledger.accept, hrows, Except.toOption]

/-- Rejecting records in one go counts each of them. -/
theorem Counts.reject (h : l.Counts verdicts) (reasons : List ε) (reason : ε) :
    (l.reject reasons.length reason).Counts (verdicts ++ reasons.map .error) := by
  obtain ⟨haccepted, htotal, hrows⟩ := h
  refine ⟨haccepted, ?_, ?_⟩
  · simp only [Ledger.reject, length_append, length_map]
    omega
  · have hnone : (reasons.map (Except.error : ε → Except ε ρ)).filterMap Except.toOption = [] := by
      simp [filterMap_map, Function.comp_def, Except.toOption]
    rw [filterMap_append, hnone, append_nil]
    exact hrows

theorem Counts.record (h : l.Counts verdicts) (verdict : Except ε ρ) :
    (l.record verdict).Counts (verdicts ++ [verdict]) := by
  cases verdict with
  | ok row => exact h.accept row
  | error reason => exact h.reject [reason] reason

/-- A loop whose body counts the verdicts of one element counts those of all. -/
theorem Counts.foldl {f : Ledger ε ρ → α → Ledger ε ρ} {g : α → List (Except ε ρ)}
    (hstep : ∀ l verdicts a, l.Counts verdicts → (f l a).Counts (verdicts ++ g a)) (xs : List α)
    (h : l.Counts verdicts) : (xs.foldl f l).Counts (verdicts ++ xs.flatMap g) := by
  induction xs generalizing l verdicts with
  | nil => simpa using h
  | cons a rest ih =>
    rw [foldl_cons, flatMap_cons, ← append_assoc]
    exact ih (hstep l verdicts a h)

end Ledger
