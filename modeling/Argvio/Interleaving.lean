import Mathlib.Logic.Function.Basic
import Mathlib.Logic.Relation

open Function

namespace interleaving

/-- Processes over a shared state. Each goes through phases of its own, and takes
one lock for as long as it is in those that hold it. -/
structure Program (ι σ l : Type) where
  Phase : ι → Type
  start : (i : ι) → Phase i
  failed : (i : ι) → Phase i
  advance : (i : ι) → σ → Phase i → Option (σ × Phase i)
  lock : ι → l
  holds : (i : ι) → Phase i → Bool

structure State {ι σ l : Type} (P : Program ι σ l) where
  shared : σ
  holder : l → Option ι
  phase : (i : ι) → P.Phase i

section Step

variable {ι σ l : Type} [DecidableEq ι] [DecidableEq l] (P : Program ι σ l)

/-- One process runs its next step, where a lock is given to one process at a time,
or fails and gives its lock back. -/
inductive Step : State P → State P → Prop where
  | run {s : State P} {i : ι} {shared : σ} {phase : P.Phase i}
      (hadvance : P.advance i s.shared (s.phase i) = some (shared, phase))
      (hlock : P.holds i phase = true → P.holds i (s.phase i) = false → s.holder (P.lock i) = none) :
      Step s
        { shared := shared
          holder :=
            if P.holds i phase then update s.holder (P.lock i) (some i)
            else if P.holds i (s.phase i) then update s.holder (P.lock i) none
            else s.holder
          phase := update s.phase i phase }
  | fail {s : State P} {i : ι} (hrunning : (P.advance i s.shared (s.phase i)).isSome = true) :
      Step s
        { shared := s.shared
          holder := if P.holds i (s.phase i) then update s.holder (P.lock i) none else s.holder
          phase := update s.phase i (P.failed i) }

/-- The states some interleaving of the processes leads to. -/
def Reaches : State P → State P → Prop := Relation.ReflTransGen (Step P)

/-- Before any process has started. -/
def State.start (shared : σ) : State P where
  shared := shared
  holder := fun _ => none
  phase := P.start

end Step

section Rules

variable {ι σ l : Type} [DecidableEq ι] [DecidableEq l] {P : Program ι σ l} {s s' : State P}

/-- What a step does to the shared state and to the phases. -/
theorem Step.cases (h : Step P s s') :
    ∃ i phase, s'.phase = update s.phase i phase ∧
      (P.advance i s.shared (s.phase i) = some (s'.shared, phase) ∨ s'.shared = s.shared ∧ phase = P.failed i) := by
  cases h with
  | @run i shared phase hadvance _ => exact ⟨i, phase, rfl, .inl hadvance⟩
  | @fail i _ => exact ⟨i, P.failed i, rfl, .inr ⟨rfl, rfl⟩⟩

/-- What every step of a process guarantees holds of whole runs. -/
theorem Reaches.guarantee {G : σ → σ → Prop} (hrefl : ∀ a, G a a) (htrans : ∀ a b c, G a b → G b c → G a c)
    (hadvance : ∀ i a p a' p', P.advance i a p = some (a', p') → G a a') (h : Reaches P s s') :
    G s.shared s'.shared := by
  induction h with
  | refl => exact hrefl _
  | tail _ hlast ih =>
    refine htrans _ _ _ ih ?_
    obtain ⟨i, phase, -, hstep | ⟨hshared, -⟩⟩ := hlast.cases
    · exact hadvance i _ _ _ _ hstep
    · rw [hshared]
      exact hrefl _

/-- What a process keeps by its own steps, and the guarantee of the others keeps,
it keeps in every interleaving. -/
theorem Reaches.rely {G : σ → σ → Prop} (hrefl : ∀ a, G a a)
    (hadvance : ∀ i a p a' p', P.advance i a p = some (a', p') → G a a') {i : ι} {I : σ → P.Phase i → Prop}
    (hstable : ∀ a a' p, G a a' → I a p → I a' p)
    (hown : ∀ a p a' p', P.advance i a p = some (a', p') → I a p → I a' p')
    (hfailed : ∀ a p, I a p → I a (P.failed i))
    (h : Reaches P s s') (hstart : I s.shared (s.phase i)) : I s'.shared (s'.phase i) := by
  induction h with
  | refl => exact hstart
  | @tail b c _ hlast ih =>
    obtain ⟨j, phase, hphase, hstep⟩ := hlast.cases
    rw [hphase]
    by_cases hij : i = j
    · subst hij
      rw [update_self]
      rcases hstep with hstep | ⟨hshared, rfl⟩
      · exact hown _ _ _ _ hstep ih
      · rw [hshared]
        exact hfailed _ _ ih
    · rw [update_of_ne hij]
      refine hstable b.shared c.shared _ ?_ ih
      rcases hstep with hstep | ⟨hshared, -⟩
      · exact hadvance j _ _ _ _ hstep
      · rw [hshared]
        exact hrefl _

/-- What holds of the shared state and the set of started processes at first, and
is kept by every step and by starting a process, holds in every interleaving. -/
theorem Reaches.started {I : σ → (ι → Prop) → Prop} (hstart : ∀ i, P.start i ≠ P.failed i)
    (hnever : ∀ i a p a' p', P.advance i a p = some (a', p') → p' ≠ P.start i)
    (hadvance : ∀ i a p a' p' begun, P.advance i a p = some (a', p') → I a begun →
      I a' (fun j => j = i ∨ begun j))
    (hmono : ∀ a begun begun', (∀ i, begun i → begun' i) → I a begun → I a begun') (h : Reaches P s s')
    (hinit : I s.shared (fun i => s.phase i ≠ P.start i)) : I s'.shared (fun i => s'.phase i ≠ P.start i) := by
  induction h with
  | refl => exact hinit
  | @tail b c _ hlast ih =>
    obtain ⟨i, phase, hphase, hstep⟩ := hlast.cases
    have hbegun : phase ≠ P.start i := by
      rcases hstep with hstep | ⟨-, rfl⟩
      · exact hnever i _ _ _ _ hstep
      · exact (hstart i).symm
    have hkept : ∀ j, j = i ∨ b.phase j ≠ P.start j → c.phase j ≠ P.start j := by
      intro j hj
      rw [hphase]
      by_cases hij : j = i
      · subst hij
        rw [update_self]
        exact hbegun
      · rw [update_of_ne hij]
        exact hj.resolve_left hij
    rcases hstep with hstep | ⟨hshared, -⟩
    · exact hmono _ _ _ hkept (hadvance i _ _ _ _ _ hstep ih)
    · rw [hshared]
      exact hmono _ _ _ (fun j hj => hkept j (.inr hj)) ih

end Rules

end interleaving
