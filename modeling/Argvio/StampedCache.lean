import Mathlib.Logic.Relation
import Mathlib.Tactic.Common

open Function

namespace stampedcache

/-- A value in the cache, until it expires. -/
structure Entry (ρ : Type) where
  value : ρ
  expires : Int

/-- What a load returns, and how many changes were committed before it. -/
structure Loaded (ν : Type) where
  value : ν
  changes : Nat

/-- How far a request is, with its reading of the clock. -/
inductive Phase (ν : Type) where
  | idle
  | read (now : Int)
  | missed (now : Int)
  | loaded (now : Int) (l : Loaded ν)
  | stored (now : Int) (l : Loaded ν)
  | hit (now : Int) (l : Loaded ν)
  | failed (now : Int)

/-- The values a source holds, under the changes committed so far with their times, newest
first, and the cache in front of it. -/
structure System (ι κ ν : Type) where
  now : Int
  history : κ → List (Int × ν)
  entries : κ → Option (Entry (Loaded ν))
  phase : ι → Phase ν

variable {ι κ ν : Type}

def Phase.reading : Phase ν → Option Int
  | .idle => none
  | .read n => some n
  | .missed n => some n
  | .loaded n _ => some n
  | .stored n _ => some n
  | .hit n _ => some n
  | .failed n => some n

/-- The request answers from this load, its own or an earlier one's. -/
def Phase.Uses (p : Phase ν) (now : Int) (l : Loaded ν) : Prop := p = .stored now l ∨ p = .hit now l

/-- The value after some changes, given the one before all of them. -/
def latest (initial : ν) : List (Int × ν) → ν
  | [] => initial
  | change :: _ => change.2

def System.load (initial : κ → ν) (s : System ι κ ν) (k : κ) : Loaded ν where
  value := latest (initial k) (s.history k)
  changes := (s.history k).length

section Step

variable [DecidableEq ι] [DecidableEq κ] (key : ι → κ) (initial : κ → ν) (ttl : Int)

/-- What request `i` does next. It reads the clock once, and its entry is to expire by that
reading, however long the load takes. -/
inductive Move (s : System ι κ ν) (i : ι) : Phase ν → Phase ν → Prop where
  | read : Move s i .idle (.read s.now)
  | hit {n : Int} {e : Entry (Loaded ν)} (hentry : s.entries (key i) = some e) (hlive : n < e.expires) :
      Move s i (.read n) (.hit n e.value)
  | miss {n : Int} (hmiss : ∀ e, s.entries (key i) = some e → e.expires ≤ n) : Move s i (.read n) (.missed n)
  | load {n : Int} : Move s i (.missed n) (.loaded n (s.load initial (key i)))
  | fail {n : Int} : Move s i (.missed n) (.failed n)
  | store {n : Int} {l : Loaded ν} : Move s i (.loaded n l) (.stored n l)

/-- Only a request that goes on from its own load writes to the cache. -/
def written (entries : κ → Option (Entry (Loaded ν))) (k : κ) : Phase ν → κ → Option (Entry (Loaded ν))
  | .stored n l => update entries k (some ⟨l, n + ttl⟩)
  | _ => entries

/-- A step of a request or of its surroundings. -/
inductive Step : System ι κ ν → System ι κ ν → Prop where
  | tick {s : System ι κ ν} {t : Int} (hle : s.now ≤ t) : Step s { s with now := t }
  | change {s : System ι κ ν} (k : κ) (v : ν) :
      Step s { s with history := update s.history k ((s.now, v) :: s.history k) }
  | move {s : System ι κ ν} {i : ι} {p : Phase ν} (hmove : Move key initial s i (s.phase i) p) :
      Step s { s with phase := update s.phase i p, entries := written ttl s.entries (key i) p }

def Reaches : System ι κ ν → System ι κ ν → Prop := Relation.ReflTransGen (Step key initial ttl)

end Step

/-- An empty cache before any request and any change. -/
def System.start (now : Int) : System ι κ ν where
  now := now
  history := fun _ => []
  entries := fun _ => none
  phase := fun _ => .idle

/-- The load saw the earlier changes of its key, and the times of those it missed satisfy `P`. -/
def System.MissedOnly (initial : κ → ν) (s : System ι κ ν) (k : κ) (l : Loaded ν) (P : Int → Prop) : Prop :=
  ∃ later earlier, s.history k = later ++ earlier ∧ l.changes = earlier.length ∧ l.value = latest (initial k) earlier ∧
    ∀ change ∈ later, P change.1

section Missed

variable {initial : κ → ν} {s s' : System ι κ ν} {k : κ} {l : Loaded ν} {P Q : Int → Prop}

theorem System.MissedOnly.mono (h : s.MissedOnly initial k l P) (hPQ : ∀ c, P c → Q c) : s.MissedOnly initial k l Q := by
  obtain ⟨later, earlier, hhistory, hchanges, hvalue, hlater⟩ := h
  exact ⟨later, earlier, hhistory, hchanges, hvalue, fun change hmem => hPQ _ (hlater change hmem)⟩

/-- A change that is not among those missed was committed before the load. -/
theorem System.MissedOnly.lt_changes (h : s.MissedOnly initial k l P) {after before : List (Int × ν)} {change : Int × ν}
    (hhistory : s.history k = after ++ change :: before) (hseen : ¬ P change.1) : before.length < l.changes := by
  obtain ⟨later, earlier, hsplit, hchanges, -, hlater⟩ := h
  rw [hchanges]
  by_contra hmissed
  have hlater_eq : later ++ earlier = (after ++ [change]) ++ before := by
    rw [← hsplit, hhistory, List.append_assoc]
    rfl
  obtain ⟨rest, hrest⟩ := List.prefix_of_prefix_length_le ⟨before, rfl⟩ ⟨earlier, hlater_eq⟩ (by
    have hlength := congrArg List.length hlater_eq
    simp only [List.length_append] at hlength ⊢
    omega)
  exact hseen (hlater change (by rw [← hrest]; simp))

theorem System.missedOnly_load : s.MissedOnly initial k (s.load initial k) P :=
  ⟨[], s.history k, rfl, rfl, rfl, by simp⟩

theorem System.MissedOnly.congr (h : s.MissedOnly initial k l P) (hhistory : s'.history = s.history) :
    s'.MissedOnly initial k l P := by
  unfold System.MissedOnly
  rw [hhistory]
  exact h

theorem System.MissedOnly.change [DecidableEq κ] (h : s.MissedOnly initial k l P) (k' : κ) (v : ν) (hnow : P s.now)
    (hhistory : s'.history = update s.history k' ((s.now, v) :: s.history k')) :
    s'.MissedOnly initial k l P := by
  obtain ⟨later, earlier, hsplit, hchanges, hvalue, hlater⟩ := h
  unfold System.MissedOnly
  rw [hhistory]
  by_cases hk : k = k'
  · subst hk
    rw [update_self, hsplit]
    exact ⟨(s.now, v) :: later, earlier, rfl, hchanges, hvalue, List.forall_mem_cons.mpr ⟨hnow, hlater⟩⟩
  · rw [update_of_ne hk]
    exact ⟨later, earlier, hsplit, hchanges, hvalue, hlater⟩

end Missed

section Moves

variable {key : ι → κ} {initial : κ → ν} {s : System ι κ ν} {i : ι} {p p' : Phase ν}

variable {e : Entry (Loaded ν)} {n : Int}

theorem Move.reading_eq (h : Move key initial s i p p') (hn : p'.reading = some n) :
    p.reading = some n ∨ n = s.now := by
  cases h with
  | read => exact .inr (Option.some.inj hn).symm
  | hit | miss | load | fail | store => exact .inl hn

/-- A request that has its answer, or has failed, is done. -/
theorem Move.not_done (h : Move key initial s i p p') :
    (∀ n l, p ≠ .stored n l) ∧ (∀ n l, p ≠ .hit n l) ∧ ∀ n, p ≠ .failed n := by
  cases h <;> simp

/-- A request holds what it loads now, or what it has loaded before. -/
theorem Move.holds_cases {l : Loaded ν} (h : Move key initial s i p p') (hp : p' = .loaded n l ∨ p' = .stored n l) :
    l = s.load initial (key i) ∨ p = .loaded n l := by
  cases h with
  | load =>
    simp only [Phase.loaded.injEq, reduceCtorEq, or_false] at hp
    exact .inl hp.2.symm
  | store =>
    simp only [reduceCtorEq, Phase.stored.injEq, false_or] at hp
    rw [hp.1, hp.2]
    exact .inr rfl
  | read | hit | miss | fail => simp at hp

/-- An entry after a move was written by it, or was there before. -/
theorem written_cases [DecidableEq κ] {ttl : Int} {entries : κ → Option (Entry (Loaded ν))} {k k' : κ}
    (h : written ttl entries k p k' = some e) :
    (∃ n, p = .stored n e.value ∧ k' = k ∧ e.expires = n + ttl) ∨ entries k' = some e := by
  cases p with
  | stored n l =>
    change update entries k (some ⟨l, n + ttl⟩) k' = some e at h
    by_cases hk : k' = k
    · subst hk
      rw [update_self] at h
      cases h
      exact .inl ⟨n, rfl, rfl, rfl⟩
    · rw [update_of_ne hk] at h
      exact .inr h
  | idle | read | missed | loaded | hit | failed => exact .inr h

/-- A request that finds a live entry answers from it. -/
theorem Move.of_live (h : Move key initial s i (.read n) p') (hentry : s.entries (key i) = some e)
    (hlive : n < e.expires) : p' = .hit n e.value := by
  cases h with
  | hit hfound _ =>
    rw [hentry] at hfound
    cases hfound
    rfl
  | miss hmiss =>
    have hexpired := hmiss e hentry
    omega

end Moves

section Consistent

variable {key : ι → κ} {initial : κ → ν} {ttl : Int} {s : System ι κ ν}

/-- Readings are of the past; a request's own load missed only changes since its reading; an
entry is what a request has loaded and stored; and what a hit missed is within the TTL of it. -/
structure Consistent (key : ι → κ) (initial : κ → ν) (ttl : Int) (s : System ι κ ν) : Prop where
  readings : ∀ i n, (s.phase i).reading = some n → n ≤ s.now
  loads : ∀ i n l, s.phase i = .loaded n l ∨ s.phase i = .stored n l → s.MissedOnly initial (key i) l (n ≤ ·)
  hits : ∀ i n l, s.phase i = .hit n l → s.MissedOnly initial (key i) l (n < · + ttl)
  entries : ∀ k e, s.entries k = some e →
    ∃ i n, key i = k ∧ s.phase i = .stored n e.value ∧ e.expires = n + ttl

theorem consistent_start (now : Int) : Consistent key initial ttl (.start now) where
  readings := by
    intro i n hn
    cases hn
  loads := by
    intro i n l hphase
    rcases hphase with hphase | hphase <;> cases hphase
  hits := by
    intro i n l hphase
    cases hphase
  entries := by
    intro k e hentry
    cases hentry

section Steps

variable (h : Consistent key initial ttl s)

include h

/-- A request answers from an entry whose load missed only changes since its own reading. -/
theorem Consistent.of_hit {k : κ} {n : Int} {e : Entry (Loaded ν)} (hentry : s.entries k = some e)
    (hlive : n < e.expires) : s.MissedOnly initial k e.value (n < · + ttl) := by
  obtain ⟨i, n', rfl, hphase, hexpires⟩ := h.entries k e hentry
  refine (h.loads i n' e.value (.inr hphase)).mono (fun c hc => ?_)
  omega

/-- Whatever a request answers from, the changes it misses are those of the last `ttl` before
its reading of the clock, or later. -/
theorem Consistent.uses (httl : 0 < ttl) {i : ι} {n : Int} {l : Loaded ν} (huses : (s.phase i).Uses n l) :
    s.MissedOnly initial (key i) l (n < · + ttl) := by
  rcases huses with hphase | hphase
  · refine (h.loads i n l (.inr hphase)).mono (fun c hc => ?_)
    omega
  · exact h.hits i n l hphase

theorem Consistent.tick {t : Int} (hle : s.now ≤ t) :
    Consistent key initial ttl { s with now := t } where
  readings := fun i n hn => Int.le_trans (h.readings i n hn) hle
  loads := h.loads
  hits := h.hits
  entries := h.entries

theorem Consistent.change [DecidableEq κ] (httl : 0 < ttl) (k : κ) (v : ν) :
    Consistent key initial ttl { s with history := update s.history k ((s.now, v) :: s.history k) } where
  readings := h.readings
  loads := by
    intro i n l hphase
    have hreading : n ≤ s.now := h.readings i n (by rcases hphase with hphase | hphase <;> rw [hphase] <;> rfl)
    exact (h.loads i n l hphase).change k v hreading rfl
  hits := by
    intro i n l hphase
    have hreading : n ≤ s.now := h.readings i n (by rw [hphase]; rfl)
    exact (h.hits i n l hphase).change k v (by omega) rfl
  entries := h.entries

end Steps

end Consistent

section Runs

variable [DecidableEq ι] [DecidableEq κ] {key : ι → κ} {initial : κ → ν} {ttl : Int} {s s' : System ι κ ν}

variable {p : Phase ν} {i : ι}

/-- A phase that no move starts from is kept by every step. -/
theorem Step.phase_eq (h : Step key initial ttl s s') (hphase : s.phase i = p)
    (hdone : ∀ p', ¬ Move key initial s i p p') : s'.phase i = p := by
  cases h with
  | tick | change => exact hphase
  | @move j p' hmove =>
    by_cases hij : i = j
    · subst hij
      rw [hphase] at hmove
      exact absurd hmove (hdone p')
    · simpa [update_of_ne hij] using hphase

theorem Reaches.phase_eq (h : Reaches key initial ttl s s') (hphase : s.phase i = p)
    (hdone : ∀ (s : System ι κ ν) p', ¬ Move key initial s i p p') : s'.phase i = p := by
  induction h with
  | refl => exact hphase
  | tail _ hstep ih => exact hstep.phase_eq ih (hdone _)

theorem Step.phase_of_live {n : Int} {e : Entry (Loaded ν)} (h : Step key initial ttl s s')
    (hphase : s.phase i = .read n) (hentry : s.entries (key i) = some e) (hlive : n < e.expires) :
    s'.phase i = .read n ∨ s'.phase i = .hit n e.value := by
  cases h with
  | tick | change => exact .inl hphase
  | @move j p hmove =>
    by_cases hij : i = j
    · subst hij
      rw [hphase] at hmove
      exact .inr (by simpa using hmove.of_live hentry hlive)
    · exact .inl (by simpa [update_of_ne hij] using hphase)

theorem Consistent.move (h : Consistent key initial ttl s) (hmove : Move key initial s i (s.phase i) p) :
    Consistent key initial ttl
      { s with phase := update s.phase i p, entries := written ttl s.entries (key i) p } where
  readings := by
    intro j n hn
    dsimp only at hn ⊢
    by_cases hij : j = i
    · subst hij
      rw [update_self] at hn
      rcases hmove.reading_eq hn with hbefore | hnow
      · exact h.readings j n hbefore
      · exact Int.le_of_eq hnow
    · rw [update_of_ne hij] at hn
      exact h.readings j n hn
  loads := by
    intro j n l hphase
    dsimp only at hphase
    refine System.MissedOnly.congr (s := s) ?_ rfl
    by_cases hij : j = i
    · subst hij
      rw [update_self] at hphase
      obtain rfl | hbefore := hmove.holds_cases hphase
      · exact System.missedOnly_load
      · exact h.loads j n l (.inl hbefore)
    · rw [update_of_ne hij] at hphase
      exact h.loads j n l hphase
  hits := by
    intro j n l hphase
    dsimp only at hphase
    refine System.MissedOnly.congr (s := s) ?_ rfl
    by_cases hij : j = i
    · subst hij
      rw [update_self] at hphase
      subst hphase
      generalize s.phase j = before at hmove
      cases hmove with
      | hit hentry hlive => exact h.of_hit hentry hlive
    · rw [update_of_ne hij] at hphase
      exact h.hits j n l hphase
  entries := by
    intro k e hentry
    dsimp only at hentry ⊢
    obtain ⟨n, rfl, rfl, hexpires⟩ | hold := written_cases hentry
    · exact ⟨i, n, rfl, update_self .., hexpires⟩
    · -- The request whose load an entry holds is done, so it is not the one that moves.
      obtain ⟨j, n, hkey, hphase, hexpires⟩ := h.entries k e hold
      have hij : j ≠ i := by
        rintro rfl
        exact hmove.not_done.1 n e.value hphase
      exact ⟨j, n, hkey, by rw [update_of_ne hij, hphase], hexpires⟩

theorem Consistent.step (h : Consistent key initial ttl s) (httl : 0 < ttl) (hstep : Step key initial ttl s s') :
    Consistent key initial ttl s' := by
  cases hstep with
  | tick hle => exact h.tick hle
  | change k v => exact h.change httl k v
  | move hmove => exact h.move hmove

theorem Consistent.reaches (h : Consistent key initial ttl s) (httl : 0 < ttl) (hrun : Reaches key initial ttl s s') :
    Consistent key initial ttl s' := by
  induction hrun with
  | refl => exact h
  | tail _ hstep ih => exact ih.step httl hstep

end Runs

end stampedcache
