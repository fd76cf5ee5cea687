import Mathlib.Data.List.Basic
import Mathlib.Logic.Relation

open List Function

/-- A cache in front of a source that changes: how requests are keyed and answered,
and for how long an answer is kept. -/
structure TtlCache (σ κ τ ν : Type) where
  key : κ → τ
  key_injective : Function.Injective key
  answer : σ → κ → ν
  ttl : κ → ν → Int

namespace TtlCache

structure Entry (ν : Type) where
  value : ν
  expiresAt : Int

/-- A call that missed the cache, and the answer it has found by now. -/
structure Flight (κ ν : Type) where
  request : κ
  startedAt : Int
  found : Option ν

/-- A call that has returned an answer. -/
structure Return (κ ν : Type) where
  request : κ
  startedAt : Int
  value : ν

structure System (σ κ τ ν : Type) where
  now : Int
  source : σ
  entries : τ → Option (Entry ν)
  flights : List (Flight κ ν) := []
  returned : List (Return κ ν) := []

variable {σ κ τ ν : Type} [DecidableEq τ]

/-- A step of one call or of its surroundings. A call reads the cache, and when that
misses it looks its answer up and then writes it to the cache. -/
inductive Step (c : TtlCache σ κ τ ν) : System σ κ τ ν → System σ κ τ ν → Prop where
  | tick {s : System σ κ τ ν} {t : Int} (hle : s.now ≤ t) : Step c s { s with now := t }
  | change {s : System σ κ τ ν} (source : σ) : Step c s { s with source := source }
  | hit {s : System σ κ τ ν} {k : κ} {e : Entry ν} (hentry : s.entries (c.key k) = some e)
      (hfresh : s.now < e.expiresAt) : Step c s { s with returned := ⟨k, s.now, e.value⟩ :: s.returned }
  | miss {s : System σ κ τ ν} (k : κ) (hmiss : ∀ e, s.entries (c.key k) = some e → e.expiresAt ≤ s.now) :
      Step c s { s with flights := ⟨k, s.now, none⟩ :: s.flights }
  | lookup {s : System σ κ τ ν} {before after : List (Flight κ ν)} {f : Flight κ ν}
      (hflights : s.flights = before ++ f :: after) (hf : f.found = none) :
      Step c s { s with flights := before ++ { f with found := some (c.answer s.source f.request) } :: after }
  | fail {s : System σ κ τ ν} {before after : List (Flight κ ν)} {f : Flight κ ν}
      (hflights : s.flights = before ++ f :: after) (hf : f.found = none) :
      Step c s { s with flights := before ++ after }
  | write {s : System σ κ τ ν} {before after : List (Flight κ ν)} {f : Flight κ ν} {v : ν}
      (hflights : s.flights = before ++ f :: after) (hf : f.found = some v) :
      Step c s
        { s with
          flights := before ++ after
          entries := update s.entries (c.key f.request) (some ⟨v, s.now + c.ttl f.request v⟩)
          returned := ⟨f.request, f.startedAt, v⟩ :: s.returned }
  | evict {s : System σ κ τ ν} {k : τ} {e : Entry ν} (hentry : s.entries k = some e) (hexpired : e.expiresAt < s.now) :
      Step c s { s with entries := update s.entries k none }

def Reaches (c : TtlCache σ κ τ ν) : System σ κ τ ν → System σ κ τ ν → Prop := Relation.ReflTransGen (Step c)

/-- A run on which the source keeps a property. -/
def ReachesWhile (c : TtlCache σ κ τ ν) (P : σ → Prop) : System σ κ τ ν → System σ κ τ ν → Prop :=
  Relation.ReflTransGen (fun s s' => Step c s s' ∧ P s'.source)

/-- An empty cache before any call. -/
def System.start (source : σ) (now : Int) : System σ κ τ ν where
  now := now
  source := source
  entries := fun _ => none

section Revoked

-- `Honours` says of an answer to a request that it grants something, `Holds` of a
-- source that it does. Every answer that grants it is kept for `T`.
variable {c : TtlCache σ κ τ ν} {Honours : κ → ν → Prop} {Holds : σ → Prop} {T : Int}
  (hsound : ∀ source k, Honours k (c.answer source k) → Holds source) (hT : ∀ k v, Honours k v → c.ttl k v = T)

/-- No grant is kept for longer than `T` from now. -/
def Bounded (c : TtlCache σ κ τ ν) (Honours : κ → ν → Prop) (T : Int) (s : System σ κ τ ν) : Prop :=
  ∀ k e, s.entries (c.key k) = some e → Honours k e.value → e.expiresAt ≤ s.now + T

include hT in
theorem Bounded.step {s s' : System σ κ τ ν} (h : Bounded c Honours T s) (hstep : Step c s s') :
    Bounded c Honours T s' := by
  intro k e hentry hhonours
  cases hstep with
  | tick hle =>
    have hbound := h k e hentry hhonours
    dsimp only
    omega
  | change | hit | miss | lookup | fail => exact h k e hentry hhonours
  | @write _ _ f v _ _ =>
    dsimp only at hentry ⊢
    by_cases hk : k = f.request
    · subst hk
      rw [update_self] at hentry
      cases hentry
      exact Int.le_of_eq (congrArg (s.now + ·) (hT _ _ hhonours))
    · rw [update_of_ne (c.key_injective.ne hk)] at hentry
      exact h k e hentry hhonours
  | @evict k' _ _ _ =>
    dsimp only at hentry ⊢
    by_cases hk : c.key k = k'
    · rw [hk, update_self] at hentry
      cases hentry
    · rw [update_of_ne hk] at hentry
      exact h k e hentry hhonours

include hT in
theorem bounded_of_reaches {source : σ} {now : Int} {s : System σ κ τ ν} (h : Reaches c (.start source now) s) :
    Bounded c Honours T s := by
  induction h with
  | refl =>
    intro k e hentry
    cases hentry
  | tail _ hstep ih => exact ih.step hT hstep

/-- Nothing that is left of a grant revoked at `r` is of use to a call that starts
at `r + T` or later. -/
structure Fading (c : TtlCache σ κ τ ν) (Honours : κ → ν → Prop) (T r : Int) (s : System σ κ τ ν) : Prop where
  entries : ∀ k e, s.entries (c.key k) = some e → Honours k e.value → e.expiresAt ≤ r + T ∨ T ≤ 0 ∧ e.expiresAt ≤ s.now
  flights : ∀ f ∈ s.flights, ∀ v, f.found = some v → Honours f.request v → T ≤ 0 ∧ f.startedAt < r + T
  returned : ∀ ret ∈ s.returned, Honours ret.request ret.value → ret.startedAt < r + T

include hsound hT in
theorem Fading.step {r : Int} {s s' : System σ κ τ ν} (h : Fading c Honours T r s) (hrevoked : ¬ Holds s.source)
    (hstep : Step c s s') : Fading c Honours T r s' := by
  cases hstep with
  | tick hle =>
    refine ⟨fun k e hentry hhonours => ?_, h.flights, h.returned⟩
    have hbound := h.entries k e hentry hhonours
    dsimp only
    omega
  | change => exact ⟨h.entries, h.flights, h.returned⟩
  | @hit k e hentry hfresh =>
    refine ⟨h.entries, h.flights, forall_mem_cons.mpr ⟨fun hhonours => ?_, h.returned⟩⟩
    have hbound := h.entries k e hentry hhonours
    dsimp only
    omega
  | miss k hmiss => exact ⟨h.entries, forall_mem_cons.mpr ⟨fun v hv => (by cases hv), h.flights⟩, h.returned⟩
  | @lookup before after f hflights hf =>
    have hflying := h.flights
    rw [hflights, forall_mem_append, forall_mem_cons] at hflying
    refine ⟨h.entries, forall_mem_append.mpr ⟨hflying.1, forall_mem_cons.mpr ⟨?_, hflying.2.2⟩⟩, h.returned⟩
    intro v hv hhonours
    cases hv
    exact absurd (hsound s.source f.request hhonours) hrevoked
  | @fail before after f hflights hf =>
    have hflying := h.flights
    rw [hflights, forall_mem_append, forall_mem_cons] at hflying
    exact ⟨h.entries, forall_mem_append.mpr ⟨hflying.1, hflying.2.2⟩, h.returned⟩
  | @write before after f v hflights hf =>
    have hflying := h.flights
    rw [hflights, forall_mem_append, forall_mem_cons] at hflying
    refine ⟨fun k e hentry hhonours => ?_, forall_mem_append.mpr ⟨hflying.1, hflying.2.2⟩,
      forall_mem_cons.mpr ⟨fun hhonours => (hflying.2.1 v hf hhonours).2, h.returned⟩⟩
    dsimp only at hentry ⊢
    by_cases hk : k = f.request
    · subst hk
      rw [update_self] at hentry
      cases hentry
      have hnone := (hflying.2.1 v hf hhonours).1
      rw [hT _ _ hhonours]
      dsimp only
      omega
    · rw [update_of_ne (c.key_injective.ne hk)] at hentry
      exact h.entries k e hentry hhonours
  | @evict k' _ _ _ =>
    refine ⟨fun k e hentry hhonours => ?_, h.flights, h.returned⟩
    dsimp only at hentry ⊢
    by_cases hk : c.key k = k'
    · rw [hk, update_self] at hentry
      cases hentry
    · rw [update_of_ne hk] at hentry
      exact h.entries k e hentry hhonours

include hsound hT in
theorem Fading.reaches {r : Int} {s s' : System σ κ τ ν} (h : Fading c Honours T r s) (hrevoked : ¬ Holds s.source)
    (hrun : ReachesWhile c (fun source => ¬ Holds source) s s') : Fading c Honours T r s' := by
  have hboth : Fading c Honours T r s' ∧ ¬ Holds s'.source := by
    induction hrun with
    | refl => exact ⟨h, hrevoked⟩
    | tail _ hstep ih => exact ⟨ih.1.step hsound hT ih.2 hstep.1, hstep.2⟩
  exact hboth.1

include hT in
/-- An answer that was found before the revocation and is written after it serves a
call that starts `T` after the revocation. -/
theorem exists_late_return {P : σ → Prop} {s : System σ κ τ ν} (hP : P s.source) (hpos : 0 < T) {f : Flight κ ν} {v : ν}
    (hf : f ∈ s.flights) (hfound : f.found = some v) (hhonours : Honours f.request v) :
    ∃ s', ReachesWhile c P s s' ∧ ∃ ret ∈ s'.returned, s.now + T ≤ ret.startedAt ∧ Honours ret.request ret.value := by
  obtain ⟨before, after, hflights⟩ := append_of_mem hf
  let s₁ : System σ κ τ ν := { s with now := s.now + 1 }
  let s₂ : System σ κ τ ν :=
    { s₁ with
      flights := before ++ after
      entries := update s₁.entries (c.key f.request) (some ⟨v, s₁.now + c.ttl f.request v⟩)
      returned := ⟨f.request, f.startedAt, v⟩ :: s₁.returned }
  let s₃ : System σ κ τ ν := { s₂ with now := s.now + T }
  let s₄ : System σ κ τ ν := { s₃ with returned := ⟨f.request, s₃.now, v⟩ :: s₃.returned }
  have hlater : Step c s s₁ := .tick (by omega)
  have hwrite : Step c s₁ s₂ := .write hflights hfound
  have hwait : Step c s₂ s₃ := .tick (show s.now + 1 ≤ s.now + T by omega)
  have hentry : s₃.entries (c.key f.request) = some ⟨v, s.now + 1 + c.ttl f.request v⟩ := update_self ..
  have hfresh : s.now + T < s.now + 1 + c.ttl f.request v := by
    rw [hT _ _ hhonours]
    omega
  have hhit : Step c s₃ s₄ := .hit hentry hfresh
  refine ⟨s₄, ?_, ⟨f.request, s.now + T, v⟩, mem_cons_self, Int.le_refl _, hhonours⟩
  exact (((Relation.ReflTransGen.single ⟨hlater, hP⟩).tail ⟨hwrite, hP⟩).tail ⟨hwait, hP⟩).tail ⟨hhit, hP⟩

include hsound hT in
/-- A grant that is revoked now is honoured for at most `T` exactly when no call has
found it without having written it to the cache yet. When `T` is not positive, the
calls that started within `T` before the revocation count. -/
theorem revoked_iff {s : System σ κ τ ν} (hbounded : Bounded c Honours T s) {source : σ} (hrevoked : ¬ Holds source) :
    (∀ s', ReachesWhile c (fun source => ¬ Holds source) { s with source := source } s' →
        ∀ ret ∈ s'.returned, s.now + T ≤ ret.startedAt → ¬ Honours ret.request ret.value) ↔
      (∀ f ∈ s.flights, ∀ v, f.found = some v → Honours f.request v → T ≤ 0 ∧ f.startedAt < s.now + T) ∧
        ∀ ret ∈ s.returned, Honours ret.request ret.value → ret.startedAt < s.now + T := by
  constructor
  · intro hnever
    refine ⟨fun f hf v hfound hhonours => ?_, fun ret hret hhonours => ?_⟩
    · constructor
      · by_contra hpos
        obtain ⟨s', hrun, ret, hret, hlate, hhonoured⟩ :=
          exists_late_return (P := fun source => ¬ Holds source) (s := { s with source := source }) hT hrevoked
            (Int.not_le.mp hpos) hf hfound hhonours
        exact hnever s' hrun ret hret hlate hhonoured
      · by_contra hlate
        obtain ⟨before, after, hflights⟩ := append_of_mem hf
        have hwrite := Step.write (c := c) (s := { s with source := source }) hflights hfound
        exact hnever _ (.single ⟨hwrite, hrevoked⟩) _ mem_cons_self (Int.not_lt.mp hlate) hhonours
    · by_contra hlate
      exact hnever _ .refl ret hret (Int.not_lt.mp hlate) hhonours
  · rintro ⟨hflights, hreturned⟩ s' hrun ret hret hlate hhonours
    have hfading : Fading c Honours T s.now { s with source := source } :=
      ⟨fun k e hentry hhonours => .inl (hbounded k e hentry hhonours), hflights, hreturned⟩
    have hearly := (hfading.reaches hsound hT hrevoked hrun).returned ret hret hhonours
    omega

end Revoked

end TtlCache
