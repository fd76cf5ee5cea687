import Argvio.Storage.CatalogApply

open List Function

namespace argvio.storage

variable {σ ι : Type}

/-- The arguments of one call for a given tenant and service. -/
structure ApplyCall (σ : Type) where
  defs : List (MetricDefinitionInput σ)
  actor : String
  at_ : Int

/-- Where the transaction of a call stands: before the advisory lock, in the loop,
before the commit, or over. -/
inductive ApplyPhase (σ : Type) where
  | waiting
  | upserting (todo : List (MetricDefinitionInput σ))
  | deprecated
  | committed
  | aborted

/-- Whether the transaction has the advisory lock of its tenant and service. -/
def ApplyPhase.holds : ApplyPhase σ → Bool
  | .upserting _ => true
  | .deprecated => true
  | _ => false

/-- The committed rows, who has the lock, and the open transactions with the rows
they have written. -/
structure ApplySystem (ι σ : Type) where
  rows : Definitions σ
  holder : Option ι
  phase : ι → ApplyPhase σ
  writes : ι → Definitions σ

/-- What a statement of a transaction sees: the committed rows under its own
writes. -/
def ApplySystem.view (s : ApplySystem ι σ) (i : ι) : Definitions σ := GoMap.assignAll s.rows (s.writes i)

def ApplySystem.start (t : Definitions σ) : ApplySystem ι σ where
  rows := t
  holder := none
  phase := fun _ => .waiting
  writes := fun _ => ∅

/-- The rows of one service, by metric name. -/
def serviceRows (tenantID : UUID) (service : String) (t : Definitions σ) : String → Option (DefinitionRow σ) :=
  fun name => t.lookup ⟨tenantID, service, name⟩

section Machine

variable [DecidableEq ι] [DecidableEq σ] (tenantID : UUID) (service : String) (calls : ι → ApplyCall σ)

/-- One statement of a transaction, or a commit of somebody who writes to other
services. A failed statement aborts the transaction. -/
inductive ApplyStep : ApplySystem ι σ → ApplySystem ι σ → Prop where
  | lock {s : ApplySystem ι σ} {i : ι} (hphase : s.phase i = .waiting) (hfree : s.holder = none) :
      ApplyStep s
        { s with holder := some i, phase := update s.phase i (.upserting (calls i).defs) }
  | upsert {s : ApplySystem ι σ} {i : ι} {d : MetricDefinitionInput σ} {todo : List (MetricDefinitionInput σ)}
      (hphase : s.phase i = .upserting (d :: todo)) (hkind : d.kind ∈ definitionKinds) :
      ApplyStep s
        { s with
          phase := update s.phase i (.upserting todo)
          writes := update s.writes i
            ((upsertDefinition d (calls i).actor (calls i).at_ ((s.view i).lookup ⟨tenantID, service, d.name⟩)).elim
              (s.writes i) (fun w => (s.writes i).insert ⟨tenantID, service, d.name⟩ w.1)) }
  | deprecateMissing {s : ApplySystem ι σ} {i : ι} (hphase : s.phase i = .upserting []) :
      ApplyStep s
        { s with
          phase := update s.phase i .deprecated
          writes := update s.writes i
            (GoMap.assignSome (deprecateDefinition tenantID service (calls i).actor (calls i).at_
              ((calls i).defs.map MetricDefinitionInput.name)) (s.view i) (s.writes i)) }
  | commit {s : ApplySystem ι σ} {i : ι} (hphase : s.phase i = .deprecated) :
      ApplyStep s
        { s with rows := s.view i, holder := none, phase := update s.phase i .committed }
  | abort {s : ApplySystem ι σ} {i : ι} (hopen : s.phase i = .waiting ∨ (s.phase i).holds = true) :
      ApplyStep s
        { s with
          holder := if s.holder = some i then none else s.holder
          phase := update s.phase i .aborted }
  | elsewhere {s : ApplySystem ι σ} {rows : Definitions σ}
      (hsame : serviceRows tenantID service rows = serviceRows tenantID service s.rows) :
      ApplyStep s { s with rows := rows }

def ApplyReaches : ApplySystem ι σ → ApplySystem ι σ → Prop :=
  Relation.ReflTransGen (ApplyStep tenantID service calls)

/-- The table after some of the calls, one after another. -/
def serialApplies (t : Definitions σ) (order : List ι) : Except ApplyError (Definitions σ) :=
  order.foldlM (fun t i =>
    (applyMetricDefinitions tenantID service (calls i).actor (calls i).at_ (calls i).defs t).map Prod.snd) t

/-- What a transaction sees of the service, as what its statements so far make of
the rows it started from. -/
def ApplyPhase.Progress (c : ApplyCall σ) (t₀ : Definitions σ) (view : String → Option (DefinitionRow σ)) :
    ApplyPhase σ → Prop
  | .upserting todo => ∃ done res t₁, c.defs = done ++ todo ∧
      done.foldlM (applyDefinition tenantID service c.actor c.at_) ({}, t₀) = .ok (res, t₁) ∧
      view = serviceRows tenantID service t₁
  | .deprecated => ∃ res t₁, applyMetricDefinitions tenantID service c.actor c.at_ c.defs t₀ = .ok (res, t₁) ∧
      view = serviceRows tenantID service t₁
  | _ => True

/-- The calls that have committed, in an order in which running them one after
another gives the service the rows it has. -/
structure Serialized (t : Definitions σ) (s : ApplySystem ι σ) (order : List ι) (t₀ : Definitions σ) : Prop where
  serial : serialApplies tenantID service calls t order = .ok t₀
  nodup : order.Nodup
  mem_iff : ∀ i, i ∈ order ↔ s.phase i = .committed
  rows : serviceRows tenantID service s.rows = serviceRows tenantID service t₀
  holder : ∀ i, (s.phase i).holds = true → s.holder = some i
  fresh : ∀ i, s.phase i = .waiting → s.writes i = ∅
  progress : ∀ i, (s.phase i).Progress tenantID service (calls i) t₀ (serviceRows tenantID service (s.view i))

variable {tenantID service calls} {s : ApplySystem ι σ} {t t₀ : Definitions σ} {order : List ι}

variable {i : ι} {s' : ApplySystem ι σ} {phase : ApplyPhase σ}

/-- A transaction that has no lock makes no progress to speak of. -/
theorem ApplyPhase.progress_of_not_holds (h : phase.holds = false) (c : ApplyCall σ) (t₀ : Definitions σ)
    (view : String → Option (DefinitionRow σ)) : phase.Progress tenantID service c t₀ view := by
  cases phase with
  | upserting todo | deprecated => cases h
  | _ => trivial

omit [DecidableEq ι] [DecidableEq σ] in
theorem lookup_view (s : ApplySystem ι σ) (i : ι) (key : DefinitionKey) :
    (s.view i).lookup key = ((s.writes i).lookup key).or (s.rows.lookup key) := GoMap.lookup_assignAll ..

omit [DecidableEq ι] in
/-- An upsert into a transaction's writes is an upsert into what it sees. -/
theorem lookup_assignAll_upsert (rows writes : Definitions σ) (d : MetricDefinitionInput σ) (actor : String) (at_ : Int)
    (key key' : DefinitionKey) :
    (GoMap.assignAll rows ((upsertDefinition d actor at_ ((GoMap.assignAll rows writes).lookup key)).elim writes
        (fun w => writes.insert key w.1))).lookup key' =
      if key' = key then upserted d actor at_ ((GoMap.assignAll rows writes).lookup key')
      else (GoMap.assignAll rows writes).lookup key' := by
  by_cases hkey : key' = key
  · subst hkey
    rw [if_pos rfl]
    unfold upserted
    cases upsertDefinition d actor at_ ((GoMap.assignAll rows writes).lookup key') with
    | none => rfl
    | some w => simp [GoMap.lookup_assignAll]
  · rw [if_neg hkey]
    cases upsertDefinition d actor at_ ((GoMap.assignAll rows writes).lookup key) with
    | none => rfl
    | some w => simp [GoMap.lookup_assignAll, AList.lookup_insert_ne hkey]

omit [DecidableEq ι] in
theorem serialized_start (t : Definitions σ) : Serialized tenantID service calls t (ApplySystem.start t) [] t where
  serial := rfl
  nodup := nodup_nil
  mem_iff := fun i => by simp [ApplySystem.start]
  rows := rfl
  holder := fun i hholds => by cases hholds
  fresh := fun _ _ => rfl
  progress := fun i => ApplyPhase.progress_of_not_holds rfl ..

section Serialized

variable (h : Serialized tenantID service calls t s order t₀)

include h

/-- A transaction goes on without committing: the others see what they saw. -/
theorem Serialized.advance (hrows : s'.rows = s.rows) (hphase : s'.phase = update s.phase i phase)
    (hwrites : ∀ j, j ≠ i → s'.writes j = s.writes j) (hopen : s.phase i = .waiting ∨ (s.phase i).holds = true)
    (hnext : phase.holds = true ∧ s'.holder = some i ∨ phase = .aborted)
    (hothers : ∀ j, j ≠ i → s.holder = some j → s'.holder = some j)
    (hprogress : phase.Progress tenantID service (calls i) t₀ (serviceRows tenantID service (s'.view i))) :
    Serialized tenantID service calls t s' order t₀ := by
  have hself : s'.phase i = phase := by rw [hphase, update_self]
  have hother : ∀ j, j ≠ i → s'.phase j = s.phase j := by
    intro j hj
    rw [hphase, update_of_ne hj]
  have hbefore : s.phase i ≠ .committed := by
    intro hcommitted
    rw [hcommitted] at hopen
    rcases hopen with hopen | hopen
    · cases hopen
    · cases hopen
  have hafter : phase ≠ .committed ∧ phase ≠ .waiting := by
    rcases hnext with ⟨hholds, _⟩ | rfl
    · refine ⟨?_, ?_⟩
      · rintro rfl
        cases hholds
      · rintro rfl
        cases hholds
    · simp
  refine ⟨h.serial, h.nodup, fun j => ?_, by rw [hrows, h.rows], fun j hholds => ?_, fun j hj => ?_, fun j => ?_⟩
  · by_cases hj : j = i
    · subst hj
      rw [h.mem_iff, hself]
      exact iff_of_false hbefore hafter.1
    · rw [h.mem_iff, hother j hj]
  · by_cases hji : j = i
    · subst hji
      rw [hself] at hholds
      rcases hnext with ⟨_, hholder⟩ | rfl
      · exact hholder
      · cases hholds
    · rw [hother j hji] at hholds
      exact hothers j hji (h.holder j hholds)
  · by_cases hji : j = i
    · subst hji
      rw [hself] at hj
      exact absurd hj hafter.2
    · rw [hother j hji] at hj
      rw [hwrites j hji, h.fresh j hj]
  · by_cases hji : j = i
    · subst hji
      rw [hself]
      exact hprogress
    · have hview : s'.view j = s.view j := by
        unfold ApplySystem.view
        rw [hrows, hwrites j hji]
      rw [hother j hji, hview]
      exact h.progress j

theorem Serialized.lock (hphase : s.phase i = .waiting) (hfree : s.holder = none) :
    Serialized tenantID service calls t
      { s with holder := some i, phase := update s.phase i (.upserting (calls i).defs) } order t₀ := by
  refine h.advance rfl rfl (fun _ _ => rfl) (.inl hphase) (.inl ⟨rfl, rfl⟩) ?_ ?_
  · intro j _ hholder
    rw [hfree] at hholder
    cases hholder
  refine ⟨[], {}, t₀, rfl, rfl, ?_⟩
  rw [← h.rows]
  funext name
  unfold serviceRows
  rw [lookup_view]
  dsimp only
  rw [h.fresh i hphase, AList.lookup_empty, Option.none_or]

theorem Serialized.upsert {d : MetricDefinitionInput σ} {todo : List (MetricDefinitionInput σ)}
    (hphase : s.phase i = .upserting (d :: todo)) (hkind : d.kind ∈ definitionKinds) :
    Serialized tenantID service calls t
      { s with
        phase := update s.phase i (.upserting todo)
        writes := update s.writes i
          ((upsertDefinition d (calls i).actor (calls i).at_ ((s.view i).lookup ⟨tenantID, service, d.name⟩)).elim
            (s.writes i) (fun w => (s.writes i).insert ⟨tenantID, service, d.name⟩ w.1)) } order t₀ := by
  have hprogress := h.progress i
  rw [hphase] at hprogress
  obtain ⟨done, res, t₁, hdefs, hdone, hview⟩ := hprogress
  have hholds : (s.phase i).holds = true := by
    rw [hphase]
    rfl
  refine h.advance rfl rfl (fun j hj => update_of_ne hj ..) (.inr hholds) (.inl ⟨rfl, h.holder i hholds⟩)
    (fun _ _ hholder => hholder) ?_
  -- The same upsert, on the table of the serial run.
  obtain ⟨acc, hacc⟩ : ∃ acc, applyDefinition tenantID service (calls i).actor (calls i).at_ (res, t₁) d = .ok acc := by
    unfold applyDefinition
    rw [if_neg (not_not.mpr hkind)]
    exact ⟨_, rfl⟩
  obtain ⟨_, _, hlookup⟩ := applyDefinition_eq_ok hacc
  refine ⟨done ++ [d], acc.1, acc.2, by simp [hdefs], ?_, ?_⟩
  · rw [foldlM_append, hdone]
    refine Except.bind_eq_ok_iff.mpr ⟨_, rfl, ?_⟩
    exact Except.bind_eq_ok_iff.mpr ⟨acc, hacc, rfl⟩
  funext name
  have hsame := congrFun hview name
  unfold serviceRows at hsame ⊢
  unfold ApplySystem.view at hsame ⊢
  dsimp only
  rw [update_self, lookup_assignAll_upsert, hlookup, hsame]

theorem Serialized.deprecateMissing (hphase : s.phase i = .upserting []) :
    Serialized tenantID service calls t
      { s with
        phase := update s.phase i .deprecated
        writes := update s.writes i
          (GoMap.assignSome (deprecateDefinition tenantID service (calls i).actor (calls i).at_
            ((calls i).defs.map MetricDefinitionInput.name)) (s.view i) (s.writes i)) } order t₀ := by
  have hprogress := h.progress i
  rw [hphase] at hprogress
  obtain ⟨done, res, t₁, hdefs, hdone, hview⟩ := hprogress
  rw [append_nil] at hdefs
  subst hdefs
  have hholds : (s.phase i).holds = true := by
    rw [hphase]
    rfl
  refine h.advance rfl rfl (fun j hj => update_of_ne hj ..) (.inr hholds) (.inl ⟨rfl, h.holder i hholds⟩)
    (fun _ _ hholder => hholder) ?_
  refine ⟨_, _, by unfold applyMetricDefinitions; rw [hdone]; rfl, ?_⟩
  funext name
  have hsame := congrFun hview name
  unfold serviceRows at hsame ⊢
  rw [lookup_view] at hsame ⊢
  dsimp only
  rw [update_self, GoMap.lookup_assignSome, GoMap.lookup_assignSome, lookup_view, Option.or_assoc, hsame]

theorem Serialized.commit (hphase : s.phase i = .deprecated) :
    ∃ t₁, Serialized tenantID service calls t
      { s with rows := s.view i, holder := none, phase := update s.phase i .committed } (order ++ [i]) t₁ := by
  have hprogress := h.progress i
  rw [hphase] at hprogress
  obtain ⟨res, t₁, happly, hview⟩ := hprogress
  have hholder := h.holder i (by rw [hphase]; rfl)
  have hidle : ∀ j, j ≠ i → (s.phase j).holds = false := by
    intro j hj
    rw [← Bool.not_eq_true]
    intro hholds
    rw [h.holder j hholds, Option.some.injEq] at hholder
    exact hj hholder
  refine ⟨t₁, ?_, ?_, fun j => ?_, hview, fun j hholds => ?_, fun j hj => ?_, fun j => ?_⟩
  · unfold serialApplies
    have hserial := h.serial
    unfold serialApplies at hserial
    rw [foldlM_append, hserial]
    simp [bind, Except.bind, pure, Except.pure, happly, Except.map]
  · refine nodup_append.mpr ⟨h.nodup, nodup_singleton i, ?_⟩
    intro j hj k hk
    rw [mem_singleton] at hk
    rintro rfl
    rw [hk, h.mem_iff, hphase] at hj
    cases hj
  · dsimp only
    rw [mem_append, mem_singleton, h.mem_iff]
    by_cases hj : j = i
    · subst hj
      simp
    · simp [hj]
  · dsimp only at hholds
    by_cases hj : j = i
    · subst hj
      rw [update_self] at hholds
      cases hholds
    · rw [update_of_ne hj, hidle j hj] at hholds
      cases hholds
  · dsimp only at hj ⊢
    by_cases hji : j = i
    · subst hji
      rw [update_self] at hj
      cases hj
    · rw [update_of_ne hji] at hj
      exact h.fresh j hj
  · apply ApplyPhase.progress_of_not_holds
    dsimp only
    by_cases hj : j = i
    · subst hj
      rw [update_self]
      rfl
    · rw [update_of_ne hj]
      exact hidle j hj

theorem Serialized.abort (hopen : s.phase i = .waiting ∨ (s.phase i).holds = true) :
    Serialized tenantID service calls t
      { s with
        holder := if s.holder = some i then none else s.holder
        phase := update s.phase i .aborted } order t₀ := by
  refine h.advance rfl rfl (fun _ _ => rfl) hopen (.inr rfl) ?_ trivial
  intro j hj hholder
  dsimp only
  rw [hholder, if_neg]
  rw [Option.some.injEq]
  exact hj

end Serialized

omit [DecidableEq ι] in
theorem Serialized.elsewhere (h : Serialized tenantID service calls t s order t₀) {rows : Definitions σ}
    (hsame : serviceRows tenantID service rows = serviceRows tenantID service s.rows) :
    Serialized tenantID service calls t { s with rows := rows } order t₀ := by
  refine ⟨h.serial, h.nodup, h.mem_iff, hsame.trans h.rows, h.holder, h.fresh, fun i => ?_⟩
  have hview : serviceRows tenantID service (ApplySystem.view { s with rows := rows } i) =
      serviceRows tenantID service (s.view i) := by
    funext name
    have hname := congrFun hsame name
    unfold serviceRows at hname ⊢
    rw [lookup_view, lookup_view]
    dsimp only
    rw [hname]
  rw [hview]
  exact h.progress i

theorem Serialized.step (h : Serialized tenantID service calls t s order t₀)
    (hstep : ApplyStep tenantID service calls s s') :
    ∃ order' t₁, Serialized tenantID service calls t s' order' t₁ := by
  cases hstep with
  | lock hphase hfree => exact ⟨_, _, h.lock hphase hfree⟩
  | upsert hphase hkind => exact ⟨_, _, h.upsert hphase hkind⟩
  | deprecateMissing hphase => exact ⟨_, _, h.deprecateMissing hphase⟩
  | commit hphase => exact ⟨_, h.commit hphase⟩
  | abort hopen => exact ⟨_, _, h.abort hopen⟩
  | elsewhere hsame => exact ⟨_, _, h.elsewhere hsame⟩

/-- Whatever their statements interleave to, the calls that commit act one after
another. -/
theorem exists_serialized (hreaches : ApplyReaches tenantID service calls (ApplySystem.start t) s) :
    ∃ order t₁, Serialized tenantID service calls t s order t₁ := by
  induction hreaches with
  | refl => exact ⟨[], t, serialized_start t⟩
  | tail _ hlast ih =>
    obtain ⟨order, t₁, h⟩ := ih
    exact h.step hlast

end Machine

/-- Applying a catalog is exact and idempotent, and applies that run at the same
time act one after another. A definition's kind is a function of its spec, in the
table and in what is given. -/
theorem applyMetricDefinitions_exact [DecidableEq σ] {tenantID : UUID} {service actor : String} {at_ : Int}
    {defs : List (MetricDefinitionInput σ)} {t t' : Definitions σ} {res : ApplyResult} (kindOf : σ → String)
    (hnames : (defs.map MetricDefinitionInput.name).Nodup) (hkinds : ∀ d ∈ defs, d.kind = kindOf d.spec)
    (hstored : ∀ key row, t.lookup key = some row → row.kind = kindOf row.spec)
    (h : applyMetricDefinitions tenantID service actor at_ defs t = .ok (res, t')) :
    ApplyExact tenantID service defs t res t' ∧
    (∀ key row, t'.lookup key = some row → row.kind = kindOf row.spec) ∧
    (∀ dims minTier name rule, (metricCatalogRules dims minTier tenantID t').lookup ⟨service, name⟩ = some rule ↔
      ∃ d ∈ defs, d.name = name ∧ rule = ⟨d.kind, dims d.spec, minTier d.spec⟩) ∧
    (∀ actor' at', applyMetricDefinitions tenantID service actor' at' defs t' =
      .ok ({ unchanged := defs.map MetricDefinitionInput.name }, t')) ∧
    ∀ (ι : Type) [DecidableEq ι] (calls : ι → ApplyCall σ) (before : Definitions σ) (s : ApplySystem ι σ),
      ApplyReaches tenantID service calls (ApplySystem.start before) s →
      ∃ order t₁, order.Nodup ∧ (∀ i, i ∈ order ↔ s.phase i = .committed) ∧
        serialApplies tenantID service calls before order = .ok t₁ ∧
        serviceRows tenantID service s.rows = serviceRows tenantID service t₁ ∧
        ∀ (earlier : List ι) (i : ι), order = earlier ++ [i] → ∃ t₀ res',
          applyMetricDefinitions tenantID service (calls i).actor (calls i).at_ (calls i).defs t₀ = .ok (res', t₁) := by
  have hexact := exact_applyMetricDefinitions hnames h hkinds hstored
  refine ⟨hexact, (active_applyMetricDefinitions hnames h hkinds hstored).2, ?_,
    applyMetricDefinitions_again hnames h, ?_⟩
  · intro dims minTier name rule
    rw [lookup_metricCatalogRules, Option.map_eq_some_iff]
    constructor
    · rintro ⟨row, hrow, rfl⟩
      obtain ⟨hlookup, hactive⟩ := Option.filter_eq_some_iff.mp hrow
      have hd := (hexact.active_iff name row.kind row.spec).mp ⟨row, hlookup, by simpa using hactive, rfl, rfl⟩
      exact ⟨_, hd, rfl, rfl⟩
    · rintro ⟨d, hd, rfl, rfl⟩
      obtain ⟨row, hrow, hactive, hkind, hspec⟩ := (hexact.active_iff d.name d.kind d.spec).mpr hd
      refine ⟨row, Option.filter_eq_some_iff.mpr ⟨hrow, by simpa using hactive⟩, ?_⟩
      rw [hkind, hspec]
  · intro ι _ calls before s hreaches
    obtain ⟨order, t₁, hserialized⟩ := exists_serialized hreaches
    refine ⟨order, t₁, hserialized.nodup, hserialized.mem_iff, hserialized.serial, hserialized.rows, ?_⟩
    rintro earlier i rfl
    have hserial := hserialized.serial
    unfold serialApplies at hserial
    rw [foldlM_append, Except.bind_eq_ok_iff] at hserial
    obtain ⟨t₀, _, hlast⟩ := hserial
    rw [foldlM_cons, Except.bind_eq_ok_iff] at hlast
    obtain ⟨t₂, happly, hnil⟩ := hlast
    cases hnil
    obtain ⟨⟨res', _⟩, hok, rfl⟩ := Except.map_eq_ok_iff.mp happly
    exact ⟨t₀, res', hok⟩

/-- Rows of every sort: two active ones, a deprecated one, one that leaves the
catalog and one of another service. -/
def sampleDefinitions : Definitions String := GoMap.putAll ∅ [
  (⟨1, "cli", "a"⟩, ⟨"counter", "counts", 1, 1, "ci", none⟩),
  (⟨1, "cli", "b"⟩, ⟨"counter", "counts", 1, 1, "ci", none⟩),
  (⟨1, "cli", "c"⟩, ⟨"counter", "counts", 1, 2, "ci", some 2⟩),
  (⟨1, "cli", "d"⟩, ⟨"value", "sums", 1, 1, "ci", none⟩),
  (⟨1, "other", "d"⟩, ⟨"value", "sums", 1, 1, "ci", none⟩)]

def sampleInputs : List (MetricDefinitionInput String) :=
  [⟨"a", "counter", "counts"⟩, ⟨"b", "value", "sums"⟩, ⟨"c", "counter", "counts"⟩, ⟨"e", "value", "sums"⟩]

theorem applyMetricDefinitions_exact_sample :
    ∃ t', applyMetricDefinitions 1 "cli" "ci" 9 sampleInputs sampleDefinitions =
        .ok (⟨["e"], ["b", "c"], ["a"], ["d"]⟩, t') ∧
      ApplyExact 1 "cli" sampleInputs sampleDefinitions ⟨["e"], ["b", "c"], ["a"], ["d"]⟩ t' := by
  have hrun : (applyMetricDefinitions 1 "cli" "ci" 9 sampleInputs sampleDefinitions).toOption.map Prod.fst =
      some ⟨["e"], ["b", "c"], ["a"], ["d"]⟩ := by decide +kernel
  have hkinds : ∀ e ∈ sampleDefinitions.entries, e.2.kind = if e.2.spec = "sums" then "value" else "counter" := by
    decide
  cases hok : applyMetricDefinitions 1 "cli" "ci" 9 sampleInputs sampleDefinitions with
  | error err =>
    rw [hok] at hrun
    cases hrun
  | ok out =>
    rw [hok] at hrun
    obtain ⟨res, t'⟩ := out
    cases hrun
    have hexact := applyMetricDefinitions_exact (fun spec => if spec = "sums" then "value" else "counter")
      (by decide) (by decide) (fun key row hrow => hkinds ⟨key, row⟩ (AList.mem_lookup_iff.mp hrow)) hok
    exact ⟨t', rfl, hexact.1⟩

end argvio.storage
