import Argvio.Storage.MetricDefinitions

open List

namespace argvio.storage

variable {σ : Type}

namespace ApplyResult

/-- The results of upserting some definitions one after another. -/
def recordAll (res : ApplyResult) (outcome : MetricDefinitionInput σ → Option Bool)
    (defs : List (MetricDefinitionInput σ)) : ApplyResult :=
  defs.foldl (fun res d => res.record d.name (outcome d)) res

variable (res : ApplyResult) (outcome : MetricDefinitionInput σ → Option Bool) (defs : List (MetricDefinitionInput σ))
  (name : String)

theorem record_perm (inserted : Option Bool) :
    ((res.record name inserted).created ++ (res.record name inserted).updated ++
      (res.record name inserted).unchanged).Perm (name :: (res.created ++ res.updated ++ res.unchanged)) := by
  rw [perm_iff_count]
  intro a
  rcases inserted with _ | _ | _ <;> simp only [ApplyResult.record, count_append, count_cons, count_nil] <;> omega

theorem recordAll_perm :
    ((res.recordAll outcome defs).created ++ (res.recordAll outcome defs).updated ++
        (res.recordAll outcome defs).unchanged).Perm
      (defs.map MetricDefinitionInput.name ++ (res.created ++ res.updated ++ res.unchanged)) := by
  induction defs generalizing res with
  | nil => exact List.Perm.refl _
  | cons d rest ih =>
    refine (ih (res.record d.name (outcome d))).trans ?_
    exact ((record_perm res d.name (outcome d)).append_left _).trans perm_middle

theorem mem_recordAll :
    (name ∈ (res.recordAll outcome defs).created ↔
        name ∈ res.created ∨ ∃ d ∈ defs, d.name = name ∧ outcome d = some true) ∧
      (name ∈ (res.recordAll outcome defs).unchanged ↔
        name ∈ res.unchanged ∨ ∃ d ∈ defs, d.name = name ∧ outcome d = none) := by
  induction defs generalizing res with
  | nil => simp [recordAll]
  | cons d rest ih =>
    obtain ⟨hcreated, hunchanged⟩ := ih (res.record d.name (outcome d))
    have hcons : res.recordAll outcome (d :: rest) = (res.record d.name (outcome d)).recordAll outcome rest := rfl
    rw [hcons, hcreated, hunchanged]
    rcases houtcome : outcome d with _ | _ | _
    · simp [ApplyResult.record, houtcome, or_assoc, eq_comm]
    · simp [ApplyResult.record, houtcome]
    · simp [ApplyResult.record, houtcome, or_assoc, eq_comm]

end ApplyResult

section Deprecate

variable {tenantID : UUID} {service actor : String} {at_ : Int} {names : List String}

/-- The table after the update that deprecates the definitions not given. -/
theorem lookup_deprecated (t : Definitions σ) (key : DefinitionKey) :
    (GoMap.assignSome (deprecateDefinition tenantID service actor at_ names) t t).lookup key =
      if key.tenantID = tenantID ∧ key.service = service ∧ key.name ∉ names then
        (t.lookup key).map (fun row => if row.deprecatedAt = none then
          { row with deprecatedAt := some at_, updatedAt := at_, updatedBy := actor } else row)
      else t.lookup key := by
  rw [GoMap.lookup_assignSome]
  cases t.lookup key with
  | none => simp
  | some row =>
    rw [Option.bind_some]
    unfold deprecateDefinition
    by_cases hkey : key.tenantID = tenantID ∧ key.service = service ∧ key.name ∉ names
    · by_cases hactive : row.deprecatedAt = none
      · simp [hkey, hactive]
      · simp [hkey, hactive]
    · have hnot : ¬ (key.tenantID = tenantID ∧ key.service = service ∧ row.deprecatedAt = none ∧ key.name ∉ names) :=
        fun h => hkey ⟨h.1, h.2.1, h.2.2.2⟩
      rw [if_neg hkey, if_neg hnot]
      rfl

theorem isSome_deprecateDefinition_iff {key : DefinitionKey} {row : DefinitionRow σ} :
    (deprecateDefinition tenantID service actor at_ names key row).isSome = true ↔
      key.tenantID = tenantID ∧ key.service = service ∧ row.deprecatedAt = none ∧ key.name ∉ names := by
  unfold deprecateDefinition
  split
  · rename_i h
    simp [h]
  · rename_i h
    simpa using h

theorem mem_deprecatedNames {t : Definitions σ} {name : String} :
    name ∈ deprecatedNames tenantID service actor at_ names t ↔
      name ∉ names ∧ ∃ row, t.lookup ⟨tenantID, service, name⟩ = some row ∧ row.deprecatedAt = none := by
  unfold deprecatedNames
  rw [mem_map]
  constructor
  · rintro ⟨⟨key, row⟩, hmem, rfl⟩
    obtain ⟨hentry, hhit⟩ := mem_filter.mp hmem
    obtain ⟨rfl, rfl, hactive, hname⟩ := isSome_deprecateDefinition_iff.mp hhit
    exact ⟨hname, row, AList.mem_lookup_iff.mpr hentry, hactive⟩
  · rintro ⟨hname, row, hrow, hactive⟩
    refine ⟨⟨⟨tenantID, service, name⟩, row⟩, mem_filter.mpr ⟨AList.mem_lookup_iff.mp hrow, ?_⟩, rfl⟩
    exact isSome_deprecateDefinition_iff.mpr ⟨rfl, rfl, hactive, hname⟩

variable (tenantID service actor at_ names) in
theorem nodup_deprecatedNames (t : Definitions σ) :
    (deprecatedNames tenantID service actor at_ names t).Nodup := by
  apply GoMap.nodup_map_filter_entries
  rintro ⟨⟨_, _, _⟩, _⟩ ⟨⟨_, _, _⟩, _⟩ hhit hhit' hname
  obtain ⟨rfl, rfl, _⟩ := isSome_deprecateDefinition_iff.mp hhit
  obtain ⟨hid, hservice, _⟩ := isSome_deprecateDefinition_iff.mp hhit'
  exact DefinitionKey.mk.injEq .. ▸ ⟨hid.symm, hservice.symm, hname⟩

end Deprecate

/-- The rule of a metric is that of its row, when it has one that is not
deprecated. -/
theorem lookup_metricCatalogRules (dims : σ → List String) (minTier : σ → String) (tenantID : UUID) (t : Definitions σ)
    (service name : String) :
    (metricCatalogRules dims minTier tenantID t).lookup ⟨service, name⟩ =
      ((t.lookup ⟨tenantID, service, name⟩).filter (fun row => row.deprecatedAt = none)).map
        (fun row => ⟨row.kind, dims row.spec, minTier row.spec⟩) := by
  have hkeys : ∀ key key' : DefinitionKey, key.tenantID = tenantID → key'.tenantID = tenantID →
      (⟨key.service, key.name⟩ : CatalogKey) = ⟨key'.service, key'.name⟩ → key = key' := by
    rintro ⟨_, _, _⟩ ⟨_, _, _⟩ rfl rfl heq
    cases heq
    rfl
  have hlookup := GoMap.lookup_putAll_entries t (fun e => e.1.tenantID = tenantID ∧ e.2.deprecatedAt = none)
    (fun key => (⟨key.service, key.name⟩ : CatalogKey))
    (fun row => (⟨row.kind, dims row.spec, minTier row.spec⟩ : CatalogRule))
    (fun e e' he he' => hkeys e.1 e'.1 (of_decide_eq_true he).1 (of_decide_eq_true he').1)
    (k := ⟨tenantID, service, name⟩) (fun e he => hkeys e.1 _ (of_decide_eq_true he).1 rfl)
  simpa [metricCatalogRules] using hlookup

variable [DecidableEq σ]

section Upsert

variable {d : MetricDefinitionInput σ} {actor : String} {at_ : Int} {row : Option (DefinitionRow σ)}

/-- The row under a definition's key once the definition is upserted. -/
def upserted (d : MetricDefinitionInput σ) (actor : String) (at_ : Int) (row : Option (DefinitionRow σ)) :
    Option (DefinitionRow σ) :=
  (upsertDefinition d actor at_ row).elim row (fun w => some w.1)

/-- An upsert inserts a row, leaves an active row with the same spec alone, or
gives the row the definition's kind and spec. -/
theorem upsertDefinition_cases (d : MetricDefinitionInput σ) (actor : String) (at_ : Int)
    (row : Option (DefinitionRow σ)) :
    row = none ∧ upsertDefinition d actor at_ row = some (⟨d.kind, d.spec, at_, at_, actor, none⟩, true) ∨
      (∃ r, row = some r ∧ (r.deprecatedAt = none ∧ r.spec = d.spec) ∧ upsertDefinition d actor at_ row = none) ∨
      ∃ r, row = some r ∧ ¬ (r.deprecatedAt = none ∧ r.spec = d.spec) ∧
        upsertDefinition d actor at_ row = some (⟨d.kind, d.spec, r.createdAt, at_, actor, none⟩, false) := by
  cases row with
  | none => exact .inl ⟨rfl, rfl⟩
  | some r =>
    by_cases hsame : r.deprecatedAt = none ∧ r.spec = d.spec
    · exact .inr (.inl ⟨r, rfl, hsame, if_neg (by simp [hsame])⟩)
    refine .inr (.inr ⟨r, rfl, hsame, if_pos ?_⟩)
    by_contra hnot
    simp only [ne_eq, not_or, not_not] at hnot
    exact hsame ⟨hnot.2, hnot.1⟩

theorem upsertDefinition_eq_none_iff :
    upsertDefinition d actor at_ row = none ↔
      ∃ r, row = some r ∧ r.deprecatedAt = none ∧ r.spec = d.spec := by
  rcases upsertDefinition_cases d actor at_ row with ⟨hrow, h⟩ | ⟨r, hrow, hsame, h⟩ | ⟨r, hrow, hnot, h⟩
  · rw [h, hrow]
    simp
  · rw [h]
    exact ⟨fun _ => ⟨r, hrow, hsame⟩, fun _ => rfl⟩
  · rw [h]
    constructor
    · intro hnone
      cases hnone
    · rintro ⟨r', hrow', hsame⟩
      rw [hrow] at hrow'
      cases hrow'
      exact absurd hsame hnot

theorem upsertDefinition_inserts_iff :
    (upsertDefinition d actor at_ row).map Prod.snd = some true ↔ row = none := by
  rcases upsertDefinition_cases d actor at_ row with ⟨hrow, h⟩ | ⟨r, hrow, _, h⟩ | ⟨r, hrow, _, h⟩ <;>
    rw [h, hrow] <;> simp

/-- An upserted definition is active with its spec. Its kind is the given one,
unless its row was left alone. -/
theorem exists_upserted (d : MetricDefinitionInput σ) (actor : String) (at_ : Int) (row : Option (DefinitionRow σ)) :
    ∃ r, upserted d actor at_ row = some r ∧ r.deprecatedAt = none ∧ r.spec = d.spec ∧
      (r.kind = d.kind ∨ row = some r) := by
  unfold upserted
  rcases upsertDefinition_cases d actor at_ row with ⟨_, h⟩ | ⟨r, hrow, hsame, h⟩ | ⟨r, _, _, h⟩
  · rw [h]
    exact ⟨_, rfl, rfl, rfl, .inl rfl⟩
  · rw [h]
    exact ⟨r, hrow, hsame.1, hsame.2, .inr hrow⟩
  · rw [h]
    exact ⟨_, rfl, rfl, rfl, .inl rfl⟩

end Upsert

section Loop

variable {tenantID : UUID} {service actor : String} {at_ : Int}

variable {defs : List (MetricDefinitionInput σ)} {acc acc' : ApplyResult × Definitions σ}

theorem applyDefinition_eq_ok {d : MetricDefinitionInput σ}
    (h : applyDefinition tenantID service actor at_ acc d = .ok acc') :
    d.kind ∈ definitionKinds ∧
      acc'.1 = acc.1.record d.name ((upsertDefinition d actor at_ (acc.2.lookup ⟨tenantID, service, d.name⟩)).map Prod.snd) ∧
      ∀ key, acc'.2.lookup key = if key = ⟨tenantID, service, d.name⟩ then
        upserted d actor at_ (acc.2.lookup key) else acc.2.lookup key := by
  unfold applyDefinition at h
  split at h
  · cases h
  rename_i hkind
  cases h
  refine ⟨not_not.mp hkind, rfl, fun key => ?_⟩
  dsimp only
  by_cases hkey : key = ⟨tenantID, service, d.name⟩
  · rw [if_pos hkey, hkey]
    unfold upserted
    cases upsertDefinition d actor at_ (acc.2.lookup ⟨tenantID, service, d.name⟩) with
    | none => rfl
    | some w => simp
  · rw [if_neg hkey]
    cases upsertDefinition d actor at_ (acc.2.lookup ⟨tenantID, service, d.name⟩) with
    | none => rfl
    | some w => simp [AList.lookup_insert_ne hkey]

/-- The loop over definitions with distinct names: every name is judged by the row
it had before the loop. -/
theorem applyDefinitions_eq_ok (hnames : (defs.map MetricDefinitionInput.name).Nodup)
    (h : defs.foldlM (applyDefinition tenantID service actor at_) acc = .ok acc') :
    acc'.1 = acc.1.recordAll
        (fun d => (upsertDefinition d actor at_ (acc.2.lookup ⟨tenantID, service, d.name⟩)).map Prod.snd) defs ∧
      (∀ d ∈ defs, acc'.2.lookup ⟨tenantID, service, d.name⟩ =
        upserted d actor at_ (acc.2.lookup ⟨tenantID, service, d.name⟩)) ∧
      ∀ key, (∀ d ∈ defs, key ≠ ⟨tenantID, service, d.name⟩) → acc'.2.lookup key = acc.2.lookup key := by
  induction defs generalizing acc with
  | nil =>
    cases h
    exact ⟨rfl, by simp, fun _ _ => rfl⟩
  | cons d rest ih =>
    rw [foldlM_cons, Except.bind_eq_ok_iff] at h
    obtain ⟨acc₁, hfirst, hrest⟩ := h
    obtain ⟨_, hres, hlookup⟩ := applyDefinition_eq_ok hfirst
    rw [map_cons, nodup_cons] at hnames
    obtain ⟨hres', hgiven, hothers⟩ := ih hnames.2 hrest
    have hne : ∀ d' ∈ rest, (⟨tenantID, service, d'.name⟩ : DefinitionKey) ≠ ⟨tenantID, service, d.name⟩ := by
      intro d' hd' heq
      apply hnames.1
      rw [← (DefinitionKey.mk.inj heq).2.2]
      exact mem_map_of_mem hd'
    have hbefore : ∀ d' ∈ rest, acc₁.2.lookup ⟨tenantID, service, d'.name⟩ =
        acc.2.lookup ⟨tenantID, service, d'.name⟩ := by
      intro d' hd'
      rw [hlookup, if_neg (hne d' hd')]
    refine ⟨?_, ?_, ?_⟩
    · rw [hres', hres]
      unfold ApplyResult.recordAll
      rw [foldl_cons]
      refine foldl_ext _ _ _ ?_
      intro res d' hd'
      dsimp only
      rw [hbefore d' hd']
    · rintro d' (_ | ⟨_, hd'⟩)
      · rw [hothers _ (fun d' hd' => (hne d' hd').symm), hlookup, if_pos rfl]
      · rw [hgiven d' hd', hbefore d' hd']
    · intro key hkey
      rw [hothers key (fun d' hd' => hkey d' (mem_cons_of_mem d hd')), hlookup,
        if_neg (hkey d mem_cons_self)]

/-- Definitions whose rows are all active with the same specs change nothing. -/
theorem applyDefinitions_unchanged (res : ApplyResult) {t : Definitions σ}
    (hkinds : ∀ d ∈ defs, d.kind ∈ definitionKinds)
    (hsame : ∀ d ∈ defs, upsertDefinition d actor at_ (t.lookup ⟨tenantID, service, d.name⟩) = none) :
    defs.foldlM (applyDefinition tenantID service actor at_) (res, t) =
      .ok ({ res with unchanged := res.unchanged ++ defs.map MetricDefinitionInput.name }, t) := by
  induction defs generalizing res with
  | nil => simp [pure, Except.pure]
  | cons d rest ih =>
    have hfirst : applyDefinition tenantID service actor at_ (res, t) d =
        .ok ({ res with unchanged := res.unchanged ++ [d.name] }, t) := by
      unfold applyDefinition
      rw [if_neg (not_not.mpr (hkinds d mem_cons_self))]
      dsimp only
      rw [hsame d mem_cons_self]
      rfl
    have hrest := ih { res with unchanged := res.unchanged ++ [d.name] }
      (fun d' hd' => hkinds d' (mem_cons_of_mem d hd')) (fun d' hd' => hsame d' (mem_cons_of_mem d hd'))
    rw [foldlM_cons, hfirst]
    refine Eq.trans hrest ?_
    simp

theorem kinds_of_applyDefinitions (h : defs.foldlM (applyDefinition tenantID service actor at_) acc = .ok acc') :
    ∀ d ∈ defs, d.kind ∈ definitionKinds := by
  induction defs generalizing acc with
  | nil => simp
  | cons d rest ih =>
    rw [foldlM_cons, Except.bind_eq_ok_iff] at h
    obtain ⟨acc₁, hfirst, hrest⟩ := h
    exact forall_mem_cons.mpr ⟨(applyDefinition_eq_ok hfirst).1, ih hrest⟩

/-- The loop only fails on a kind that the table does not allow. -/
theorem exists_applyDefinitions (acc : ApplyResult × Definitions σ) (hkinds : ∀ d ∈ defs, d.kind ∈ definitionKinds) :
    ∃ acc', defs.foldlM (applyDefinition tenantID service actor at_) acc = .ok acc' := by
  induction defs generalizing acc with
  | nil => exact ⟨acc, rfl⟩
  | cons d rest ih =>
    obtain ⟨hkind, hrest⟩ := forall_mem_cons.mp hkinds
    obtain ⟨acc₁, hfirst⟩ : ∃ acc₁, applyDefinition tenantID service actor at_ acc d = .ok acc₁ := by
      unfold applyDefinition
      rw [if_neg (not_not.mpr hkind)]
      exact ⟨_, rfl⟩
    obtain ⟨acc', hok⟩ := ih acc₁ hrest
    rw [foldlM_cons]
    exact ⟨acc', Except.bind_eq_ok_iff.mpr ⟨acc₁, hfirst, hok⟩⟩

end Loop

variable {tenantID : UUID} {service actor : String} {at_ : Int} {defs : List (MetricDefinitionInput σ)}

theorem exists_applyMetricDefinitions (t : Definitions σ) (hkinds : ∀ d ∈ defs, d.kind ∈ definitionKinds) :
    ∃ res t', applyMetricDefinitions tenantID service actor at_ defs t = .ok (res, t') := by
  obtain ⟨looped, hlooped⟩ : ∃ looped, defs.foldlM (applyDefinition tenantID service actor at_) ({}, t) = .ok looped :=
    exists_applyDefinitions _ hkinds
  unfold applyMetricDefinitions
  rw [hlooped]
  exact ⟨_, _, rfl⟩

/-- A successful apply is its loop and its update. -/
theorem applyMetricDefinitions_eq_ok {t t' : Definitions σ} {res : ApplyResult}
    (h : applyMetricDefinitions tenantID service actor at_ defs t = .ok (res, t')) :
    ∃ looped, defs.foldlM (applyDefinition tenantID service actor at_) ({}, t) = .ok looped ∧
      res = { looped.1 with deprecated := (deprecatedNames tenantID service actor at_
        (defs.map MetricDefinitionInput.name) looped.2).insertionSort (· ≤ ·) } ∧
      t' = GoMap.assignSome (deprecateDefinition tenantID service actor at_
        (defs.map MetricDefinitionInput.name)) looped.2 looped.2 := by
  unfold applyMetricDefinitions at h
  rw [Except.bind_eq_ok_iff] at h
  obtain ⟨looped, hlooped, hok⟩ := h
  cases hok
  exact ⟨looped, hlooped, rfl, rfl⟩

/-- What an apply of some definitions leaves of a table, and what it reports. -/
structure ApplyExact (tenantID : UUID) (service : String) (defs : List (MetricDefinitionInput σ)) (t : Definitions σ)
    (res : ApplyResult) (t' : Definitions σ) : Prop where
  active_iff : ∀ name kind spec, (∃ row, t'.lookup ⟨tenantID, service, name⟩ = some row ∧ row.deprecatedAt = none ∧
    row.kind = kind ∧ row.spec = spec) ↔ ⟨name, kind, spec⟩ ∈ defs
  elsewhere : ∀ key : DefinitionKey, ¬ (key.tenantID = tenantID ∧ key.service = service) → t'.lookup key = t.lookup key
  no_delete : ∀ key ∈ t, key ∈ t'
  partitioned : (res.created ++ res.updated ++ res.unchanged).Perm (defs.map MetricDefinitionInput.name)
  created_iff : ∀ name, name ∈ res.created ↔
    name ∈ defs.map MetricDefinitionInput.name ∧ (⟨tenantID, service, name⟩ : DefinitionKey) ∉ t
  unchanged_iff : ∀ name, name ∈ res.unchanged ↔ ∃ d ∈ defs, d.name = name ∧
    ∃ row, t.lookup ⟨tenantID, service, name⟩ = some row ∧ row.deprecatedAt = none ∧ row.spec = d.spec
  untouched : ∀ name ∈ res.unchanged, t'.lookup ⟨tenantID, service, name⟩ = t.lookup ⟨tenantID, service, name⟩
  deprecated_sorted : res.deprecated.Pairwise (· < ·)
  deprecated_iff : ∀ name, name ∈ res.deprecated ↔ name ∉ defs.map MetricDefinitionInput.name ∧
    ∃ row, t.lookup ⟨tenantID, service, name⟩ = some row ∧ row.deprecatedAt = none

section Exact

variable {tenantID : UUID} {service actor : String} {at_ : Int} {defs : List (MetricDefinitionInput σ)}
  {t t' : Definitions σ} {res : ApplyResult} (hnames : (defs.map MetricDefinitionInput.name).Nodup)
  (h : applyMetricDefinitions tenantID service actor at_ defs t = .ok (res, t'))

include hnames h

/-- The row of each key after an apply. -/
theorem lookup_applyMetricDefinitions :
    (∀ d ∈ defs, t'.lookup ⟨tenantID, service, d.name⟩ = upserted d actor at_ (t.lookup ⟨tenantID, service, d.name⟩)) ∧
      (∀ name, name ∉ defs.map MetricDefinitionInput.name → t'.lookup ⟨tenantID, service, name⟩ =
        (t.lookup ⟨tenantID, service, name⟩).map (fun row => if row.deprecatedAt = none then
          { row with deprecatedAt := some at_, updatedAt := at_, updatedBy := actor } else row)) ∧
      ∀ key : DefinitionKey, ¬ (key.tenantID = tenantID ∧ key.service = service) → t'.lookup key = t.lookup key := by
  obtain ⟨looped, hlooped, _, rfl⟩ := applyMetricDefinitions_eq_ok h
  obtain ⟨_, hgiven, hothers⟩ := applyDefinitions_eq_ok hnames hlooped
  refine ⟨fun d hd => ?_, fun name hname => ?_, fun key hkey => ?_⟩
  · have hname : d.name ∈ defs.map MetricDefinitionInput.name := mem_map_of_mem hd
    rw [lookup_deprecated, if_neg (fun hnot => hnot.2.2 hname), hgiven d hd]
  · rw [lookup_deprecated, if_pos ⟨rfl, rfl, hname⟩, hothers]
    rintro d hd heq
    apply hname
    rw [(DefinitionKey.mk.inj heq).2.2]
    exact mem_map_of_mem hd
  · rw [lookup_deprecated, if_neg (fun hin => hkey ⟨hin.1, hin.2.1⟩), hothers]
    rintro d _ rfl
    exact hkey ⟨rfl, rfl⟩

/-- Where kinds follow specs, the given definitions are the active ones, and kinds
still follow specs. -/
theorem active_applyMetricDefinitions {kindOf : σ → String} (hkinds : ∀ d ∈ defs, d.kind = kindOf d.spec)
    (hstored : ∀ key row, t.lookup key = some row → row.kind = kindOf row.spec) :
    (∀ name kind spec, (∃ row, t'.lookup ⟨tenantID, service, name⟩ = some row ∧ row.deprecatedAt = none ∧
      row.kind = kind ∧ row.spec = spec) ↔ ⟨name, kind, spec⟩ ∈ defs) ∧
      ∀ key row, t'.lookup key = some row → row.kind = kindOf row.spec := by
  obtain ⟨hgiven, hmissing, helsewhere⟩ := lookup_applyMetricDefinitions hnames h
  have hrow : ∀ d ∈ defs, ∃ row, t'.lookup ⟨tenantID, service, d.name⟩ = some row ∧ row.deprecatedAt = none ∧
      row.kind = d.kind ∧ row.spec = d.spec := by
    intro d hd
    obtain ⟨row, hrow, hactive, hspec, hkind⟩ :=
      exists_upserted d actor at_ (t.lookup ⟨tenantID, service, d.name⟩)
    refine ⟨row, (hgiven d hd).trans hrow, hactive, ?_, hspec⟩
    rcases hkind with hkind | hbefore
    · exact hkind
    · rw [hstored _ row hbefore, hspec, hkinds d hd]
  refine ⟨fun name kind spec => ⟨?_, fun hd => hrow _ hd⟩, fun key row hkey => ?_⟩
  · rintro ⟨row, hlookup, hactive, rfl, rfl⟩
    by_cases hname : name ∈ defs.map MetricDefinitionInput.name
    · obtain ⟨d, hd, rfl⟩ := mem_map.mp hname
      obtain ⟨row', hlookup', _, hkind, hspec⟩ := hrow d hd
      rw [hlookup] at hlookup'
      cases hlookup'
      rw [hkind, hspec]
      exact hd
    · rw [hmissing name hname, Option.map_eq_some_iff] at hlookup
      obtain ⟨before, _, rfl⟩ := hlookup
      split at hactive
      · cases hactive
      · rename_i hdeprecated
        exact absurd hactive hdeprecated
  · by_cases hservice : key.tenantID = tenantID ∧ key.service = service
    · obtain ⟨keyTenant, keyService, name⟩ := key
      obtain ⟨rfl, rfl⟩ := hservice
      by_cases hname : name ∈ defs.map MetricDefinitionInput.name
      · obtain ⟨d, hd, rfl⟩ := mem_map.mp hname
        obtain ⟨row', hlookup', _, hkind, hspec⟩ := hrow d hd
        rw [hkey] at hlookup'
        cases hlookup'
        rw [hkind, hspec, hkinds d hd]
      · rw [hmissing name hname, Option.map_eq_some_iff] at hkey
        obtain ⟨before, hbefore, rfl⟩ := hkey
        split <;> exact hstored _ before hbefore
    · rw [helsewhere key hservice] at hkey
      exact hstored key row hkey

theorem no_delete_applyMetricDefinitions : ∀ key ∈ t, key ∈ t' := by
  obtain ⟨hgiven, hmissing, helsewhere⟩ := lookup_applyMetricDefinitions hnames h
  intro key hkey
  rw [← AList.lookup_isSome] at hkey ⊢
  by_cases hservice : key.tenantID = tenantID ∧ key.service = service
  · obtain ⟨keyTenant, keyService, name⟩ := key
    obtain ⟨rfl, rfl⟩ := hservice
    by_cases hname : name ∈ defs.map MetricDefinitionInput.name
    · obtain ⟨d, hd, rfl⟩ := mem_map.mp hname
      obtain ⟨row, hrow, _⟩ := exists_upserted d actor at_ (t.lookup ⟨keyTenant, keyService, d.name⟩)
      rw [hgiven d hd, hrow]
      rfl
    · rw [hmissing name hname, Option.isSome_map]
      exact hkey
  · rw [helsewhere key hservice]
    exact hkey

theorem exact_applyMetricDefinitions {kindOf : σ → String} (hkinds : ∀ d ∈ defs, d.kind = kindOf d.spec)
    (hstored : ∀ key row, t.lookup key = some row → row.kind = kindOf row.spec) :
    ApplyExact tenantID service defs t res t' := by
  have hactive := (active_applyMetricDefinitions hnames h hkinds hstored).1
  have hlookup := lookup_applyMetricDefinitions hnames h
  have hno_delete := no_delete_applyMetricDefinitions hnames h
  obtain ⟨looped, hlooped, rfl, _⟩ := applyMetricDefinitions_eq_ok h
  obtain ⟨hres, _, hothers⟩ := applyDefinitions_eq_ok hnames hlooped
  have hunchanged : ∀ name, name ∈ looped.1.unchanged ↔ ∃ d ∈ defs, d.name = name ∧
      ∃ row, t.lookup ⟨tenantID, service, name⟩ = some row ∧ row.deprecatedAt = none ∧ row.spec = d.spec := by
    intro name
    rw [hres, (ApplyResult.mem_recordAll _ _ defs name).2]
    simp only [not_mem_nil, false_or, Option.map_eq_none_iff, upsertDefinition_eq_none_iff]
    constructor <;> rintro ⟨d, hd, rfl, row, hrow⟩ <;> exact ⟨d, hd, rfl, row, hrow⟩
  refine ⟨hactive, hlookup.2.2, hno_delete, ?_, fun name => ?_, hunchanged, ?_, ?_, fun name => ?_⟩
  · have hperm := ApplyResult.recordAll_perm {} (fun d =>
      (upsertDefinition d actor at_ (t.lookup ⟨tenantID, service, d.name⟩)).map Prod.snd) defs
    rw [← hres] at hperm
    simpa using hperm
  · dsimp only
    rw [hres, (ApplyResult.mem_recordAll _ _ defs name).1]
    simp only [not_mem_nil, false_or, upsertDefinition_inserts_iff, AList.lookup_eq_none, mem_map]
    constructor
    · rintro ⟨d, hd, rfl, hnew⟩
      exact ⟨⟨d, hd, rfl⟩, hnew⟩
    · rintro ⟨⟨d, hd, rfl⟩, hnew⟩
      exact ⟨d, hd, rfl, hnew⟩
  · intro name hname
    obtain ⟨d, hd, rfl, hsame⟩ := (hunchanged name).mp hname
    rw [hlookup.1 d hd]
    unfold upserted
    rw [upsertDefinition_eq_none_iff.mpr hsame]
    rfl
  · have hsorted := pairwise_insertionSort (· ≤ ·) (deprecatedNames tenantID service actor at_
      (defs.map MetricDefinitionInput.name) looped.2)
    have hnodup := (perm_insertionSort (· ≤ ·) _).nodup_iff.mpr (nodup_deprecatedNames tenantID service actor at_
      (defs.map MetricDefinitionInput.name) looped.2)
    exact (hsorted.and hnodup).imp (fun hle => lt_of_le_of_ne hle.1 hle.2)
  · dsimp only
    rw [mem_insertionSort, mem_deprecatedNames]
    refine and_congr_right fun hname => ?_
    rw [hothers]
    intro d hd heq
    apply hname
    rw [(DefinitionKey.mk.inj heq).2.2]
    exact mem_map_of_mem hd

/-- Applying the same definitions again changes nothing. -/
theorem applyMetricDefinitions_again (actor' : String) (at' : Int) :
    applyMetricDefinitions tenantID service actor' at' defs t' =
      .ok ({ unchanged := defs.map MetricDefinitionInput.name }, t') := by
  obtain ⟨hgiven, hmissing, _⟩ := lookup_applyMetricDefinitions hnames h
  obtain ⟨looped, hlooped, _⟩ := applyMetricDefinitions_eq_ok h
  have hsame : ∀ d ∈ defs, upsertDefinition d actor' at' (t'.lookup ⟨tenantID, service, d.name⟩) = none := by
    intro d hd
    obtain ⟨row, hrow, hactive, hspec, _⟩ := exists_upserted d actor at_ (t.lookup ⟨tenantID, service, d.name⟩)
    exact upsertDefinition_eq_none_iff.mpr ⟨row, (hgiven d hd).trans hrow, hactive, hspec⟩
  have hinactive : ∀ name row, name ∉ defs.map MetricDefinitionInput.name →
      t'.lookup ⟨tenantID, service, name⟩ = some row → row.deprecatedAt ≠ none := by
    intro name row hname hrow
    rw [hmissing name hname, Option.map_eq_some_iff] at hrow
    obtain ⟨before, _, rfl⟩ := hrow
    split
    · exact Option.some_ne_none _
    · assumption
  have hnone : deprecatedNames tenantID service actor' at' (defs.map MetricDefinitionInput.name) t' = [] := by
    rw [eq_nil_iff_forall_not_mem]
    intro name hmem
    obtain ⟨hname, row, hrow, hactive⟩ := mem_deprecatedNames.mp hmem
    exact hinactive name row hname hrow hactive
  have hkeep : GoMap.assignSome (deprecateDefinition tenantID service actor' at'
      (defs.map MetricDefinitionInput.name)) t' t' = t' := by
    apply GoMap.assignSome_eq_self
    intro key row hrow
    rw [← Option.not_isSome_iff_eq_none, isSome_deprecateDefinition_iff]
    rintro ⟨rfl, rfl, hactive, hname⟩
    exact hinactive key.name row hname hrow hactive
  unfold applyMetricDefinitions
  rw [applyDefinitions_unchanged {} (kinds_of_applyDefinitions hlooped) hsame]
  change Except.ok (_, _) = _
  rw [hnone, hkeep]
  rfl

end Exact

end argvio.storage
