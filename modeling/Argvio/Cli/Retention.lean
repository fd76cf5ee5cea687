import Argvio.Storage.SweepStatements

open argvio.storage List

namespace argvio.cli

/-- The retention columns of a row of tenant_config. -/
structure RetentionConfig where
  retentionTracesDays : Option Int
  retentionLogsDays : Option Int
  retentionMetricsDays : Option Int

/-- `ListRetentionOverrides`: the rows that set a window for some signal. The key of
tenant_config is the tenant. -/
def listRetentionOverrides (configs : GoMap UUID RetentionConfig) : List (UUID × RetentionConfig) :=
  (configs.entries.filter (fun e => e.2.retentionTracesDays.isSome ∨ e.2.retentionLogsDays.isSome ∨
    e.2.retentionMetricsDays.isSome)).map (fun e => (e.1, e.2))

/-- What makes a retention run stop. -/
inductive RetentionError where
  | signals (cause : String)
  | tenant (tenant : UUID) (cause : String)
  | installs (cause : String)

/-- The sweep of the installs of each tenant with a logs override. -/
def overrideSweeps (overrides : List (UUID × RetentionConfig)) : List (UUID × Int) :=
  overrides.filterMap (fun cfg => cfg.2.retentionLogsDays.map (fun days => (cfg.1, days)))

/-- The sweeps of install state of a run, in order: one for each tenant with a logs
override, then one for all other tenants. -/
def installSweeps (overrides : List (UUID × RetentionConfig)) (defaultLogsDays : Int) : List (SweepScope × Int) :=
  (overrideSweeps overrides).map (fun s => (.only s.1, s.2)) ++
    [(.except ((overrideSweeps overrides).map Prod.fst), defaultLogsDays)]

def RetentionError.of (scope : SweepScope) (cause : String) : RetentionError :=
  match scope with
  | .only t => .tenant t cause
  | .except _ => .installs cause

/-- Sweeps one after another, each at its own time, up to the first that fails; those
before it stay committed. -/
def runSweeps (now : Nat → Int) : Nat → List (SweepScope × Int) → SweptTables → SweptTables × Except RetentionError Nat
  | _, [], db => (db, .ok 0)
  | i, (scope, days) :: rest, db =>
    match sweepInstalls scope days (now i) db with
    | .error cause => (db, .error (.of scope cause))
    | .ok (db, deleted) =>
      let result := runSweeps now (i + 1) rest db
      (result.1, result.2.map (fun total => deleted + total))

/-- `argvio retention sweep`, where `signals` sweeps the telemetry tables of the
overrides and `now i` is the time of the sweep at position `i`. -/
def retentionSweep (signals : List (UUID × RetentionConfig) → Except String Nat) (configs : GoMap UUID RetentionConfig)
    (defaultLogsDays : Int) (now : Nat → Int) (db : SweptTables) : SweptTables × Except RetentionError Nat :=
  let overrides := listRetentionOverrides configs
  match signals overrides with
  | .error cause => (db, .error (.signals cause))
  | .ok deleted =>
    let result := runSweeps now 0 (installSweeps overrides defaultLogsDays) db
    (result.1, result.2.map (fun total => deleted + total))

section Scopes

variable {configs : GoMap UUID RetentionConfig} {overrides : List (UUID × RetentionConfig)} {tenant : UUID} {days : Int}

theorem nodup_listRetentionOverrides (configs : GoMap UUID RetentionConfig) :
    ((listRetentionOverrides configs).map Prod.fst).Nodup := by
  unfold listRetentionOverrides
  rw [map_map]
  have hnodup : (configs.entries.map Sigma.fst).Nodup := configs.nodupKeys
  exact hnodup.sublist (filter_sublist.map _)

theorem overrideSweeps_sublist (overrides : List (UUID × RetentionConfig)) :
    ((overrideSweeps overrides).map Prod.fst).Sublist (overrides.map Prod.fst) := by
  unfold overrideSweeps
  induction overrides with
  | nil => exact .refl _
  | cons cfg rest ih =>
    cases hdays : cfg.2.retentionLogsDays with
    | none =>
      rw [filterMap_cons_none (by simp [hdays])]
      exact ih.cons _
    | some days =>
      rw [filterMap_cons_some (b := (cfg.1, days)) (by simp [hdays])]
      exact ih.cons_cons _

/-- A tenant is swept on its own when it has a logs override, for as long as it says. -/
theorem mem_overrideSweeps :
    (tenant, days) ∈ overrideSweeps (listRetentionOverrides configs) ↔
      (configs.lookup tenant).bind RetentionConfig.retentionLogsDays = some days := by
  rw [Option.bind_eq_some_iff]
  unfold overrideSweeps listRetentionOverrides
  constructor
  · intro hmem
    obtain ⟨⟨t, cfg⟩, hcfg, hdays⟩ := mem_filterMap.mp hmem
    obtain ⟨e, he, heq⟩ := mem_map.mp hcfg
    cases heq
    obtain ⟨d, hd, hpair⟩ := Option.map_eq_some_iff.mp hdays
    cases hpair
    exact ⟨e.2, AList.mem_lookup_iff.mpr (mem_filter.mp he).1, hd⟩
  · rintro ⟨cfg, hlookup, hdays⟩
    have hentry := AList.mem_lookup_iff.mp hlookup
    refine mem_filterMap.mpr ⟨(tenant, cfg), mem_map.mpr ⟨⟨tenant, cfg⟩, ?_, rfl⟩, by simp [hdays]⟩
    exact mem_filter.mpr ⟨hentry, by simp [hdays]⟩

theorem mem_tenants_iff : tenant ∈ (overrideSweeps (listRetentionOverrides configs)).map Prod.fst ↔
    ∃ days, (configs.lookup tenant).bind RetentionConfig.retentionLogsDays = some days := by
  simp only [mem_map, ← mem_overrideSweeps]
  exact ⟨fun ⟨s, hs, heq⟩ => ⟨s.2, heq ▸ hs⟩, fun ⟨days, hs⟩ => ⟨(tenant, days), hs, rfl⟩⟩

/-- Every tenant is selected by exactly one sweep of a run. -/
theorem countP_selects (configs : GoMap UUID RetentionConfig) (defaultLogsDays : Int) (tenant : UUID) :
    (installSweeps (listRetentionOverrides configs) defaultLogsDays).countP (fun s => s.1.selects tenant) = 1 := by
  have hnodup := (nodup_listRetentionOverrides configs).sublist (overrideSweeps_sublist _)
  have honly : ∀ sweeps : List (UUID × Int),
      (sweeps.map (fun s => ((SweepScope.only s.1, s.2) : SweepScope × Int))).countP (fun s => s.1.selects tenant) =
        (sweeps.map Prod.fst).count tenant := by
    intro sweeps
    rw [countP_map, count, countP_map]
    refine countP_congr fun s _ => ?_
    simp only [SweepScope.selects, Function.comp_apply, decide_eq_true_eq, beq_iff_eq]
    exact eq_comm
  unfold installSweeps
  rw [countP_append, honly]
  by_cases hmem : tenant ∈ (overrideSweeps (listRetentionOverrides configs)).map Prod.fst
  · rw [count_eq_one_of_mem hnodup hmem]
    simp only [countP_singleton, SweepScope.selects, not_true_eq_false, hmem, decide_false]
    rfl
  · rw [count_eq_zero_of_not_mem hmem]
    simp [SweepScope.selects, hmem]

/-- The one sweep for a tenant goes by its logs override, or by the default. -/
theorem days_of_selects {defaultLogsDays : Int} {scope : SweepScope}
    (hmem : (scope, days) ∈ installSweeps (listRetentionOverrides configs) defaultLogsDays)
    (hselects : scope.selects tenant = true) :
    days = ((configs.lookup tenant).bind RetentionConfig.retentionLogsDays).getD defaultLogsDays := by
  unfold installSweeps at hmem
  rcases mem_append.mp hmem with honly | hexcept
  · obtain ⟨s, hs, heq⟩ := mem_map.mp honly
    cases heq
    have htenant : tenant = s.1 := of_decide_eq_true hselects
    rw [htenant, mem_overrideSweeps.mp hs]
    rfl
  · cases mem_singleton.mp hexcept
    have hnot := of_decide_eq_true hselects
    rw [mem_tenants_iff] at hnot
    rw [Option.eq_none_iff_forall_ne_some.mpr fun days h => hnot ⟨days, h⟩]
    rfl

end Scopes

section Runs

variable {now : Nat → Int} {tenant : UUID}

variable {db after : SweptTables} {total : Nat}

theorem runSweeps_cons {i : Nat} {scope : SweepScope} {days : Int} {rest : List (SweepScope × Int)}
    (h : runSweeps now i ((scope, days) :: rest) db = (after, .ok total)) :
    ∃ n, runSweeps now (i + 1) rest (db.sweepBefore scope (sweepCutoff days (now i))) = (after, .ok n) := by
  simp only [runSweeps] at h
  split at h
  · cases h
  rename_i swept deleted hsweep
  have hswept : swept = db.sweepBefore scope (sweepCutoff days (now i)) := by
    unfold sweepInstalls at hsweep
    split at hsweep
    · cases hsweep
    · cases hsweep
      rfl
  rw [← hswept]
  generalize runSweeps now (i + 1) rest swept = result at h
  obtain ⟨db', total'⟩ := result
  cases total' with
  | error e => cases h
  | ok n =>
    cases h
    exact ⟨n, rfl⟩

/-- Sweeps that are not for a tenant leave its rows. -/
theorem rowsOf_runSweeps_of_none {sweeps : List (SweepScope × Int)} {i : Nat}
    (h : runSweeps now i sweeps db = (after, .ok total)) (hnone : sweeps.countP (fun s => s.1.selects tenant) = 0) :
    after.rowsOf tenant = db.rowsOf tenant := by
  induction sweeps generalizing i db total with
  | nil =>
    cases h
    rfl
  | cons sweep rest ih =>
    obtain ⟨scope, days⟩ := sweep
    obtain ⟨n, hrest⟩ := runSweeps_cons h
    rw [countP_eq_zero] at hnone ih
    have hscope : ¬ scope.selects tenant = true := hnone _ mem_cons_self
    rw [ih hrest fun s hs => hnone s (mem_cons_of_mem _ hs), rowsOf_sweepBefore, if_neg hscope]

/-- A run with one sweep for a tenant does to its rows what that sweep does. -/
theorem rowsOf_runSweeps {sweeps : List (SweepScope × Int)} {i : Nat}
    (h : runSweeps now i sweeps db = (after, .ok total)) (hone : sweeps.countP (fun s => s.1.selects tenant) = 1) :
    ∃ j scope days, (scope, days) ∈ sweeps ∧ scope.selects tenant = true ∧
      after.rowsOf tenant = (db.rowsOf tenant).sweepBefore (sweepCutoff days (now j)) := by
  induction sweeps generalizing i db total with
  | nil => cases hone
  | cons sweep rest ih =>
    obtain ⟨scope, days⟩ := sweep
    obtain ⟨n, hrest⟩ := runSweeps_cons h
    by_cases hscope : scope.selects tenant = true
    · simp only [countP_cons, hscope, if_true] at hone
      refine ⟨i, scope, days, mem_cons_self, hscope, ?_⟩
      rw [rowsOf_runSweeps_of_none hrest (by omega), rowsOf_sweepBefore, if_pos hscope]
    · simp only [countP_cons, hscope] at hone
      obtain ⟨j, scope', days', hmem, hselects, hrows⟩ := ih hrest hone
      refine ⟨j, scope', days', mem_cons_of_mem _ hmem, hselects, ?_⟩
      rw [hrows, rowsOf_sweepBefore, if_neg hscope]

end Runs

/-- What a sweep deletes, what it leaves and what it returns; and a retention run
sweeps every tenant exactly once, by its own window. -/
theorem retention_sweeps :
    (∀ db scope cutoff, let after := (sweepTransaction scope cutoff db).1
      (∀ tenant, scope.selects tenant = true → (db.rowsOf tenant).SweepPost cutoff (after.rowsOf tenant) ∧
        (db.rowsOf tenant).SweepFrame cutoff (after.rowsOf tenant)) ∧
      (∀ tenant, scope.selects tenant = false → after.rowsOf tenant = db.rowsOf tenant) ∧
      (sweepTransaction scope cutoff db).2 = db.installs.keys.countP (fun k => (after.installs.lookup k).isNone)) ∧
    (∀ scope days now db, 0 < days →
      sweepInstalls scope days now db = .ok (sweepTransaction scope (sweepCutoff days now) db)) ∧
    (∀ configs defaultLogsDays tenant,
      (installSweeps (listRetentionOverrides configs) defaultLogsDays).countP (fun s => s.1.selects tenant) = 1) ∧
    ∀ signals configs defaultLogsDays now db after total,
      retentionSweep signals configs defaultLogsDays now db = (after, .ok total) →
      ∀ tenant, ∃ i, after.rowsOf tenant = (db.rowsOf tenant).sweepBefore
        (sweepCutoff (((configs.lookup tenant).bind RetentionConfig.retentionLogsDays).getD defaultLogsDays) (now i)) := by
  refine ⟨fun db scope cutoff => ?_, fun scope days now db hdays => sweepInstalls_eq hdays now db, countP_selects, ?_⟩
  · rw [sweepTransaction_eq]
    refine ⟨fun tenant hselects => ?_, fun tenant hselects => ?_, countP_outdated db scope cutoff⟩
    · rw [rowsOf_sweepBefore, if_pos hselects]
      exact ⟨sweepPost _ cutoff, sweepFrame _ cutoff⟩
    · rw [rowsOf_sweepBefore, if_neg (Bool.eq_false_iff.mp hselects)]
  intro signals configs defaultLogsDays now db after total h tenant
  unfold retentionSweep at h
  dsimp only at h
  split at h
  · cases h
  have hrun : ∃ n, runSweeps now 0 (installSweeps (listRetentionOverrides configs) defaultLogsDays) db =
      (after, .ok n) := by
    generalize runSweeps now 0 (installSweeps (listRetentionOverrides configs) defaultLogsDays) db = result at h
    obtain ⟨db', total'⟩ := result
    cases total' with
    | error e => cases h
    | ok n =>
      cases h
      exact ⟨n, rfl⟩
  obtain ⟨n, hrun⟩ := hrun
  obtain ⟨j, scope, days, hmem, hselects, hrows⟩ :=
    rowsOf_runSweeps hrun (countP_selects configs defaultLogsDays tenant)
  rw [days_of_selects hmem hselects] at hrows
  exact ⟨j, hrows⟩

/-- A tenant that keeps its logs for 30 days, with an install last seen 40 days ago. -/
theorem retention_sweeps_override :
    let db := SweptTables.ofInstall ⟨1, "i"⟩ (seenAt 0)
    let configs : GoMap UUID RetentionConfig := (∅ : GoMap UUID RetentionConfig).insert 1 ⟨none, some 30, none⟩
    let run := retentionSweep (fun _ => .ok 0) configs 90 (fun _ => 40 * 24 * hour) db
    run = (run.1, .ok 1) ∧ (run.1.rowsOf 1).installs "i" = none := by
  intro db configs run
  have hrun : run = (run.1, .ok 1) := rfl
  refine ⟨hrun, ?_⟩
  obtain ⟨i, hrows⟩ := retention_sweeps.2.2.2 _ configs 90 _ db run.1 1 hrun 1
  rw [hrows]
  rfl

end argvio.cli
