import Argvio.Storage.Installs
import Argvio.Storage.Values

open groupby List

namespace argvio.storage

/-- What the query of a tenant reads: the logs, `installs` and `install_version_changes`. An attribute
is read as text by `render`, and `cli.command.duration_ms` where it is a number by `duration`. -/
structure RunTables where
  tenant : UUID
  logs : LogTable
  installs : List (InstallKey × InstallState)
  changes : List (InstallKey × VersionChange)
  render : allowlist.AttrValue → String
  duration : StoredLog → Option ℚ

/-- The first run of an install in a span of time is cold. -/
structure ColdAnchor where
  install : String
  at_ : Int
  until_ : Int

structure RunLatency where
  runCount : ℕ
  p50 : Option ℚ
  p95 : Option ℚ
  p99 : Option ℚ

structure ColdWarmLatencyPoint where
  bucket : Int
  commandName : String
  cold : RunLatency
  warm : RunLatency

/-- `ORDER BY rank LIMIT 1`. -/
def first {α β : Type} [LinearOrder β] (rank : α → β) (l : List α) : Option α := l.argmin rank

namespace RunTables

section Query

variable (db : RunTables)

/-- The completed commands of an install, of any name and with or without a duration. -/
def completedBy (install : String) (l : StoredLog) : Bool :=
  l.tenantID = db.tenant && l.eventName = eventCommandCompleted &&
    l.logAttributes.jsonText db.render attrInstallID = some install

def anchors (to_ : Int) : List ColdAnchor :=
  (db.installs.filterMap (fun row => row.2.firstCommandAt.bind (fun first =>
    if row.1.tenant = db.tenant ∧ first < to_ then some ⟨row.1.id, first, first + 1⟩ else none))) ++
  (db.changes.filter (fun row => row.1.tenant = db.tenant ∧ row.2.at_ < to_)).map
    (fun row => ⟨row.1.id, row.2.at_, to_⟩)

def coldRun (a : ColdAnchor) : Option StoredLog :=
  first (fun l => placeOf l.time l.id)
    (db.logs.rows.filter (fun l => db.completedBy a.install l && decide (a.at_ ≤ l.time ∧ l.time < a.until_)))

/-- Whether the join with `cold` finds the row of an anchor. -/
def makesCold (run : StoredLog) (a : ColdAnchor) : Bool :=
  (db.coldRun a).any (fun c => c.id = run.id ∧ c.time = run.time)

def isCold (to_ : Int) (run : StoredLog) : Bool := (db.anchors to_).any (db.makesCold run)

-- `percentile` is `approx_percentile`.
variable (percentile : ℚ → List ℚ → Option ℚ) (bucketExpr : Int → Int)

def selectsRun (f : Filters) (run : StoredLog) : Bool :=
  sessionEventPredicates db.tenant f run && run.commandName.isSome && (db.duration run).any (0 ≤ ·)

def runLatency (runs : List StoredLog) : RunLatency :=
  let durations := runs.filterMap db.duration
  ⟨runs.length, percentile 0.5 durations, percentile 0.95 durations, percentile 0.99 durations⟩

/-- The page of selected runs, where `cold` classes them. -/
def latencyPoints (cold : StoredLog → Bool) (f : Filters) : Except String (List ColdWarmLatencyPoint) :=
  if f.offset < 0 then .error "storage: cold/warm latency: ERROR: OFFSET must not be negative (SQLSTATE 2201X)"
  else
    let runs := db.logs.rows.filter (db.selectsRun f)
    let key (run : StoredLog) : Int ×ₗ String := toLex (bucketExpr run.time, run.commandName.getD "")
    .ok (page f.offset.toNat (clampLimit f.limit).toNat ((keys key runs).map (fun k =>
      { bucket := (ofLex k).1
        commandName := (ofLex k).2
        cold := db.runLatency percentile ((group key runs k).filter cold)
        warm := db.runLatency percentile ((group key runs k).filter (fun run => !cold run)) })))

def coldWarmLatency (f : Filters) : Except String (List ColdWarmLatencyPoint) :=
  db.latencyPoints percentile bucketExpr (db.isCold f.to_) f

/-- The first completed command of an install, by time and id, among those of some times. -/
structure FirstRun (install : String) (times : Int → Prop) (run : StoredLog) : Prop where
  mem : run ∈ db.logs.rows
  completed : db.completedBy install run = true
  time : times run.time
  first : ∀ l ∈ db.logs.rows, db.completedBy install l = true → times l.time →
    placeOf run.time run.id ≤ placeOf l.time l.id

/-- A run that is the first one at the microsecond of an install's first command, or at or after one
of its version changes. -/
def Cold (run : StoredLog) : Prop :=
  (∃ row ∈ db.installs, row.1.tenant = db.tenant ∧
    ∃ first ∈ row.2.firstCommandAt, db.FirstRun row.1.id (· = first) run) ∨
  ∃ row ∈ db.changes, row.1.tenant = db.tenant ∧ db.FirstRun row.1.id (row.2.at_ ≤ ·) run

end Query

variable {db : RunTables} {run run' : StoredLog} {a : ColdAnchor} {install : String} {times times' : Int → Prop}

theorem tenantID_of_completedBy (h : db.completedBy install run = true) : run.tenantID = db.tenant := by
  simp only [completedBy, Bool.and_eq_true, decide_eq_true_eq] at h
  exact h.1.1

theorem coldRun_eq_some (h : db.coldRun a = some run) :
    db.FirstRun a.install (fun t => a.at_ ≤ t ∧ t < a.until_) run := by
  have hmem := argmin_mem h
  simp only [mem_filter, Bool.and_eq_true, decide_eq_true_eq] at hmem
  refine ⟨hmem.1, hmem.2.1, hmem.2.2, fun l hl hcompleted htime => ?_⟩
  exact le_of_mem_argmin (mem_filter.mpr ⟨hl, by simp [hcompleted, htime]⟩) h

/-- A time and an id tell the runs of a tenant apart. -/
theorem eq_of_place (hrun : run ∈ db.logs.rows) (hrun' : run' ∈ db.logs.rows) (htenant : run.tenantID = run'.tenantID)
    (hid : run.id = run'.id) (htime : run.time = run'.time) : run = run' :=
  inj_on_of_nodup_map db.logs.primaryKey hrun hrun' (by rw [htenant, hid, htime])

theorem FirstRun.unique (h : db.FirstRun install times run) (h' : db.FirstRun install times run') : run = run' := by
  have hplace := le_antisymm (h.first _ h'.mem h'.completed h'.time) (h'.first _ h.mem h.completed h.time)
  obtain ⟨htime, hid⟩ := Prod.mk.inj (toLex.injective hplace)
  refine eq_of_place h.mem h'.mem ?_ (BitVec.eq_of_toNat_eq hid) htime
  rw [tenantID_of_completedBy h.completed, tenantID_of_completedBy h'.completed]

/-- A first run stays the first one when the only times that are added are later. -/
theorem FirstRun.of_later (h : db.FirstRun install times run) (htime : times' run.time)
    (hlater : ∀ t, times' t → times t ∨ run.time < t) : db.FirstRun install times' run where
  mem := h.mem
  completed := h.completed
  time := htime
  first l hl hcompleted ht := by
    rcases hlater l.time ht with hold | hlt
    · exact h.first l hl hcompleted hold
    · exact (Prod.Lex.toLex_lt_toLex.mpr (.inl hlt)).le

theorem FirstRun.coldRun_eq (h : db.FirstRun a.install (fun t => a.at_ ≤ t ∧ t < a.until_) run) :
    db.coldRun a = some run := by
  cases hcold : db.coldRun a with
  | some c => rw [(coldRun_eq_some hcold).unique h]
  | none =>
    have hmem := not_mem_nil (a := run)
    rw [← argmin_eq_none.mp hcold, mem_filter] at hmem
    exact absurd ⟨h.mem, by simp [h.completed, h.time]⟩ hmem

theorem makesCold_iff (hmem : run ∈ db.logs.rows) (htenant : run.tenantID = db.tenant) :
    db.makesCold run a = true ↔ db.FirstRun a.install (fun t => a.at_ ≤ t ∧ t < a.until_) run := by
  simp only [makesCold, Option.any_eq_true, decide_eq_true_eq]
  constructor
  · rintro ⟨c, hc, hid, htime⟩
    have hfirst := coldRun_eq_some hc
    have hsame := (tenantID_of_completedBy hfirst.completed).trans htenant.symm
    rwa [← eq_of_place hfirst.mem hmem hsame hid htime]
  · exact fun h => ⟨run, h.coldRun_eq, rfl, rfl⟩

/-- The end of the window cuts off only what comes after the run. -/
theorem isCold_iff {to_ : Int} (hmem : run ∈ db.logs.rows) (htenant : run.tenantID = db.tenant) (hto : run.time < to_) :
    db.isCold to_ run = true ↔ db.Cold run := by
  simp only [isCold, any_eq_true, makesCold_iff hmem htenant, anchors, mem_append, mem_filterMap, mem_map,
    mem_filter, Option.bind_eq_some_iff, Option.ite_none_right_eq_some, Option.some.injEq, decide_eq_true_eq]
  constructor
  · rintro ⟨a, ⟨row, hrow, first, hsome, ⟨ht, -⟩, rfl⟩ | ⟨row, ⟨hrow, ht, -⟩, rfl⟩, hfirst⟩
    · refine .inl ⟨row, hrow, ht, first, hsome, hfirst.of_later ?_ ?_⟩
      · exact le_antisymm (Int.lt_add_one_iff.mp hfirst.time.2) hfirst.time.1
      · rintro t rfl
        exact .inl ⟨le_rfl, Int.lt_succ _⟩
    · refine .inr ⟨row, hrow, ht, hfirst.of_later hfirst.time.1 (fun t hat => ?_)⟩
      exact (lt_or_ge t to_).imp (⟨hat, ·⟩) hto.trans_le
  · rintro (⟨row, hrow, ht, first, hsome, hfirst⟩ | ⟨row, hrow, ht, hfirst⟩)
    · have htime := hfirst.time
      refine ⟨_, .inl ⟨row, hrow, first, hsome, ⟨ht, htime ▸ hto⟩, rfl⟩, hfirst.of_later ?_ ?_⟩
      · exact ⟨htime.ge, Int.lt_add_one_iff.mpr htime.le⟩
      · exact fun t hspan => .inl (le_antisymm (Int.lt_add_one_iff.mp hspan.2) hspan.1)
    · refine ⟨_, .inr ⟨row, ⟨hrow, ht, hfirst.time.trans_lt hto⟩, rfl⟩, ?_⟩
      exact hfirst.of_later ⟨hfirst.time, hto⟩ (fun t hspan => .inl hspan.1)

end RunTables

open Classical in
/-- One classification of the runs serves every filter and window, and an anchor makes at most one
run cold. -/
theorem coldness_unfiltered (db : RunTables) :
    ∃ cold : StoredLog → Bool, (∀ run, cold run = true ↔ db.Cold run) ∧
      (∀ f, ∀ run ∈ db.logs.rows, db.selectsRun f run = true → db.isCold f.to_ run = cold run) ∧
      (∀ percentile bucketExpr f, db.coldWarmLatency percentile bucketExpr f =
        db.latencyPoints percentile bucketExpr cold f) ∧
      ∀ a, {run | run ∈ db.logs.rows ∧ run.tenantID = db.tenant ∧ db.makesCold run a = true}.Subsingleton := by
  have hselected (f : Filters) (run : StoredLog) (hmem : run ∈ db.logs.rows) (h : db.selectsRun f run = true) :
      db.isCold f.to_ run = decide (db.Cold run) := by
    simp only [RunTables.selectsRun, Bool.and_eq_true] at h
    have htenant := tenantID_of_sessionEventPredicates h.1.1
    have hto : run.time < f.to_ := by grind [sessionEventPredicates]
    rw [Bool.eq_iff_iff, RunTables.isCold_iff hmem htenant hto, decide_eq_true_eq]
  refine ⟨fun run => decide (db.Cold run), fun run => decide_eq_true_iff, hselected, ?_, ?_⟩
  · intro percentile bucketExpr f
    unfold RunTables.coldWarmLatency RunTables.latencyPoints
    refine if_congr Iff.rfl rfl (congrArg (Except.ok ∘ page _ _) (map_congr_left (fun k _ => ?_)))
    have hclass (key : StoredLog → Int ×ₗ String) (run : StoredLog)
        (h : run ∈ group key (db.logs.rows.filter (db.selectsRun f)) k) :=
      have hrun := mem_filter.mp (mem_filter.mp h).1
      hselected f run hrun.1 hrun.2
    rw [filter_congr (hclass _), filter_congr (fun run h => congrArg not (hclass _ run h))]
  · rintro a run ⟨hmem, htenant, hcold⟩ run' ⟨hmem', htenant', hcold'⟩
    exact ((RunTables.makesCold_iff hmem htenant).mp hcold).unique ((RunTables.makesCold_iff hmem' htenant').mp hcold')

/-- The first command of the install `i` is `init`, and it changes its version before `test`. -/
def hourRuns : RunTables where
  tenant := 1
  logs := hourTable
  installs := [(⟨1, "i"⟩, ⟨0, 3600000000, none, none, none, none, none, some 0, none⟩)]
  changes := [(⟨1, "i"⟩, ⟨100000000, "1.0.0", "2.0.0", true⟩)]
  render := allowlist.AttrValue.goType
  duration _ := some 0

/-- The first command after the change is cold, also where no other command is selected. -/
theorem coldness_unfiltered_hour :
    ∃ cold : StoredLog → Bool, cold (completedLog 3600 4 "test") = true ∧ cold (completedLog 20 2 "build") = false ∧
      ∀ percentile bucketExpr f, hourRuns.coldWarmLatency percentile bucketExpr f =
        hourRuns.latencyPoints percentile bucketExpr cold f := by
  obtain ⟨cold, -, hcold, hpage, -⟩ := coldness_unfiltered hourRuns
  have htest : completedLog 3600 4 "test" ∈ hourRuns.logs.rows := by simp [hourRuns, hourTable, hourOfLogs]
  have hbuild : completedLog 20 2 "build" ∈ hourRuns.logs.rows := by simp [hourRuns, hourTable, hourOfLogs]
  refine ⟨cold, ?_, ?_, hpage⟩
  · rw [← hcold { wholeHour with commandNames := ["test"] } _ htest (by decide)]
    decide
  · rw [← hcold wholeHour _ hbuild (by decide)]
    decide

end argvio.storage
