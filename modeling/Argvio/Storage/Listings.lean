import Argvio.PagedOrder
import Argvio.Storage.Reach

open List

namespace argvio.storage

open groupby tiedorder

section Traces

/-- The filters that the span list reads. -/
structure TraceFilters extends Filters where
  exitCode : Option Int := none
  attrs : GoMap String String := ∅
  attrContains : GoMap String String := ∅
  attrIn : GoMap String (List String) := ∅
  attrRegex : GoMap String String := ∅

/-- The same filters for another page. -/
def TraceFilters.paged (f : TraceFilters) (limit offset : Int) : TraceFilters :=
  { f with limit := limit, offset := offset }

/-- The regular expressions of the database: why a pattern does not compile, and what it matches. -/
structure PgRegex where
  compileError : String → Option String
  isMatch : String → String → Bool

structure TraceSummary where
  time : Int
  traceID : String
  spanID : String
  spanName : String
  durationMs : GoFloat
  statusCode : Int
  statusMessage : Option String
  commandName : Option String
  exitCode : Option Int
  cliVersion : Option String
  os : Option String
  arch : Option String
  isCI : Option Bool
  consentTier : String
  deriving DecidableEq

def TraceRow.summary (row : TraceRow) : TraceSummary where
  time := row.time
  traceID := row.traceID
  spanID := row.spanID
  spanName := row.spanName
  durationMs := row.durationMs
  statusCode := row.statusCode
  statusMessage := row.statusMessage
  commandName := row.commandName
  exitCode := row.exitCode
  cliVersion := row.cliVersion
  os := row.os
  arch := row.arch
  isCI := row.isCI
  consentTier := row.consentTier

/-- The traces table with its primary key. -/
structure TraceTable where
  rows : List TraceRow
  primaryKey : (rows.map (fun row => (row.tenantID, row.time, row.traceID, row.spanID))).Nodup

inductive ListError where
  | invalidRegex (message : String)
  | negativeOffset
  deriving DecidableEq

def ListError.text : ListError → String
  | .invalidRegex message => "storage: invalid regular expression: " ++ message
  | .negativeOffset => "storage: list traces: ERROR: OFFSET must not be negative (SQLSTATE 2201X)"

variable (pg : PgRegex) (render : allowlist.AttrValue → String) (tenant : UUID)

def checkRegex (pattern : String) : Except ListError Unit :=
  match pg.compileError pattern with
  | some message => .error (.invalidRegex message)
  | none => .ok ()

/-- The condition of the span list, on a row. -/
def tracePredicates (f : TraceFilters) (row : TraceRow) : Bool :=
  let text := row.spanAttributes.jsonText render
  row.tenantID = tenant && decide (f.from_ ≤ row.time) && decide (row.time < f.to_) &&
    ifAnyStr f.cliVersions row.cliVersion && ifAnyStr f.oses row.os && ifAnyStr f.arches row.arch &&
    ifAnyStr f.commandNames row.commandName && f.exitCode.all (row.exitCode = some ·) &&
    f.isCI.all (row.isCI = some ·) && f.attrs.entries.all (fun e => text e.1 = some e.2) &&
    f.attrContains.entries.all (fun e => (text e.1).any (fun v => decide (e.2.toList <:+: v.toList))) &&
    f.attrIn.entries.all (fun e => anyOf e.2 (text e.1)) &&
    f.attrRegex.entries.all (fun e => (text e.1).any (pg.isMatch e.2))

def TraceTable.matching (table : TraceTable) (f : TraceFilters) : List TraceRow :=
  table.rows.filter (tracePredicates pg render tenant f)

/-- What `ORDER BY time DESC` goes by. -/
def TraceRow.newestFirst (row : TraceRow) : Intᵒᵈ := OrderDual.toDual row.time

/-- A page of the span list, from the matching rows in the order of the database. -/
def listTraces (f : TraceFilters) (sorted : List TraceRow) : Except ListError (List TraceSummary) := do
  f.attrRegex.entries.forM (fun e => checkRegex pg e.2)
  if f.offset < 0 then throw .negativeOffset
  pure ((page f.offset.toNat (clampLimit f.limit).toNat sorted).map TraceRow.summary)

variable {pg render tenant} {table : TraceTable} {f : TraceFilters}

theorem TraceTable.nodup_matching : (table.matching pg render tenant f).Nodup := table.primaryKey.of_map.filter _

/-- Within a tenant, the columns that are listed tell the rows apart. -/
theorem TraceTable.summary_inj :
    ∀ x ∈ table.matching pg render tenant f, ∀ y ∈ table.matching pg render tenant f, x.summary = y.summary → x = y := by
  have htenant : ∀ x ∈ table.matching pg render tenant f, x ∈ table.rows ∧ x.tenantID = tenant := by
    intro x hx
    obtain ⟨hrow, hpred⟩ := mem_filter.mp hx
    unfold tracePredicates at hpred
    simp only [Bool.and_eq_true, decide_eq_true_eq] at hpred
    exact ⟨hrow, by tauto⟩
  intro x hx y hy hsummary
  have htime : x.time = y.time := congrArg TraceSummary.time hsummary
  have htrace : x.traceID = y.traceID := congrArg TraceSummary.traceID hsummary
  have hspan : x.spanID = y.spanID := congrArg TraceSummary.spanID hsummary
  refine inj_on_of_nodup_map table.primaryKey (htenant x hx).1 (htenant y hy).1 ?_
  rw [(htenant x hx).2, (htenant y hy).2, htime, htrace, hspan]

end Traces

section Cohort

structure CohortPoint where
  bucket : Int
  cliVersion : Option String
  os : Option String
  arch : Option String
  sessionCount : Int
  deriving DecidableEq

inductive CohortError where
  | bucket (err : QueryError)
  | negativeOffset
  deriving DecidableEq

def CohortError.text (isPrint : Char → Bool) : CohortError → String
  | .bucket err => err.text isPrint
  | .negativeOffset => "storage: session cohort: ERROR: OFFSET must not be negative (SQLSTATE 2201X)"

variable (dateTrunc : Bucket → Int → Int) (tenant : UUID) (f : Filters)

/-- What the rows of the session rollup are grouped by. -/
def cohortKey (bucketExpr : Int → Int) (row : SessionRow) : Int × Option String × Option String × Option String :=
  (bucketExpr row.bucket, row.cliVersion, row.os, row.arch)

/-- The groups of the rows that satisfy the filters. -/
def cohortPoints (bucketExpr : Int → Int) (sessions : List SessionRow) : List CohortPoint :=
  let rows := sessions.filter (sessionActivityPredicates tenant f)
  ((rows.map (cohortKey bucketExpr)).dedup).map (fun e =>
    { bucket := e.1
      cliVersion := e.2.1
      os := e.2.2.1
      arch := e.2.2.2
      sessionCount := ((rows.filter (fun row => cohortKey bucketExpr row = e)).map (fun row =>
        (row.sessions.length : Int))).sum })

/-- A page of the cohort, from the groups in the order of the database. -/
def sessionCohort (bucket : Bucket) (sorted : List CohortPoint) : Except CohortError (List CohortPoint) := do
  let _ ← (rebucket dateTrunc bucket .day).mapError .bucket
  if f.offset < 0 then throw .negativeOffset
  pure (page f.offset.toNat (clampLimit f.limit).toNat sorted)

variable {tenant f}

theorem nodup_cohortPoints {bucketExpr : Int → Int} {sessions : List SessionRow} :
    (cohortPoints tenant f bucketExpr sessions).Nodup := by
  refine (nodup_dedup _).map (fun e e' heq => ?_)
  have hbucket := congrArg CohortPoint.bucket heq
  have hversion := congrArg CohortPoint.cliVersion heq
  have hos := congrArg CohortPoint.os heq
  have harch := congrArg CohortPoint.arch heq
  exact Prod.ext hbucket (Prod.ext hversion (Prod.ext hos harch))

end Cohort

section Paging

variable {pg : PgRegex} {render : allowlist.AttrValue → String} {dateTrunc : Bucket → Int → Int} {tenant : UUID} {L : ℕ}

theorem forM_checkRegex {patterns : List (Σ _ : String, String)} (h : ∀ e ∈ patterns, pg.compileError e.2 = none) :
    patterns.forM (fun e => checkRegex pg e.2) = .ok () := by
  induction patterns with
  | nil => rfl
  | cons e rest ih =>
    have hfirst : checkRegex pg e.2 = .ok () := by
      unfold checkRegex
      rw [h e mem_cons_self]
    change (checkRegex pg e.2 >>= fun _ => rest.forM (fun e => checkRegex pg e.2)) = .ok ()
    rw [hfirst]
    exact ih (fun e' he' => h e' (mem_cons_of_mem e he'))

theorem listTraces_page (hL : 1 ≤ L) (hmax : L ≤ 1000) {f : TraceFilters}
    (hregex : ∀ e ∈ f.attrRegex.entries, pg.compileError e.2 = none) (m : ℕ) (sorted : List TraceRow) :
    listTraces pg (f.paged L (m * L : ℕ)) sorted = .ok ((page (m * L) L sorted).map TraceRow.summary) := by
  unfold listTraces TraceFilters.paged
  simp only [forM_checkRegex hregex, clampLimit_page hL hmax, Int.toNat_natCast]
  rw [if_neg (Int.not_lt.mpr (Int.natCast_nonneg _))]
  rfl

theorem sessionCohort_page (hL : 1 ≤ L) (hmax : L ≤ 1000) {f : Filters} {bucket : Bucket} {bucketExpr : Int → Int}
    (hbucket : rebucket dateTrunc bucket .day = .ok bucketExpr) (m : ℕ) (sorted : List CohortPoint) :
    sessionCohort dateTrunc { f with limit := L, offset := (m * L : ℕ) } bucket sorted = .ok (page (m * L) L sorted) := by
  unfold sessionCohort
  simp only [hbucket, clampLimit_page hL hmax, Int.toNat_natCast]
  rw [if_neg (Int.not_lt.mpr (Int.natCast_nonneg _))]
  rfl

/-- Reading the span list and the session cohort page after page gives every row once, whatever
the database makes of rows that the order leaves tied, exactly when no page ends between two
spans of the same time, or two groups of the same bucket. -/
theorem paging_complete_iff (pg : PgRegex) (render : allowlist.AttrValue → String) (dateTrunc : Bucket → Int → Int)
    (tenant : UUID) (hL : 1 ≤ L) (hmax : L ≤ 1000) :
    (∀ (table : TraceTable) (f : TraceFilters), (∀ e ∈ f.attrRegex.entries, pg.compileError e.2 = none) →
      ((∀ order : ℕ → List TraceRow,
          (∀ m, Arranges TraceRow.newestFirst (table.matching pg render tenant f) (order m)) →
          ∀ N, (table.matching pg render tenant f).length ≤ N * L →
            ∃ pages, (range N).mapM (fun m => listTraces pg (f.paged L (m * L : ℕ)) (order m)) = .ok pages ∧
              pages.flatten.Perm ((table.matching pg render tenant f).map TraceRow.summary)) ↔
        Unsplit TraceRow.newestFirst (table.matching pg render tenant f) L)) ∧
    (∀ (sessions : List SessionRow) (f : Filters) (bucket : Bucket) (bucketExpr : Int → Int),
      rebucket dateTrunc bucket .day = .ok bucketExpr →
      ((∀ order : ℕ → List CohortPoint,
          (∀ m, Arranges CohortPoint.bucket (cohortPoints tenant f bucketExpr sessions) (order m)) →
          ∀ N, (cohortPoints tenant f bucketExpr sessions).length ≤ N * L →
            ∃ pages, (range N).mapM (fun m =>
                sessionCohort dateTrunc { f with limit := L, offset := (m * L : ℕ) } bucket (order m)) = .ok pages ∧
              pages.flatten.Perm (cohortPoints tenant f bucketExpr sessions)) ↔
        Unsplit CohortPoint.bucket (cohortPoints tenant f bucketExpr sessions) L)) := by
  constructor
  · intro table f hregex
    rw [← pages_perm_iff TraceTable.nodup_matching hL]
    refine forall₂_congr (fun order horder => forall₂_congr (fun N _ => ?_))
    rw [← map_pages_perm_iff TraceTable.nodup_matching TraceTable.summary_inj horder, tiedorder.pages, map_flatMap]
    simp only [listTraces_page hL hmax hregex]
    exact exists_mapM_ok_iff N _ _
  · intro sessions f bucket bucketExpr hbucket
    rw [← pages_perm_iff nodup_cohortPoints hL]
    refine forall₂_congr (fun order horder => forall₂_congr (fun N _ => ?_))
    simp only [sessionCohort_page hL hmax hbucket]
    exact exists_mapM_ok_iff N _ _

/-- A span of a tenant, by time and id. -/
def plainSpan (time : Int) (spanID : String) : TraceRow where
  time := time
  tenantID := 1
  traceID := "t"
  spanID := spanID
  parentSpanID := none
  spanName := "cli.command"
  spanKind := 1
  startTime := time
  endTime := time
  durationMs := .finite 0
  statusCode := 1
  statusMessage := none
  cliVersion := none
  os := none
  arch := none
  commandName := none
  exitCode := none
  isCI := none
  consentTier := "basic"
  peakRSSBytes := none
  cpuTimeMs := none
  scopeName := none
  scopeVersion := none
  resourceAttributes := ∅
  spanAttributes := ∅

/-- Two spans of different times, one a page. -/
theorem paging_complete_two_times :
    let pg : PgRegex := { compileError := fun _ => none, isMatch := fun _ _ => false }
    let f : TraceFilters := { from_ := 0, to_ := 10 }
    (1 ≤ 1 ∧ 1 ≤ 1000) ∧
      ∃ pages, (range 2).mapM (fun m => listTraces pg (f.paged 1 (m * 1 : ℕ)) [plainSpan 5 "b", plainSpan 3 "a"]) =
          .ok pages ∧
        pages.flatten.Perm [(plainSpan 3 "a").summary, (plainSpan 5 "b").summary] := by
  intro pg f
  let table : TraceTable := { rows := [plainSpan 3 "a", plainSpan 5 "b"], primaryKey := by decide }
  have hmatching : table.matching pg (fun _ => "") 1 f = [plainSpan 3 "a", plainSpan 5 "b"] := by decide
  have hunsplit : Unsplit TraceRow.newestFirst (table.matching pg (fun _ => "") 1 f) 1 := by
    rw [hmatching]
    intro x hx m
    have hbounds : ∀ x ∈ [plainSpan 3 "a", plainSpan 5 "b"],
        upTo TraceRow.newestFirst [plainSpan 3 "a", plainSpan 5 "b"] x =
          before TraceRow.newestFirst [plainSpan 3 "a", plainSpan 5 "b"] x + 1 := by decide
    rw [hbounds x hx]
    omega
  have horder : Arranges TraceRow.newestFirst (table.matching pg (fun _ => "") 1 f) [plainSpan 5 "b", plainSpan 3 "a"] := by
    rw [hmatching]
    exact ⟨List.Perm.swap _ _ [], by decide⟩
  have hpages := ((paging_complete_iff pg (fun _ => "") (fun _ t => t) 1 (le_refl 1) (by decide)).1 table f
    (fun e he => absurd he not_mem_nil)).mpr hunsplit (fun _ => [plainSpan 5 "b", plainSpan 3 "a"]) (fun _ => horder) 2
    (by rw [hmatching]; decide)
  rw [hmatching] at hpages
  exact ⟨⟨le_refl 1, by decide⟩, hpages⟩

/-- Two spans of one time, one a page: the second page can repeat the first and miss the other
span. Likewise two groups of sessions of one day. -/
theorem paging_repeats_tied_rows :
    let pg : PgRegex := { compileError := fun _ => none, isMatch := fun _ _ => false }
    let a := plainSpan 5 "a"
    let b := plainSpan 5 "b"
    let table : TraceTable := { rows := [a, b], primaryKey := by decide }
    let f : TraceFilters := { from_ := 0, to_ := 10 }
    let session := fun os : String =>
      ({ tenantID := 1, cliVersion := none, os := some os, arch := none, isCI := none, bucket := 0, sessions := [none],
         sessions_ne_nil := cons_ne_nil _ _ } : SessionRow)
    let linux : CohortPoint := { bucket := 0, cliVersion := none, os := some "linux", arch := none, sessionCount := 1 }
    let darwin : CohortPoint := { bucket := 0, cliVersion := none, os := some "darwin", arch := none, sessionCount := 1 }
    let sessions := [session "linux", session "darwin"]
    let request := fun (limit offset : Int) => ({ from_ := 0, to_ := 10, limit, offset } : Filters)
    (Arranges TraceRow.newestFirst (table.matching pg (fun _ => "") 1 f) [a, b] ∧
      Arranges TraceRow.newestFirst (table.matching pg (fun _ => "") 1 f) [b, a] ∧
      listTraces pg (f.paged 1 0) [a, b] = .ok [a.summary] ∧ listTraces pg (f.paged 1 1) [b, a] = .ok [a.summary]) ∧
    (Arranges CohortPoint.bucket (cohortPoints 1 (request 1 0) id sessions) [linux, darwin] ∧
      Arranges CohortPoint.bucket (cohortPoints 1 (request 1 1) id sessions) [darwin, linux] ∧
      sessionCohort (fun _ t => t) (request 1 0) .day [linux, darwin] = .ok [linux] ∧
      sessionCohort (fun _ t => t) (request 1 1) .day [darwin, linux] = .ok [linux]) := by
  intro pg a b table f session linux darwin sessions request
  have hmatching : table.matching pg (fun _ => "") 1 f = [a, b] := by decide
  have hpoints : ∀ offset, cohortPoints 1 (request 1 offset) id sessions = [linux, darwin] := fun _ => rfl
  refine ⟨⟨⟨?_, by decide⟩, ⟨?_, by decide⟩, by decide, by decide⟩, ⟨?_, by decide⟩, ⟨?_, by decide⟩, by decide, by decide⟩
  · rw [hmatching]
  · rw [hmatching]
    exact List.Perm.swap _ _ []
  · rw [hpoints]
  · rw [hpoints]
    exact List.Perm.swap _ _ []

end Paging

end argvio.storage
