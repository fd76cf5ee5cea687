import Argvio.Otlp.CapFailures

open argvio.allowlist argvio.storage List

namespace argvio.otlp

/-- One export of a tenant: its request, the catalog it finds, and the call of the
database that fails, if one does. A resend is a further attempt with the same request. -/
structure Attempt where
  pipeline : Pipeline
  request : ExportRequest
  catalog : Option (Except String Catalog) := none
  failure : Option (DbStep × String) := none
  installs : Option (Fault InstallTables) := none
  discoveries : Option (Fault Discoveries) := none

namespace Attempt

variable (a : Attempt)

/-- The data points an attempt has to store. -/
def points : List MetricRow :=
  match a.request with
  | .metrics md => a.pipeline.acceptedPoints a.catalog md
  | _ => []

/-- The log records an attempt has to store. -/
def records : List LogRow :=
  match a.request with
  | .logs ld => a.pipeline.acceptedRecords ld
  | _ => []

/-- The first cap that fails. A log export makes only the cap on error reasons. -/
def caps (s : Vocabularies) : Option (Fault Vocabularies) :=
  match a.request, a.failure with
  | .metrics _, some (step, err) =>
    if step = .insert then none else some { err, left := a.pipeline.capMetricsUntil a.points s step }
  | .logs _, some (.reasons, err) => some { err, left := s }
  | _, _ => none

def insertError : Option String :=
  match a.failure with
  | some (.insert, err) => some err
  | _ => none

def answers (s : Vocabularies) : Answers where
  catalog := a.catalog
  caps := a.caps s
  insert := a.insertError
  installs := a.installs
  discoveries := a.discoveries

/-- Whether the export is reported as done, and the tables after it. -/
def outcome (store : Store) : Bool × Store :=
  match a.request with
  | .metrics md =>
    let out := a.pipeline.processMetrics (a.answers store.vocabularies) md store
    (out.1.err.isNone, out.2)
  | .logs ld =>
    let out := a.pipeline.processLogs (a.answers store.vocabularies) ld store
    (out.1.err.isNone, out.2)
  | .traces td =>
    let out := a.pipeline.processTraces (a.answers store.vocabularies) td store
    (out.1.err.isNone, out.2)

/-- The versions of each data point that an attempt stores when it is done. -/
def histories (s : Vocabularies) : List (List MetricRow) := a.points.map (a.pipeline.history a.points s)

/-- The log records an attempt stores when it is done, as accepted and as stored. -/
def rewrites (s : Vocabularies) : List (LogRow × LogRow) :=
  a.records.map (fun r => (r, a.pipeline.rewriteLog a.records s.reasons r))

/-- The rows of an attempt with a value of a kind replaced. -/
def replacedCount (s : Vocabularies) (kind : FoldKind) : Nat :=
  (a.histories s).countP kind.replacedIn +
    if kind = .reason then (a.rewrites s).countP (fun e => reasonReplaced e.1.logAttributes e.2.logAttributes) else 0

/-- The counters an attempt has written when it fails. -/
def recorded : List FoldKind :=
  match a.request, a.failure with
  | .metrics _, some (step, _) => step.recorded
  | .logs _, some (.insert, _) => [.reason]
  | _, _ => []

/-- Every new value of a kind that an attempt brings has room under its cap. -/
def Fits (s : Vocabularies) (kind : FoldKind) : Prop :=
  match a.request with
  | .metrics _ => s.Fits a.pipeline a.points kind
  | .logs _ => s.reasons.Fits a.pipeline.reasonLimit (a.records.filterMap (fun r => errorReason r.logAttributes))
  | .traces _ => True

/-- When the attempt fails, every value whose cap was already made has room under it. -/
def Harmless (s : Vocabularies) : Prop := ∀ kind ∈ a.recorded, a.Fits s kind

end Attempt

section Effect

variable {a : Attempt} {store : Store} {kind : FoldKind}

variable {ld : Payload LogRecord} {md : Payload Metric} (s : Vocabularies)

theorem Attempt.countP_histories :
    (a.histories s).countP kind.replacedIn = a.pipeline.replacedCount a.points s kind := by
  unfold Attempt.histories Pipeline.replacedCount
  rw [countP_map]
  rfl

theorem Attempt.countP_rewrites :
    (a.rewrites s).countP (fun e => reasonReplaced e.1.logAttributes e.2.logAttributes) =
      (a.records.map LogRow.logAttributes).countP (fun attrs => reasonReplaced attrs
        ((a.pipeline.capErrorReasons (a.records.map LogRow.logAttributes) s.reasons).1 attrs)) := by
  unfold Attempt.rewrites
  rw [countP_map, countP_map]
  rfl

/-- What an attempt leaves behind: either its rows are stored and counted, or they are not
stored and the counters written so far have counted them. -/
structure Attempt.Effect (a : Attempt) (store : Store) : Prop where
  done : (a.outcome store).1 = true → (∀ kind, (a.outcome store).2.vocabularies.folded kind =
      store.vocabularies.folded kind + (a.replacedCount store.vocabularies kind : Int)) ∧
    (a.outcome store).2.metrics.map some =
      store.metrics.map some ++ (a.histories store.vocabularies).map getLast? ∧
    (a.outcome store).2.logs = store.logs ++ (a.rewrites store.vocabularies).map Prod.snd
  unfailing : (a.outcome store).1 = true → ∀ kind ∈ a.recorded, a.replacedCount store.vocabularies kind = 0
  failed : (a.outcome store).1 = false → (∀ kind, (a.outcome store).2.vocabularies.folded kind =
      store.vocabularies.folded kind +
        if kind ∈ a.recorded then (a.replacedCount store.vocabularies kind : Int) else 0) ∧
    (a.outcome store).2.metrics = store.metrics ∧ (a.outcome store).2.logs = store.logs

/-- An attempt with nothing to store changes none of the counters. -/
theorem Attempt.Effect.of_nothing (hpoints : a.points = []) (hrecords : a.records = [])
    (hvocabularies : (a.outcome store).2.vocabularies = store.vocabularies)
    (hmetrics : (a.outcome store).2.metrics = store.metrics) (hlogs : (a.outcome store).2.logs = store.logs) :
    a.Effect store := by
  have hnone : ∀ kind, a.replacedCount store.vocabularies kind = 0 := by
    simp [Attempt.replacedCount, Attempt.histories, Attempt.rewrites, hpoints, hrecords]
  refine ⟨fun _ => ?_, fun _ kind _ => hnone kind, fun _ => ?_⟩
  · simp [hvocabularies, hmetrics, hlogs, hnone, Attempt.histories, Attempt.rewrites, hpoints, hrecords]
  · simp [hvocabularies, hmetrics, hlogs, hnone]

theorem Attempt.Effect.of_failed (hfailed : (a.outcome store).1 = false)
    (hfolded : ∀ kind, (a.outcome store).2.vocabularies.folded kind = store.vocabularies.folded kind +
      if kind ∈ a.recorded then (a.replacedCount store.vocabularies kind : Int) else 0)
    (hkept : (a.outcome store).2.metrics = store.metrics ∧ (a.outcome store).2.logs = store.logs) :
    a.Effect store where
  done := fun hdone => absurd (hdone.symm.trans hfailed) (by decide)
  unfailing := fun hdone => absurd (hdone.symm.trans hfailed) (by decide)
  failed := fun _ => ⟨hfolded, hkept⟩

/-- What an attempt leaves behind, from how its export ends: every row that a failed export has not stored was
counted by the caps made before, and no other. -/
theorem Attempt.Effect.of_ends {ρ : Type} {rows stored before after : List ρ} {capped : Vocabularies} {out : Store}
    {err : Option ProcessError} (houtcome : a.outcome store = (err.isNone, out))
    (hends : Ends (a.answers store.vocabularies) rows capped stored (store.vocabularies, before)
      (out.vocabularies, after) err)
    (hnothing : rows = [] → a.points = [] ∧ a.records = [])
    (hkept : after = before → out.metrics = store.metrics ∧ out.logs = store.logs)
    (hstored : after = before ++ stored →
      out.metrics.map some = store.metrics.map some ++ (a.histories store.vocabularies).map getLast? ∧
        out.logs = store.logs ++ (a.rewrites store.vocabularies).map Prod.snd)
    (hcapped : ∀ kind, capped.folded kind =
      store.vocabularies.folded kind + (a.replacedCount store.vocabularies kind : Int))
    (hcaps : ∀ fault, a.caps store.vocabularies = some fault → ∀ kind, fault.left.folded kind =
      store.vocabularies.folded kind +
        if kind ∈ a.recorded then (a.replacedCount store.vocabularies kind : Int) else 0)
    (hinsert : ∀ reason, a.insertError = some reason → ∀ kind ∉ a.recorded,
      a.replacedCount store.vocabularies kind = 0)
    (hrecorded : a.caps store.vocabularies = none → a.insertError = none → a.recorded = []) : a.Effect store := by
  cases hends with
  | nothing hrows hnew =>
    obtain ⟨hvocabularies, htable⟩ := Prod.mk.inj hnew
    obtain ⟨hmetrics, hlogs⟩ := hkept htable
    refine Attempt.Effect.of_nothing (hnothing hrows).1 (hnothing hrows).2 ?_ ?_ ?_ <;> rwa [houtcome]
  | capFailed hfault hnew =>
    obtain ⟨hvocabularies, htable⟩ := Prod.mk.inj hnew
    refine .of_failed ?_ (fun kind => ?_) ?_ <;> rw [houtcome]
    · rfl
    · rw [hvocabularies, hcaps _ hfault]
    · exact hkept htable
  | insertFailed hreason hnew =>
    obtain ⟨hvocabularies, htable⟩ := Prod.mk.inj hnew
    refine .of_failed ?_ (fun kind => ?_) ?_ <;> rw [houtcome]
    · rfl
    · rw [hvocabularies, hcapped]
      by_cases hkind : kind ∈ a.recorded
      · rw [if_pos hkind]
      · rw [if_neg hkind, hinsert _ hreason kind hkind, Int.natCast_zero]
    · exact hkept htable
  | done hnone hnone' hnew =>
    obtain ⟨hvocabularies, htable⟩ := Prod.mk.inj hnew
    have hdone : (a.outcome store).1 = true := by rw [houtcome]; rfl
    refine ⟨fun _ => ?_, fun _ kind hkind => ?_, fun hfailed => absurd (hdone.symm.trans hfailed) (by decide)⟩
    · rw [houtcome]
      exact ⟨fun kind => by rw [hvocabularies, hcapped], hstored htable⟩
    · rw [hrecorded hnone hnone'] at hkind
      cases hkind

theorem Attempt.failure_of_insertError {err : String} (h : a.insertError = some err) :
    a.failure = some (.insert, err) := by
  unfold Attempt.insertError at h
  split at h
  · cases h
    assumption
  · cases h

variable {fault : Fault Vocabularies}

theorem Attempt.failure_of_caps_metrics {s : Vocabularies} (hrequest : a.request = .metrics md)
    (h : a.caps s = some fault) :
    ∃ step err, a.failure = some (step, err) ∧ fault.left = a.pipeline.capMetricsUntil a.points s step := by
  unfold Attempt.caps at h
  rw [hrequest] at h
  cases hfailure : a.failure with
  | none =>
    rw [hfailure] at h
    cases h
  | some failure =>
    obtain ⟨step, err⟩ := failure
    rw [hfailure] at h
    dsimp only at h
    split at h
    · cases h
    · cases h
      exact ⟨step, err, rfl, rfl⟩

theorem Attempt.recorded_metrics {s : Vocabularies} (hrequest : a.request = .metrics md) (hcaps : a.caps s = none)
    (hinsert : a.insertError = none) : a.recorded = [] := by
  cases hfailure : a.failure with
  | none => simp only [Attempt.recorded, hrequest, hfailure]
  | some failure =>
    obtain ⟨step, err⟩ := failure
    unfold Attempt.caps at hcaps
    rw [hrequest, hfailure] at hcaps
    dsimp only at hcaps
    split at hcaps
    · rename_i hstep
      subst hstep
      unfold Attempt.insertError at hinsert
      rw [hfailure] at hinsert
      cases hinsert
    · cases hcaps

theorem Attempt.recorded_logs (hrequest : a.request = .logs ld) (hinsert : a.insertError = none) : a.recorded = [] := by
  unfold Attempt.recorded
  rw [hrequest]
  split
  · rename_i heq _
    cases heq
  · rename_i hfailure
    unfold Attempt.insertError at hinsert
    rw [hfailure] at hinsert
    cases hinsert
  · rfl

theorem Attempt.effect_metrics (hrequest : a.request = .metrics md) : a.Effect store := by
  have hpoints : a.points = a.pipeline.acceptedPoints a.catalog md := by simp only [Attempt.points, hrequest]
  have hrecords : a.records = [] := by simp only [Attempt.records, hrequest]
  have hrewrites : a.rewrites store.vocabularies = [] := by simp only [Attempt.rewrites, hrecords, map_nil]
  have hcount : ∀ kind, a.replacedCount store.vocabularies kind =
      a.pipeline.replacedCount a.points store.vocabularies kind := by
    simp [Attempt.replacedCount, Attempt.countP_histories, hrewrites]
  obtain ⟨hlogs, hends⟩ := processMetrics_effect a.pipeline (a.answers store.vocabularies) store md
  have hanswers : (a.answers store.vocabularies).catalog = a.catalog := rfl
  rw [hanswers, ← hpoints] at hends
  refine Attempt.Effect.of_ends (by simp only [Attempt.outcome, hrequest]) hends (fun hrows => ⟨hrows, hrecords⟩)
    (fun hmetrics => ⟨hmetrics, hlogs⟩) (fun hmetrics => ⟨?_, ?_⟩) (fun kind => ?_) (fun fault hcaps kind => ?_)
    (fun reason hinsert kind hkind => ?_) (fun hcaps hinsert => Attempt.recorded_metrics hrequest hcaps hinsert)
  · rw [hmetrics, map_append, capMetrics_rows, Attempt.histories, map_map]
    rfl
  · rw [hlogs, hrewrites, map_nil, append_nil]
  · rw [hcount, folded_capMetrics]
  · obtain ⟨step, err, hfailure, hleft⟩ := Attempt.failure_of_caps_metrics hrequest hcaps
    rw [hleft, folded_capMetricsUntil, hcount]
    simp only [Attempt.recorded, hrequest, hfailure]
  · have hall : a.recorded = DbStep.insert.recorded := by
      simp only [Attempt.recorded, hrequest, Attempt.failure_of_insertError hinsert]
    exact absurd (hall ▸ kind.mem_recorded_insert) hkind

theorem Attempt.failure_of_caps_logs {s : Vocabularies} (hrequest : a.request = .logs ld) (h : a.caps s = some fault) :
    (∃ err, a.failure = some (.reasons, err)) ∧ fault.left = s := by
  unfold Attempt.caps at h
  rw [hrequest] at h
  split at h
  · rename_i heq _
    cases heq
  · rename_i hfailure
    cases h
    exact ⟨⟨_, hfailure⟩, rfl⟩
  · cases h

theorem folded_with_reasons (t : ErrorReasons) (kind : FoldKind) :
    { s with reasons := t }.folded kind = if kind = .reason then t.foldedCount else s.folded kind := by
  cases kind with
  | reason => rfl
  | dim i | name i | label i => cases i <;> rfl

theorem Attempt.effect_logs (hrequest : a.request = .logs ld) : a.Effect store := by
  have hpoints : a.points = [] := by simp only [Attempt.points, hrequest]
  have hrecords : a.records = a.pipeline.acceptedRecords ld := by simp only [Attempt.records, hrequest]
  have hhistories : a.histories store.vocabularies = [] := by simp only [Attempt.histories, hpoints, map_nil]
  obtain ⟨hmetrics, hends⟩ := processLogs_effect a.pipeline (a.answers store.vocabularies) store ld
  rw [← hrecords] at hends
  refine Attempt.Effect.of_ends (by simp only [Attempt.outcome, hrequest]) hends (fun hrows => ⟨hpoints, hrows⟩)
    (fun hlogs => ⟨hmetrics, hlogs⟩) (fun hlogs => ⟨?_, ?_⟩) (fun kind => ?_) (fun fault hcaps kind => ?_)
    (fun reason hinsert kind hkind => ?_) (fun _ hinsert => Attempt.recorded_logs hrequest hinsert)
  · rw [hmetrics, hhistories, map_nil, append_nil]
  · rw [hlogs, Attempt.rewrites, map_map]
    rfl
  -- Only the cap on reasons is made, and it counts the records it rewrites.
  · rw [folded_with_reasons]
    unfold Attempt.replacedCount
    rw [hhistories, Attempt.countP_rewrites]
    by_cases hkind : kind = .reason
    · subst hkind
      simpa [Vocabularies.folded] using foldedCount_capErrorReasons a.pipeline (a.records.map LogRow.logAttributes)
        store.vocabularies.reasons
    · simp [hkind]
  · obtain ⟨⟨err, hfailure⟩, hleft⟩ := Attempt.failure_of_caps_logs hrequest hcaps
    rw [hleft]
    simp [Attempt.recorded, hrequest, hfailure]
  · have hreason : a.recorded = [.reason] := by
      simp only [Attempt.recorded, hrequest, Attempt.failure_of_insertError hinsert]
    rw [hreason, mem_singleton] at hkind
    simp [hkind, Attempt.replacedCount, hhistories]

theorem Attempt.effect (a : Attempt) (store : Store) : a.Effect store := by
  cases hrequest : a.request with
  | metrics md => exact a.effect_metrics hrequest
  | logs ld => exact a.effect_logs hrequest
  | traces td =>
    obtain ⟨hvocabularies, hmetrics, hlogs⟩ :=
      processTraces_effect a.pipeline (a.answers store.vocabularies) store td
    have houtcome : (a.outcome store).2 =
        (a.pipeline.processTraces (a.answers store.vocabularies) td store).2 := by
      simp only [Attempt.outcome, hrequest]
    refine Attempt.Effect.of_nothing ?_ ?_ ?_ ?_ ?_
    · simp only [Attempt.points, hrequest]
    · simp only [Attempt.records, hrequest]
    · rw [houtcome, hvocabularies]
    · rw [houtcome, hmetrics]
    · rw [houtcome, hlogs]

/-- Labels are counted together with the names and after the dimension values. -/
theorem DbStep.recorded_of_label {step : DbStep} {i : Vendor} (h : FoldKind.label i ∈ step.recorded) :
    FoldKind.dim i ∈ step.recorded ∧ FoldKind.name i ∈ step.recorded := by
  cases step with
  | reasons => cases h
  | dims j | foldedDims j => simpa [DbStep.recorded] using h
  | names j | touchLabels j =>
    have hbefore : i ∈ j.before := by simpa [DbStep.recorded] using h
    simp [DbStep.recorded, hbefore]
  | insert => exact ⟨FoldKind.mem_recorded_insert _, FoldKind.mem_recorded_insert _⟩

theorem DbStep.fits_iff {p : Pipeline} {rows : List MetricRow} {s : Vocabularies} (step : DbStep) :
    (∀ kind ∈ step.recorded, s.Fits p rows kind) ↔ ∀ kind ∈ step.recorded, p.replacedCount rows s kind = 0 := by
  constructor
  · intro hfits kind hkind
    cases kind with
    | reason => exact replacedCount_reason_eq_zero_iff.mpr (hfits _ hkind)
    | dim i => exact replacedCount_dim_eq_zero_iff.mpr (hfits _ hkind)
    | name i => exact replacedCount_name_eq_zero_iff.mpr (hfits _ hkind)
    | label i =>
      obtain ⟨hdim, hname⟩ := DbStep.recorded_of_label hkind
      exact (replacedCount_label_eq_zero_iff (replacedCount_dim_eq_zero_iff.mpr (hfits _ hdim))
        (replacedCount_name_eq_zero_iff.mpr (hfits _ hname))).mpr (hfits _ hkind)
  · intro hzero kind hkind
    cases kind with
    | reason => exact replacedCount_reason_eq_zero_iff.mp (hzero _ hkind)
    | dim i => exact replacedCount_dim_eq_zero_iff.mp (hzero _ hkind)
    | name i => exact replacedCount_name_eq_zero_iff.mp (hzero _ hkind)
    | label i =>
      obtain ⟨hdim, hname⟩ := DbStep.recorded_of_label hkind
      exact (replacedCount_label_eq_zero_iff (hzero _ hdim) (hzero _ hname)).mp (hzero _ hkind)

/-- A failed attempt has counted no row exactly when every value whose cap was made has
room under it. -/
theorem Attempt.harmless_iff (a : Attempt) (s : Vocabularies) :
    a.Harmless s ↔ ∀ kind ∈ a.recorded, a.replacedCount s kind = 0 := by
  have hnothing : a.recorded = [] → (a.Harmless s ↔ ∀ kind ∈ a.recorded, a.replacedCount s kind = 0) := by
    intro hrecorded
    unfold Attempt.Harmless
    simp [hrecorded]
  cases hrequest : a.request with
  | metrics md =>
    cases hfailure : a.failure with
    | none => exact hnothing (by simp only [Attempt.recorded, hrequest, hfailure])
    | some failure =>
      have hrecorded : a.recorded = failure.1.recorded := by simp only [Attempt.recorded, hrequest, hfailure]
      have hcount : ∀ kind, a.replacedCount s kind = a.pipeline.replacedCount a.points s kind := by
        simp [Attempt.replacedCount, Attempt.countP_histories, Attempt.rewrites, Attempt.records, hrequest]
      unfold Attempt.Harmless Attempt.Fits
      simp only [hrequest, hrecorded, hcount]
      exact failure.1.fits_iff
  | logs ld =>
    by_cases hrecorded : a.recorded = []
    · exact hnothing hrecorded
    have hreason : a.recorded = [.reason] := by
      unfold Attempt.recorded at hrecorded ⊢
      rw [hrequest] at hrecorded ⊢
      split
      · rename_i heq _
        cases heq
      · rfl
      · rename_i hinsert
        split at hrecorded
        · rename_i heq _
          cases heq
        · rename_i hfailure
          exact absurd hfailure (hinsert ld _ rfl)
        · exact absurd rfl hrecorded
    have hpoints : a.histories s = [] := by simp only [Attempt.histories, Attempt.points, hrequest, map_nil]
    unfold Attempt.Harmless Attempt.Fits Attempt.replacedCount
    simp only [hrequest, hreason, mem_singleton, forall_eq, hpoints, countP_nil, Nat.zero_add, if_true]
    rw [Attempt.countP_rewrites, countP_reasonReplaced_eq_zero_iff, filterMap_map]
    rfl
  | traces td => exact hnothing (by simp only [Attempt.recorded, hrequest])

end Effect

/-- A tenant's tables while exports come in, with the versions of each stored data point
and each stored log record as it was accepted and as it is stored. -/
structure Ingest where
  store : Store
  points : List (List MetricRow)
  records : List (LogRow × LogRow)
  points_stored : store.metrics.map some = points.map getLast?
  records_stored : store.logs = records.map Prod.snd

namespace Ingest

def empty : Ingest where
  store :=
    { vocabularies := .empty, metrics := [], logs := [], traces := [], installs := ⟨fun _ => none, []⟩, discoveries := ∅ }
  points := []
  records := []
  points_stored := rfl
  records_stored := rfl

/-- One attempt. What it stores is remembered only when it is done. -/
def attempt (st : Ingest) (a : Attempt) : Ingest where
  store := (a.outcome st.store).2
  points := if (a.outcome st.store).1 then st.points ++ a.histories st.store.vocabularies else st.points
  records := if (a.outcome st.store).1 then st.records ++ a.rewrites st.store.vocabularies else st.records
  points_stored := by
    cases hdone : (a.outcome st.store).1 with
    | true =>
      rw [((a.effect st.store).done hdone).2.1, if_pos rfl, map_append, st.points_stored]
    | false =>
      rw [((a.effect st.store).failed hdone).2.1, if_neg (by decide), st.points_stored]
  records_stored := by
    cases hdone : (a.outcome st.store).1 with
    | true =>
      rw [((a.effect st.store).done hdone).2.2, if_pos rfl, map_append, st.records_stored]
    | false =>
      rw [((a.effect st.store).failed hdone).2.2, if_neg (by decide), st.records_stored]

/-- A tenant's tables after a run of attempts, from empty tables on. -/
def run (attempts : List Attempt) : Ingest := attempts.foldl attempt empty

/-- The stored rows with a value of a kind replaced by `other`. -/
def replaced (st : Ingest) (kind : FoldKind) : Nat :=
  st.points.countP kind.replacedIn +
    if kind = .reason then st.records.countP (fun e => reasonReplaced e.1.logAttributes e.2.logAttributes) else 0

/-- Every overflow counter is the number of stored rows it is about. -/
def Exact (st : Ingest) : Prop := ∀ kind, st.store.vocabularies.folded kind = (st.replaced kind : Int)

/-- What a counter shows beyond the rows stored. -/
def excess (st : Ingest) (kind : FoldKind) : Int := st.store.vocabularies.folded kind - st.replaced kind

variable (done : List Attempt) (a : Attempt) (st : Ingest)

theorem run_append : run (done ++ [a]) = (run done).attempt a := by
  simp [run]

/-- An attempt that is done leaves the excess as it is; a failed one adds the rows that it
has counted. -/
theorem excess_attempt (a : Attempt) (kind : FoldKind) :
    (st.attempt a).excess kind = st.excess kind +
      if kind ∈ a.recorded then (a.replacedCount st.store.vocabularies kind : Int) else 0 := by
  have heffect := a.effect st.store
  unfold excess replaced attempt
  dsimp only
  cases hdone : (a.outcome st.store).1 with
  | true =>
    have hnone : (if kind ∈ a.recorded then (a.replacedCount st.store.vocabularies kind : Int) else 0) = 0 :=
      ite_eq_right_iff.mpr fun hkind => congrArg Nat.cast (heffect.unfailing hdone kind hkind)
    rw [(heffect.done hdone).1, hnone]
    unfold Attempt.replacedCount
    simp only [if_true, countP_append]
    split <;> push_cast <;> omega
  | false =>
    rw [(heffect.failed hdone).1]
    simp only [Bool.false_eq_true, if_false]
    omega

theorem excess_empty (kind : FoldKind) : empty.excess kind = 0 := by
  cases kind with
  | reason => decide
  | dim i | name i | label i => cases i <;> decide

theorem excess_nonneg (attempts : List Attempt) (kind : FoldKind) : 0 ≤ (run attempts).excess kind := by
  induction attempts using reverseRecOn with
  | nil => exact (excess_empty kind).ge
  | append_singleton done a ih =>
    rw [run_append, excess_attempt]
    split
    · omega
    · omega

theorem exact_iff : st.Exact ↔ ∀ kind, st.excess kind = 0 := by
  exact forall_congr' fun kind => sub_eq_zero.symm

theorem exact_append_iff :
    (run (done ++ [a])).Exact ↔ (run done).Exact ∧ a.Harmless (run done).store.vocabularies := by
  rw [exact_iff, exact_iff, Attempt.harmless_iff]
  constructor
  · intro hexact
    refine ⟨fun kind => ?_, fun kind hkind => ?_⟩
    · have hzero := hexact kind
      have hnonneg := excess_nonneg done kind
      rw [run_append, excess_attempt] at hzero
      split at hzero <;> omega
    · have hzero := hexact kind
      have hnonneg := excess_nonneg done kind
      rw [run_append, excess_attempt, if_pos hkind] at hzero
      omega
  · rintro ⟨hexact, hharmless⟩ kind
    rw [run_append, excess_attempt, hexact kind]
    by_cases hkind : kind ∈ a.recorded
    · rw [if_pos hkind, hharmless kind hkind]
      rfl
    · rw [if_neg hkind]
      rfl

/-- After a run the overflow counters are the numbers of stored rows with a value replaced,
exactly when each attempt of the run that failed had room for all values whose caps it had
made by then. -/
theorem overflow_exact_iff (attempts : List Attempt) :
    (run attempts).Exact ↔
      ∀ done a, done ++ [a] <+: attempts → a.Harmless (run done).store.vocabularies := by
  induction attempts using reverseRecOn with
  | nil =>
    refine iff_of_true ?_ fun done a hdone => by simp at hdone
    exact (exact_iff empty).mpr excess_empty
  | append_singleton attempts a ih =>
    rw [exact_append_iff, ih]
    constructor
    · rintro ⟨hearlier, hlast⟩ done a' hdone
      rcases prefix_concat_iff.mp hdone with heq | hprefix
      · obtain ⟨rfl, hlist⟩ := append_inj' heq rfl
        obtain rfl := singleton_inj.mp hlist
        exact hlast
      · exact hearlier done a' hprefix
    · intro hall
      exact ⟨fun done a' hdone => hall done a' (hdone.trans (prefix_append _ _)), hall attempts a prefix_rfl⟩

/-- The sample schema with error reasons on its log events. -/
def reasonFile : SchemaFile :=
  { consent.sampleFile with
    attributes := consent.sampleFile.attributes.insert attrErrorReason { type := .string, minTier := "basic" }
    logs := [{ eventName := "cli.error", allowedAttributes := [attrErrorReason] }] }

/-- A tenant with room for one error reason. -/
def oneReasonPipeline : Pipeline :=
  { samplePipeline with
    schema := (finalize consent.sampleCompile reasonFile).toOption.get rfl
    bounds := { samplePipeline.bounds with maxErrorReasonsPerTenant := 1 } }

/-- A log export with two error reasons. -/
def twoReasons : ExportRequest :=
  let record (reason : String) : LogRecord :=
    { timestamp := 0, traceID := 0, spanID := 0, severityNumber := 9, severityText := "INFO", eventName := "cli.error"
      body := .str ""
      attributes := [(consent.tierAttrKey, .str "basic"), (attrErrorReason, .str reason)] }
  .logs [{ resource := [], scopes := [{ scope := ⟨"", ""⟩, items := [record "denied", record "timeout"] }] }]

/-- The insert fails and the client sends the batch again: the record stored as `other` is
counted twice. -/
theorem overflow_counts_resent_batch_twice :
    let failed : Attempt :=
      { pipeline := oneReasonPipeline, request := twoReasons, failure := some (.insert, "storage: insert logs") }
    let resent : Attempt := { failed with failure := none }
    (run [failed, resent]).store.logs.length = 2 ∧ (run [failed, resent]).replaced .reason = 1 ∧
      (run [failed, resent]).store.vocabularies.folded .reason = 2 ∧ ¬ (run [failed, resent]).Exact := by
  have hreplaced : (run [
      { pipeline := oneReasonPipeline, request := twoReasons, failure := some (.insert, "storage: insert logs") },
      { pipeline := oneReasonPipeline, request := twoReasons }]).replaced .reason = 1 := by decide +kernel
  have hfolded : (run [
      { pipeline := oneReasonPipeline, request := twoReasons, failure := some (.insert, "storage: insert logs") },
      { pipeline := oneReasonPipeline, request := twoReasons }]).store.vocabularies.folded .reason = 2 := by
    decide +kernel
  refine ⟨by decide +kernel, hreplaced, hfolded, fun hexact => ?_⟩
  have hreason := hexact .reason
  rw [hreplaced, hfolded] at hreason
  cases hreason

end Ingest

end argvio.otlp
