import Argvio.Storage.ChangeLog

open List

namespace argvio.storage

/-- Where the loop of `BackfillInstalls` stands: the tables so far, the events it
has not handed over yet, and how many it has. -/
structure BackfillState where
  tables : InstallTables
  chunk : List InstallEvent
  total : Int

def BackfillState.flush (s : BackfillState) : BackfillState where
  tables := trackInstalls s.tables s.chunk
  chunk := []
  total := s.total + s.chunk.length

/-- One row of the query, whose `time` is stored; a row with an empty install id is skipped. -/
def BackfillState.scan (s : BackfillState) (e : InstallEvent) : BackfillState :=
  if e.installID = "" then s
  else
    let s := { s with chunk := s.chunk ++ [e.stored] }
    if s.chunk.length = backfillChunk then s.flush else s

/-- `BackfillInstalls` over the rows of its query, oldest first: how many events it
replayed, and the tables after. -/
def backfillInstalls (t : InstallTables) (rows : List InstallEvent) : Int × InstallTables :=
  let s := (rows.foldl BackfillState.scan { tables := t, chunk := [], total := 0 }).flush
  (s.total, s.tables)

/-- The events of the rows of the query. -/
def backfillEvents (rows : List InstallEvent) : List InstallEvent :=
  (rows.filter (fun e => e.installID ≠ "")).map InstallEvent.stored

/-- The chunks handed over so far, with the one being filled, are a split of the
events scanned. -/
structure BackfillState.Split (s : BackfillState) (t : InstallTables) (scanned : List InstallEvent)
    (chunks : List (List InstallEvent)) : Prop where
  tables : s.tables = chunks.foldl trackInstalls t
  events : chunks.flatten ++ s.chunk = scanned
  total : s.total = chunks.flatten.length

variable {t : InstallTables} {chunks : List (List InstallEvent)} {s : BackfillState}

theorem BackfillState.Split.flush {scanned : List InstallEvent} (h : s.Split t scanned chunks) :
    s.flush.Split t scanned (chunks ++ [s.chunk]) where
  tables := by
    rw [foldl_append, ← h.tables]
    rfl
  events := by
    rw [flatten_append, flatten_singleton, h.events]
    exact append_nil _
  total := by
    rw [flatten_append, flatten_singleton, length_append, Int.natCast_add, ← h.total]
    rfl

theorem BackfillState.Split.scan {rows : List InstallEvent} (h : s.Split t (backfillEvents rows) chunks)
    (e : InstallEvent) : ∃ chunks', (s.scan e).Split t (backfillEvents (rows ++ [e])) chunks' := by
  unfold BackfillState.scan
  by_cases hid : e.installID = ""
  · have hskip : backfillEvents (rows ++ [e]) = backfillEvents rows := by simp [backfillEvents, hid]
    rw [if_pos hid, hskip]
    exact ⟨chunks, h⟩
  have hnext : backfillEvents (rows ++ [e]) = backfillEvents rows ++ [e.stored] := by simp [backfillEvents, hid]
  have happend : ({ s with chunk := s.chunk ++ [e.stored] } : BackfillState).Split t
      (backfillEvents rows ++ [e.stored]) chunks :=
    ⟨h.tables, by rw [← append_assoc, h.events], h.total⟩
  rw [if_neg hid, hnext]
  dsimp only
  split
  · exact ⟨_, happend.flush⟩
  · exact ⟨_, happend⟩

theorem exists_split_foldl_scan (t : InstallTables) (rows : List InstallEvent) :
    ∃ chunks, (rows.foldl BackfillState.scan { tables := t, chunk := [], total := 0 }).Split t
      (backfillEvents rows) chunks := by
  induction rows using reverseRecOn with
  | nil => exact ⟨[], rfl, rfl, rfl⟩
  | append_singleton rows e ih =>
    obtain ⟨chunks, hsplit⟩ := ih
    rw [foldl_append]
    exact hsplit.scan e

/-- A backfill is a sequence of calls on consecutive chunks of the events. -/
theorem exists_chunks_backfillInstalls (t : InstallTables) (rows : List InstallEvent) :
    ∃ chunks : List (List InstallEvent), chunks.flatten = backfillEvents rows ∧
      backfillInstalls t rows = (((backfillEvents rows).length : Int), chunks.foldl trackInstalls t) := by
  obtain ⟨chunks, hsplit⟩ := exists_split_foldl_scan t rows
  have hflush := hsplit.flush
  have hflatten := hflush.events
  rw [BackfillState.flush, append_nil] at hflatten
  refine ⟨_, hflatten, ?_⟩
  rw [← hflatten]
  exact Prod.ext hflush.total hflush.tables

/-- The tables before any install is tracked. -/
def InstallTables.empty : InstallTables := ⟨fun _ => none, []⟩

theorem byTime_eq_self {events : List InstallEvent} (h : events.Pairwise (fun a b => a.at_ ≤ b.at_)) :
    byTime events = events :=
  h.insertionSort_eq

section Whole

variable {v : Tracked} {events : List InstallEvent}

theorem map_stored_of_whole (hwhole : ∀ e ∈ events, e.stored = e) : events.map InstallEvent.stored = events :=
  (map_congr_left hwhole).trans (map_id' _)

theorem storedByTime_of_whole (hwhole : ∀ e ∈ events, e.stored = e) : storedByTime events = byTime events :=
  map_stored_of_whole fun e he => hwhole e (mem_byTime.mp he)

/-- Of events with whole microseconds every change is stored as it was planned. -/
theorem Tracked.Coherent.changes_track (h : v.Coherent) (hwhole : ∀ e ∈ events, e.stored = e) :
    (v.track events).changes = v.changes ++ runChanges v.row (byTime events) := by
  have hstored : ∀ c ∈ runChanges v.row (byTime events), c.stored = c := by
    intro c hc
    obtain ⟨e, he, -, hat⟩ := exists_reveals hc
    have hat' : timestamptz e.at_ = e.at_ := congrArg InstallEvent.at_ (hwhole e he)
    rw [hat] at hat'
    unfold VersionChange.stored
    rw [hat']
  rw [(h.apart hwhole).changes_track, map_congr_left hstored, map_id']

/-- The version changes of an install after a sequence of calls. -/
theorem Tracked.Coherent.changes_foldl_track (h : v.Coherent) {batches : List (List InstallEvent)}
    (hwhole : ∀ b ∈ batches, ∀ e ∈ b, e.stored = e) :
    (batches.foldl Tracked.track v).changes = v.changes ++ runChanges v.row (batches.flatMap byTime) := by
  induction batches generalizing v with
  | nil => cases hrow : v.row <;> simp [runChanges, changesFrom]
  | cons batch rest ih =>
    obtain ⟨hfirst, hrest⟩ := forall_mem_cons.mp hwhole
    rw [foldl_cons, ih (h.track batch) hrest, h.changes_track hfirst, row_track h.stored, storedByTime_of_whole hfirst,
      flatMap_cons, runChanges_append, append_assoc]

end Whole

section Sorted

variable {events : List InstallEvent} (hsorted : events.Pairwise (fun a b => a.at_ ≤ b.at_))
include hsorted

theorem byTime_eventsOf (k : InstallKey) : byTime (eventsOf events k) = eventsOf events k :=
  byTime_eq_self (hsorted.filter _)

/-- Chunks of events in time order are folded in that order. -/
theorem flatMap_byTime_of_sorted (hsplit : chunks.flatten = events) (k : InstallKey) :
    (chunks.map (fun chunk => eventsOf chunk k)).flatMap byTime = eventsOf events k := by
  have hchunk : ∀ chunk ∈ chunks, byTime (eventsOf chunk k) = eventsOf chunk k := by
    intro chunk hmem
    refine byTime_eventsOf (hsorted.sublist ?_) k
    rw [← hsplit]
    exact sublist_flatten_of_mem hmem
  rw [flatMap_map, flatMap_congr hchunk, ← hsplit]
  exact (filter_flatten ..).symm

end Sorted

/-- What `planInstall` returns besides the row. -/
theorem planInstall_changes (existing : Option InstallState) (events : List InstallEvent) :
    ((planInstall existing events).map Prod.snd).getD [] = runChanges existing (byTime events) := by
  cases hplan : planInstall existing events with
  | none =>
    obtain ⟨hrow, hevents⟩ := planInstall_eq_none hplan
    rw [hrow, hevents]
    rfl
  | some plan => exact planInstall_snd hplan

/-- The tables hold for every install what one `planInstall` over its events gives. -/
structure InstallTables.Planned (t : InstallTables) (events : List InstallEvent) : Prop where
  installs : ∀ k, t.installs k = (planInstall none (eventsOf events k)).map Prod.fst
  changes : ∀ k, (t.tracked k).changes = ((planInstall none (eventsOf events k)).map Prod.snd).getD []

theorem planned_of_chunks {events : List InstallEvent} (hsorted : events.Pairwise (fun a b => a.at_ ≤ b.at_))
    (hwhole : ∀ e ∈ events, e.stored = e) (hsplit : chunks.flatten = events) :
    (chunks.foldl trackInstalls .empty).Planned events := by
  have hchunks : ∀ k, ∀ b ∈ chunks.map (fun chunk => eventsOf chunk k), ∀ e ∈ b, e.stored = e := by
    intro k b hb e he
    obtain ⟨chunk, hchunk, rfl⟩ := mem_map.mp hb
    refine hwhole e ?_
    rw [← hsplit]
    exact mem_flatten.mpr ⟨chunk, hchunk, (mem_filter.mp he).1⟩
  refine ⟨fun k => ?_, fun k => ?_⟩
  · have harrivals : arrivals chunks k = eventsOf events k := by
      rw [← flatMap_byTime_of_sorted hsorted hsplit k, flatMap_map]
      exact flatMap_congr fun chunk hchunk => storedByTime_of_whole (hchunks k _ (mem_map_of_mem hchunk))
    have hfresh : StoredRow (InstallTables.empty.installs k) := rfl
    rw [installs_foldl_trackInstalls hfresh, harrivals, planInstall_fst, byTime_eventsOf hsorted]
    rfl
  · have hcoherent : (InstallTables.empty.tracked k).Coherent := coherent_untracked
    rw [tracked_foldl_trackInstalls, planInstall_changes, byTime_eventsOf hsorted,
      ← flatMap_byTime_of_sorted hsorted hsplit k, ← foldl_map, hcoherent.changes_foldl_track (hchunks k)]
    rfl

/-- However a time-ordered list of stored events is split into chunks, calls on the chunks in turn
leave what `planInstall` computes from the whole list; so does a backfill of rows in time
order. The merge of the upsert never changes what was planned. -/
theorem backfill_chunking_free {events : List InstallEvent} (hsorted : events.Pairwise (fun a b => a.at_ ≤ b.at_)) :
    (∀ chunks : List (List InstallEvent), chunks.flatten = events.map InstallEvent.stored →
      (chunks.foldl trackInstalls .empty).Planned (events.map InstallEvent.stored)) ∧
    (backfillInstalls .empty events).2.Planned (backfillEvents events) ∧
    ∀ stored batch next changes, planInstall (some stored) batch = some (next, changes) →
      mergeInstall stored next = next := by
  have hstored : ∀ events : List InstallEvent, ∀ e ∈ events.map InstallEvent.stored, e.stored = e := by
    intro events e he
    obtain ⟨e, -, rfl⟩ := mem_map.mp he
    exact congrArg (fun at_ => { e with at_ := at_ }) (timestamptz_timestamptz e.at_)
  have hmono : ∀ events : List InstallEvent, events.Pairwise (fun a b => a.at_ ≤ b.at_) →
      (events.map InstallEvent.stored).Pairwise (fun a b => a.at_ ≤ b.at_) := by
    intro events hsorted
    exact hsorted.map InstallEvent.stored fun _ _ hle => timestamptz_mono hle
  refine ⟨fun chunks hsplit => planned_of_chunks (hmono _ hsorted) (hstored _) hsplit, ?_, ?_⟩
  · obtain ⟨chunks, hsplit, hrun⟩ := exists_chunks_backfillInstalls .empty events
    rw [hrun]
    exact planned_of_chunks (hmono _ (hsorted.filter _)) (hstored _) hsplit
  intro stored batch next changes hplan
  have hrun := planInstall_fst (some stored) batch
  rw [hplan] at hrun
  have hnext : next = (byTime batch).foldl InstallState.fold stored := Option.some.inj hrun
  rw [hnext]
  exact ((InstallState.Extends.refl stored).foldl _).merge

/-- An upgrade and a downgrade, tracked one event at a time. -/
theorem backfill_chunking_free_versions :
    let events := [versionEvent 1000 (some "1.0.0"), versionEvent 2000 (some "1.1.0"), versionEvent 3000 (some "1.0.0")]
    (planInstall none (eventsOf events ⟨1, "i"⟩)).map (fun plan => plan.2.length) = some 2 ∧
      ((events.map (fun e => [e])).foldl trackInstalls .empty).Planned events := by
  intro events
  have hsorted : events.Pairwise (fun a b => a.at_ ≤ b.at_) := by decide
  exact ⟨by decide, (backfill_chunking_free hsorted).1 _ rfl⟩

end argvio.storage
