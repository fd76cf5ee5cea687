import Argvio.SqlWindow
import Argvio.Storage.Values
import Argvio.Storage.Predicates

open groupby sqlwindow List

namespace argvio.storage

/-- A completed command of an install, with its name if it has one. -/
structure SessionEvent where
  install : String
  time : Int
  command : Option String
  id : UUID
  deriving DecidableEq

def SessionEvent.place (e : SessionEvent) : Int ×ₗ ℕ := placeOf e.time e.id

/-- `ORDER BY time, command_name, id`, where a missing name comes last. -/
def SessionEvent.rank (e : SessionEvent) : Int ×ₗ WithTop String ×ₗ ℕ :=
  toLex (e.time, toLex ((e.command : WithTop String), e.id.toNat))

/-- Events of one tenant, with the primary key of the logs they are read from. -/
structure SessionEvents where
  events : List SessionEvent
  primaryKey : (events.map SessionEvent.place).Nodup

def StoredLog.sessionEvent (render : allowlist.AttrValue → String) (r : StoredLog) : Option SessionEvent :=
  (r.logAttributes.jsonText render attrInstallID).map
    (fun install => { install, time := r.time, command := r.commandName, id := r.id })

def LogTable.sessionEvents (table : LogTable) (render : allowlist.AttrValue → String) (tenant : UUID) (f : Filters) :
    SessionEvents where
  events := (table.rows.filter (sessionEventPredicates tenant f)).filterMap (StoredLog.sessionEvent render)
  primaryKey := by
    refine table.nodup_filterMap (fun r hr => tenantID_of_sessionEventPredicates hr) (fun r e h => ?_)
    obtain ⟨install, -, rfl⟩ := Option.map_eq_some_iff.mp h
    rfl

def installWindow : Window SessionEvent String (Int ×ₗ WithTop String ×ₗ ℕ) := ⟨SessionEvent.install, SessionEvent.rank⟩

section Sessionized

-- The columns of `gapped` and `numbered`, as functions of the rows of `events`. Times are in microseconds.
variable (gap : Int) (events : List SessionEvent)

def startsSession (e : SessionEvent) : ℕ :=
  if (installWindow.lag events e).any (fun before => decide (gap < e.time - before.time)) then 1 else 0

def sessionNo (e : SessionEvent) : ℕ := installWindow.sumUpTo events (startsSession gap events) e

/-- The seconds from the first event to the last one, in which the database counts in microseconds. -/
def sessionLength (rows : List SessionEvent) : ℚ :=
  (((rows.map SessionEvent.time).max?.getD 0 - (rows.map SessionEvent.time).min?.getD 0 : Int) : ℚ) / 1000000

/-- `GROUP BY install_id, session_no`. -/
def sessionKey (e : SessionEvent) : String ×ₗ ℕ := toLex (e.install, sessionNo gap events e)

def sessionLengths : List ℚ :=
  (keys (sessionKey gap events) events).map (fun k => sessionLength (group (sessionKey gap events) events k))

end Sessionized

def sessionGap : Int := 30 * 60 * 1000000

def sessionLengthEdges : List ℚ := [60, 300, 900, 1800]

def sessionLengthLabels : List String := ["0", "<1m", "1-5m", "5-15m", "15-30m", "30m+"]

/-- `width_bucket` over increasing bounds: how many of them the value reaches. -/
def widthBucket (x : ℚ) (bounds : List ℚ) : ℕ := bounds.countP (· ≤ x)

def bucketIdx (x : ℚ) : ℕ := if x = 0 then 0 else 1 + widthBucket x sessionLengthEdges

/-- `percentile_cont(0.5)`: the mean of the two middle values, or of the middle one with itself. -/
def median (l : List ℚ) : Option ℚ :=
  let sorted := l.insertionSort (· ≤ ·)
  sorted[(l.length - 1) / 2]?.bind (fun low => sorted[l.length / 2]?.map (fun high => (low + high) / 2))

/-- A row of the query. It has no bucket in the row of the empty grouping set. -/
structure LengthRow where
  idx : Option ℕ
  n : ℕ
  median : Option ℚ

def lengthRows (gap : Int) (events : List SessionEvent) : List LengthRow :=
  let lengths := sessionLengths gap events
  ⟨none, lengths.length, storage.median lengths⟩ ::
    (keys bucketIdx lengths).map (fun i =>
      ⟨some i, (group bucketIdx lengths i).length, storage.median (group bucketIdx lengths i)⟩)

structure SessionLengthBucket where
  label : String
  minSeconds : ℚ := 0
  maxSeconds : Option ℚ := none
  sessions : ℕ := 0

structure SessionLengths where
  gapSeconds : ℚ
  sessionCount : ℕ := 0
  medianSeconds : Option ℚ := none
  buckets : List SessionLengthBucket

def emptySessionLengths : SessionLengths where
  gapSeconds := sessionGap / 1000000
  buckets := sessionLengthLabels.zipIdx.map (fun e =>
    if e.2 = 0 then { label := e.1, maxSeconds := some 0 }
    else
      { label := e.1
        minSeconds := if e.2 > 1 then sessionLengthEdges.getD (e.2 - 2) 0 else 0
        maxSeconds := sessionLengthEdges[e.2 - 1]? })

/-- One turn of the loop over the rows. -/
def scanLength (out : SessionLengths) (r : LengthRow) : Except String SessionLengths :=
  match r.idx with
  | none => .ok { out with sessionCount := r.n, medianSeconds := r.median }
  | some idx =>
    if idx ≥ out.buckets.length then
      .error ("storage: session length bucket " ++ toString idx ++ " out of range")
    else .ok { out with buckets := out.buckets.modify idx (fun b => { b with sessions := r.n }) }

def scanLengths (rows : List LengthRow) : Except String SessionLengths := rows.foldlM scanLength emptySessionLengths

def sessionLengthDistribution (table : LogTable) (render : allowlist.AttrValue → String) (scope : TenantScope)
    (f : Filters) : Except String SessionLengths :=
  scanLengths (lengthRows sessionGap (table.sessionEvents render scope.tenantID f).events)

/-- The lengths that a bucket is declared for, given its index. Only the first one has sessions of length zero. -/
def SessionLengthBucket.Covers (b : SessionLengthBucket) (i : ℕ) (x : ℚ) : Prop :=
  if i = 0 then x = 0 else x ≠ 0 ∧ b.minSeconds ≤ x ∧ ∀ upper ∈ b.maxSeconds, x < upper

instance (b : SessionLengthBucket) (i : ℕ) (x : ℚ) : Decidable (b.Covers i x) := by
  unfold SessionLengthBucket.Covers
  infer_instance

section Numbered

variable (gap : Int) (c : SessionEvents)

theorem SessionEvents.untied : installWindow.Untied c.events := by
  refine (pairwise_map.mp c.primaryKey).imp (fun hne _ hrank => hne ?_)
  obtain ⟨htime, hrest⟩ := Prod.mk.inj (toLex.injective hrank)
  obtain ⟨-, hid⟩ := Prod.mk.inj (toLex.injective hrest)
  exact congrArg toLex (Prod.ext htime hid)

theorem SessionEvents.numbers (install : String) :
    Numbers (fun a b => decide (b.time - a.time ≤ gap)) (sessionNo gap c.events)
      (installWindow.partition c.events install) := by
  refine (c.untied.isChain_partition install (startsSession gap c.events)).imp ?_
  rintro a b ⟨hlag, hsum⟩
  refine hsum.trans (congrArg _ ?_)
  unfold startsSession
  rw [hlag, Option.any_some]
  by_cases hgap : gap < b.time - a.time
  · rw [if_pos (decide_eq_true hgap), if_neg (by rw [decide_eq_true_eq]; omega)]
  · rw [if_neg (by rwa [decide_eq_true_eq]), if_pos (decide_eq_true (not_lt.mp hgap))]

/-- Two events of an install are in one session exactly when no two neighbours from the one to the other are
more than the gap apart. -/
theorem SessionEvents.sessionNo_eq_iff {x y : SessionEvent} (hx : x ∈ c.events) (hy : y ∈ c.events)
    (hinstall : x.install = y.install) (hrank : x.rank < y.rank) :
    sessionNo gap c.events x = sessionNo gap c.events y ↔
      ((installWindow.partition c.events x.install).filter (fun e => x.rank ≤ e.rank ∧ e.rank ≤ y.rank)).IsChain
        (fun a b => b.time - a.time ≤ gap) := by
  have hmem : ∀ e ∈ c.events, e.install = x.install → e ∈ installWindow.partition c.events x.install :=
    fun e he hinstall => Window.mem_partition.mpr ⟨he, hinstall⟩
  obtain ⟨u, rest, hsplit⟩ := append_of_mem (hmem x hx rfl)
  obtain ⟨hu, hrest⟩ := c.untied.split hsplit
  have hy' : y ∈ rest := by
    have hin := hmem y hy hinstall.symm
    rw [hsplit, mem_append, mem_cons] at hin
    rcases hin with hin | rfl | hin
    · exact absurd (hu y hin) hrank.not_gt
    · exact absurd hrank (lt_irrefl _)
    · exact hin
  obtain ⟨m, v, rfl⟩ := append_of_mem hy'
  obtain ⟨hm, hv⟩ := c.untied.split (u := u ++ x :: m) (r := y) (v := v) (by simpa using hsplit)
  -- The filter leaves `x`, what follows it up to `y`, and `y`.
  have hbetween : (installWindow.partition c.events x.install).filter (fun e => x.rank ≤ e.rank ∧ e.rank ≤ y.rank) =
      x :: (m ++ [y]) := by
    have hfront : u.filter (fun e => x.rank ≤ e.rank ∧ e.rank ≤ y.rank) = [] :=
      filter_eq_nil_iff.mpr (fun e he hin => absurd (hu e he) (not_lt.mpr (of_decide_eq_true hin).1))
    have hback : v.filter (fun e => x.rank ≤ e.rank ∧ e.rank ≤ y.rank) = [] :=
      filter_eq_nil_iff.mpr (fun e he hin => absurd (hv e he) (not_lt.mpr (of_decide_eq_true hin).2))
    have hmiddle : m.filter (fun e => x.rank ≤ e.rank ∧ e.rank ≤ y.rank) = m :=
      filter_eq_self.mpr (fun e he => decide_eq_true ⟨(hrest e (mem_append_left _ he)).le,
        (hm e (mem_append_right u (mem_cons_of_mem x he))).le⟩)
    rw [hsplit, filter_append, hfront, nil_append, filter_cons_of_pos (by simpa using hrank.le), filter_append, hmiddle,
      filter_cons_of_pos (by simpa using hrank.le), hback]
  have hnumbers := c.numbers gap x.install
  rw [hsplit] at hnumbers
  have hstretch : x :: (m ++ [y]) <:+: u ++ x :: (m ++ y :: v) := ⟨u, v, by simp⟩
  have hpart := IsChain.infix hnumbers hstretch
  rw [hbetween, Numbers.eq_iff hpart]
  simp only [decide_eq_true_eq]

end Numbered

section Buckets

theorem sessionLength_nonneg (rows : List SessionEvent) : 0 ≤ sessionLength rows := by
  unfold sessionLength
  generalize rows.map SessionEvent.time = times
  have hle : times.min?.getD 0 ≤ times.max?.getD 0 := by
    cases hmax : times.max? with
    | none => simp [max?_eq_none_iff.mp hmax]
    | some last =>
      obtain ⟨hmem, hlast⟩ := max?_eq_some_iff.mp hmax
      cases hmin : times.min? with
      | none => simp [min?_eq_none_iff.mp hmin] at hmem
      | some first => exact hlast first (min?_eq_some_iff.mp hmin).1
  have hcast : (0 : ℚ) ≤ ((times.max?.getD 0 - times.min?.getD 0 : Int) : ℚ) := by exact_mod_cast Int.sub_nonneg.mpr hle
  positivity

theorem widthBucket_edges (x : ℚ) : widthBucket x sessionLengthEdges =
    if x < 60 then 0 else if x < 300 then 1 else if x < 900 then 2 else if x < 1800 then 3 else 4 := by
  unfold widthBucket sessionLengthEdges
  simp only [countP_cons, countP_nil, decide_eq_true_eq]
  split_ifs <;> first | rfl | (exfalso; linarith)

/-- The index that the query computes is that of the bucket declared for the length. -/
theorem bucketIdx_eq_iff {x : ℚ} (hx : 0 ≤ x) {i : ℕ} {b : SessionLengthBucket}
    (hb : emptySessionLengths.buckets[i]? = some b) : bucketIdx x = i ↔ b.Covers i x := by
  have hbuckets : emptySessionLengths.buckets = [⟨"0", 0, some 0, 0⟩, ⟨"<1m", 0, some 60, 0⟩, ⟨"1-5m", 60, some 300, 0⟩,
      ⟨"5-15m", 300, some 900, 0⟩, ⟨"15-30m", 900, some 1800, 0⟩, ⟨"30m+", 1800, none, 0⟩] := rfl
  rw [hbuckets] at hb
  unfold bucketIdx SessionLengthBucket.Covers
  rw [widthBucket_edges]
  rcases i with _ | _ | _ | _ | _ | _ | i
  all_goals cases hb
  all_goals simp only [Option.mem_def, Option.some.injEq, reduceCtorEq]
  all_goals grind

theorem bucketIdx_lt (x : ℚ) : bucketIdx x < 6 := by
  have hle : widthBucket x sessionLengthEdges ≤ 4 := countP_le_length
  unfold bucketIdx
  split <;> omega

end Buckets

section Scan

/-- The count of the row of a bucket, or of the whole; `d` if there is no such row. -/
def countOf (rows : List LengthRow) (idx : Option ℕ) (d : ℕ) : ℕ := ((rows.find? (·.idx = idx)).map LengthRow.n).getD d

variable {r : LengthRow} {rows rest : List LengthRow} {idx : Option ℕ} {d : ℕ}

theorem countOf_of_mem (hnodup : (rows.map LengthRow.idx).Nodup) (hr : r ∈ rows) : countOf rows r.idx d = r.n := by
  cases hfind : rows.find? (·.idx = r.idx) with
  | none => exact absurd (decide_eq_true rfl) (find?_eq_none.mp hfind r hr)
  | some r' =>
    have hsame := inj_on_of_nodup_map hnodup (mem_of_find?_eq_some hfind) hr (by simpa using find?_some hfind)
    simp [countOf, hfind, hsame]

theorem countOf_of_notMem (h : idx ∉ rows.map LengthRow.idx) : countOf rows idx d = d := by
  have hfind : rows.find? (·.idx = idx) = none :=
    find?_eq_none.mpr (fun r hr heq => h (of_decide_eq_true heq ▸ mem_map_of_mem hr))
  rw [countOf, hfind]
  rfl

theorem countOf_cons : countOf (r :: rest) idx d = if r.idx = idx then r.n else countOf rest idx d := by
  unfold countOf
  by_cases h : r.idx = idx <;> simp [h]

/-- The loop writes each count to its bucket. -/
theorem foldlM_scanLength (hnodup : (rows.map LengthRow.idx).Nodup) {out : SessionLengths}
    (hidx : ∀ r ∈ rows, ∀ i, r.idx = some i → i < out.buckets.length) :
    ∃ out', rows.foldlM scanLength out = .ok out' ∧ out'.sessionCount = countOf rows none out.sessionCount ∧
      ∀ i : ℕ, out'.buckets[i]? =
        out.buckets[i]?.map (fun b : SessionLengthBucket => { b with sessions := countOf rows (some i) b.sessions }) := by
  induction rows generalizing out with
  | nil => exact ⟨out, rfl, rfl, fun i => Option.map_id'.symm⟩
  | cons r rest ih =>
    obtain ⟨hnew, hnodup⟩ := nodup_cons.mp hnodup
    obtain ⟨hr, hrest⟩ := forall_mem_cons.mp hidx
    simp only [countOf_cons, foldlM_cons]
    cases hk : r.idx with
    | none =>
      rw [hk] at hnew
      obtain ⟨out', hout, hcount, hbuckets⟩ :=
        @ih hnodup { out with sessionCount := r.n, medianSeconds := r.median } hrest
      refine ⟨out', ?_, ?_, hbuckets⟩
      · rw [← hout]
        simp only [scanLength, hk]
        rfl
      · rw [hcount, countOf_of_notMem hnew, if_pos rfl]
    | some j =>
      rw [hk] at hnew
      obtain ⟨out', hout, hcount, hbuckets⟩ := @ih hnodup
        { out with buckets := out.buckets.modify j (fun b => { b with sessions := r.n }) }
        (by simpa only [length_modify] using hrest)
      refine ⟨out', ?_, hcount, fun i => ?_⟩
      · rw [← hout]
        simp only [scanLength, hk, if_neg (not_le.mpr (hr j hk))]
        rfl
      rw [hbuckets, getElem?_modify, Option.map_eq_map, Option.map_map]
      refine congrArg (Option.map · _) (funext fun b => ?_)
      by_cases hji : j = i
      · subst hji
        simp [countOf_of_notMem hnew]
      · simp [hji]

end Scan

section Distribution

variable {gap : Int} {events : List SessionEvent} {rows : List LengthRow}

theorem nodup_lengthRows : ((lengthRows gap events).map LengthRow.idx).Nodup := by
  unfold lengthRows
  rw [map_cons, map_map, nodup_cons]
  refine ⟨fun hmem => ?_, nodup_keys.map (Option.some_injective ℕ)⟩
  obtain ⟨i, -, hi⟩ := mem_map.mp hmem
  cases hi

/-- The row of a bucket counts the lengths of that bucket; there is none for an empty one. -/
theorem countOf_lengthRows (hrows : rows.Perm (lengthRows gap events)) (i : ℕ) :
    countOf rows (some i) 0 = (group bucketIdx (sessionLengths gap events) i).length := by
  by_cases hi : i ∈ keys bucketIdx (sessionLengths gap events)
  · exact countOf_of_mem ((hrows.map _).nodup_iff.mpr nodup_lengthRows)
      (hrows.mem_iff.mpr (mem_cons_of_mem _ (mem_map_of_mem hi)))
  have hempty : group bucketIdx (sessionLengths gap events) i = [] :=
    filter_eq_nil_iff.mpr (fun x hx heq => hi (mem_keys.mpr ⟨x, hx, of_decide_eq_true heq⟩))
  rw [hempty, countOf_of_notMem]
  · rfl
  · rw [(hrows.map LengthRow.idx).mem_iff]
    simpa [lengthRows] using hi

theorem nonneg_of_mem_sessionLengths {x : ℚ} (hx : x ∈ sessionLengths gap events) : 0 ≤ x := by
  obtain ⟨k, -, rfl⟩ := mem_map.mp hx
  exact sessionLength_nonneg _

/-- A bucket counts the sessions whose length it is declared for. -/
theorem length_group_eq_countP {i : ℕ} {b : SessionLengthBucket} (hb : emptySessionLengths.buckets[i]? = some b) :
    (group bucketIdx (sessionLengths gap events) i).length =
      (sessionLengths gap events).countP (fun x => decide (b.Covers i x)) := by
  unfold group
  rw [← countP_eq_length_filter]
  refine countP_congr (fun x hx => ?_)
  rw [decide_eq_true_eq, decide_eq_true_eq, bucketIdx_eq_iff (nonneg_of_mem_sessionLengths hx) hb]

theorem sum_length_group :
    ((range 6).map (fun i => (group bucketIdx (sessionLengths gap events) i).length)).sum =
      (sessionLengths gap events).length := by
  have hsum := sum_groups_of_cover (fun _ => 1) nodup_range
    (fun x (_ : x ∈ sessionLengths gap events) => mem_range.mpr (bucketIdx_lt x))
  simpa using hsum

/-- The buckets of a distribution count each of the lengths once, in the bucket declared for it. -/
structure SessionLengths.Partitions (out : SessionLengths) (lengths : List ℚ) : Prop where
  total : out.sessionCount = lengths.length
  sum : (out.buckets.map SessionLengthBucket.sessions).sum = out.sessionCount
  bucket (i : ℕ) : out.buckets[i]? = emptySessionLengths.buckets[i]?.map (fun b : SessionLengthBucket =>
    { b with sessions := lengths.countP (fun x => decide (b.Covers i x)) })

theorem scanLengths_ok (hrows : rows.Perm (lengthRows gap events)) :
    ∃ out, scanLengths rows = .ok out ∧ out.Partitions (sessionLengths gap events) := by
  have hnodup : (rows.map LengthRow.idx).Nodup := (hrows.map _).nodup_iff.mpr nodup_lengthRows
  have hidx : ∀ r ∈ rows, ∀ i, r.idx = some i → i < emptySessionLengths.buckets.length := by
    intro r hr i hi
    rcases mem_cons.mp (hrows.mem_iff.mp hr) with rfl | hr
    · cases hi
    obtain ⟨j, hj, rfl⟩ := mem_map.mp hr
    obtain ⟨x, -, rfl⟩ := mem_keys.mp hj
    cases hi
    exact bucketIdx_lt x
  obtain ⟨out, hout, hcount, hbuckets⟩ := foldlM_scanLength hnodup hidx
  have htotal := hcount.trans (countOf_of_mem hnodup (hrows.mem_iff.mpr mem_cons_self))
  have hzero : ∀ b ∈ emptySessionLengths.buckets, b.sessions = 0 := by decide
  have hcounts : ∀ i : ℕ, out.buckets[i]? = emptySessionLengths.buckets[i]?.map (fun b : SessionLengthBucket =>
      { b with sessions := (group bucketIdx (sessionLengths gap events) i).length }) := by
    intro i
    rw [hbuckets]
    refine Option.map_congr (fun b hb => ?_)
    rw [hzero b (mem_of_getElem? hb), countOf_lengthRows hrows]
  refine ⟨out, hout, htotal, ?_, fun i => ?_⟩
  · have hmap : out.buckets.map SessionLengthBucket.sessions =
        (range 6).map (fun i => (group bucketIdx (sessionLengths gap events) i).length) := by
      refine ext_getElem? (fun i => ?_)
      rw [getElem?_map, hcounts, Option.map_map, getElem?_map]
      by_cases hi : i < 6
      · rw [getElem?_range hi, getElem?_eq_getElem (show i < emptySessionLengths.buckets.length from hi)]
        rfl
      · have hlength : emptySessionLengths.buckets.length ≤ i := not_lt.mp hi
        rw [getElem?_eq_none hlength, getElem?_eq_none (by simpa using hi)]
        rfl
    rw [hmap, sum_length_group, htotal]
  · rw [hcounts]
    refine Option.map_congr (fun b hb => ?_)
    rw [length_group_eq_countP hb]

end Distribution

/-- Sessions are the longest runs of an install's events without a gap, and the buckets of their lengths are a
partition: the index that the query computes is always that of the bucket declared for the length. -/
theorem sessions_partition (gap : Int) (c : SessionEvents) :
    (∀ x ∈ c.events, ∀ y ∈ c.events, x.install = y.install → x.rank < y.rank →
      (sessionNo gap c.events x = sessionNo gap c.events y ↔
        ((installWindow.partition c.events x.install).filter (fun e => x.rank ≤ e.rank ∧ e.rank ≤ y.rank)).IsChain
          (fun a b => b.time - a.time ≤ gap))) ∧
    (∀ rows, rows.Perm (lengthRows gap c.events) →
      ∃ out, scanLengths rows = .ok out ∧ out.Partitions (sessionLengths gap c.events)) ∧
    ∀ (table : LogTable) (render : allowlist.AttrValue → String) (scope : TenantScope) (f : Filters),
      ∃ out, sessionLengthDistribution table render scope f = .ok out ∧
        out.Partitions (sessionLengths sessionGap (table.sessionEvents render scope.tenantID f).events) :=
  ⟨fun _ hx _ hy hinstall hrank => c.sessionNo_eq_iff gap hx hy hinstall hrank, fun _ hrows => scanLengths_ok hrows,
    fun _ _ _ _ => scanLengths_ok (List.Perm.refl _)⟩

def hourOfSessions : SessionEvents := hourTable.sessionEvents allowlist.AttrValue.goType 1 wholeHour

/-- The commands of the first half minute are a session, and one an hour later is not part of it. -/
theorem sessions_partition_hour :
    let event (second : Int) (id : UUID) (command : String) : SessionEvent := ⟨"i", second * 1000000, some command, id⟩
    (sessionNo sessionGap hourOfSessions.events (event 0 1 "init") =
        sessionNo sessionGap hourOfSessions.events (event 30 3 "build") ∧
      sessionNo sessionGap hourOfSessions.events (event 0 1 "init") ≠
        sessionNo sessionGap hourOfSessions.events (event 3600 4 "test")) ∧
    ∃ out, scanLengths (lengthRows sessionGap hourOfSessions.events).reverse = .ok out ∧ out.Partitions [30, 0] := by
  intro event
  obtain ⟨hsession, hscan, -⟩ := sessions_partition sessionGap hourOfSessions
  have hlengths : sessionLengths sessionGap hourOfSessions.events = [30, 0] := by decide +kernel
  have hfirst := hsession (event 0 1 "init") (by decide)
  refine ⟨⟨?_, fun hsame => ?_⟩, hlengths ▸ hscan _ (reverse_perm _)⟩
  · exact (hfirst (event 30 3 "build") (by decide) rfl (by decide)).mpr (by decide)
  · exact absurd ((hfirst (event 3600 4 "test") (by decide) rfl (by decide)).mp hsame) (by decide)

end argvio.storage
