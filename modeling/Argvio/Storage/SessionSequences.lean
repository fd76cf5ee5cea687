import Argvio.PagedOrder
import Argvio.Storage.Sessions

open groupby sqlwindow List

namespace argvio.storage

def maxSequenceLength : ℕ := 5

section Query

variable (gap : Int) (events : List SessionEvent)

/-- The rows of `numbered` with a command name. -/
def named : List SessionEvent := events.filter (fun e => e.command.isSome)

def stepWindow : Window SessionEvent (String ×ₗ ℕ) (Int ×ₗ WithTop String ×ₗ ℕ) := ⟨sessionKey gap events, SessionEvent.rank⟩

def prevCommand (e : SessionEvent) : Option String :=
  ((stepWindow gap events).lag (named events) e).bind SessionEvent.command

def pos (e : SessionEvent) : ℕ := (stepWindow gap events).rowNumber (named events) e

def collapsed : List SessionEvent := (named events).filter (fun e => prevCommand gap events e ≠ e.command)

def collapsedWindow : Window SessionEvent (String ×ₗ ℕ) ℕ := ⟨sessionKey gap events, pos gap events⟩

def step (e : SessionEvent) : ℕ := (collapsedWindow gap events).rowNumber (collapsed gap events) e

/-- The rows that are aggregated. -/
def firstSteps : List SessionEvent := (collapsed gap events).filter (fun e => step gap events e ≤ maxSequenceLength)

/-- `array_agg(command_name ORDER BY step)` of a session. -/
def sequenceOf (k : String ×ₗ ℕ) : List String :=
  ((⟨sessionKey gap events, step gap events⟩ : Window SessionEvent (String ×ₗ ℕ) ℕ).partition (firstSteps gap events)
    k).filterMap SessionEvent.command

def sequences : List (List String) := (keys (sessionKey gap events) (firstSteps gap events)).map (sequenceOf gap events)

end Query

structure SessionSequence where
  commands : List String
  sessions : ℕ
  deriving DecidableEq

/-- The rows of the query before they are ordered and paged. -/
def sequenceRows (gap : Int) (events : List SessionEvent) (minLength : Int) : List SessionSequence :=
  let long := (sequences gap events).filter (fun s => max minLength 1 ≤ s.length)
  long.dedup.map (fun s => ⟨s, long.count s⟩)

/-- `ORDER BY sessions DESC, commands ASC`. -/
def SessionSequence.rank (r : SessionSequence) : ℕᵒᵈ ×ₗ List String := toLex (OrderDual.toDual r.sessions, r.commands)

def sessionSequences (table : LogTable) (render : allowlist.AttrValue → String) (scope : TenantScope) (f : Filters)
    (minLength : Int) : Except String (List SessionSequence) :=
  if f.offset < 0 then .error "storage: session sequences: ERROR: OFFSET must not be negative (SQLSTATE 2201X)"
  else
    let rows := sequenceRows sessionGap (table.sessionEvents render scope.tenantID f).events minLength
    .ok (page f.offset.toNat (clampLimit f.limit).toNat (rows.insertionSort (fun x y => x.rank ≤ y.rank)))

section Sequence

variable (gap : Int) (c : SessionEvents) (k : String ×ₗ ℕ)

theorem SessionEvents.untied_steps : (stepWindow gap c.events).Untied c.events :=
  c.untied.imp (fun hne hkey => hne (congrArg (fun k => (ofLex k).1) hkey))

/-- The commands of a session, in order. -/
def SessionEvents.commandsOf : List String := ((stepWindow gap c.events).partition c.events k).filterMap SessionEvent.command

/-- The steps of a session are those of its commands that differ from the one before. -/
theorem SessionEvents.map_collapsed :
    ((collapsedWindow gap c.events).partition (collapsed gap c.events) k).map SessionEvent.command =
      ((c.commandsOf gap k).destutter (· ≠ ·)).map some := by
  have hnamed : (stepWindow gap c.events).Untied (named c.events) := List.Pairwise.filter _ (c.untied_steps gap)
  have hsteps : (stepWindow gap c.events).partition (named c.events) k =
      ((stepWindow gap c.events).partition c.events k).filter (fun e => e.command.isSome) :=
    (c.untied_steps gap).partition_filter _ k
  have hcommands : ((stepWindow gap c.events).partition (named c.events) k).map SessionEvent.command =
      (c.commandsOf gap k).map some := by
    rw [hsteps, SessionEvents.commandsOf]
    induction (stepWindow gap c.events).partition c.events k with
    | nil => rfl
    | cons e rest ih => cases hcommand : e.command <;> simp [hcommand, ih]
  have hcollapsed : (collapsedWindow gap c.events).partition (collapsed gap c.events) k =
      ((stepWindow gap c.events).partition (named c.events) k).filter
        (fun e => prevCommand gap c.events e ≠ e.command) := by
    rw [← hnamed.partition_rowNumber k]
    exact hnamed.untied_rowNumber.partition_filter _ k
  have hprev : ∀ u r v, (stepWindow gap c.events).partition (named c.events) k = u ++ r :: v →
      prevCommand gap c.events r = u.getLast?.bind SessionEvent.command := by
    intro u r v h
    rw [prevCommand, hnamed.lag_eq h]
  have hsome : ∀ e ∈ (stepWindow gap c.events).partition (named c.events) k, e.command.isSome = true :=
    fun e he => (mem_filter.mp (Window.mem_partition.mp he).1).2
  rw [hcollapsed, map_destutter_ne _ (Option.some_injective _), ← hcommands]
  cases hsplit : (stepWindow gap c.events).partition (named c.events) k with
  | nil => rfl
  | cons a rest =>
    rw [hsplit] at hprev hsome
    have hfirst : prevCommand gap c.events a ≠ a.command := by
      rw [hprev [] a rest rfl]
      exact (Option.isSome_iff_ne_none.mp (hsome a mem_cons_self)).symm
    rw [filter_cons_of_pos (by simpa using hfirst), map_cons, map_cons, destutter_cons']
    refine destutter'_map_filter (fun u r v h => ?_)
    rw [decide_eq_true_eq, hprev (a :: u) r v (by rw [h, cons_append]), getLast?_cons, Option.bind_some]

/-- The sequence of a session is the beginning of its commands without repetitions. -/
theorem SessionEvents.sequenceOf_eq :
    sequenceOf gap c.events k = ((c.commandsOf gap k).destutter (· ≠ ·)).take maxSequenceLength := by
  have hcollapsed : (collapsedWindow gap c.events).Untied (collapsed gap c.events) :=
    List.Pairwise.filter _ (Window.Untied.untied_rowNumber (List.Pairwise.filter _ (c.untied_steps gap)))
  have hfirst : (⟨sessionKey gap c.events, step gap c.events⟩ : Window SessionEvent (String ×ₗ ℕ) ℕ).partition
      (firstSteps gap c.events) k =
        ((collapsedWindow gap c.events).partition (collapsed gap c.events) k).take maxSequenceLength := by
    rw [← hcollapsed.filter_rowNumber, ← hcollapsed.partition_rowNumber k]
    exact hcollapsed.untied_rowNumber.partition_filter _ k
  have hmap : ∀ l : List SessionEvent, l.filterMap SessionEvent.command = (l.map SessionEvent.command).filterMap id :=
    fun l => by rw [filterMap_map, Function.id_comp]
  unfold sequenceOf
  rw [hfirst, hmap, map_take, c.map_collapsed, ← map_take, filterMap_map]
  exact filterMap_some

end Sequence

theorem SessionSequence.rank_injective : Function.Injective SessionSequence.rank := by
  rintro ⟨commands, sessions⟩ ⟨commands', sessions'⟩ h
  obtain ⟨hsessions, hcommands⟩ := Prod.mk.inj (toLex.injective h)
  obtain rfl : sessions = sessions' := hsessions
  obtain rfl : commands = commands' := hcommands
  rfl

theorem nodup_sequenceRows (gap : Int) (events : List SessionEvent) (minLength : Int) :
    ((sequenceRows gap events minLength).map SessionSequence.commands).Nodup := by
  unfold sequenceRows
  rw [map_map]
  exact (map_id _).symm ▸ nodup_dedup _

section Rows

variable {gap : Int} {events : List SessionEvent} {minLength : Int}

/-- A session without steps has no sequence. -/
theorem sequenceOf_eq_nil {k : String ×ₗ ℕ} (hk : k ∉ keys (sessionKey gap events) (firstSteps gap events)) :
    sequenceOf gap events k = [] := by
  refine filterMap_eq_nil_iff.mpr (fun e he => absurd ?_ hk)
  exact groupby.mem_keys.mpr ⟨e, Window.mem_partition.mp he⟩

/-- The sessions with a sequence are among those that are aggregated. -/
theorem count_sequences {s : List String} (hs : s ≠ []) :
    (sequences gap events).count s = (keys (sessionKey gap events) events).countP (fun k => sequenceOf gap events k = s) := by
  have hsub : ∀ e ∈ firstSteps gap events, e ∈ events :=
    fun e he => mem_of_mem_filter (mem_of_mem_filter (mem_of_mem_filter he))
  unfold sequences
  rw [count_eq_countP, countP_map, countP_eq_length_filter, countP_eq_length_filter]
  refine List.Perm.length_eq ((perm_ext_iff_of_nodup (nodup_keys.filter _) (nodup_keys.filter _)).mpr (fun k => ?_))
  simp only [mem_filter, Function.comp_apply, beq_iff_eq, decide_eq_true_eq, and_congr_left_iff]
  intro hseq
  constructor
  · intro hk
    obtain ⟨e, he, hkey⟩ := groupby.mem_keys.mp hk
    exact groupby.mem_keys.mpr ⟨e, hsub e he, hkey⟩
  · intro _
    by_contra hk
    exact hs (hseq.symm.trans (sequenceOf_eq_nil hk))

/-- Each sequence that is long enough has a row, with the number of sessions that have it. -/
theorem mem_sequenceRows_iff {r : SessionSequence} :
    r ∈ sequenceRows gap events minLength ↔ max minLength 1 ≤ r.commands.length ∧ 0 < r.sessions ∧
      r.sessions = (keys (sessionKey gap events) events).countP (fun k => sequenceOf gap events k = r.commands) := by
  obtain ⟨s, n⟩ := r
  have hcount : max minLength 1 ≤ s.length →
      ((sequences gap events).filter (fun s => max minLength 1 ≤ s.length)).count s =
        (keys (sessionKey gap events) events).countP (fun k => sequenceOf gap events k = s) := by
    intro hlong
    rw [count_filter (by simpa using hlong), count_sequences]
    rintro rfl
    simp at hlong
  simp only [sequenceRows, mem_map, mem_dedup, SessionSequence.mk.injEq]
  constructor
  · rintro ⟨s, hs, rfl, rfl⟩
    have hlong := of_decide_eq_true (mem_filter.mp hs).2
    exact ⟨hlong, count_pos_iff.mpr hs, hcount hlong⟩
  · rintro ⟨hlong, hpos, hn⟩
    rw [← hcount hlong] at hn
    exact ⟨s, count_pos_iff.mp (hn ▸ hpos), rfl, hn.symm⟩

/-- Read page after page, the rows all come once: the ranking leaves no ties. -/
theorem sequenceRows_pages {L N : ℕ} (hL : 0 < L) {order : ℕ → List SessionSequence}
    (horder : ∀ m, tiedorder.Arranges SessionSequence.rank (sequenceRows gap events minLength) (order m))
    (hN : (sequenceRows gap events minLength).length ≤ N * L) :
    (tiedorder.pages L N order).Perm (sequenceRows gap events minLength) := by
  have hnodup := (nodup_sequenceRows gap events minLength).of_map
  exact (tiedorder.unsplit_of_injective hnodup SessionSequence.rank_injective).pages_perm hL hnodup horder hN

end Rows

section Pages

variable {table : LogTable} {render : allowlist.AttrValue → String} {scope : TenantScope} {f : Filters} {minLength : Int}

theorem sessionSequences_page {L : ℕ} (hL : 1 ≤ L) (hmax : L ≤ 1000) (m : ℕ) :
    sessionSequences table render scope { f with limit := L, offset := (m * L : ℕ) } minLength =
      .ok (page (m * L) L ((sequenceRows sessionGap (table.sessionEvents render scope.tenantID f).events
        minLength).insertionSort (fun x y => x.rank ≤ y.rank))) := by
  unfold sessionSequences
  simp only [clampLimit_page hL hmax, Int.toNat_natCast]
  rw [if_neg (Int.not_lt.mpr (Int.natCast_nonneg _))]
  rfl

theorem sessionSequences_pages {L N : ℕ} (hL : 1 ≤ L) (hmax : L ≤ 1000)
    (hN : (sequenceRows sessionGap (table.sessionEvents render scope.tenantID f).events minLength).length ≤ N * L) :
    ∃ pages, (range N).mapM (fun m : ℕ =>
        sessionSequences table render scope { f with limit := L, offset := (m * L : ℕ) } minLength) = .ok pages ∧
      pages.flatten.Perm (sequenceRows sessionGap (table.sessionEvents render scope.tenantID f).events minLength) := by
  simp only [sessionSequences_page hL hmax]
  refine (tiedorder.exists_mapM_ok_iff N _ _).mpr (sequenceRows_pages hL (fun m => ⟨?_, ?_⟩) hN)
  · exact perm_insertionSort _ _
  · exact pairwise_insertionSort _ _

end Pages

/-- The sequence of a session is the beginning of its commands without repetitions, each sequence is reported with
the number of its sessions, and the ranking leaves no ties that could make pages overlap or skip. -/
theorem session_sequences (gap : Int) (c : SessionEvents) (minLength : Int) :
    (∀ k, sequenceOf gap c.events k = ((c.commandsOf gap k).destutter (· ≠ ·)).take maxSequenceLength) ∧
    ((sequenceRows gap c.events minLength).map SessionSequence.commands).Nodup ∧
    (∀ r, r ∈ sequenceRows gap c.events minLength ↔ max minLength 1 ≤ r.commands.length ∧ 0 < r.sessions ∧
      r.sessions = (keys (sessionKey gap c.events) c.events).countP
        (fun k => sequenceOf gap c.events k = r.commands)) ∧
    Function.Injective SessionSequence.rank ∧
    (∀ (L : ℕ) (order : ℕ → List SessionSequence), 0 < L →
      (∀ m, tiedorder.Arranges SessionSequence.rank (sequenceRows gap c.events minLength) (order m)) →
      ∀ N, (sequenceRows gap c.events minLength).length ≤ N * L →
        (tiedorder.pages L N order).Perm (sequenceRows gap c.events minLength)) ∧
    ∀ (table : LogTable) (render : allowlist.AttrValue → String) (scope : TenantScope) (f : Filters) (L : ℕ),
      1 ≤ L → L ≤ 1000 → ∀ N,
      (sequenceRows sessionGap (table.sessionEvents render scope.tenantID f).events minLength).length ≤ N * L →
        ∃ pages, (range N).mapM (fun m : ℕ =>
            sessionSequences table render scope { f with limit := L, offset := (m * L : ℕ) } minLength) = .ok pages ∧
          pages.flatten.Perm (sequenceRows sessionGap (table.sessionEvents render scope.tenantID f).events minLength) :=
  ⟨c.sequenceOf_eq gap, nodup_sequenceRows _ _ _, fun _ => mem_sequenceRows_iff, SessionSequence.rank_injective,
    fun _ _ hL horder _ hN => sequenceRows_pages hL horder hN, fun _ _ _ _ _ hL hmax _ hN =>
      sessionSequences_pages hL hmax hN⟩

/-- Two sequences of different lengths, read one a page. -/
theorem session_sequences_hour :
    ∃ pages, (range 2).mapM (fun m : ℕ =>
        sessionSequences hourTable allowlist.AttrValue.goType ⟨1, by decide⟩
          { wholeHour with limit := 1, offset := (m * 1 : ℕ) } 1) = .ok pages ∧
      pages.flatten.Perm [⟨["init", "build"], 1⟩, ⟨["test"], 1⟩] := by
  obtain ⟨-, -, -, -, -, hpages⟩ := session_sequences sessionGap hourOfSessions 1
  have hrows : sequenceRows sessionGap hourOfSessions.events 1 = [⟨["init", "build"], 1⟩, ⟨["test"], 1⟩] := by decide
  have hN : (sequenceRows sessionGap hourOfSessions.events 1).length ≤ 2 * 1 := by rw [hrows]; decide
  exact hrows ▸ hpages hourTable _ _ wholeHour 1 le_rfl (by decide) 2 hN

end argvio.storage
