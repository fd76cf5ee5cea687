import Argvio.LeastTable
import Argvio.Storage.Sweep

open argvio.allowlist leasttable List

namespace argvio.storage

section Backfill

/-- A row of the UNION ALL in the query of `BackfillDiscoveries`. -/
structure SightedColumns where
  tenantID : UUID
  installID : Option String
  kind : DiscoveryKind
  name : Option String
  time : Int

def featureColumns (render : AttrValue → String) (since : Int) (logs : List LogRow) : List SightedColumns :=
  (logs.filter (fun r => since ≤ r.time ∧ r.eventName = eventFeatureActivated)).map (fun r =>
    { tenantID := r.tenantID
      installID := r.logAttributes.jsonText render attrInstallID
      kind := .feature
      name := r.logAttributes.jsonText render attrActivationFeature
      time := r.time })

/-- `jsonb_array_elements_text` of the flag names, or of `[]` unless they are an array. -/
def flagElements (a : Attrs) : List String :=
  match a.lookup attrFlagNames with
  | some (.strs names) => names
  | _ => []

def flagColumns (render : AttrValue → String) (since : Int) (logs : List LogRow) : List SightedColumns :=
  (logs.filter (fun r => since ≤ r.time ∧ r.eventName = eventCommandInvoked)).flatMap (fun r =>
    (flagElements r.logAttributes).map (fun name =>
      { tenantID := r.tenantID
        installID := r.logAttributes.jsonText render attrInstallID
        kind := .flag
        name := some name
        time := r.time }))

/-- The outer WHERE, and the columns the rows are grouped by. -/
def SightedColumns.sighting (c : SightedColumns) : Option (DiscoveryKey × Int) :=
  if c.installID.getD "" ≠ "" ∧ c.name.getD "" ≠ "" then
    some (⟨⟨c.tenantID, c.installID.getD ""⟩, c.kind, c.name.getD ""⟩, c.time)
  else none

/-- What the query of `BackfillDiscoveries` returns, in some order. -/
def backfillQuery (render : AttrValue → String) (since : Int) (logs : List LogRow) : List (DiscoveryKey × Int) :=
  groupMin ((featureColumns render since logs ++ flagColumns render since logs).filterMap SightedColumns.sighting)

/-- The event scanned from a row of the query. -/
def scanDiscovery (row : DiscoveryKey × Int) : DiscoveryEvent where
  tenantID := row.1.install.tenant
  installID := row.1.install.id
  kind := row.1.kind
  name := row.1.name
  at_ := row.2

/-- The loop of `BackfillDiscoveries`. -/
structure Backfill where
  table : Discoveries
  chunk : List DiscoveryEvent := []
  total : Int := 0

def Backfill.flush (b : Backfill) : Backfill where
  table := trackDiscoveries b.table b.chunk
  total := b.total + b.chunk.length

def Backfill.next (b : Backfill) (row : DiscoveryKey × Int) : Backfill :=
  let b := { b with chunk := b.chunk ++ [scanDiscovery row] }
  if b.chunk.length = backfillChunk then b.flush else b

/-- `BackfillDiscoveries` over the rows of its query: how many discoveries it
replayed, and the table after. -/
def backfillDiscoveries (table : Discoveries) (rows : List (DiscoveryKey × Int)) : Int × Discoveries :=
  let b := (rows.foldl Backfill.next { table }).flush
  (b.total, b.table)

end Backfill

section Revealed

variable {r : LogRow} {k : DiscoveryKey}

/-- What a stored row says of a feature or a flag. -/
def LogRow.Shows (r : LogRow) : DiscoveryKind → String → Prop
  | .feature, name =>
    r.eventName = eventFeatureActivated ∧ r.logAttributes.lookup attrActivationFeature = some (.str name)
  | .flag, name => r.eventName = eventCommandInvoked ∧
    ∃ names, r.logAttributes.lookup attrFlagNames = some (.strs names) ∧ name ∈ names

/-- The row reveals that the install used the feature or flag. -/
structure LogRow.Reveals (r : LogRow) (k : DiscoveryKey) : Prop where
  tenant : r.tenantID = k.install.tenant
  install : r.logAttributes.lookup attrInstallID = some (.str k.install.id)
  shows : r.Shows k.kind k.name
  install_ne : k.install.id ≠ ""
  name_ne : k.name ≠ ""

/-- The sightings in some rows. -/
def revealed (logs : List LogRow) : Set (DiscoveryKey × Int) := {e | ∃ r ∈ logs, r.Reveals e.1 ∧ r.time = e.2}

theorem str_eq_iff {a : Attrs} {key s : String} (hs : s ≠ "") : a.str key = s ↔ a.lookup key = some (.str s) := by
  unfold Attrs.str
  split
  · rename_i s' hs'
    simp [hs']
  · rename_i hother
    exact iff_of_false (Ne.symm hs) (hother s)

variable {name : String}

theorem mem_distinctNames {seen names : List String} :
    name ∈ distinctNames seen names ↔ name ≠ "" ∧ name ∉ seen ∧ name ∈ names := by
  induction names generalizing seen with
  | nil => simp [distinctNames]
  | cons n names ih =>
    unfold distinctNames
    by_cases hskip : n = "" ∨ n ∈ seen
    · rw [if_pos hskip, ih]
      have hne (hname : name ≠ "") (hseen : name ∉ seen) : name ≠ n := by
        rintro rfl
        exact hskip.elim hname hseen
      grind
    · rw [if_neg hskip, mem_cons, ih]
      grind

theorem shows_feature_iff (hname : name ≠ "") : r.Shows .feature name ↔
    r.eventName = eventFeatureActivated ∧ r.logAttributes.str attrActivationFeature = name := by
  rw [str_eq_iff hname]
  rfl

theorem shows_flag_iff : r.Shows .flag name ↔
    r.eventName = eventCommandInvoked ∧ name ∈ flagElements r.logAttributes := by
  unfold LogRow.Shows flagElements
  dsimp only
  split
  · rename_i names hnames
    simp [hnames]
  · rename_i hother
    refine and_congr_right fun _ => iff_of_false ?_ not_mem_nil
    rintro ⟨names, hnames, _⟩
    exact hother names hnames

theorem reveals_iff : r.Reveals k ↔ r.tenantID = k.install.tenant ∧
    r.logAttributes.str attrInstallID = k.install.id ∧ r.Shows k.kind k.name ∧ k.install.id ≠ "" ∧ k.name ≠ "" := by
  constructor
  · rintro ⟨htenant, hinstall, hshows, hid, hname⟩
    exact ⟨htenant, (str_eq_iff hid).mpr hinstall, hshows, hid, hname⟩
  · rintro ⟨htenant, hinstall, hshows, hid, hname⟩
    exact ⟨htenant, (str_eq_iff hid).mp hinstall, hshows, hid, hname⟩

theorem Shows.eventName_eq {kind : DiscoveryKind} (h : r.Shows kind name) :
    r.eventName = eventFeatureActivated ∨ r.eventName = eventCommandInvoked := by
  cases kind with
  | feature => exact .inl h.1
  | flag => exact .inr h.1

/-- The `mk` of `DiscoveryEventsFromLog`. -/
def LogRow.sighted (r : LogRow) (kind : DiscoveryKind) (name : String) : DiscoveryEvent where
  tenantID := r.tenantID
  installID := r.logAttributes.str attrInstallID
  kind := kind
  name := name
  at_ := r.time

theorem discoveryEventsFromLog_of_anonymous (hid : r.logAttributes.str attrInstallID = "") :
    discoveryEventsFromLog r = [] := by
  unfold discoveryEventsFromLog
  dsimp only
  rw [if_pos hid, ite_self]

theorem discoveryEventsFromLog_of_activated (hevent : r.eventName = eventFeatureActivated)
    (hid : r.logAttributes.str attrInstallID ≠ "") : discoveryEventsFromLog r =
      if r.logAttributes.str attrActivationFeature = "" then []
      else [r.sighted .feature (r.logAttributes.str attrActivationFeature)] := by
  unfold discoveryEventsFromLog
  dsimp only
  rw [if_neg (fun hother => hother.1 hevent), if_neg hid, if_pos hevent]
  rfl

theorem discoveryEventsFromLog_of_invoked (hevent : r.eventName = eventCommandInvoked)
    (hid : r.logAttributes.str attrInstallID ≠ "") : discoveryEventsFromLog r =
      (distinctNames [] (flagElements r.logAttributes)).map (r.sighted .flag) := by
  have hne : r.eventName ≠ eventFeatureActivated := by
    rw [hevent]
    decide
  unfold discoveryEventsFromLog flagElements
  dsimp only
  rw [if_neg (fun hother => hother.2 hevent), if_neg hid, if_neg hne]
  cases r.logAttributes.lookup attrFlagNames with
  | none => rfl
  | some v => cases v <;> rfl

/-- The events read off a row are what the row reveals. -/
theorem mem_discoveryEventsFromLog {e : DiscoveryEvent} :
    e ∈ discoveryEventsFromLog r ↔ r.Reveals e.key ∧ r.time = e.at_ := by
  obtain ⟨tenantID, installID, kind, name, at_⟩ := e
  rw [reveals_iff]
  by_cases hid : r.logAttributes.str attrInstallID = ""
  · rw [discoveryEventsFromLog_of_anonymous hid]
    refine iff_of_false not_mem_nil ?_
    rintro ⟨⟨_, hinstall, _, hne, _⟩, _⟩
    exact hne (hinstall.symm.trans hid)
  by_cases hactivated : r.eventName = eventFeatureActivated
  · rw [discoveryEventsFromLog_of_activated hactivated hid, mem_ite_nil_left, mem_singleton]
    constructor
    · rintro ⟨hname, heq⟩
      cases heq
      exact ⟨⟨rfl, rfl, (shows_feature_iff hname).mpr ⟨hactivated, rfl⟩, hid, hname⟩, rfl⟩
    rintro ⟨⟨rfl, rfl, hshows, _, hne⟩, rfl⟩
    cases kind with
    | feature =>
      obtain ⟨_, rfl⟩ := (shows_feature_iff hne).mp hshows
      exact ⟨hne, rfl⟩
    | flag => exact absurd (hactivated.symm.trans hshows.1) (by decide)
  by_cases hinvoked : r.eventName = eventCommandInvoked
  · rw [discoveryEventsFromLog_of_invoked hinvoked hid, mem_map]
    constructor
    · rintro ⟨name', hname, heq⟩
      cases heq
      obtain ⟨hne, _, hmem⟩ := mem_distinctNames.mp hname
      exact ⟨⟨rfl, rfl, shows_flag_iff.mpr ⟨hinvoked, hmem⟩, hid, hne⟩, rfl⟩
    · rintro ⟨⟨rfl, rfl, hshows, _, hne⟩, rfl⟩
      cases kind with
      | feature => exact absurd hshows.1 hactivated
      | flag => exact ⟨name, mem_distinctNames.mpr ⟨hne, not_mem_nil, (shows_flag_iff.mp hshows).2⟩, rfl⟩
  · have hnone : discoveryEventsFromLog r = [] := if_pos ⟨hactivated, hinvoked⟩
    rw [hnone]
    refine iff_of_false not_mem_nil ?_
    rintro ⟨⟨_, _, hshows, _⟩, _⟩
    exact (Shows.eventName_eq hshows).elim hactivated hinvoked

end Revealed

section Tracking

variable {d : Discoveries} {s : Set (DiscoveryKey × Int)} {events : List DiscoveryEvent}

def DiscoveryEvent.sighting (e : DiscoveryEvent) : DiscoveryKey × Int := (e.key, e.at_)

theorem see_eq (d : Discoveries) (k : DiscoveryKey) (at_ : Int) : Discoveries.see d k at_ = leasttable.see d k at_ := by
  unfold Discoveries.see leasttable.see
  cases d.lookup k <;> rfl

/-- The upsert of the rows of one or several statements, one row after another. -/
def upsertDiscoveries (d : Discoveries) (rows : List (DiscoveryKey × Int)) : Discoveries :=
  rows.foldl (fun d row => Discoveries.see d row.1 row.2) d

theorem records_upsertDiscoveries (h : Records d s) (rows : List (DiscoveryKey × Int)) :
    Records (upsertDiscoveries d rows) (s ∪ {row | row ∈ rows}) := by
  unfold upsertDiscoveries
  simp only [see_eq]
  exact h.foldl rows

theorem records_firstSightings (events : List DiscoveryEvent) :
    Records (firstSightings events) {e | e ∈ events.map DiscoveryEvent.sighting} := by
  have hfold : firstSightings events = upsertDiscoveries ∅ (events.map DiscoveryEvent.sighting) := by
    unfold firstSightings upsertDiscoveries
    rw [foldl_map]
    rfl
  rw [hfold]
  simpa using records_upsertDiscoveries records_empty (events.map DiscoveryEvent.sighting)

/-- The rows one call of `TrackDiscoveries` upserts. -/
def statementRows (events : List DiscoveryEvent) : List (DiscoveryKey × Int) := rows (firstSightings events)

theorem standsFor_statementRows (events : List DiscoveryEvent) :
    StandsFor {e | e ∈ statementRows events} {e | e ∈ events.map DiscoveryEvent.sighting} :=
  (records_firstSightings events).standsFor_rows

theorem trackDiscoveries_eq (d : Discoveries) (events : List DiscoveryEvent) :
    trackDiscoveries d events = upsertDiscoveries d (statementRows events) := by
  unfold trackDiscoveries upsertDiscoveries statementRows rows
  rw [foldl_map]

theorem records_trackDiscoveries (h : Records d s) (events : List DiscoveryEvent) :
    Records (trackDiscoveries d events) (s ∪ {e | e ∈ events.map DiscoveryEvent.sighting}) := by
  rw [trackDiscoveries_eq]
  exact (records_upsertDiscoveries h _).of_standsFor ((StandsFor.refl s).union (standsFor_statementRows events))

end Tracking

section BackfillQuery

variable {render : AttrValue → String} {since : Int} {logs : List LogRow} {k : DiscoveryKey} {t : Int}

/-- As ingest stores them, an install ID and a feature's name are strings. -/
structure LogRow.NamesAreText (r : LogRow) : Prop where
  install : ∀ v, r.logAttributes.lookup attrInstallID = some v → ∃ id, v = .str id
  feature : ∀ v, r.logAttributes.lookup attrActivationFeature = some v → ∃ name, v = .str name

theorem jsonText_getD {a : Attrs} {key : String} (htext : ∀ v, a.lookup key = some v → ∃ s, v = .str s) :
    (a.jsonText render key).getD "" = a.str key := by
  unfold Attrs.jsonText Attrs.str
  cases hlookup : a.lookup key with
  | none => rfl
  | some v =>
    obtain ⟨s, rfl⟩ := htext v hlookup
    rfl

theorem sighting_eq_some_iff {c : SightedColumns} : c.sighting = some (k, t) ↔
    c.tenantID = k.install.tenant ∧ c.installID.getD "" = k.install.id ∧ c.kind = k.kind ∧ c.name.getD "" = k.name ∧
      c.time = t ∧ k.install.id ≠ "" ∧ k.name ≠ "" := by
  obtain ⟨⟨tenant, id⟩, kind, name⟩ := k
  unfold SightedColumns.sighting
  split
  · rename_i hne
    simp only [Option.some.injEq, Prod.mk.injEq, DiscoveryKey.mk.injEq, InstallKey.mk.injEq]
    constructor
    · rintro ⟨⟨⟨rfl, rfl⟩, rfl, rfl⟩, rfl⟩
      exact ⟨rfl, rfl, rfl, rfl, rfl, hne⟩
    · rintro ⟨rfl, rfl, rfl, rfl, rfl, _⟩
      exact ⟨⟨⟨rfl, rfl⟩, rfl, rfl⟩, rfl⟩
  · rename_i hempty
    refine iff_of_false (by simp) ?_
    rintro ⟨_, rfl, _, rfl, _, hne⟩
    exact hempty hne

theorem mem_featureColumns_iff (htext : ∀ r ∈ logs, r.NamesAreText) :
    (∃ c ∈ featureColumns render since logs, c.sighting = some (k, t)) ↔
      ∃ r ∈ logs, since ≤ r.time ∧ k.kind = .feature ∧ r.Reveals k ∧ r.time = t := by
  unfold featureColumns
  simp only [mem_map, mem_filter, decide_eq_true_eq, exists_exists_and_eq_and, sighting_eq_some_iff, reveals_iff]
  simp only [and_assoc]
  refine exists_congr fun r => and_congr_right fun hr => and_congr_right fun _ => ?_
  rw [jsonText_getD (htext r hr).install, jsonText_getD (htext r hr).feature]
  grind [shows_feature_iff]

theorem mem_flagColumns_iff (htext : ∀ r ∈ logs, r.NamesAreText) :
    (∃ c ∈ flagColumns render since logs, c.sighting = some (k, t)) ↔
      ∃ r ∈ logs, since ≤ r.time ∧ k.kind = .flag ∧ r.Reveals k ∧ r.time = t := by
  unfold flagColumns
  simp only [mem_flatMap, mem_map, mem_filter, decide_eq_true_eq, reveals_iff]
  constructor
  · rintro ⟨c, ⟨r, ⟨hr, hsince, hevent⟩, name, hname, rfl⟩, hsighting⟩
    grind [sighting_eq_some_iff, jsonText_getD (htext r hr).install, shows_flag_iff]
  · rintro ⟨r, hr, hsince, hkind, ⟨htenant, hinstall, hshows, hid, hne⟩, htime⟩
    rw [hkind] at hshows
    obtain ⟨hevent, hname⟩ := shows_flag_iff.mp hshows
    refine ⟨_, ⟨r, ⟨hr, hsince, hevent⟩, k.name, hname, rfl⟩, sighting_eq_some_iff.mpr ?_⟩
    rw [jsonText_getD (htext r hr).install]
    exact ⟨htenant, hinstall, hkind.symm, rfl, htime, hid, hne⟩

/-- The rows of the query stand for what the logs reveal. -/
theorem standsFor_backfillQuery (htext : ∀ r ∈ logs, r.NamesAreText) (hsince : ∀ r ∈ logs, since ≤ r.time) :
    StandsFor {e | e ∈ backfillQuery render since logs} (revealed logs) := by
  have hunion : {e | e ∈ (featureColumns render since logs ++ flagColumns render since logs).filterMap
      SightedColumns.sighting} = revealed logs := by
    ext ⟨k, t⟩
    simp only [Set.mem_ofPred_eq, mem_filterMap, mem_append, or_and_right, exists_or,
      mem_featureColumns_iff htext, mem_flagColumns_iff htext, revealed]
    constructor
    · rintro (⟨r, hr, _, _, hreveals⟩ | ⟨r, hr, _, _, hreveals⟩)
      · exact ⟨r, hr, hreveals⟩
      · exact ⟨r, hr, hreveals⟩
    · rintro ⟨r, hr, hreveals⟩
      cases hkind : k.kind with
      | feature => exact .inl ⟨r, hr, hsince r hr, rfl, hreveals⟩
      | flag => exact .inr ⟨r, hr, hsince r hr, rfl, hreveals⟩
  rw [← hunion]
  exact standsFor_groupMin _

end BackfillQuery

section BackfillLoop

variable {b : Backfill} {s : Set (DiscoveryKey × Int)} {scanned : List (DiscoveryKey × Int)}

/-- Of the rows scanned, those flushed are in the table and counted, and the chunk
holds the others. -/
def Backfill.Replays (b : Backfill) (s : Set (DiscoveryKey × Int)) (scanned : List (DiscoveryKey × Int)) : Prop :=
  ∃ flushed, scanned = flushed ++ b.chunk.map DiscoveryEvent.sighting ∧ Records b.table (s ∪ {e | e ∈ flushed}) ∧
    b.total = flushed.length

theorem Backfill.Replays.flush_spec (h : b.Replays s scanned) :
    Records b.flush.table (s ∪ {e | e ∈ scanned}) ∧ b.flush.total = scanned.length := by
  obtain ⟨flushed, rfl, htable, htotal⟩ := h
  constructor
  · have hset : s ∪ {e | e ∈ flushed ++ b.chunk.map DiscoveryEvent.sighting} =
        s ∪ {e | e ∈ flushed} ∪ {e | e ∈ b.chunk.map DiscoveryEvent.sighting} := by
      ext e
      simp only [Set.mem_union, Set.mem_ofPred_eq, mem_append, or_assoc]
    rw [hset]
    exact records_trackDiscoveries htable b.chunk
  · simp [Backfill.flush, htotal]

theorem Backfill.Replays.next (h : b.Replays s scanned) (row : DiscoveryKey × Int) :
    (b.next row).Replays s (scanned ++ [row]) := by
  have hadded : Backfill.Replays { b with chunk := b.chunk ++ [scanDiscovery row] } s (scanned ++ [row]) := by
    obtain ⟨flushed, rfl, htable, htotal⟩ := h
    refine ⟨flushed, ?_, htable, htotal⟩
    rw [append_assoc, map_append]
    rfl
  unfold Backfill.next
  dsimp only
  split
  · obtain ⟨htable, htotal⟩ := hadded.flush_spec
    exact ⟨scanned ++ [row], (append_nil _).symm, htable, htotal⟩
  · exact hadded

theorem Backfill.Replays.foldl (h : b.Replays s scanned) (rows : List (DiscoveryKey × Int)) :
    (rows.foldl Backfill.next b).Replays s (scanned ++ rows) := by
  induction rows generalizing b scanned with
  | nil => simpa using h
  | cons row rows ih => simpa using ih (h.next row)

/-- However the rows fall into chunks, all of them are replayed and counted. -/
theorem backfillDiscoveries_spec {d : Discoveries} (h : Records d s) (rows : List (DiscoveryKey × Int)) :
    Records (backfillDiscoveries d rows).2 (s ∪ {e | e ∈ rows}) ∧ (backfillDiscoveries d rows).1 = rows.length := by
  have hstart : Backfill.Replays { table := d } s [] := ⟨[], rfl, by simpa using h, rfl⟩
  exact (hstart.foldl rows).flush_spec

end BackfillLoop

section Runs

variable {logs : List LogRow} {batches : List (List LogRow)} {ops rows : List (DiscoveryKey × Int)}

/-- The rows all the statements upsert stand for what the logs reveal. -/
theorem standsFor_batches (hbatches : ∀ r, r ∈ logs ↔ ∃ b ∈ batches, r ∈ b)
    (hops : ops.Perm (batches.flatMap (fun b => statementRows (b.flatMap discoveryEventsFromLog)))) :
    StandsFor {op | op ∈ ops} (revealed logs) := by
  have hstands := StandsFor.iUnion fun (b : List LogRow) (_ : b ∈ batches) =>
    standsFor_statementRows (b.flatMap discoveryEventsFromLog)
  have hrows : {op | op ∈ ops} =
      {e | ∃ b ∈ batches, e ∈ {e | e ∈ statementRows (b.flatMap discoveryEventsFromLog)}} := by
    ext e
    exact hops.mem_iff.trans mem_flatMap
  have hsightings : revealed logs =
      {e | ∃ b ∈ batches, e ∈ {e | e ∈ (b.flatMap discoveryEventsFromLog).map DiscoveryEvent.sighting}} := by
    ext ⟨k, t⟩
    constructor
    · rintro ⟨r, hr, hreveals, htime⟩
      obtain ⟨b, hb, hrb⟩ := (hbatches r).mp hr
      refine ⟨b, hb, mem_map.mpr ⟨scanDiscovery (k, t), mem_flatMap.mpr ⟨r, hrb, ?_⟩, rfl⟩⟩
      exact mem_discoveryEventsFromLog.mpr ⟨hreveals, htime⟩
    · rintro ⟨b, hb, hsighting⟩
      obtain ⟨e, hevent, heq⟩ := mem_map.mp hsighting
      cases heq
      obtain ⟨r, hrb, hr⟩ := mem_flatMap.mp hevent
      exact ⟨r, (hbatches r).mpr ⟨b, hb, hrb⟩, mem_discoveryEventsFromLog.mp hr⟩
  rw [hrows, hsightings]
  exact hstands

/-- However stored rows were tracked, split into batches that may repeat them and with
the upserts of the batches' rows in any order, the table has the earliest sighting of
all that the rows reveal, and a backfill rebuilds it and leaves it alone. -/
theorem discoveries_tracked_and_backfilled (htext : ∀ r ∈ logs, r.NamesAreText)
    (hbatches : ∀ r, r ∈ logs ↔ ∃ b ∈ batches, r ∈ b)
    (hops : ops.Perm (batches.flatMap (fun b => statementRows (b.flatMap discoveryEventsFromLog)))) :
    (∀ k, OptLeast {t | ∃ r ∈ logs, r.Reveals k ∧ r.time = t} ((upsertDiscoveries ∅ ops).lookup k)) ∧
      ∀ render since rows, (∀ r ∈ logs, since ≤ r.time) → rows.Perm (backfillQuery render since logs) →
        (backfillDiscoveries ∅ rows).2.Same (upsertDiscoveries ∅ ops) ∧
          (backfillDiscoveries (upsertDiscoveries ∅ ops) rows).2.Same (upsertDiscoveries ∅ ops) := by
  have hlive : Records (upsertDiscoveries ∅ ops) (revealed logs) := by
    have hrecords := records_upsertDiscoveries records_empty ops
    rw [Set.empty_union] at hrecords
    exact hrecords.of_standsFor (standsFor_batches hbatches hops)
  refine ⟨hlive, fun render since rows hsince hrows => ?_⟩
  have hstands : StandsFor {e | e ∈ rows} (revealed logs) := by
    have hset : {e | e ∈ rows} = {e | e ∈ backfillQuery render since logs} := by
      ext e
      exact hrows.mem_iff
    rw [hset]
    exact standsFor_backfillQuery htext hsince
  constructor
  · obtain ⟨hrebuilt, _⟩ := backfillDiscoveries_spec records_empty rows
    rw [Set.empty_union] at hrebuilt
    exact (hrebuilt.of_standsFor hstands).same hlive
  · obtain ⟨hagain, _⟩ := backfillDiscoveries_spec hlive rows
    have hboth := hagain.of_standsFor ((StandsFor.refl (revealed logs)).union hstands)
    rw [Set.union_self] at hboth
    exact hboth.same hlive

/-- An install's use of a feature. -/
def sampleActivation (time : Int) : LogRow :=
  { (default : LogRow) with
    time := time
    tenantID := 1
    eventName := eventFeatureActivated
    logAttributes := (Finmap.singleton attrInstallID (.str "i")).insert attrActivationFeature (.str "sync") }

theorem sampleActivation_namesAreText (time : Int) : (sampleActivation time).NamesAreText where
  install := by
    intro v hv
    cases hv
    exact ⟨_, rfl⟩
  feature := by
    intro v hv
    cases hv
    exact ⟨_, rfl⟩

/-- A later use tracked twice and an earlier one that arrives late. -/
theorem discoveries_tracked_and_backfilled_late :
    (backfillDiscoveries ∅ (backfillQuery AttrValue.goType 5 [sampleActivation 7, sampleActivation 5])).2.Same
      (upsertDiscoveries ∅ ([[sampleActivation 7], [sampleActivation 7, sampleActivation 5]].flatMap
        (fun b => statementRows (b.flatMap discoveryEventsFromLog))).reverse) := by
  have htext : ∀ r ∈ [sampleActivation 7, sampleActivation 5], r.NamesAreText := by
    simp [sampleActivation_namesAreText]
  have hsince : ∀ r ∈ [sampleActivation 7, sampleActivation 5], 5 ≤ r.time := by
    simp [sampleActivation]
  exact ((discoveries_tracked_and_backfilled htext (by simp) (reverse_perm _)).2 _ 5 _ hsince (List.Perm.refl _)).1

end Runs

end argvio.storage
