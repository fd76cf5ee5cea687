import Argvio.Storage.TenantCalls

namespace argvio.storage

section Statements

variable (scope : SweepScope) (cutoff : Int)

/-- `DELETE FROM install_version_changes WHERE at < $1 AND ...`. -/
def SweptTables.deleteChanges (db : SweptTables) : SweptTables :=
  { db with changes := db.changes.filter (fun row => ¬ (row.2.at_ < cutoff ∧ scope.selects row.1.tenant)) }

/-- The discoveries of installs about to be swept. -/
def SweptTables.deleteSweptDiscoveries (db : SweptTables) : SweptTables :=
  { db with discoveries := db.discoveries.keep (fun d _ => ¬ db.outdated scope cutoff d.install) }

/-- `DELETE FROM installs WHERE last_seen < $1 AND ...`. -/
def SweptTables.deleteInstalls (db : SweptTables) : SweptTables :=
  { db with installs := db.installs.keep (fun k _ => ¬ db.outdated scope cutoff k) }

/-- The old discoveries whose install has no row. -/
def SweptTables.deleteOrphanDiscoveries (db : SweptTables) : SweptTables :=
  { db with discoveries := db.discoveries.keep (fun d firstAt =>
      ¬ (firstAt < cutoff ∧ scope.selects d.install.tenant ∧ (db.installs.lookup d.install).isNone)) }

/-- `DELETE FROM error_reasons WHERE last_seen < $1 AND ...`. -/
def SweptTables.deleteReasons (db : SweptTables) : SweptTables :=
  { db with reasons := fun t =>
      if scope.selects t then
        { db.reasons t with reasons := (db.reasons t).reasons.deleteWhere (fun _ seen => seen < cutoff) }
      else db.reasons t }

/-- A change to the vocabularies of one kind, of the tenants of the scope. -/
def SweptTables.sweepVocabularies (db : SweptTables) (f : Vocabulary → Vocabulary) : VocabularyKind → SweptTables
  | .counter => { db with counters := fun t => if scope.selects t then f (db.counters t) else db.counters t }
  | .measure => { db with measures := fun t => if scope.selects t then f (db.measures t) else db.measures t }
  | .value => { db with values := fun t => if scope.selects t then f (db.values t) else db.values t }

/-- `DELETE FROM {names} WHERE last_seen < $1 AND ...`. -/
def SweptTables.deleteNames (db : SweptTables) (v : VocabularyKind) : SweptTables :=
  db.sweepVocabularies scope
    (fun w => { w with tables := { w.tables with
      names := w.tables.names.deleteWhere (fun _ seen => seen < cutoff) } }) v

/-- The labels that are old or whose name has no row. -/
def SweptTables.deleteLabels (db : SweptTables) (v : VocabularyKind) : SweptTables :=
  db.sweepVocabularies scope
    (fun w => { w with tables := { w.tables with
      labels := w.tables.labels.deleteWhere (fun k seen => seen < cutoff ∨ k.name ∉ w.tables.names.keys) } }) v

/-- The dimension values that are old or whose name has no row. -/
def SweptTables.deleteDims (db : SweptTables) (v : VocabularyKind) : SweptTables :=
  db.sweepVocabularies scope
    (fun w => { w with dims := w.dims.deleteWhere (fun k seen => seen < cutoff ∨ k.name ∉ w.tables.names.keys) }) v

/-- The names, the labels and the dimension values of one vocabulary, in this order. -/
def SweptTables.deleteVocabulary (db : SweptTables) (v : VocabularyKind) : SweptTables :=
  ((db.deleteNames scope cutoff v).deleteLabels scope cutoff v).deleteDims scope cutoff v

/-- The statements of the transaction of `sweepInstalls`, in order, with the rows
affected by the one on installs. -/
def sweepTransaction (db : SweptTables) : SweptTables × Nat :=
  let db := db.deleteChanges scope cutoff
  -- Before the installs themselves, which is how the swept ones are found.
  let db := db.deleteSweptDiscoveries scope cutoff
  let deleted := db.installs.keys.countP (db.outdated scope cutoff)
  let db := db.deleteInstalls scope cutoff
  let db := db.deleteOrphanDiscoveries scope cutoff
  let db := db.deleteReasons scope cutoff
  let db := db.deleteVocabulary scope cutoff .counter
  let db := db.deleteVocabulary scope cutoff .measure
  let db := db.deleteVocabulary scope cutoff .value
  (db, deleted)

end Statements

variable (scope : SweepScope) (cutoff : Int) (db : SweptTables)

theorem sweepVocabularies_comp (f g : Vocabulary → Vocabulary) (v : VocabularyKind) :
    (db.sweepVocabularies scope f v).sweepVocabularies scope g v = db.sweepVocabularies scope (fun w => g (f w)) v := by
  have hcomp : ∀ of : UUID → Vocabulary,
      (fun t => if scope.selects t then g (if scope.selects t then f (of t) else of t)
        else if scope.selects t then f (of t) else of t) =
      fun t => if scope.selects t then g (f (of t)) else of t := by
    intro of
    funext t
    by_cases hselects : scope.selects t = true <;> simp [hselects]
  cases v <;> simp only [SweptTables.sweepVocabularies, hcomp]

theorem deleteVocabulary_eq (v : VocabularyKind) :
    db.deleteVocabulary scope cutoff v = db.sweepVocabularies scope (fun w => w.sweepBefore cutoff) v := by
  unfold SweptTables.deleteVocabulary SweptTables.deleteNames SweptTables.deleteLabels SweptTables.deleteDims
  rw [sweepVocabularies_comp, sweepVocabularies_comp]
  rfl

/-- The statements do together what `sweepBefore` says. -/
theorem sweepTransaction_eq :
    sweepTransaction scope cutoff db =
      (db.sweepBefore scope cutoff, db.installs.keys.countP (db.outdated scope cutoff)) := by
  unfold sweepTransaction
  simp only [deleteVocabulary_eq]
  rfl

/-- A sweep commits exactly what its transaction does. -/
theorem sweepInstalls_eq {scope : SweepScope} {days : Int} (hdays : 0 < days) (now : Int) (db : SweptTables) :
    sweepInstalls scope days now db = .ok (sweepTransaction scope (sweepCutoff days now) db) := by
  rw [sweepTransaction_eq]
  exact if_neg (not_le.mpr hdays)

/-- The rows of one tenant: its installs, their version changes and discoveries, and
its vocabularies. -/
structure TenantRows where
  installs : String → Option InstallState
  changes : List (String × VersionChange)
  discoveries : String → DiscoveryKind → String → Option Int
  vocabularies : TenantVocabularies

def SweptTables.rowsOf (db : SweptTables) (tenant : UUID) : TenantRows where
  installs := fun id => db.installs.lookup ⟨tenant, id⟩
  changes := (db.changes.filter (fun row => row.1.tenant = tenant)).map (fun row => (row.1.id, row.2))
  discoveries := fun id kind name => db.discoveries.lookup ⟨⟨tenant, id⟩, kind, name⟩
  vocabularies := db.ofTenant tenant

/-- What a sweep leaves of the rows of a tenant it is for. -/
def TenantRows.sweepBefore (rows : TenantRows) (cutoff : Int) : TenantRows where
  installs := fun id => (rows.installs id).filter (fun st => cutoff ≤ st.lastSeen)
  changes := rows.changes.filter (fun row => cutoff ≤ row.2.at_)
  discoveries := fun id kind name =>
    match rows.installs id with
    | some st => if cutoff ≤ st.lastSeen then rows.discoveries id kind name else none
    | none => (rows.discoveries id kind name).filter (fun firstAt => cutoff ≤ firstAt)
  vocabularies := rows.vocabularies.sweepBefore cutoff

section Tenant

variable (db : SweptTables) (scope : SweepScope) (cutoff : Int) (tenant : UUID)

theorem installs_sweepBefore (id : String) :
    (db.sweepBefore scope cutoff).installs.lookup ⟨tenant, id⟩ =
      if scope.selects tenant then (db.installs.lookup ⟨tenant, id⟩).filter (fun st => cutoff ≤ st.lastSeen)
      else db.installs.lookup ⟨tenant, id⟩ := by
  change (db.installs.keep _).lookup _ = _
  rw [GoMap.lookup_keep]
  cases hrow : db.installs.lookup ⟨tenant, id⟩ with
  | none => simp
  | some st => by_cases hselects : scope.selects tenant = true <;> simp [SweptTables.outdated, hrow, hselects, Option.filter]

theorem discoveries_sweepBefore (id : String) (kind : DiscoveryKind) (name : String) :
    (db.sweepBefore scope cutoff).discoveries.lookup ⟨⟨tenant, id⟩, kind, name⟩ =
      if scope.selects tenant then
        match db.installs.lookup ⟨tenant, id⟩ with
        | some st => if cutoff ≤ st.lastSeen then db.discoveries.lookup ⟨⟨tenant, id⟩, kind, name⟩ else none
        | none => (db.discoveries.lookup ⟨⟨tenant, id⟩, kind, name⟩).filter (fun firstAt => cutoff ≤ firstAt)
      else db.discoveries.lookup ⟨⟨tenant, id⟩, kind, name⟩ := by
  have hinstall := installs_sweepBefore db scope cutoff tenant id
  change (GoMap.keep (fun (d : DiscoveryKey) firstAt => decide (¬ (firstAt < cutoff ∧ scope.selects d.install.tenant ∧
    ((db.sweepBefore scope cutoff).installs.lookup d.install).isNone))) (db.discoveries.keep _)).lookup _ = _
  rw [GoMap.lookup_keep, GoMap.lookup_keep]
  cases hdiscovery : db.discoveries.lookup ⟨⟨tenant, id⟩, kind, name⟩ with
  | none =>
    simp only [Option.filter_none]
    split
    · split
      · split <;> rfl
      · rfl
    · rfl
  | some firstAt =>
    by_cases hselects : scope.selects tenant = true
    · rw [if_pos hselects] at hinstall ⊢
      cases hrow : db.installs.lookup ⟨tenant, id⟩ with
      | none =>
        rw [hrow] at hinstall
        simp [Option.filter, SweptTables.outdated, hrow, hselects, hinstall]
      | some st =>
        rw [hrow] at hinstall
        by_cases hrecent : cutoff ≤ st.lastSeen
        · simp [Option.filter, SweptTables.outdated, hrow, hselects, hinstall, hrecent]
        · simp [Option.filter, SweptTables.outdated, hrow, hselects, hrecent, not_le.mp hrecent]
    · simp [Option.filter, SweptTables.outdated, hselects]

theorem changes_sweepBefore :
    ((db.sweepBefore scope cutoff).changes.filter (fun row => row.1.tenant = tenant)) =
      if scope.selects tenant then
        (db.changes.filter (fun row => row.1.tenant = tenant)).filter (fun row => cutoff ≤ row.2.at_)
      else db.changes.filter (fun row => row.1.tenant = tenant) := by
  change (db.changes.filter _).filter _ = _
  rw [List.filter_filter]
  split
  · rename_i hselects
    rw [List.filter_filter]
    refine List.filter_congr fun row _ => ?_
    by_cases htenant : row.1.tenant = tenant <;> simp [htenant, hselects]
  · rename_i hselects
    refine List.filter_congr fun row _ => ?_
    by_cases htenant : row.1.tenant = tenant <;> simp [htenant, hselects]

/-- A sweep goes tenant by tenant: those of the scope are swept, the others stay. -/
theorem rowsOf_sweepBefore :
    (db.sweepBefore scope cutoff).rowsOf tenant =
      if scope.selects tenant then (db.rowsOf tenant).sweepBefore cutoff else db.rowsOf tenant := by
  have hinstalls := installs_sweepBefore db scope cutoff tenant
  have hchanges := changes_sweepBefore db scope cutoff tenant
  have hdiscoveries := discoveries_sweepBefore db scope cutoff tenant
  have hvocabularies := ofTenant_sweepBefore db scope cutoff tenant
  unfold SweptTables.rowsOf
  simp only [hinstalls, hchanges, hdiscoveries, hvocabularies]
  split
  · simp only [TenantRows.sweepBefore, List.filter_map]
    rfl
  · rfl

end Tenant

section Spec

/-- A vocabulary row stays when it is recent enough and the name it goes with, if
any, stays. -/
theorem row_sweepBefore_eq_some {s : TenantVocabularies} {cutoff : Int} {key : VocabularyKey} {a : Int} :
    (s.sweepBefore cutoff).row key = some a ↔
      s.row key = some a ∧ cutoff ≤ a ∧ ∀ owner ∈ key.owner, ((s.sweepBefore cutoff).row owner).isSome = true := by
  have howned (v : VocabularyKind) (name : String) :
      decide (a < cutoff ∨ name ∉ ((s.sweepBefore cutoff).vocabulary v).tables.names.keys) = false ↔ cutoff ≤ a ∧
        ∀ owner ∈ some (VocabularyKey.name v name), ((s.sweepBefore cutoff).row owner).isSome = true := by
    rw [decide_eq_false_iff_not, not_or, not_lt, not_not]
    refine and_congr_right fun _ => ?_
    simp only [Option.mem_some_iff, forall_eq']
    exact CappedTable.isSome_row.symm
  cases key with
  | name v name | reason reason =>
    refine CappedTable.row_deleteWhere_eq_some.trans (and_congr_right fun _ => ?_)
    simp [VocabularyKey.owner]
  | label v key | dim v key =>
    exact CappedTable.row_deleteWhere_eq_some.trans (and_congr_right fun _ => howned v key.name)

/-- What is gone after a sweep of a tenant's rows. -/
structure TenantRows.SweepPost (cutoff : Int) (rows after : TenantRows) : Prop where
  installs : ∀ id st, after.installs id = some st → cutoff ≤ st.lastSeen
  changes : ∀ row ∈ after.changes, cutoff ≤ row.2.at_
  vocabularies : ∀ key a, after.vocabularies.row key = some a → cutoff ≤ a
  owned : ∀ key owner, owner ∈ key.owner → (after.vocabularies.row key).isSome = true →
    (after.vocabularies.row owner).isSome = true
  discoveries : ∀ id, (rows.installs id).isSome = true → after.installs id = none →
    ∀ kind name, after.discoveries id kind name = none
  orphans : ∀ id, after.installs id = none →
    ∀ kind name firstAt, after.discoveries id kind name = some firstAt → cutoff ≤ firstAt

/-- What is as it was before a sweep of a tenant's rows. -/
structure TenantRows.SweepFrame (cutoff : Int) (rows after : TenantRows) : Prop where
  installs : ∀ id st, rows.installs id = some st → cutoff ≤ st.lastSeen → after.installs id = some st
  installs_old : ∀ id st, after.installs id = some st → rows.installs id = some st
  changes : after.changes = rows.changes.filter (fun row => cutoff ≤ row.2.at_)
  vocabularies : ∀ key a, rows.vocabularies.row key = some a → cutoff ≤ a →
    (∀ owner ∈ key.owner, (after.vocabularies.row owner).isSome = true) → after.vocabularies.row key = some a
  vocabularies_old : ∀ key a, after.vocabularies.row key = some a → rows.vocabularies.row key = some a
  discoveries : ∀ id, (after.installs id).isSome = true →
    ∀ kind name, after.discoveries id kind name = rows.discoveries id kind name
  orphans : ∀ id, rows.installs id = none →
    ∀ kind name firstAt, rows.discoveries id kind name = some firstAt → cutoff ≤ firstAt →
      after.discoveries id kind name = some firstAt
  discoveries_old : ∀ id kind name firstAt, after.discoveries id kind name = some firstAt →
    rows.discoveries id kind name = some firstAt
  overflow : ∀ v, (after.vocabularies.vocabulary v).tables.overflow = (rows.vocabularies.vocabulary v).tables.overflow
  reason_overflow : after.vocabularies.reasons.foldedCount = rows.vocabularies.reasons.foldedCount ∧
    after.vocabularies.reasons.lastFoldedAt = rows.vocabularies.reasons.lastFoldedAt

variable {rows : TenantRows} {cutoff : Int}

theorem installs_swept_eq_some {id : String} {st : InstallState} :
    (rows.sweepBefore cutoff).installs id = some st ↔ rows.installs id = some st ∧ cutoff ≤ st.lastSeen := by
  change (rows.installs id).filter _ = some st ↔ _
  rw [Option.filter_eq_some_iff, decide_eq_true_eq]

theorem sweepPost (rows : TenantRows) (cutoff : Int) : rows.SweepPost cutoff (rows.sweepBefore cutoff) where
  installs := fun id st hst => (installs_swept_eq_some.mp hst).2
  changes := fun row hrow => of_decide_eq_true (List.mem_filter.mp hrow).2
  vocabularies := fun key a ha => (row_sweepBefore_eq_some.mp ha).2.1
  owned := by
    intro key owner howner hrow
    obtain ⟨a, ha⟩ := Option.isSome_iff_exists.mp hrow
    exact (row_sweepBefore_eq_some.mp ha).2.2 owner howner
  discoveries := by
    intro id hbefore hgone kind name
    obtain ⟨st, hst⟩ := Option.isSome_iff_exists.mp hbefore
    have hold : ¬ cutoff ≤ st.lastSeen := fun hrecent => by
      rw [installs_swept_eq_some.mpr ⟨hst, hrecent⟩] at hgone
      cases hgone
    simp [TenantRows.sweepBefore, hst, hold]
  orphans := by
    intro id hgone kind name firstAt hdiscovery
    unfold TenantRows.sweepBefore at hdiscovery
    dsimp only at hdiscovery
    split at hdiscovery
    · rename_i st hst
      split at hdiscovery
      · rename_i hrecent
        rw [installs_swept_eq_some.mpr ⟨hst, hrecent⟩] at hgone
        cases hgone
      · cases hdiscovery
    · exact of_decide_eq_true (Option.filter_eq_some_iff.mp hdiscovery).2

theorem sweepFrame (rows : TenantRows) (cutoff : Int) : rows.SweepFrame cutoff (rows.sweepBefore cutoff) where
  installs := fun id st hst hrecent => installs_swept_eq_some.mpr ⟨hst, hrecent⟩
  installs_old := fun id st hst => (installs_swept_eq_some.mp hst).1
  changes := rfl
  vocabularies := fun key a ha hrecent howner => row_sweepBefore_eq_some.mpr ⟨ha, hrecent, howner⟩
  vocabularies_old := fun key a ha => (row_sweepBefore_eq_some.mp ha).1
  discoveries := by
    intro id hkept kind name
    obtain ⟨st, hst⟩ := Option.isSome_iff_exists.mp hkept
    obtain ⟨hrow, hrecent⟩ := installs_swept_eq_some.mp hst
    simp [TenantRows.sweepBefore, hrow, hrecent]
  orphans := by
    intro id hnone kind name firstAt hdiscovery hrecent
    simp [TenantRows.sweepBefore, hnone, hdiscovery, Option.filter, hrecent]
  discoveries_old := by
    intro id kind name firstAt hdiscovery
    unfold TenantRows.sweepBefore at hdiscovery
    dsimp only at hdiscovery
    split at hdiscovery
    · split at hdiscovery
      · exact hdiscovery
      · cases hdiscovery
    · exact (Option.filter_eq_some_iff.mp hdiscovery).1
  overflow := fun _ => rfl
  reason_overflow := ⟨rfl, rfl⟩

/-- The rows affected are the installs that are there before and not after. -/
theorem countP_outdated (db : SweptTables) (scope : SweepScope) (cutoff : Int) :
    db.installs.keys.countP (db.outdated scope cutoff) =
      db.installs.keys.countP (fun k => ((db.sweepBefore scope cutoff).installs.lookup k).isNone) := by
  refine List.countP_congr fun k hk => ?_
  obtain ⟨st, hst⟩ := Option.isSome_iff_exists.mp (AList.lookup_isSome.mpr (AList.mem_keys.mpr hk))
  rw [Option.isNone_iff_eq_none, lookup_sweepBefore hst]
  simp [SweptTables.outdated, hst]

end Spec

theorem Vocabulary.sweepBefore_sweepBefore (v : Vocabulary) (a b : Int) :
    (v.sweepBefore a).sweepBefore b = v.sweepBefore (max a b) := by
  simp only [sweepBefore, CappedTable.deleteWhere, Vocabulary.mk.injEq, Tables.mk.injEq, CappedTable.mk.injEq, and_true]
  refine ⟨⟨?_, ?_⟩, ?_⟩ <;> ext k <;> simp <;> grind

/-- Of two sweeps, the one with the later cutoff decides. -/
theorem TenantRows.sweepBefore_sweepBefore (rows : TenantRows) (a b : Int) :
    (rows.sweepBefore a).sweepBefore b = rows.sweepBefore (max a b) := by
  unfold sweepBefore TenantVocabularies.sweepBefore CappedTable.deleteWhere
  simp only [Vocabulary.sweepBefore_sweepBefore]
  congr 1
  · funext id
    cases rows.installs id <;> grind
  · rw [List.filter_filter]
    exact List.filter_congr fun row _ => by grind
  · funext id kind name
    -- An install that the first sweep deletes has left no discovery for the second.
    cases rows.installs id <;> cases rows.discoveries id kind name <;> grind
  · congr 3
    ext k
    simp
    grind

/-- Whatever sweeps run, in whatever order, a tenant keeps what the latest of its cutoffs leaves. -/
theorem sweeps_keep_latest (sweeps : List (SweepScope × Int)) (db : SweptTables) (tenant : UUID) :
    (sweeps.foldl (fun db s => (sweepTransaction s.1 s.2 db).1) db).rowsOf tenant =
      ((sweeps.filter (fun s => s.1.selects tenant)).map Prod.snd).max?.elim (db.rowsOf tenant)
        (db.rowsOf tenant).sweepBefore := by
  induction sweeps generalizing db with
  | nil => rfl
  | cons s sweeps ih =>
    rw [List.foldl_cons, ih, sweepTransaction_eq, rowsOf_sweepBefore, List.filter_cons]
    split
    · rw [List.map_cons, List.max?_cons]
      cases ((sweeps.filter (fun s => s.1.selects tenant)).map Prod.snd).max? with
      | none => rfl
      | some c => exact TenantRows.sweepBefore_sweepBefore ..
    · rfl

end argvio.storage
