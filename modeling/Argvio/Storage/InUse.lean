import Argvio.Storage.SweepStatements

namespace argvio.storage

open TenantVocabularies

section Names

variable {c : AdmitCall} {t t' : Tables} {p p' : Phase}

/-- `last_seen` of a name or a label, if it has a row. -/
def Tables.row (t : Tables) : String ⊕ CounterKey → Option Int
  | .inl name => t.names.row name
  | .inr key => t.labels.row key

theorem isSome_row_name {name : String} : (t.row (.inl name)).isSome = true ↔ name ∈ t.names.keys :=
  CappedTable.isSome_row

theorem isSome_row_label {key : CounterKey} : (t.row (.inr key)).isSome = true ↔ key ∈ t.labels.keys :=
  CappedTable.isSome_row

/-- The names and labels a call looks up. -/
def AdmitCall.looksUp (c : AdmitCall) : String ⊕ CounterKey → Prop
  | .inl name => name ∈ c.names
  | .inr key => key ∈ c.pairs

def CounterAdmission.admits (adm : CounterAdmission) : String ⊕ CounterKey → Prop
  | .inl name => name ∈ adm.names
  | .inr key => key ∈ adm.labels

variable {before : String ⊕ CounterKey → Prop} {times : Int → Prop} {k : String ⊕ CounterKey}

theorem onward_row (hnames : Onward times t.names.row t'.names.row)
    (hlabels : Onward times t.labels.row t'.labels.row) : Onward times t.row t'.row where
  later := fun
    | .inl name => hnames.later name
    | .inr key => hlabels.later key
  source := fun
    | .inl name => hnames.source name
    | .inr key => hlabels.source key

theorem onward_touchNames (t : Tables) (c : AdmitCall) : Onward (fun a => a = c.now) t.row (touchNames t c).row :=
  onward_row (t.names.onward_touch c.names (staleBefore_le_now c.now)) (.refl _ _)

theorem onward_touchLabels (t : Tables) (c : AdmitCall) : Onward (fun a => a = c.now) t.row (touchLabels t c).row :=
  onward_row (.refl _ _) (t.labels.onward_touch c.pairs (staleBefore_le_now c.now))

theorem onward_commit (t : Tables) (c : AdmitCall) (plan : Plan) :
    Onward (fun a => a = c.now) t.row (t.commit c plan).row :=
  onward_row
    ((t.names.onward_insertNew _ _).trans (CappedTable.onward_touch _ _ (staleBefore_le_now c.now)))
    ((t.labels.onward_insertNew _ _).trans (CappedTable.onward_touch _ _ (staleBefore_le_now c.now)))

/-- A statement of `admit` writes nothing, touches, or commits. -/
theorem onward_advance (h : advance c t p = some (t', p')) : Onward (fun a => a = c.now) t.row t'.row := by
  cases p with
  | start =>
    simp only [advance] at h
    split at h <;> cases h <;> exact .refl _ _
  | fastNames known =>
    simp only [advance] at h
    split at h
    · split at h <;> cases h <;> exact .refl _ _
    · cases h
      exact .refl _ _
  | fastTouchNames =>
    cases h
    exact onward_touchNames t c
  | fastTouchLabels =>
    cases h
    exact onward_touchLabels t c
  | touched k =>
    cases h
    exact onward_commit t c (c.plan k)
  | returned adm | failed => cases h
  | _ =>
    cases h
    exact .refl _ _

theorem advance_ne_start (h : advance c t p = some (t', p')) : p' ≠ .start := by
  rintro rfl
  cases p with
  | start =>
    simp only [advance] at h
    split at h <;> cases h
  | fastNames known =>
    simp only [advance] at h
    split at h
    · split at h <;> cases h
    · cases h
  | _ => cases h

/-- What the fast way has found out about the names before it reads or touches the
labels. -/
def Phase.NamesSeen (c : AdmitCall) (t : Tables) : Phase → Prop
  | .fastNames known => known.stale = false → ∀ name ∈ known.names, SeenSince t.names.row c.staleBefore name
  | .fastTouchLabels => ∀ name ∈ c.names, SeenSince t.names.row c.staleBefore name
  | _ => True

theorem Phase.NamesSeen.onward (h : p.NamesSeen c t) (honward : Onward times t.row t'.row) :
    p.NamesSeen c t' := by
  have hnames : ∀ name, SeenSince t.names.row c.staleBefore name → SeenSince t'.names.row c.staleBefore name :=
    fun name hseen => by
      have hrow : SeenSince t.row c.staleBefore (.inl name) := hseen
      exact hrow.onward honward
  cases p with
  | fastNames known => exact fun hstale name hname => hnames name (h hstale name hname)
  | fastTouchLabels => exact fun name hname => hnames name (h name hname)
  | _ => trivial

/-- What a call of `admit` keeps: it relies on rows that are there, and once it has
returned the names and labels of its batch that it admitted, or that had a row
before, have a row that is not stale. -/
structure AdmitCall.Kept (c : AdmitCall) (before : String ⊕ CounterKey → Prop) (t : Tables) (p : Phase) : Prop where
  rows : ∀ k, before k → (t.row k).isSome = true
  backed : p.Backed c t
  names : p.NamesSeen c t
  seen : ∀ adm, p = .returned adm → ∀ k, c.looksUp k → before k ∨ adm.admits k → SeenSince t.row c.staleBefore k

theorem within_of_onward (h : Onward times t.row t'.row) : t.Within t' where
  names := fun _ hname => isSome_row_name.mp (h.isSome (isSome_row_name.mpr hname))
  labels := fun _ hkey => isSome_row_label.mp (h.isSome (isSome_row_label.mpr hkey))

theorem AdmitCall.Kept.onward (h : c.Kept before t p) (honward : Onward times t.row t'.row) : c.Kept before t' p where
  rows := fun k hk => honward.isSome (h.rows k hk)
  backed := h.backed.mono (within_of_onward honward)
  names := h.names.onward honward
  seen := fun adm hp k hk hkept => (h.seen adm hp k hk hkept).onward honward

theorem AdmitCall.Kept.failed (h : c.Kept before t p) :
    c.Kept before t .failed where
  rows := h.rows
  backed := ⟨Finset.empty_subset _, Finset.empty_subset _, fun known hknown => by cases hknown⟩
  names := trivial
  seen := fun _ hp => by cases hp

theorem advance_namesSeen (hbacked : p.Backed c t) (h : advance c t p = some (t', p')) : p'.NamesSeen c t' := by
  cases p with
  | start =>
    simp only [advance] at h
    split at h
    · cases h
      trivial
    · cases h
      intro hstale name hname
      obtain ⟨hasked, hrow⟩ := Finset.mem_inter.mp hname
      exact CappedTable.seenSince_of_not_stale hstale (List.mem_toFinset.mp hasked) hrow
  | fastNames known =>
    simp only [advance] at h
    split at h
    · split at h <;> cases h <;> trivial
    · cases h
      trivial
  | fastTouchNames =>
    cases h
    intro name hname
    exact CappedTable.seenSince_touch (staleBefore_le_now c.now) hname (hbacked.names (List.mem_toFinset.mpr hname))
  | returned adm | failed => cases h
  | _ =>
    cases h
    trivial

theorem seenSince_commit {plan : Plan} (hk : c.looksUp k) (hrow : ((t.commit c plan).row k).isSome = true) :
    SeenSince (t.commit c plan).row c.staleBefore k := by
  cases k with
  | inl name => exact CappedTable.seenSince_touch (staleBefore_le_now c.now) hk (isSome_row_name.mp hrow)
  | inr key => exact CappedTable.seenSince_touch (staleBefore_le_now c.now) hk (isSome_row_label.mp hrow)

/-- Whichever way a call takes, the names and labels it looked up are not stale when
it returns. -/
theorem seenSince_of_returned (hbacked : p.Backed c t) (hnames : p.NamesSeen c t) {adm : CounterAdmission}
    (h : advance c t p = some (t', .returned adm)) (hk : c.looksUp k) (hrow : (t'.row k).isSome = true) :
    SeenSince t'.row c.staleBefore k := by
  cases p with
  | start =>
    simp only [advance] at h
    split at h
    · rename_i hnone
      cases k with
      | inl name =>
        change name ∈ c.names at hk
        rw [hnone] at hk
        cases hk
      | inr key =>
        change key ∈ c.names.flatMap _ at hk
        rw [hnone] at hk
        cases hk
    · cases h
  | fastNames known =>
    simp only [advance] at h
    split at h
    · rename_i hcomplete
      split at h
      · cases h
      rename_i hfresh
      cases h
      have hstale : known.stale = false ∧ t.labels.stale c.pairs c.staleBefore = false := by
        simpa [readLabels] using hfresh
      cases k with
      | inl name =>
        have hread := subset_of_card_eq_length (hbacked.asked known rfl) hcomplete.1
        exact hnames hstale.1 name (hread (List.mem_toFinset.mpr hk))
      | inr key => exact CappedTable.seenSince_of_not_stale hstale.2 hk (isSome_row_label.mp hrow)
    · cases h
  | fastTouchLabels =>
    cases h
    cases k with
    | inl name => exact hnames name hk
    | inr key =>
      have hkey := hbacked.labels (List.mem_toFinset.mpr hk)
      exact CappedTable.seenSince_touch (staleBefore_le_now c.now) hk hkey
  | touched counted =>
    cases h
    exact seenSince_commit hk hrow
  | _ => cases h

theorem row_of_admits {adm : CounterAdmission} (hbacked : (Phase.returned adm).Backed c t) (hk : c.looksUp k)
    (hadmitted : adm.admits k) : (t.row k).isSome = true := by
  cases k with
  | inl name =>
    have hne : name ≠ counterOther := AdmitCall.ne_other_of_mem_names hk
    exact isSome_row_name.mpr (hbacked.names (Finset.mem_erase.mpr ⟨hne, hadmitted⟩))
  | inr key => exact isSome_row_label.mpr (hbacked.labels hadmitted)

theorem AdmitCall.Kept.advance (hkept : c.Kept before t p) (h : storage.advance c t p = some (t', p')) :
    c.Kept before t' p' where
  rows := fun k hk => (onward_advance h).isSome (hkept.rows k hk)
  backed := advance_backed hkept.backed h
  names := advance_namesSeen hkept.backed h
  seen := by
    rintro adm rfl k hk hadmitted
    refine seenSince_of_returned hkept.backed hkept.names h hk ?_
    rcases hadmitted with hold | hadmitted
    · exact (onward_advance h).isSome (hkept.rows k hold)
    · exact row_of_admits (advance_backed hkept.backed h) hk hadmitted

end Names

section Tenant

variable {s s' : TenantVocabularies} {v : VocabularyKind}

/-- The key of a name or a label. -/
def VocabularyKey.ofSeries (v : VocabularyKind) : String ⊕ CounterKey → VocabularyKey
  | .inl n => .name v n
  | .inr k => .label v k

theorem row_ofSeries (s : TenantVocabularies) (v : VocabularyKind) :
    (fun k => s.row (.ofSeries v k)) = (s.vocabulary v).tables.row := by
  funext k
  cases k <;> rfl

variable {times : Int → Prop}

theorem onward_setTables {t : Tables} (h : Onward times (s.vocabulary v).tables.row t.row) :
    Onward times s.row (s.setTables v t).row := by
  refine h.of_part fun key => ?_
  cases key with
  | name w name =>
    by_cases hw : w = v
    · subst hw
      exact .inl ⟨.inl name, rfl, by simp [row, setTables, Tables.row]⟩
    · exact .inr (by simp [row, setTables, hw])
  | label w key =>
    by_cases hw : w = v
    · subst hw
      exact .inl ⟨.inr key, rfl, by simp [row, setTables, Tables.row]⟩
    · exact .inr (by simp [row, setTables, hw])
  | dim w key =>
    refine .inr ?_
    by_cases hw : w = v
    · subst hw
      simp [row, setTables]
    · simp [row, setTables, hw]
  | reason reason => exact .inr rfl

theorem onward_setDims {t : CappedTable DimValueKey} (h : Onward times (s.vocabulary v).dims.row t.row) :
    Onward times s.row (s.setDims v t).row := by
  refine h.of_part fun key => ?_
  cases key with
  | dim w key =>
    by_cases hw : w = v
    · subst hw
      exact .inl ⟨key, rfl, by simp [row, setDims]⟩
    · exact .inr (by simp [row, setDims, hw])
  | reason reason => exact .inr rfl
  | _ w key =>
    refine .inr ?_
    by_cases hw : w = v
    · subst hw
      simp [row, setDims]
    · simp [row, setDims, hw]

theorem onward_setReasons {reasons : ErrorReasons} (h : Onward times s.reasons.reasons.row reasons.reasons.row) :
    Onward times s.row { s with reasons := reasons }.row := by
  refine h.of_part fun key => ?_
  cases key with
  | reason reason => exact .inl ⟨reason, rfl, rfl⟩
  | _ => exact .inr rfl

namespace VocabularyCall

variable {call : VocabularyCall} {p p' : call.Phase}

/-- A statement of `AdmitErrorReasons` is one of its admission to the table of reasons. -/
theorem advance_reasons_eq_some {c : ReasonCall} {p p' : (VocabularyCall.reasons c).Phase}
    (h : (VocabularyCall.reasons c).advance s p = some (s', p')) :
    ∃ rows reasons, c.flat.advance s.reasons.reasons p = some (rows, p') ∧ s' = { s with reasons := reasons } ∧
      reasons.reasons = rows := by
  obtain ⟨⟨t, q⟩, hstep, ⟨⟩⟩ := Option.map_eq_some_iff.mp h
  obtain ⟨⟨rows, q'⟩, hflat, hrecorded⟩ := Option.map_eq_some_iff.mp hstep
  cases hrecorded
  exact ⟨rows, _, hflat, rfl, ErrorReasons.reasons_record ..⟩

/-- A statement of any call moves rows onward to the time of the call. -/
theorem onward_advance (h : call.advance s p = some (s', p')) : Onward (fun a => a = call.now) s.row s'.row := by
  cases call with
  | names v c =>
    obtain ⟨⟨t, q⟩, hstep, ⟨⟩⟩ := Option.map_eq_some_iff.mp h
    exact onward_setTables (storage.onward_advance hstep)
  | dims v c =>
    obtain ⟨⟨t, q⟩, hstep, ⟨⟩⟩ := Option.map_eq_some_iff.mp h
    exact onward_setDims (FlatCall.onward_advance hstep)
  | reasons c =>
    obtain ⟨rows, reasons, hflat, rfl, rfl⟩ := advance_reasons_eq_some h
    exact onward_setReasons (FlatCall.onward_advance hflat)

theorem advance_ne_start (h : call.advance s p = some (s', p')) : p' ≠ call.start := by
  cases call with
  | names v c =>
    obtain ⟨⟨t, q⟩, hstep, ⟨⟩⟩ := Option.map_eq_some_iff.mp h
    exact storage.advance_ne_start hstep
  | dims v c =>
    obtain ⟨⟨t, q⟩, hstep, ⟨⟩⟩ := Option.map_eq_some_iff.mp h
    exact FlatCall.advance_ne_start hstep
  | reasons c =>
    obtain ⟨rows, reasons, hflat, -, -⟩ := advance_reasons_eq_some h
    exact FlatCall.advance_ne_start hflat

theorem start_ne_failed (call : VocabularyCall) : call.start ≠ call.failed := by
  cases call <;> exact fun h => by cases h

/-- What a call keeps of its own table, given the rows there were before. -/
def Kept (before : VocabularyKey → Prop) : (call : VocabularyCall) → TenantVocabularies → call.Phase → Prop
  | .names v c, s, p => c.Kept (fun k => before (.ofSeries v k)) (s.vocabulary v).tables p
  | .dims v c, s, p => c.flat.Kept (fun k => before (.dim v k)) (s.vocabulary v).dims p
  | .reasons c, s, p => c.flat.Kept (fun k => before (.reason k)) s.reasons.reasons p

variable {before : VocabularyKey → Prop}

theorem Kept.onward (h : call.Kept before s p) (honward : Onward times s.row s'.row) : call.Kept before s' p := by
  cases call with
  | names v c =>
    have hpart := honward.comp (VocabularyKey.ofSeries v)
    rw [row_ofSeries, row_ofSeries] at hpart
    exact AdmitCall.Kept.onward h hpart
  | dims v c => exact FlatCall.Kept.onward h (honward.comp (VocabularyKey.dim v))
  | reasons c => exact FlatCall.Kept.onward h (honward.comp VocabularyKey.reason)

theorem Kept.advance (hkept : call.Kept before s p) (h : call.advance s p = some (s', p')) :
    call.Kept before s' p' := by
  cases call with
  | names v c =>
    obtain ⟨⟨t, q⟩, hstep, ⟨⟩⟩ := Option.map_eq_some_iff.mp h
    have hown := AdmitCall.Kept.advance hkept hstep
    simpa [VocabularyCall.Kept, setTables] using hown
  | dims v c =>
    obtain ⟨⟨t, q⟩, hstep, ⟨⟩⟩ := Option.map_eq_some_iff.mp h
    have hown := FlatCall.Kept.advance hkept hstep
    simpa [VocabularyCall.Kept, setDims] using hown
  | reasons c =>
    obtain ⟨rows, reasons, hflat, rfl, rfl⟩ := advance_reasons_eq_some h
    exact FlatCall.Kept.advance hkept hflat

theorem Kept.start (call : VocabularyCall) (s : TenantVocabularies) : call.Kept (fun _ => False) s call.start := by
  cases call with
  | names v c =>
    refine ⟨fun _ h => h.elim, ⟨Finset.empty_subset _, Finset.empty_subset _, fun known h => by cases h⟩, trivial,
      fun _ h => by cases h⟩
  | dims v c | reasons c => exact ⟨fun _ h => h.elim, Finset.empty_subset _, fun _ h => by cases h⟩

theorem Kept.failed (h : call.Kept before s p) : call.Kept before s call.failed := by
  cases call with
  | names v c => exact AdmitCall.Kept.failed h
  | dims v c | reasons c => exact FlatCall.Kept.failed h

/-- A call that has not returned yet keeps track of all the rows there are. -/
theorem Kept.extend (hkept : call.Kept (fun _ => False) s p) (hrunning : ¬ call.hasReturned p)
    (h : ∀ key, before key → (s.row key).isSome = true) : call.Kept before s p := by
  cases call with
  | names v c =>
    refine ⟨fun k hk => ?_, hkept.backed, hkept.names, fun adm hp => absurd ⟨adm, hp⟩ hrunning⟩
    rw [← row_ofSeries]
    exact h _ hk
  | dims v c | reasons c =>
    exact ⟨fun k hk => CappedTable.isSome_row.mp (h _ hk), hkept.relied, fun adm hp => absurd ⟨adm, hp⟩ hrunning⟩

/-- When a call has returned, the rows of its values are not stale. -/
theorem Kept.seenSince (hkept : call.Kept before s p) (hreturned : call.hasReturned p) {key : VocabularyKey}
    (hcontains : call.contains key) (hknown : before key ∨ call.admits p key) :
    SeenSince s.row (call.now - vocabularyTouchInterval) key := by
  cases call with
  | names v c =>
    obtain ⟨adm, rfl⟩ := hreturned
    cases key with
    | name w name =>
      obtain ⟨rfl, hname⟩ := hcontains
      refine hkept.seen adm rfl (.inl name) hname (hknown.imp_right ?_)
      rintro ⟨_, heq, hadmitted⟩
      cases heq
      exact hadmitted
    | label w key =>
      obtain ⟨rfl, hkey⟩ := hcontains
      refine hkept.seen adm rfl (.inr key) hkey (hknown.imp_right ?_)
      rintro ⟨_, heq, hadmitted⟩
      cases heq
      exact hadmitted
    | _ => exact hcontains.elim
  | dims v c =>
    obtain ⟨adm, rfl⟩ := hreturned
    cases key with
    | dim w key =>
      obtain ⟨rfl, hkey⟩ := hcontains
      refine hkept.seen adm rfl key hkey (hknown.imp_right ?_)
      rintro ⟨_, heq, hadmitted⟩
      cases heq
      exact hadmitted
    | _ => exact hcontains.elim
  | reasons c =>
    obtain ⟨adm, rfl⟩ := hreturned
    cases key with
    | reason reason =>
      refine hkept.seen adm rfl reason hcontains (hknown.imp_right ?_)
      rintro ⟨_, heq, hadmitted⟩
      cases heq
      exact hadmitted
    | _ => exact hcontains.elim

end VocabularyCall

end Tenant

section Runs

variable {ι : Type} [DecidableEq ι] {calls : ι → VocabularyCall} {s s' : interleaving.State (tenantProgram calls)}

theorem rows_onward (h : interleaving.Reaches (tenantProgram calls) s s') :
    Onward (fun _ => True) s.shared.row s'.shared.row := by
  refine h.guarantee (G := fun a a' => Onward (fun _ => True) a.row a'.row) (fun a => .refl _ a.row)
    (fun _ _ _ => Onward.trans) fun i a p a' p' hstep => ?_
  exact (VocabularyCall.onward_advance hstep).mono fun _ _ => trivial

/-- A row was there at first, or has the time of a call that has started. -/
theorem rows_source {start : TenantVocabularies}
    (h : interleaving.Reaches (tenantProgram calls) (.start _ start) s) {key : VocabularyKey} {a : Int}
    (hrow : s.shared.row key = some a) :
    start.row key = some a ∨ ∃ i, s.phase i ≠ (calls i).start ∧ a = (calls i).now := by
  have hinv : ∀ key a, s.shared.row key = some a →
      start.row key = some a ∨ ∃ i, s.phase i ≠ (calls i).start ∧ a = (calls i).now := by
    refine interleaving.Reaches.started (P := tenantProgram calls)
      (I := fun shared begun => ∀ key a, shared.row key = some a →
        start.row key = some a ∨ ∃ i, begun i ∧ a = (calls i).now)
      (fun i => (calls i).start_ne_failed) (fun i _ _ _ _ => VocabularyCall.advance_ne_start) ?_ ?_ h
      (fun _ _ hrow => .inl hrow)
    · intro i shared p shared' p' begun hstep hinv key a hrow
      rcases (VocabularyCall.onward_advance hstep).source key a hrow with hold | hnow
      · exact (hinv key a hold).imp_right fun ⟨j, hj, ha⟩ => ⟨j, .inr hj, ha⟩
      · exact .inr ⟨i, .inl rfl, hnow⟩
    · intro shared begun begun' hle hinv key a hrow
      exact (hinv key a hrow).imp_right fun ⟨j, hj, ha⟩ => ⟨j, hle j hj, ha⟩
  exact hinv key a hrow

theorem kept_of_reaches {before : VocabularyKey → Prop} {i : ι}
    (h : interleaving.Reaches (tenantProgram calls) s s') (hkept : (calls i).Kept before s.shared (s.phase i)) :
    (calls i).Kept before s'.shared (s'.phase i) := by
  refine h.rely (P := tenantProgram calls) (G := fun a a' => Onward (fun _ => True) a.row a'.row)
    (I := (calls i).Kept before) (fun a => .refl _ a.row) ?_ (fun _ _ _ honward hkept => hkept.onward honward)
    (fun _ _ _ _ hstep hkept => hkept.advance hstep) (fun _ _ hkept => hkept.failed) hkept
  exact fun j a p a' p' hstep => (VocabularyCall.onward_advance hstep).mono fun _ _ => trivial

end Runs

section Main

variable {ι : Type} [DecidableEq ι]

/-- Call `i`, still to return in `s`, has returned in `s'`, and it contains a value
that was known in `s` or that it admitted. -/
structure Uses (calls : ι → VocabularyCall) (s s' : interleaving.State (tenantProgram calls)) (i : ι)
    (key : VocabularyKey) : Prop where
  running : ¬ (calls i).hasReturned (s.phase i)
  returned : (calls i).hasReturned (s'.phase i)
  contains : (calls i).contains key
  known : (s.shared.row key).isSome = true ∨ (calls i).admits (s'.phase i) key

/-- How `last_seen` moves in the runs of some calls, and what a sweep that follows
leaves alone. -/
structure LastSeenInvariant (calls : ι → VocabularyCall) (start : TenantVocabularies) : Prop where
  never_decreases : ∀ s s', interleaving.Reaches (tenantProgram calls) (.start _ start) s →
    interleaving.Reaches (tenantProgram calls) s s' → ∀ key a, s.shared.row key = some a →
      ∃ b, s'.shared.row key = some b ∧ a ≤ b
  bounded : ∀ s, interleaving.Reaches (tenantProgram calls) (.start _ start) s → ∀ bound,
    (∀ key a, start.row key = some a → a ≤ bound) → (∀ i, s.phase i ≠ (calls i).start → (calls i).now ≤ bound) →
      ∀ key a, s.shared.row key = some a → a ≤ bound
  seen : ∀ s s', interleaving.Reaches (tenantProgram calls) (.start _ start) s →
    interleaving.Reaches (tenantProgram calls) s s' → ∀ i key, Uses calls s s' i key →
      ∃ a, s'.shared.row key = some a ∧ (calls i).now - 24 * hour ≤ a
  kept : ∀ s s', interleaving.Reaches (tenantProgram calls) (.start _ start) s →
    interleaving.Reaches (tenantProgram calls) s s' → ∀ i key, Uses calls s s' i key →
      ∀ (db : SweptTables) (tenant : UUID) (scope : SweepScope) (now days : Int), db.ofTenant tenant = s'.shared →
        now - (days - 1) * 24 * hour ≤ (calls i).now →
        let swept := (db.sweepBefore scope (now - days * 24 * hour)).ofTenant tenant
        (∀ owner ∈ key.owner, (swept.row owner).isSome = true) → swept.row key = s'.shared.row key

theorem seenSince_of_uses {calls : ι → VocabularyCall} {start : TenantVocabularies}
    {s s' : interleaving.State (tenantProgram calls)}
    (h : interleaving.Reaches (tenantProgram calls) (.start _ start) s)
    (h' : interleaving.Reaches (tenantProgram calls) s s') {i : ι} {key : VocabularyKey} (huses : Uses calls s s' i key) :
    SeenSince s'.shared.row ((calls i).now - 24 * hour) key := by
  have hstart := kept_of_reaches h (VocabularyCall.Kept.start (calls i) start)
  have hnow : (calls i).Kept (fun key => (s.shared.row key).isSome = true) s.shared (s.phase i) :=
    VocabularyCall.Kept.extend hstart huses.running fun _ hrow => hrow
  have hkept := kept_of_reaches h' hnow
  exact hkept.seenSince huses.returned huses.contains huses.known

/-- However calls of `admit`, `admitDims` and `AdmitErrorReasons` interleave, a value
in use is not aged out. -/
theorem lastSeenInvariant (calls : ι → VocabularyCall) (start : TenantVocabularies) :
    LastSeenInvariant calls start where
  never_decreases := fun s s' _ h' key a ha => (rows_onward h').later key a ha
  bounded := by
    intro s h bound hstart hcalls key a ha
    rcases rows_source h ha with hold | ⟨i, hi, rfl⟩
    · exact hstart key a hold
    · exact hcalls i hi
  seen := fun s s' h h' i key huses => seenSince_of_uses h h' huses
  kept := by
    intro s s' h h' i key huses db tenant scope now days htenant hrecent swept howner
    obtain ⟨a, ha, hseen⟩ := seenSince_of_uses h h' huses
    have hcutoff : SeenSince s'.shared.row (now - days * 24 * hour) key := by
      refine ⟨a, ha, ?_⟩
      unfold hour at *
      omega
    have hswept : swept = _ := ofTenant_sweepBefore db scope _ tenant
    rw [hswept, htenant] at howner ⊢
    by_cases hselects : scope.selects tenant = true
    · rw [if_pos hselects] at howner ⊢
      obtain ⟨b, hb, hlate⟩ := hcutoff
      rw [hb]
      exact row_sweepBefore_eq_some.mpr ⟨hb, hlate, howner⟩
    · rw [if_neg hselects]

end Main

end argvio.storage
