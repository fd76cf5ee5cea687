import Argvio.CappedAdmission
import Argvio.Interleaving
import Argvio.Storage.Interleavings
import Argvio.Storage.Sweep

open List

namespace argvio.storage

/-- `counterVocabulary`, `measureVocabulary` and `valueVocabulary`. -/
inductive VocabularyKind where
  | counter
  | measure
  | value
  deriving DecidableEq

/-- The vocabulary rows of one tenant. -/
structure TenantVocabularies where
  vocabulary : VocabularyKind → Vocabulary
  reasons : ErrorReasons

/-- The key of a vocabulary row. -/
inductive VocabularyKey where
  | name (v : VocabularyKind) (name : String)
  | label (v : VocabularyKind) (key : CounterKey)
  | dim (v : VocabularyKind) (key : DimValueKey)
  | reason (reason : String)

/-- The name a label or a dimension value goes with. -/
def VocabularyKey.owner : VocabularyKey → Option VocabularyKey
  | .name _ _ => none
  | .label v key => some (.name v key.name)
  | .dim v key => some (.name v key.name)
  | .reason _ => none

namespace TenantVocabularies

/-- `last_seen` of a row, if it is there. -/
def row (s : TenantVocabularies) : VocabularyKey → Option Int
  | .name v name => (s.vocabulary v).tables.names.row name
  | .label v key => (s.vocabulary v).tables.labels.row key
  | .dim v key => (s.vocabulary v).dims.row key
  | .reason reason => s.reasons.reasons.row reason

def setTables (s : TenantVocabularies) (v : VocabularyKind) (t : Tables) : TenantVocabularies :=
  { s with vocabulary := Function.update s.vocabulary v { s.vocabulary v with tables := t } }

def setDims (s : TenantVocabularies) (v : VocabularyKind) (t : CappedTable DimValueKey) : TenantVocabularies :=
  { s with vocabulary := Function.update s.vocabulary v { s.vocabulary v with dims := t } }

end TenantVocabularies

/-- Where a call of `admitDims` stands. -/
abbrev DimPhase : Type := FlatPhase DimValueKey (DimGroup → Int) DimAdmission

/-- Where a call of `AdmitErrorReasons` stands. -/
abbrev ReasonPhase : Type := FlatPhase String Int ReasonAdmission

section Flat

def DimCall.planFrom (c : DimCall) (known : Finset DimValueKey) (sizes : DimGroup → Int) (g : DimGroup) :
    List String × Int :=
  planVocabulary (c.valuesOf g) (c.knownValues known g) (c.countOf g) (c.limit - sizes g)

def DimCall.addFrom (c : DimCall) (known : Finset DimValueKey) (sizes : DimGroup → Int) : List DimValueKey :=
  c.groups.flatMap (fun g => (c.planFrom known sizes g).1.map (fun value => ⟨g.name, g.key, value⟩))

theorem staleBefore_le_now (now : Int) : now - vocabularyTouchInterval ≤ now := by
  unfold vocabularyTouchInterval
  omega

theorem DimCall.notMem_always {c : DimCall} {k : DimValueKey} (hk : k ∈ c.keys) : k ∉ c.always := by
  unfold DimCall.keys at hk
  unfold DimCall.always
  rw [mem_insertionSort, mem_filter] at hk
  rw [mem_toFinset, mem_filter]
  rintro ⟨-, hother⟩
  exact of_decide_eq_true hk.2 (of_decide_eq_true hother)

/-- The statements of `admitDims`. -/
def DimCall.flat (c : DimCall) : FlatCall DimValueKey (DimGroup → Int) DimAdmission where
  keys := c.keys
  now := c.now
  staleBefore := c.staleBefore
  size := DimCall.sizeOf
  add := c.addFrom
  nothing := { values := c.always, folded := 0 }
  allKnown := { values := c.always ∪ c.keys.toFinset, folded := 0 }
  answer := fun known sizes =>
    { values := c.always ∪ known ∪ (c.addFrom known sizes).toFinset
      folded := (c.groups.map (fun g => (c.planFrom known sizes g).2)).sum }
  admits := fun adm k => k ∈ adm.values
  stale_le := staleBefore_le_now c.now
  admits_answer := by
    intro known sizes k hk hadmitted
    rcases Finset.mem_union.mp hadmitted with hold | hadded
    · exact .inl ((Finset.mem_union.mp hold).resolve_left (DimCall.notMem_always hk))
    · exact .inr (mem_toFinset.mp hadded)

def ReasonCall.planFrom (c : ReasonCall) (known : Finset String) (size : Int) : List String × Int :=
  planVocabulary c.names known c.count (c.limit - size)

theorem ReasonCall.ne_other_of_mem_names {c : ReasonCall} {r : String} (hr : r ∈ c.names) : r ≠ errorReasonOther := by
  unfold ReasonCall.names at hr
  rw [mem_insertionSort, mem_filter] at hr
  exact of_decide_eq_true hr.2

/-- The statements of `AdmitErrorReasons` on the reasons. -/
def ReasonCall.flat (c : ReasonCall) : FlatCall String Int ReasonAdmission where
  keys := c.names
  now := c.now
  staleBefore := c.staleBefore
  size := fun t => t.keys.card
  add := fun known size => (c.planFrom known size).1
  nothing := { reasons := {errorReasonOther}, folded := 0 }
  allKnown := { reasons := {errorReasonOther} ∪ c.names.toFinset, folded := 0 }
  answer := fun known size =>
    { reasons := {errorReasonOther} ∪ known ∪ (c.planFrom known size).1.toFinset
      folded := (c.planFrom known size).2 }
  admits := fun adm r => r ∈ adm.reasons
  stale_le := staleBefore_le_now c.now
  admits_answer := by
    intro known size r hr hadmitted
    rcases Finset.mem_union.mp hadmitted with hold | hadded
    · refine .inl ((Finset.mem_union.mp hold).resolve_left fun hother => ?_)
      exact ReasonCall.ne_other_of_mem_names hr (Finset.mem_singleton.mp hother)
    · exact .inr (mem_toFinset.mp hadded)

/-- The records a statement of `AdmitErrorReasons` adds to the overflow. -/
def ReasonCall.foldedAt (c : ReasonCall) : ReasonPhase → Int
  | .touched known size => (c.planFrom known size).2
  | _ => 0

def ReasonCall.advance (c : ReasonCall) (t : ErrorReasons) (p : ReasonPhase) :
    Option (ErrorReasons × ReasonPhase) :=
  (c.flat.advance t.reasons p).map (fun r => ({ t with reasons := r.1 }.record (c.foldedAt p) c.now, r.2))

theorem ErrorReasons.reasons_record (t : ErrorReasons) (folded at_ : Int) : (t.record folded at_).reasons = t.reasons := by
  unfold ErrorReasons.record
  split <;> rfl

end Flat

/-- A call that admits values to one tenant's vocabularies. -/
inductive VocabularyCall where
  | names (v : VocabularyKind) (call : AdmitCall)
  | dims (v : VocabularyKind) (call : DimCall)
  | reasons (call : ReasonCall)

/-- The advisory locks of a tenant. -/
inductive VocabularyLock where
  | names (v : VocabularyKind)
  | dims (v : VocabularyKind)
  | reasons
  deriving DecidableEq

namespace VocabularyCall

def now : VocabularyCall → Int
  | .names _ c => c.now
  | .dims _ c => c.now
  | .reasons c => c.now

def lock : VocabularyCall → VocabularyLock
  | .names v _ => .names v
  | .dims v _ => .dims v
  | .reasons _ => .reasons

/-- The values of a call that are looked up: `other` and the empty label are not. -/
def contains : VocabularyCall → VocabularyKey → Prop
  | .names v c, .name w name => w = v ∧ name ∈ c.names
  | .names v c, .label w key => w = v ∧ key ∈ c.pairs
  | .dims v c, .dim w key => w = v ∧ key ∈ c.keys
  | .reasons c, .reason reason => reason ∈ c.names
  | _, _ => False

protected def Phase : VocabularyCall → Type
  | .names _ _ => storage.Phase
  | .dims _ _ => DimPhase
  | .reasons _ => ReasonPhase

def start : (call : VocabularyCall) → call.Phase
  | .names _ _ => storage.Phase.start
  | .dims _ _ => FlatPhase.start
  | .reasons _ => FlatPhase.start

def failed : (call : VocabularyCall) → call.Phase
  | .names _ _ => storage.Phase.failed
  | .dims _ _ => FlatPhase.failed
  | .reasons _ => FlatPhase.failed

def holds : (call : VocabularyCall) → call.Phase → Bool
  | .names _ _ => storage.Phase.holds
  | .dims _ _ => FlatPhase.holds
  | .reasons _ => FlatPhase.holds

def advance : (call : VocabularyCall) → TenantVocabularies → call.Phase → Option (TenantVocabularies × call.Phase)
  | .names v c, s, p => (storage.advance c (s.vocabulary v).tables p).map (fun r => (s.setTables v r.1, r.2))
  | .dims v c, s, p => (c.flat.advance (s.vocabulary v).dims p).map (fun r => (s.setDims v r.1, r.2))
  | .reasons c, s, p => (c.advance s.reasons p).map (fun r => ({ s with reasons := r.1 }, r.2))

def hasReturned : (call : VocabularyCall) → call.Phase → Prop
  | .names _ _, p => ∃ adm, p = storage.Phase.returned adm
  | .dims _ _, p => ∃ adm, p = FlatPhase.returned adm
  | .reasons _, p => ∃ adm, p = FlatPhase.returned adm

/-- The call has returned, and its answer admits a value. -/
def admits : (call : VocabularyCall) → call.Phase → VocabularyKey → Prop
  | .names _ _, p, .name _ name => ∃ adm, p = storage.Phase.returned adm ∧ name ∈ adm.names
  | .names _ _, p, .label _ key => ∃ adm, p = storage.Phase.returned adm ∧ key ∈ adm.labels
  | .dims _ _, p, .dim _ key => ∃ adm, p = FlatPhase.returned adm ∧ key ∈ adm.values
  | .reasons _, p, .reason reason => ∃ adm, p = FlatPhase.returned adm ∧ reason ∈ adm.reasons
  | _, _, _ => False

end VocabularyCall

/-- The calls of one tenant, over its vocabularies and under its locks. -/
def tenantProgram {ι : Type} (calls : ι → VocabularyCall) : interleaving.Program ι TenantVocabularies VocabularyLock where
  Phase := fun i => (calls i).Phase
  start := fun i => (calls i).start
  failed := fun i => (calls i).failed
  advance := fun i => (calls i).advance
  lock := fun i => (calls i).lock
  holds := fun i => (calls i).holds

/-- One tenant's vocabularies among the tables a sweep deletes from. -/
def SweptTables.ofTenant (db : SweptTables) (tenant : UUID) : TenantVocabularies where
  vocabulary := fun
    | .counter => db.counters tenant
    | .measure => db.measures tenant
    | .value => db.values tenant
  reasons := db.reasons tenant

/-- What a sweep leaves of a tenant it is for. -/
def TenantVocabularies.sweepBefore (s : TenantVocabularies) (cutoff : Int) : TenantVocabularies where
  vocabulary := fun v => (s.vocabulary v).sweepBefore cutoff
  reasons := { s.reasons with reasons := s.reasons.reasons.deleteWhere (fun _ seen => seen < cutoff) }

theorem ofTenant_sweepBefore (db : SweptTables) (scope : SweepScope) (cutoff : Int) (tenant : UUID) :
    (db.sweepBefore scope cutoff).ofTenant tenant =
      if scope.selects tenant then (db.ofTenant tenant).sweepBefore cutoff else db.ofTenant tenant := by
  have hvocabulary : ((db.sweepBefore scope cutoff).ofTenant tenant).vocabulary = fun v =>
      if scope.selects tenant then ((db.ofTenant tenant).vocabulary v).sweepBefore cutoff
      else (db.ofTenant tenant).vocabulary v := by
    funext v
    cases v <;> rfl
  have hreasons : ((db.sweepBefore scope cutoff).ofTenant tenant).reasons =
      if scope.selects tenant then ((db.ofTenant tenant).sweepBefore cutoff).reasons
      else (db.ofTenant tenant).reasons := rfl
  generalize (db.sweepBefore scope cutoff).ofTenant tenant = swept at hvocabulary hreasons
  obtain ⟨vocabulary, reasons⟩ := swept
  subst hvocabulary hreasons
  split <;> rfl

end argvio.storage
