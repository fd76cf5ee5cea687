import Argvio.Otlp.CapFailures
import Argvio.Otlp.Conformance
import Argvio.Otlp.V1Dims
import Argvio.Storage.DiscoveryRuns

open argvio.allowlist argvio.consent argvio.storage

namespace argvio.otlp

section Pops

variable {m : AttrMap} {k key : String} {v : AttrValue}

theorem lookup_of_lookup_erase (h : (m.erase key).lookup k = some v) : m.lookup k = some v := by
  by_cases hk : k = key
  · rw [hk, AList.lookup_erase] at h
    cases h
  · rwa [AList.lookup_erase_ne hk] at h

theorem lookup_of_popAs {α : Type} {read : AttrValue → Option α} (h : (popAs read m key).2.lookup k = some v) :
    m.lookup k = some v := by
  unfold popAs at h
  split at h
  · exact lookup_of_lookup_erase h
  · exact h

theorem lookup_of_popBounded {lo hi : Int} (h : (popBounded m key lo hi).2.lookup k = some v) :
    m.lookup k = some v := by
  unfold popBounded at h
  split at h
  · exact h
  · exact lookup_of_lookup_erase h
  · exact lookup_of_lookup_erase h

theorem lookup_of_popPromoted (h : (popPromoted m).2.lookup k = some v) : m.lookup k = some v :=
  lookup_of_popAs (lookup_of_popAs (lookup_of_popAs (lookup_of_popAs (lookup_of_popAs (lookup_of_popAs h)))))

theorem lookup_of_popSessionFootprint (h : (popSessionFootprint m).2.lookup k = some v) : m.lookup k = some v :=
  lookup_of_popBounded (lookup_of_popBounded h)

end Pops

section Record

variable {compile : RegexpCompiler} {file : SchemaFile} {p : Pipeline} {resource : AttrList}
  {scope : InstrumentationScope} {rec : LogRecord} {row : LogRow} {k : String} {v : AttrValue}

/-- The record column holds kept attributes, and none of the standard resource attributes. -/
theorem lookup_buildLogRow {acc : Acceptance} (h : (p.buildLogRow rec scope acc).logAttributes.lookup k = some v) :
    acc.keptAttributes.lookup k = some v ∧ p.schema.isStandardResourceAttribute k = false := by
  unfold Pipeline.buildLogRow Pipeline.splitRemainingAttrs at h
  dsimp only at h
  rw [Finmap.lookup_toFinmap, GoMap.lookup_keep, Option.filter_eq_some_iff] at h
  obtain ⟨hlookup, hstandard⟩ := h
  exact ⟨lookup_of_popPromoted (lookup_of_popSessionFootprint hlookup), by simpa using hstandard⟩

/-- Every attribute of the record column has a definition, and conforms to it. -/
theorem logAttributes_checked (hschema : finalize compile file = .ok p.schema)
    (hrow : p.processLogRecord resource scope rec = .ok row) (hv : row.logAttributes.lookup k = some v) :
    ∃ d, p.schema.attrDefFor k = some d ∧ checkAttribute d v = .ok () := by
  unfold Pipeline.processLogRecord at hrow
  split at hrow
  · obtain ⟨⟨acc, structDropped⟩, hout, rfl⟩ := Except.map_eq_ok_iff.mp hrow
    obtain ⟨hkept, hstandard⟩ := lookup_buildLogRow hv
    obtain ⟨declared, _, _, hacc⟩ := resolveAndEvaluate_eq_ok hout
    have hkeys : p.schema.Defines (p.logEventDef rec.eventName).allowedAttributes := by
      unfold Pipeline.logEventDef
      split
      · rename_i l hl
        exact finalize_log_defines hschema hl
      · intro key hkey
        cases hkey
    obtain ⟨_, _, hexact⟩ := exact_of_evaluateEvent (finalize_valid hschema) hkeys hacc
    have htier : k ≠ tierAttrKey := by
      rintro rfl
      exact hexact.tier_not_kept (AList.lookup_isSome.mp (by simp [hkept]))
    obtain ⟨_, hnot | ⟨_, d, _, hd, hcheck, _⟩⟩ := (hexact.kept_iff k v htier).mp hkept
    · rw [hstandard] at hnot
      cases hnot.2
    · exact ⟨d, hd, hcheck⟩
  · cases hrow

theorem eq_str_of_checked {d : AttrDef} (htype : d.type = .string) (hcheck : checkAttribute d v = .ok ()) :
    ∃ s, v = .str s := by
  unfold checkAttribute at hcheck
  rw [htype] at hcheck
  cases v with
  | str s => exact ⟨s, rfl⟩
  | _ => cases hcheck

end Record

section V1

variable {compile : RegexpCompiler} {p : Pipeline} (hpatterns : V1Patterns compile)
  (hschema : finalize compile v1File = .ok p.schema)

theorem v1Attributes_names : ∀ e ∈ v1Attributes, e.1 = attrInstallID ∨ e.1 = attrActivationFeature →
    e.2.type = .string := by
  decide

include hpatterns hschema

theorem v1_name_type {k : String} {d : AttrDef} (hk : k = attrInstallID ∨ k = attrActivationFeature)
    (hd : p.schema.attrDefFor k = some d) : d.type = .string := by
  rcases attrDefFor_cases hschema hd with hown | ⟨fam, _, hcovers, _⟩
  · obtain ⟨spec, hmem, hfinal⟩ := v1_mem_attributes hschema rfl hown
    have hspec := (finalizeAttribute_ok hfinal).2.1
    rw [hspec, v1Attributes_names _ hmem hk]
  · obtain ⟨_, key, hkey, _⟩ := v1_familyCovers hpatterns hschema rfl hcovers
    have hnone : dimKey k = none := by rcases hk with rfl | rfl <;> decide
    rw [hnone] at hkey
    cases hkey

theorem namesAreText_processLogRecord {resource : AttrList} {scope : InstrumentationScope} {rec : LogRecord}
    {row : LogRow} (hrow : p.processLogRecord resource scope rec = .ok row) : row.NamesAreText := by
  have htext (k : String) (hk : k = attrInstallID ∨ k = attrActivationFeature) (v : AttrValue)
      (hv : row.logAttributes.lookup k = some v) : ∃ s, v = .str s := by
    obtain ⟨d, hd, hcheck⟩ := logAttributes_checked hschema hrow hv
    exact eq_str_of_checked (v1_name_type hpatterns hschema hk hd) hcheck
  exact ⟨htext _ (.inl rfl), htext _ (.inr rfl)⟩

/-- Under the shipped taxonomy an export stores install IDs and features' names as
strings. -/
theorem namesAreText_processLogs (db : Answers) (store : Store) (ld : Payload LogRecord)
    (hstore : ∀ r ∈ store.logs, r.NamesAreText) : ∀ r ∈ (p.processLogs db ld store).2.logs, r.NamesAreText := by
  have haccepted : ∀ r ∈ p.acceptedRecords ld, r.NamesAreText := by
    intro r hr
    unfold Pipeline.acceptedRecords at hr
    split at hr
    · cases hr
    · rw [(Payload.counts_record p.processLogRecord ld).rows, Ledger.mem_filterMap_toOption, Payload.mem_collect] at hr
      obtain ⟨resource, scope, rec, _, hin⟩ := hr
      exact namesAreText_processLogRecord hpatterns hschema (List.mem_singleton.mp hin).symm
  have hends := (processLogs_effect p db store ld).2
  generalize (p.processLogs db ld store).1.err = err at hends
  cases hends with
  | nothing _ hlogs | capFailed _ hlogs | insertFailed _ hlogs => rwa [(Prod.mk.inj hlogs).2]
  | done _ _ hlogs =>
    rw [(Prod.mk.inj hlogs).2, List.forall_mem_append]
    refine ⟨hstore, fun r hr => ?_⟩
    obtain ⟨r, hin, rfl⟩ := List.mem_map.mp hr
    obtain ⟨hinstall, hfeature⟩ := haccepted r hin
    unfold Pipeline.rewriteLog
    constructor <;> rwa [lookup_capErrorReasons (by decide)]

end V1

/-- One log export: the context of its request, the database's answers and the payload. -/
structure LogExport where
  pipeline : Pipeline
  answers : Answers
  payload : Payload LogRecord

def LogExport.tenantID (e : LogExport) : UUID := e.pipeline.tenant.tenant.id

/-- An export changes what its own tenant has stored. -/
def LogExport.run (stores : UUID → Store) (e : LogExport) : UUID → Store :=
  Function.update stores e.tenantID (e.pipeline.processLogs e.answers e.payload (stores e.tenantID)).2

/-- Whatever is exported under the shipped taxonomy, by whom and when, and whatever fails, the
stored names are text. -/
theorem names_stay_text {compile : RegexpCompiler} (hpatterns : V1Patterns compile) {exports : List LogExport}
    (hschema : ∀ e ∈ exports, finalize compile v1File = .ok e.pipeline.schema) :
    ∀ tenant, ∀ r ∈ (exports.foldl LogExport.run (fun _ => .empty) tenant).logs, r.NamesAreText := by
  refine exports.foldlRecOn _ (motive := fun s : UUID → Store => ∀ tenant, ∀ r ∈ (s tenant).logs, r.NamesAreText)
    (by simp [Store.empty]) ?_
  intro stores hstores e he tenant
  unfold LogExport.run
  by_cases htenant : tenant = e.tenantID
  · subst htenant
    rw [Function.update_self]
    exact namesAreText_processLogs hpatterns (hschema e he) e.answers _ e.payload (hstores _)
  · rw [Function.update_of_ne htenant]
    exact hstores tenant

/-- Two tenants that each export a feature's activation. -/
theorem names_stay_text_two_tenants :
    let payload : Payload LogRecord := [⟨[(attrInstallID, .str "i")], [⟨⟨"", ""⟩,
      [{ sampleLogRecord "" "" with eventName := "cli.feature.activated" }]⟩]⟩]
    let other : Pipeline := { v1Pipeline with
      tenant := { v1Pipeline.tenant with tenant := { v1Pipeline.tenant.tenant with id := 2, slug := "other" } }
      now := 100 }
    let stores := [⟨v1Pipeline, {}, payload⟩, ⟨other, {}, payload⟩].foldl LogExport.run (fun _ => .empty)
    V1Patterns v1Compile ∧ ∀ tenant, ∀ r ∈ (stores tenant).logs, r.NamesAreText := by
  intro payload other stores
  refine ⟨v1Patterns_v1Compile, names_stay_text v1Patterns_v1Compile ?_⟩
  rw [List.forall_mem_cons, List.forall_mem_singleton]
  exact ⟨finalize_v1File, finalize_v1File⟩

end argvio.otlp
