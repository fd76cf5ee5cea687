import Argvio.Catalog.Accepted
import Argvio.Metricsapi.Ratios
import Argvio.Storage.CatalogApply

open List
open argvio.catalog argvio.storage
open argvio.storage.QueryBuilder

namespace argvio.metricsapi

/-- An operand over a series that only exists per day. -/
def dailyOperand (o : Option Operand) : Bool :=
  o.any (fun o => o.builtin = builtinSessions || o.builtin = builtinActiveInstalls)

/-- The `bucket` parameters a ratio can be asked for. -/
def bucketAllowed (m : Metric) (param : String) : Prop :=
  param ∈ ["", "day", "week", "month"] ∨
    param = "hour" ∧ dailyOperand m.numerator = false ∧ dailyOperand m.denominator = false

/-- The bucket the handler takes is one that both operands have. -/
theorem exists_parseBucket {param : String} {daily : Bool}
    (h : param ∈ ["", "day", "week", "month"] ∨ param = "hour" ∧ daily = false) :
    ∃ b, parseBucket param (if daily then .day else .hour) anyBucket = .ok b ∧
      (b ∈ [Bucket.day, .week, .month] ∨ b = .hour ∧ daily = false) := by
  simp only [mem_cons, not_mem_nil, or_false] at h
  rcases h with (rfl | rfl | rfl | rfl) | ⟨rfl, rfl⟩
  · cases daily with
    | false => exact ⟨.hour, rfl, .inr ⟨rfl, rfl⟩⟩
    | true => exact ⟨.day, rfl, .inl (by simp)⟩
  · exact ⟨.day, rfl, .inl (by simp)⟩
  · exact ⟨.week, rfl, .inl (by simp)⟩
  · exact ⟨.month, rfl, .inl (by simp)⟩
  · exact ⟨.hour, rfl, .inr ⟨rfl, rfl⟩⟩

section Catalog

variable {σ : Type} (codec : SpecCodec σ)

/-- A stored spec that is read back as the definition. -/
def Stored (spec : σ) (m : Metric) : Prop := ∃ m', codec.unmarshal spec = some m' ∧ Metric.Same m m'

/-- Specs by name that hold every definition of a file. -/
def Declares (defs : GoMap String σ) (f : File) : Prop :=
  ∀ m ∈ f.metrics, ∃ spec, defs.lookup m.name = some spec ∧ Stored codec spec m

variable {codec}

variable {f : File} {defs : GoMap String σ}

theorem exists_definitionInputs (hfinite : ∀ m ∈ f.metrics, m.scale.isFinite = true) :
    ∃ defs, definitionInputs codec f = .ok defs ∧
      defs.map MetricDefinitionInput.name = f.metrics.map Metric.name ∧
      (∀ d ∈ defs, ∃ m ∈ f.metrics, d.kind = m.kind) ∧
      ∀ m ∈ f.metrics, ∃ d ∈ defs, d.name = m.name ∧ Stored codec d.spec m := by
  unfold definitionInputs
  generalize f.metrics = metrics at hfinite
  induction metrics with
  | nil => exact ⟨[], rfl, rfl, by simp, by simp⟩
  | cons m rest ih =>
    obtain ⟨hm, hrest⟩ := forall_mem_cons.mp hfinite
    obtain ⟨spec, hspec, hstored⟩ := codec.roundTrip m hm
    obtain ⟨defs, hdefs, hnames, hkinds, hmetrics⟩ := ih hrest
    refine ⟨⟨m.name, m.kind, spec⟩ :: defs, ?_, by simp [hnames], ?_, ?_⟩
    · rw [mapM_cons, hspec, hdefs]
      rfl
    · refine forall_mem_cons.mpr ⟨⟨m, mem_cons_self, rfl⟩, fun d hd => ?_⟩
      obtain ⟨m', hm', hkind⟩ := hkinds d hd
      exact ⟨m', mem_cons_of_mem m hm', hkind⟩
    · refine forall_mem_cons.mpr ⟨⟨_, mem_cons_self, rfl, hstored⟩, fun m' hm' => ?_⟩
      obtain ⟨d, hd, hd'⟩ := hmetrics m' hm'
      exact ⟨d, mem_cons_of_mem _ hd, hd'⟩

/-- An operand of an accepted file is resolved to one that `operandSeries` knows. -/
theorem exists_resolve (hf : f.Accepted) (hdefs : Declares codec defs f) {o o' : Operand} (ho : f.Resolves o)
    (hsame : Operand.Same o o') :
    ∃ op, resolve codec defs o' = some op ∧ op.Known ∧ op.builtin = o.builtin := by
  unfold resolve
  rcases ho with ⟨hempty, hbuiltin⟩ | ⟨hbuiltin, hmetric, ref, href, hname, hkind⟩
  · rw [if_pos (hsame.metric ▸ hempty)]
    refine ⟨_, rfl, .inr ?_, hsame.builtin.symm⟩
    exact hsame.builtin ▸ hbuiltin
  obtain ⟨spec, hlookup, ref', hunmarshal, hsame'⟩ := hdefs ref href
  have hkinds := hf.kinds ref href
  rw [if_neg (hsame.metric ▸ hmetric), ← hsame.metric, ← hname, hlookup]
  simp only [Option.bind_some, hunmarshal]
  rw [← hsame'.kind, if_neg]
  · have hknown : ref.kind ∈ [kindCounter, kindDuration, kindValue] := by simpa [catalog.kinds, hkind] using hkinds
    exact ⟨_, rfl, .inl hknown, hsame.builtin.symm⟩
  · rintro (hempty | hratio)
    · rw [hempty] at hkinds
      revert hkinds
      decide
    · exact hkind hratio

theorem exists_ratioSpec (hdefs : Declares codec defs f) {m : Metric} (hm : m ∈ f.metrics)
    (hkind : m.kind = kindRatio) {n d : Operand} (hn : m.numerator = some n) (hd : m.denominator = some d) :
    ∃ raw spec n' d', ratioSpec codec defs m.name = some (raw, spec, n', d') ∧ spec.scale = m.scale ∧
      Operand.Same n n' ∧ Operand.Same d d' := by
  obtain ⟨raw, hlookup, spec, hunmarshal, hsame⟩ := hdefs m hm
  have hnumerator := hsame.numerator
  have hdenominator := hsame.denominator
  rw [hn] at hnumerator
  rw [hd] at hdenominator
  cases hn' : spec.numerator with
  | none =>
    rw [hn'] at hnumerator
    cases hnumerator
  | some n' =>
    cases hd' : spec.denominator with
    | none =>
      rw [hd'] at hdenominator
      cases hdenominator
    | some d' =>
      rw [hn'] at hnumerator
      rw [hd'] at hdenominator
      refine ⟨raw, spec, n', d', ?_, hsame.scale.symm, ?_, ?_⟩
      · unfold ratioSpec
        simp [hlookup, hunmarshal, ← hsame.kind, hkind, hn', hd']
      · cases hnumerator
        assumption
      · cases hdenominator
        assumption

/-- The handler resolves both operands of a ratio of an accepted file, and calls
`Ratio` with a positive scale and a bucket that both operands have. -/
theorem exists_ratioCall (definitions : TenantScope → String → Except String (GoMap String σ)) {scope : TenantScope}
    (hf : f.Accepted) (hload : definitions scope f.service = .ok defs) (hdefs : Declares codec defs f) {m : Metric}
    (hm : m ∈ f.metrics) (hkind : m.kind = kindRatio) (filters : Filters) {bucket : String}
    (hbucket : bucketAllowed m bucket) :
    ∃ raw num den q b, ratioCall codec definitions ⟨some scope, .ok filters, f.service, m.name, bucket⟩ =
        .ok (raw, ⟨scope, filters, f.service, num, den, .finite q, b⟩) ∧ 0 < q ∧
      ∀ o ∈ [num, den], o.Known ∧
        (b ∈ [Bucket.day, .week, .month] ∨ b = .hour ∧ o.ratioNeedsDailyBucket = false) := by
  obtain ⟨⟨q, hq, hscale⟩, n, d, hn, hd, hresolves, hresolves'⟩ := hf.ratios m hm hkind
  obtain ⟨raw, spec, n', d', hspec, hscale', hsame, hsame'⟩ := exists_ratioSpec hdefs hm hkind hn hd
  obtain ⟨num, hnum, hknown, hbuiltin⟩ := exists_resolve hf hdefs hresolves hsame
  obtain ⟨den, hden, hknown', hbuiltin'⟩ := exists_resolve hf hdefs hresolves' hsame'
  have hdaily : num.ratioNeedsDailyBucket = dailyOperand m.numerator := by
    rw [hn]
    unfold RatioOperand.ratioNeedsDailyBucket
    rw [hbuiltin]
    rfl
  have hdaily' : den.ratioNeedsDailyBucket = dailyOperand m.denominator := by
    rw [hd]
    unfold RatioOperand.ratioNeedsDailyBucket
    rw [hbuiltin']
    rfl
  obtain ⟨b, hparse, hb⟩ : ∃ b, parseBucket bucket
      (if (num.ratioNeedsDailyBucket || den.ratioNeedsDailyBucket) = true then .day else .hour) anyBucket = .ok b ∧
      (b ∈ [Bucket.day, .week, .month] ∨
        b = .hour ∧ (num.ratioNeedsDailyBucket || den.ratioNeedsDailyBucket) = false) := by
    apply exists_parseBucket
    rw [hdaily, hdaily']
    rcases hbucket with h | ⟨h, hnum, hden⟩
    · exact .inl h
    · exact .inr ⟨h, by rw [hnum, hden]; rfl⟩
  refine ⟨raw, num, den, q, b, ?_, hq, ?_⟩
  · have hservice := isServiceName_ne_empty hf.service
    have hname := isShortIdentifier_ne_empty (hf.names m hm)
    have hpositive : ¬ (GoFloat.finite q).eq (.finite 0) = true := by
      intro hzero
      have hle := (Bool.and_eq_true_iff.mp hzero).1
      exact absurd hq (not_lt.mpr (of_decide_eq_true hle))
    have hhour : ¬ ((num.ratioNeedsDailyBucket || den.ratioNeedsDailyBucket) = true ∧ b = .hour) := by
      rintro ⟨honly, rfl⟩
      rcases hb with hb | ⟨_, hb⟩
      · revert hb
        decide
      · rw [honly] at hb
        cases hb
    unfold ratioCall
    simp only [hload, hservice, hname, or_self, if_false, Except.mapError, bind, Except.bind, hspec, hnum, hden, hparse,
      hhour, hscale', hscale, hpositive]
    rfl
  · intro o ho
    simp only [mem_cons, not_mem_nil, or_false] at ho
    rcases hb with hb | ⟨hhour, hnot⟩
    · rcases ho with rfl | rfl
      · exact ⟨hknown, .inl hb⟩
      · exact ⟨hknown', .inl hb⟩
    · obtain ⟨hnot, hnot'⟩ := Bool.or_eq_false_iff.mp hnot
      rcases ho with rfl | rfl
      · exact ⟨hknown, .inr ⟨hhour, hnot⟩⟩
      · exact ⟨hknown', .inr ⟨hhour, hnot'⟩⟩

variable [DecidableEq σ]

/-- An accepted file can be applied to any catalog, and its definitions are then the
active ones under their names. -/
theorem exists_applied (hf : f.Accepted) (scope : TenantScope) (actor : String) (at_ : Int) (t : Definitions σ) :
    ∃ defs res t', definitionInputs codec f = .ok defs ∧
      applyMetricDefinitions scope.tenantID f.service actor at_ defs t = .ok (res, t') ∧
      Declares codec (activeMetricDefinitions scope f.service t') f := by
  obtain ⟨defs, hdefs, hnames, hkinds, hmetrics⟩ : ∃ defs, definitionInputs codec f = .ok defs ∧ _ :=
    exists_definitionInputs hf.finite
  have hallowed : ∀ d ∈ defs, d.kind ∈ definitionKinds := by
    intro d hd
    obtain ⟨m, hm, hkind⟩ := hkinds d hd
    rw [hkind]
    exact hf.kinds m hm
  obtain ⟨res, t', happly⟩ := exists_applyMetricDefinitions t hallowed
  refine ⟨defs, res, t', hdefs, happly, ?_⟩
  have hgiven := (lookup_applyMetricDefinitions (hnames ▸ hf.nodup) happly).1
  intro m hm
  obtain ⟨d, hd, hname, hstored⟩ := hmetrics m hm
  obtain ⟨row, hrow, hactive, hspec, _⟩ :=
    exists_upserted d actor at_ (t.lookup ⟨scope.tenantID, f.service, d.name⟩)
  refine ⟨d.spec, ?_, hstored⟩
  rw [lookup_activeMetricDefinitions, ← hname, hgiven d hd, hrow]
  simp [hactive, hspec]

/-- Every ratio of an accepted file can be computed once the file is applied. -/
theorem ratios_computable {isPrint : Char → Bool} {f : File} (haccepted : f.applyDefaults.validate isPrint = .ok ())
    (scope : TenantScope) (actor : String) (at_ : Int) (t : Definitions σ) :
    ∃ defs res t', definitionInputs codec f.applyDefaults = .ok defs ∧
      applyMetricDefinitions scope.tenantID f.service actor at_ defs t = .ok (res, t') ∧
      ∀ m ∈ f.applyDefaults.metrics, m.kind = kindRatio → ∀ (filters : Filters) (bucket : String),
        bucketAllowed m bucket →
        let definitions := fun scope service => Except.ok (activeMetricDefinitions scope service t')
        let request : RatioRequest := ⟨some scope, .ok filters, f.service, m.name, bucket⟩
        ∃ raw num den q b,
          ratioCall codec definitions request = .ok (raw, ⟨scope, filters, f.service, num, den, .finite q, b⟩) ∧
          0 < q ∧
          (∀ o ∈ [num, den], ∀ dateTrunc,
            (∃ query, operandQuery dateTrunc scope filters f.service o b = .ok query) ∧
            ∀ arith db err, operandSeries dateTrunc arith db scope filters f.service o b = .error err →
              ∃ failure, err = .database failure) ∧
          ∀ dateTrunc arith db, (∃ response, handleRatios codec definitions dateTrunc arith db request = .ok response) ∨
            ∃ o ∈ [num, den], ∃ failure,
              operandSeries dateTrunc arith db scope filters f.service o b = .error (.database failure) := by
  have hf := File.accepted_of_validate haccepted
  obtain ⟨defs, res, t', hdefs, happly, hdeclares⟩ : ∃ defs res t', definitionInputs codec f.applyDefaults = .ok defs ∧ _ :=
    exists_applied hf scope actor at_ t
  refine ⟨defs, res, t', hdefs, happly, fun m hm hkind filters bucket hbucket => ?_⟩
  obtain ⟨raw, num, den, q, b, hcall, hq, hoperands⟩ := exists_ratioCall
    (fun scope service => .ok (activeMetricDefinitions scope service t')) hf rfl hdeclares hm hkind filters hbucket
  have hseries : ∀ o ∈ [num, den], ∀ dateTrunc,
      (∃ query, operandQuery dateTrunc scope filters f.service o b = .ok query) ∧
        ∀ arith db err, operandSeries dateTrunc arith db scope filters f.service o b = .error err →
          ∃ failure, err = .database failure := by
    intro o ho dateTrunc
    obtain ⟨hknown, hb⟩ := hoperands o ho
    obtain ⟨query, hquery⟩ := exists_operandQuery dateTrunc scope filters f.service hknown hb
    exact ⟨⟨query, hquery⟩, fun arith db err herr => operandSeries_error hquery herr⟩
  refine ⟨raw, num, den, q, b, hcall, hq, hseries, fun dateTrunc arith db => ?_⟩
  cases hratio : ratio dateTrunc arith db scope filters f.service num den (.finite q) b with
  | ok series =>
    refine .inl ⟨_, Except.bind_eq_ok_iff.mpr ⟨_, hcall, Except.bind_eq_ok_iff.mpr ⟨series, ?_, rfl⟩⟩⟩
    exact congrArg (Except.mapError _) hratio
  | error err =>
    obtain ⟨o, ho, herr⟩ := ratio_error hratio
    obtain ⟨failure, rfl⟩ := (hseries o ho dateTrunc).2 arith db err herr
    exact .inr ⟨o, ho, failure, herr⟩

end Catalog

/-- Definitions stored as they are. -/
def plainCodec : SpecCodec Metric where
  specJSON m := if m.scale.isFinite = true then .ok m else .error "json: unsupported value"
  unmarshal := some
  roundTrip m hm := by
    have hrel : ∀ o : Option Operand, Option.Rel Operand.Same o o := by
      intro o
      cases o with
      | none => exact .none
      | some o => exact .some ⟨rfl, rfl, .refl _, rfl⟩
    exact ⟨m, if_pos hm, m, rfl, rfl, rfl, rfl, rfl, rfl, rfl, rfl, .refl _, rfl, hrel _, hrel _, rfl⟩

/-- A file with a ratio of a counter, narrowed by a dimension, to the sessions. -/
def scanFile : File where
  version := 1
  service := "acme"
  metrics := [
    { name := "scans", kind := "counter", title := "Scans", dims := ["mode"] },
    { name := "scans_per_session", kind := "ratio", title := "Scans per session"
      numerator := some { metric := "scans", where_ := GoMap.putAll ∅ [("mode", "deep")] }
      denominator := some { builtin := "sessions" } }]

theorem ratios_computable_scans :
    scanFile.applyDefaults.validate (fun _ => true) = .ok () ∧
      ∃ defs res t', definitionInputs plainCodec scanFile.applyDefaults = .ok defs ∧
        applyMetricDefinitions 1 "acme" "cli" 0 defs ∅ = .ok (res, t') ∧
        ∃ raw call, ratioCall plainCodec (fun scope service => .ok (activeMetricDefinitions scope service t'))
          ⟨some ⟨1, by decide⟩, .ok { from_ := 0, to_ := 100 }, "acme", "scans_per_session", "week"⟩ =
            .ok (raw, call) := by
  have haccepted : scanFile.applyDefaults.validate (fun _ => true) = .ok () := by decide +kernel
  obtain ⟨defs, res, t', hdefs, happly, hratios⟩ :
      ∃ defs res t', definitionInputs plainCodec scanFile.applyDefaults = .ok defs ∧ _ :=
    ratios_computable haccepted ⟨1, by decide⟩ "cli" 0 ∅
  refine ⟨haccepted, defs, res, t', hdefs, happly, ?_⟩
  obtain ⟨raw, num, den, q, b, hcall, _⟩ := hratios (scanFile.applyDefaults.metrics.get ⟨1, by decide⟩)
    (get_mem _ _) rfl { from_ := 0, to_ := 100 } "week" (.inl (by decide))
  exact ⟨raw, _, hcall⟩

end argvio.metricsapi
