import Argvio.Catalog.File

open gostrings List

namespace argvio.catalog

/-- An operand over a built-in series, filtered only as that series allows. -/
structure Operand.OfBuiltin (o : Operand) : Prop where
  metric : o.metric = ""
  builtin : o.builtin ∈ builtins
  filters : ∀ e ∈ o.where_.entries, o.builtin = builtinCommandInvocations ∧ e.1 = "command" ∧ trimSpace e.2 ≠ ""
  agg : o.agg = ""

/-- An operand over the metric it names, whichever that is. -/
structure Operand.OfMetric (o : Operand) : Prop where
  metric : o.metric ≠ ""
  builtin : o.builtin = ""
  filters : ∀ e ∈ o.where_.entries, isShortIdentifier e.1 = true ∧ isShortIdentifier e.2 = true
  agg : o.agg = "" ∨ o.agg = aggSum ∨ o.agg = aggCount

/-- A metric that has what the operand asks of it. -/
structure Operand.Suits (o : Operand) (ref : Metric) : Prop where
  name : ref.name = o.metric
  kind : ref.kind ≠ kindRatio
  filters : ∀ e ∈ o.where_.entries, e.1 ∈ ref.dims
  agg : o.agg ≠ "" → ref.kind = kindValue

def File.Operates (f : File) (o : Operand) : Prop :=
  o.OfBuiltin ∨ (o.OfMetric ∧ ∃ ref ∈ f.metrics, o.Suits ref)

/-- The rules for the fields that every kind has. -/
structure Metric.Described (m : Metric) : Prop where
  kind : m.kind ∈ kinds
  title : trimSpace m.title ≠ "" ∧ len m.title ≤ maxTitleLength
  description : len m.description ≤ maxDescriptionLength
  unit : m.unit ∈ units ∧ (m.kind = kindDuration → m.unit = "ms") ∧ (m.kind = kindValue → m.unit ≠ "ms")
  direction : m.direction ∈ directions
  minTier : m.minTier = "" ∨ m.minTier ∈ tiers
  dims : m.dims.length ≤ maxDims ∧ (∀ d ∈ m.dims, isShortIdentifier d = true) ∧ m.dims.Nodup
  dimOrder : ∀ e ∈ m.dimOrder.entries, e.1 ∈ m.dims ∧ ∀ v ∈ e.2, isShortIdentifier v = true

/-- The rules for a ratio, given those for its operands. -/
structure Metric.Ratio (m : Metric) (operand : Operand → Prop) : Prop where
  dims : m.dims = [] ∧ m.dimOrder.entries = []
  scale : ∃ q : ℚ, 0 < q ∧ m.scale = .finite q
  operands : ∃ n d, m.numerator = some n ∧ m.denominator = some d ∧ operand n ∧ operand d

/-- A definition without the fields of a ratio. -/
structure Metric.Plain (m : Metric) : Prop where
  numerator : m.numerator = none
  denominator : m.denominator = none
  scale : m.scale = .finite 0

structure File.WellFormed (f : File) : Prop where
  version : f.version = catalog.version
  service : isServiceName f.service = true
  metrics : f.metrics.length ≤ maxMetrics
  names : ∀ m ∈ f.metrics, isShortIdentifier m.name = true
  nodup : (f.metrics.map Metric.name).Nodup
  described : ∀ m ∈ f.metrics, m.Described
  ratio : ∀ m ∈ f.metrics, m.kind = kindRatio → m.Ratio f.Operates
  plain : ∀ m ∈ f.metrics, m.kind ≠ kindRatio → m.Plain

theorem positive_iff_not_le_zero {x : GoFloat} :
    ¬ (x.isFinite = false ∨ x.le (.finite 0) = true) ↔ ∃ q : ℚ, 0 < q ∧ x = .finite q := by
  cases x with
  | nan | inf negative => simp [GoFloat.isFinite]
  | finite q => simp [GoFloat.isFinite, GoFloat.le]

theorem eq_zero_iff {x : GoFloat} : x.eq (.finite 0) = true ↔ x = .finite 0 := by
  cases x with
  | nan => simp [GoFloat.eq, GoFloat.le]
  | inf negative => cases negative <;> simp [GoFloat.eq, GoFloat.le]
  | finite q =>
    rw [GoFloat.finite.injEq, GoFloat.eq, Bool.and_eq_true]
    simp only [GoFloat.le, decide_eq_true_eq]
    exact le_antisymm_iff.symm

/-- A loop over a map finds nothing exactly when no entry has a problem. -/
theorem Visit.flatMap_eq_nil_iff {α β : Type} (order : Visit) {l : List α} {g : α → List β} :
    (order.visit l).flatMap g = [] ↔ ∀ a ∈ l, g a = [] := by
  rw [List.flatMap_eq_nil_iff]
  simp only [(order.perm l).mem_iff]

section Nil

variable {isPrint : Char → Bool} {o : Operand} {m : Metric} {at_ : String} {order : Loop → Visit}

theorem Operand.problems_eq_nil_iff {builtin filters : Visit} :
    o.problems isPrint builtin filters at_ = [] ↔ o.OfBuiltin ∨ o.OfMetric := by
  unfold Operand.problems Operand.builtinProblems
  simp only [append_eq_nil_iff, Visit.flatMap_eq_nil_iff, problem_eq_nil]
  by_cases hbuiltin : o.builtin = ""
  · have hnone : ¬ o.OfBuiltin := fun h => absurd (hbuiltin ▸ h.builtin) (by decide)
    have hwhere : ∀ e, o.whereProblems at_ e = [] ↔ isShortIdentifier e.1 = true ∧ isShortIdentifier e.2 = true := by
      intro e
      rw [Operand.whereProblems, if_neg (fun h => h.1 hbuiltin), problem_eq_nil, not_or]
      simp only [Bool.not_eq_false]
    have hof : o.OfMetric ↔ o.metric ≠ "" ∧ (¬ (o.agg ≠ "" ∧ o.agg ≠ aggSum ∧ o.agg ≠ aggCount)) ∧
        ∀ e ∈ o.where_.entries, isShortIdentifier e.1 = true ∧ isShortIdentifier e.2 = true :=
      ⟨fun h => ⟨h.metric, by have := h.agg; tauto, h.filters⟩, fun h => ⟨h.1, hbuiltin, h.2.2, by tauto⟩⟩
    simp only [hwhere, hof, hnone, false_or]
    by_cases hmetric : o.metric = "" <;> simp [hbuiltin, hmetric]
  · have hnone : ¬ o.OfMetric := fun h => hbuiltin h.builtin
    rw [or_iff_left hnone]
    by_cases hmetric : o.metric = ""
    · rw [if_neg (fun h => hbuiltin (h.mp hmetric))]
      by_cases hknown : o.builtin ∈ builtins
      · rw [if_neg (fun h => h.2 hknown), if_pos hbuiltin]
        simp only [append_eq_nil_iff, Visit.flatMap_eq_nil_iff, problem_eq_nil, not_or, not_not]
        constructor
        · rintro ⟨⟨⟨hfilters, hagg⟩, _⟩, hwhere⟩
          refine ⟨hmetric, hknown, fun e he => ⟨(hfilters e he).1, (hfilters e he).2, ?_⟩, hagg⟩
          have hblank := hwhere e he
          rwa [Operand.whereProblems, if_pos ⟨hbuiltin, (hfilters e he).2⟩, problem_eq_nil] at hblank
        · intro h
          refine ⟨⟨⟨fun e he => ⟨(h.filters e he).1, (h.filters e he).2.1⟩, h.agg⟩, fun hagg => hagg.1 h.agg⟩,
            fun e he => ?_⟩
          rw [Operand.whereProblems, if_pos ⟨hbuiltin, (h.filters e he).2.1⟩, problem_eq_nil]
          exact (h.filters e he).2.2
      · simpa [hbuiltin, hknown] using fun h : o.OfBuiltin => hknown h.builtin
    · simpa [hbuiltin, hmetric] using fun h : o.OfBuiltin => hmetric h.metric

theorem Metric.dimProblems_eq_nil_iff (seen dims : List String) : dimProblems isPrint at_ seen dims = [] ↔
    (∀ d ∈ dims, isShortIdentifier d = true ∧ d ∉ seen) ∧ dims.Nodup := by
  induction dims generalizing seen with
  | nil => simp [dimProblems]
  | cons d dims ih =>
    rw [forall_mem_cons, nodup_cons]
    simp only [dimProblems, append_eq_nil_iff, problem_eq_nil, Bool.not_eq_false, ih, mem_cons, not_or]
    constructor
    · rintro ⟨⟨hid, hnew⟩, hrest, hnodup⟩
      exact ⟨⟨⟨hid, hnew⟩, fun a ha => ⟨(hrest a ha).1, (hrest a ha).2.2⟩⟩, fun hd => (hrest d hd).2.1 rfl, hnodup⟩
    · rintro ⟨⟨hfirst, hrest⟩, hd, hnodup⟩
      exact ⟨hfirst, fun a ha => ⟨(hrest a ha).1, fun had => hd (had ▸ ha), (hrest a ha).2⟩, hnodup⟩

theorem Metric.unitProblems_eq_nil_iff (hkind : m.kind ∈ kinds) : m.unitProblems isPrint at_ = [] ↔
    m.unit ∈ units ∧ (m.kind = kindDuration → m.unit = "ms") ∧ (m.kind = kindValue → m.unit ≠ "ms") := by
  unfold Metric.unitProblems
  rw [if_neg (not_not.mpr hkind)]
  split_ifs <;> simp_all

theorem Metric.sides_eq_nil_iff {orders : Visit} :
    (orders.visit m.sides).flatMap (sideProblems isPrint order at_) = [] ↔
      ∃ n d, m.numerator = some n ∧ m.denominator = some d ∧ (n.OfBuiltin ∨ n.OfMetric) ∧ (d.OfBuiltin ∨ d.OfMetric) := by
  rw [Visit.flatMap_eq_nil_iff]
  unfold Metric.sides
  simp only [forall_mem_cons, not_mem_nil, false_implies, implies_true, and_true]
  cases m.numerator <;> cases m.denominator <;> simp [sideProblems, Operand.problems_eq_nil_iff]

theorem Metric.ratioProblems_eq_nil_iff : m.ratioProblems isPrint order at_ = [] ↔
    (m.kind = kindRatio → m.Ratio (fun o => o.OfBuiltin ∨ o.OfMetric)) ∧ (m.kind ≠ kindRatio → m.Plain) := by
  unfold Metric.ratioProblems
  split
  · rename_i hkind
    simp only [append_eq_nil_iff, problem_eq_nil, positive_iff_not_le_zero, sides_eq_nil_iff, hkind, ne_eq,
      not_true, false_implies, and_true, forall_const]
    constructor
    · rintro ⟨⟨hdims, hscale⟩, hsides⟩
      exact ⟨by simpa using hdims, hscale, hsides⟩
    · intro h
      exact ⟨⟨by simp [h.dims], h.scale⟩, h.operands⟩
  · rename_i hkind
    simp only [problem_eq_nil, not_or, Bool.not_eq_true, Option.isSome_eq_false_iff, Option.isNone_iff_eq_none,
      Bool.not_eq_false, eq_zero_iff, hkind, false_implies, true_and, ne_eq, not_false_eq_true, forall_const]
    exact ⟨fun h => ⟨h.1, h.2.1, h.2.2⟩, fun h => ⟨h.numerator, h.denominator, h.scale⟩⟩

theorem Metric.problems_eq_nil_iff : m.problems isPrint order at_ = [] ↔ m.Described ∧
    (m.kind = kindRatio → m.Ratio (fun o => o.OfBuiltin ∨ o.OfMetric)) ∧ (m.kind ≠ kindRatio → m.Plain) := by
  unfold Metric.problems
  simp only [append_eq_nil_iff, problem_eq_nil, Visit.flatMap_eq_nil_iff, dimProblems_eq_nil_iff,
    ratioProblems_eq_nil_iff]
  simp only [Metric.dimOrderProblems, append_eq_nil_iff, problem_eq_nil, flatMap_eq_nil_iff, not_not, not_or, not_and,
    not_lt, Bool.not_eq_false,
    not_mem_nil, not_false_eq_true, and_true]
  constructor
  · rintro ⟨⟨⟨⟨⟨⟨⟨⟨⟨hkind, htitle⟩, hdescription⟩, hunit⟩, hdirection⟩, htier⟩, hmax⟩, hdims⟩, horder⟩, hratio⟩
    exact ⟨⟨hkind, htitle, hdescription, (unitProblems_eq_nil_iff hkind).mp hunit, hdirection,
      or_iff_not_imp_left.mpr htier, ⟨hmax, hdims⟩, horder⟩, hratio⟩
  · rintro ⟨h, hratio⟩
    exact ⟨⟨⟨⟨⟨⟨⟨⟨⟨h.kind, h.title⟩, h.description⟩, (unitProblems_eq_nil_iff h.kind).mpr h.unit⟩, h.direction⟩,
      or_iff_not_imp_left.mp h.minTier⟩, h.dims.1⟩, h.dims.2⟩, h.dimOrder⟩, hratio⟩

/-- What a side refers to, where the names of the file are distinct. -/
theorem Metric.referenceProblems_eq_nil_iff {f : File} {byName : GoMap String Metric} {side : String}
    (hnames : ∀ name ref, byName.lookup name = some ref ↔ ref ∈ f.metrics ∧ ref.name = name) :
    m.referenceProblems isPrint order byName (side, some o) = [] ↔ o.metric = "" ∨ ∃ ref ∈ f.metrics, o.Suits ref := by
  unfold Metric.referenceProblems
  by_cases hmetric : o.metric = ""
  · simp [hmetric]
  simp only [hmetric, if_false, false_or]
  cases hlookup : byName.lookup o.metric with
  | none =>
    refine iff_of_false (cons_ne_nil _ _) ?_
    rintro ⟨ref, href, hsuits⟩
    rw [(hnames _ _).mpr ⟨href, hsuits.name⟩] at hlookup
    cases hlookup
  | some ref =>
    have hsuits : (∃ ref ∈ f.metrics, o.Suits ref) ↔ o.Suits ref := by
      refine ⟨?_, fun h => ⟨ref, ((hnames _ _).mp hlookup).1, h⟩⟩
      rintro ⟨ref', href', h⟩
      rw [(hnames _ _).mpr ⟨href', h.name⟩] at hlookup
      exact Option.some.inj hlookup ▸ h
    rw [hsuits]
    by_cases hkind : ref.kind = kindRatio
    · simp only [hkind, if_true]
      exact iff_of_false (cons_ne_nil _ _) fun h => h.kind hkind
    · simp only [hkind, if_false, append_eq_nil_iff, Visit.flatMap_eq_nil_iff, problem_eq_nil, not_not, not_and]
      exact ⟨fun h => ⟨((hnames _ _).mp hlookup).2, hkind, h.1, h.2⟩, fun h => ⟨h.filters, h.agg⟩⟩

end Nil

section File

variable {isPrint : Char → Bool} {f : File} {order : ℕ → Loop → Visit}

variable (entries : List (Metric × Nat)) (acc : GoMap String Metric × List String)

/-- The loop collects the definitions by name. -/
theorem foldl_checkMetric_fst :
    (entries.foldl (checkMetric isPrint order) acc).1 = acc.1.putAll (entries.map (fun e => (e.1.name, e.1))) := by
  induction entries generalizing acc with
  | nil => rfl
  | cons e rest ih => exact ih _

/-- The loop finds nothing exactly when every definition is right on its own and has
a name of its own. -/
theorem foldl_checkMetric_eq_nil_iff :
    (entries.foldl (checkMetric isPrint order) acc).2 = [] ↔
      acc.2 = [] ∧ (∀ e ∈ entries, isShortIdentifier e.1.name = true ∧ e.1.name ∉ acc.1 ∧
        e.1.problems isPrint (order e.2) (e.1.at_ isPrint e.2) = []) ∧ (entries.map (fun e => e.1.name)).Nodup := by
  induction entries generalizing acc with
  | nil => simp
  | cons e rest ih =>
    have hstep : (checkMetric isPrint order acc e).2 = [] ↔ acc.2 = [] ∧ isShortIdentifier e.1.name = true ∧
        e.1.name ∉ acc.1 ∧ e.1.problems isPrint (order e.2) (e.1.at_ isPrint e.2) = [] := by
      unfold checkMetric
      simp only [append_eq_nil_iff]
      split
      · rename_i hname
        simp [hname]
      · rename_i hname
        simp [problem_eq_nil, hname, and_assoc]
    have hmem : ∀ name, name ∈ (checkMetric isPrint order acc e).1 ↔ name = e.1.name ∨ name ∈ acc.1 :=
      fun name => AList.mem_insert acc.1
    rw [foldl_cons, ih, hstep]
    simp only [hmem, forall_mem_cons, map_cons, nodup_cons, mem_map, not_or]
    constructor
    · rintro ⟨⟨hacc, hname, hnew, hproblems⟩, hrest, hnodup⟩
      refine ⟨hacc, ⟨⟨hname, hnew, hproblems⟩, fun e' he' => ?_⟩, ?_, hnodup⟩
      · exact ⟨(hrest e' he').1, (hrest e' he').2.1.2, (hrest e' he').2.2⟩
      · rintro ⟨e', he', hsame⟩
        exact (hrest e' he').2.1.1 hsame
    · rintro ⟨hacc, ⟨hfirst, hrest⟩, hfresh, hnodup⟩
      refine ⟨⟨hacc, hfirst⟩, fun e' he' => ?_, hnodup⟩
      exact ⟨(hrest e' he').1, ⟨fun hsame => hfresh ⟨e', he', hsame⟩, (hrest e' he').2.1⟩, (hrest e' he').2.2⟩

/-- A statement about the definitions of a file, whatever their indices. -/
theorem forall_mem_zipIdx_iff {P : Metric → Prop} : (∀ e ∈ f.metrics.zipIdx, P e.1) ↔ ∀ m ∈ f.metrics, P m := by
  conv_rhs => rw [← zipIdx_map_fst 0 f.metrics]
  rw [forall_mem_map]

theorem map_zipIdx {β : Type} (g : Metric → β) : f.metrics.zipIdx.map (fun e => g e.1) = f.metrics.map g := by
  conv_rhs => rw [← zipIdx_map_fst 0 f.metrics, map_map]
  rfl

/-- Where each definition is right on its own, the references are right exactly when
every ratio has operands of the file. -/
theorem references_eq_nil_iff (hnodup : (f.metrics.map Metric.name).Nodup)
    (hratio : ∀ m ∈ f.metrics, m.kind = kindRatio → m.Ratio (fun o => o.OfBuiltin ∨ o.OfMetric)) :
    (f.metrics.zipIdx.filter (fun e => e.1.kind = kindRatio)).flatMap (fun e =>
        ((order e.2 .references).visit e.1.sides).flatMap (e.1.referenceProblems isPrint (order e.2)
          (GoMap.putAll ∅ (f.metrics.map (fun m => (m.name, m)))))) = [] ↔
      ∀ m ∈ f.metrics, m.kind = kindRatio → m.Ratio f.Operates := by
  have hnames : ∀ name ref, (GoMap.putAll ∅ (f.metrics.map (fun m => (m.name, m)))).lookup name = some ref ↔
      ref ∈ f.metrics ∧ ref.name = name := by
    intro name ref
    rw [GoMap.lookup_putAll_eq_some_iff (by rwa [map_map]), mem_map]
    constructor
    · rintro ⟨m, hm, heq⟩
      obtain ⟨rfl, rfl⟩ := Prod.mk.inj heq
      exact ⟨hm, rfl⟩
    · rintro ⟨hmem, rfl⟩
      exact ⟨ref, hmem, rfl⟩
  have hoperates : ∀ o : Operand, o.OfBuiltin ∨ o.OfMetric →
      ((o.metric = "" ∨ ∃ ref ∈ f.metrics, o.Suits ref) ↔ f.Operates o) := by
    rintro o (ho | ho)
    · exact iff_of_true (.inl ho.metric) (.inl ho)
    refine ⟨fun h => .inr ⟨ho, h.resolve_left ho.metric⟩, ?_⟩
    rintro (h | h)
    · exact .inl h.metric
    · exact .inr h.2
  rw [← forall_mem_zipIdx_iff]
  rw [flatMap_eq_nil_iff]
  simp only [Visit.flatMap_eq_nil_iff, mem_filter, decide_eq_true_eq, and_imp]
  refine forall_congr' fun e => forall_congr' fun he => forall_congr' fun hkind => ?_
  have hr := hratio e.1 (forall_mem_zipIdx_iff.mpr (fun _ h => h) e he) hkind
  obtain ⟨n, d, hn, hd, hn', hd'⟩ := hr.operands
  simp only [Metric.sides, forall_mem_cons, hn, hd, Metric.referenceProblems_eq_nil_iff hnames, hoperates _ hn',
    hoperates _ hd', not_mem_nil, false_implies, implies_true, and_true]
  refine ⟨fun h => ⟨hr.dims, hr.scale, n, d, hn, hd, h⟩, fun h => ?_⟩
  obtain ⟨n', d', hn₁, hd₁, h'⟩ := h.operands
  cases hn.symm.trans hn₁
  cases hd.symm.trans hd₁
  exact h'

/-- A file has no problems exactly when it is well formed. -/
theorem File.problems_eq_nil_iff : f.problems isPrint order = [] ↔ f.WellFormed := by
  unfold File.problems
  simp only [append_eq_nil_iff, problem_eq_nil, Bool.not_eq_false, not_not, not_lt, foldl_checkMetric_eq_nil_iff,
    foldl_checkMetric_fst, map_zipIdx (fun m => (m.name, m)), map_zipIdx Metric.name, Metric.problems_eq_nil_iff, true_and,
    AList.notMem_empty, not_false_eq_true]
  rw [@forall_mem_zipIdx_iff f (fun m => isShortIdentifier m.name = true ∧ m.Described ∧
    (m.kind = kindRatio → m.Ratio (fun o => o.OfBuiltin ∨ o.OfMetric)) ∧ (m.kind ≠ kindRatio → m.Plain))]
  constructor
  · rintro ⟨⟨⟨⟨hversion, hservice⟩, hmax⟩, hmetrics, hnodup⟩, hreferences⟩
    exact ⟨hversion, hservice, hmax, fun m hm => (hmetrics m hm).1, hnodup, fun m hm => (hmetrics m hm).2.1,
      (references_eq_nil_iff hnodup fun m hm => (hmetrics m hm).2.2.1).mp hreferences,
      fun m hm => (hmetrics m hm).2.2.2⟩
  intro h
  have hratio : ∀ m ∈ f.metrics, m.kind = kindRatio → m.Ratio (fun o => o.OfBuiltin ∨ o.OfMetric) := by
    intro m hm hkind
    obtain ⟨n, d, hn, hd, hn', hd'⟩ := (h.ratio m hm hkind).operands
    exact ⟨(h.ratio m hm hkind).dims, (h.ratio m hm hkind).scale, n, d, hn, hd, hn'.imp_right And.left,
      hd'.imp_right And.left⟩
  exact ⟨⟨⟨⟨h.version, h.service⟩, h.metrics⟩, fun m hm => ⟨h.names m hm, h.described m hm, hratio m hm,
    h.plain m hm⟩, h.nodup⟩, (references_eq_nil_iff h.nodup hratio).mpr h.ratio⟩

end File

section Order

variable {isPrint : Char → Bool}

/-- Two runs of one loop over a map find the same problems, each in its own order. -/
theorem Visit.flatMap_perm {α β : Type} (v v' : Visit) (l : List α) {g g' : α → List β}
    (h : ∀ a ∈ l, (g a).Perm (g' a)) : ((v.visit l).flatMap g).Perm ((v'.visit l).flatMap g') :=
  (((v.perm l).flatMap_right g).trans (List.Perm.flatMap_left l h)).trans ((v'.perm l).flatMap_right g').symm

theorem Operand.problems_perm (o : Operand) (at_ : String) (v v' w w' : Visit) :
    (o.problems isPrint v w at_).Perm (o.problems isPrint v' w' at_) := by
  unfold Operand.problems Operand.builtinProblems
  refine (List.Perm.append_right _ ?_).append (Visit.flatMap_perm w w' _ fun _ _ => .refl _)
  split_ifs
  · exact .refl _
  · exact .refl _
  · exact (Visit.flatMap_perm v v' _ fun _ _ => .refl _).append_right _
  · exact .refl _

variable (m : Metric) (f : File) (order order' : ℕ → Loop → Visit)

theorem Metric.problems_perm (at_ : String) (order order' : Loop → Visit) :
    (m.problems isPrint order at_).Perm (m.problems isPrint order' at_) := by
  unfold Metric.problems Metric.ratioProblems
  refine ((Visit.flatMap_perm _ _ _ fun _ _ => .refl _).append_left _).append ?_
  split
  · refine List.Perm.append_left _ (Visit.flatMap_perm _ _ _ fun side _ => ?_)
    obtain ⟨side, _ | o⟩ := side
    · exact .refl _
    · exact o.problems_perm _ _ _ _ _
  · exact .refl _

theorem Metric.referenceProblems_perm (byName : GoMap String Metric) (order order' : Loop → Visit)
    (side : String × Option Operand) :
    (m.referenceProblems isPrint order byName side).Perm (m.referenceProblems isPrint order' byName side) := by
  obtain ⟨side, _ | o⟩ := side
  · exact .refl _
  simp only [Metric.referenceProblems]
  split_ifs
  · exact .refl _
  split
  · exact .refl _
  · split_ifs
    · exact .refl _
    · exact (Visit.flatMap_perm _ _ _ fun _ _ => .refl _).append_right _

theorem foldl_checkMetric_perm (entries : List (Metric × Nat)) {acc acc' : GoMap String Metric × List String}
    (hnames : acc.1 = acc'.1) (hfound : acc.2.Perm acc'.2) :
    (entries.foldl (checkMetric isPrint order) acc).2.Perm (entries.foldl (checkMetric isPrint order') acc').2 := by
  induction entries generalizing acc acc' with
  | nil => exact hfound
  | cons e rest ih =>
    refine ih ?_ ?_
    · simp only [checkMetric, hnames]
    · simp only [checkMetric, hnames]
      exact (hfound.append_right _).append (Metric.problems_perm _ _ _ _)

theorem File.problems_perm : (f.problems isPrint order).Perm (f.problems isPrint order') := by
  unfold File.problems
  simp only [foldl_checkMetric_fst]
  refine ((foldl_checkMetric_perm order order' _ rfl (.refl _)).append_left _).append ?_
  exact List.Perm.flatMap_left _ fun e _ => Visit.flatMap_perm _ _ _ fun side _ => Metric.referenceProblems_perm _ _ _ _ _

/-- The sort hides the order in which the maps were visited. -/
theorem File.validateIn_eq : f.validateIn isPrint order = f.validateIn isPrint order' := by
  have hsorted : (f.problems isPrint order).insertionSort (· ≤ ·) = (f.problems isPrint order').insertionSort (· ≤ ·) :=
    List.Perm.eq_of_pairwise' (pairwise_insertionSort _ _) (pairwise_insertionSort _ _)
      (((perm_insertionSort _ _).trans (f.problems_perm order order')).trans (perm_insertionSort _ _).symm)
  unfold File.validateIn
  simp only [hsorted]

end Order

/-- Validation returns nil exactly for a well-formed file, and otherwise a non-empty
sorted list of problems, the same for every order of the maps. -/
theorem validate_exact (isPrint : Char → Bool) (f : File) (order : ℕ → Loop → Visit) :
    (f.validateIn isPrint order = .ok () ↔ f.WellFormed) ∧
    (¬ f.WellFormed → ∃ err : ValidationError, err.problems ≠ [] ∧ err.problems.Pairwise (· ≤ ·) ∧
      ∀ order', f.validateIn isPrint order' = .error err) := by
  have hnil : ((f.problems isPrint order).insertionSort (· ≤ ·)).length = 0 ↔ f.WellFormed := by
    rw [length_insertionSort, length_eq_zero_iff, File.problems_eq_nil_iff]
  by_cases h : f.WellFormed
  · have hok : f.validateIn isPrint order = .ok () := if_neg (by have := hnil.mpr h; omega)
    exact ⟨iff_of_true hok h, fun hnot => absurd h hnot⟩
  · have hpos := Nat.pos_of_ne_zero fun hlen => h (hnil.mp hlen)
    have herror : f.validateIn isPrint order = .error ⟨(f.problems isPrint order).insertionSort (· ≤ ·)⟩ := if_pos hpos
    refine ⟨iff_of_false (by rw [herror]; exact nofun) h, fun _ => ⟨_, ne_nil_of_length_pos hpos,
      pairwise_insertionSort _ _, fun order' => (f.validateIn_eq order' order).trans herror⟩⟩

end argvio.catalog
