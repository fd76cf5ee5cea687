import Argvio.Consent.Exact
import Argvio.Otlp.Kept

open argvio.allowlist argvio.consent

namespace argvio.otlp

/-- Two attribute lists with the same keys that differ at most in the values of
hidden ones. -/
structure AgreeOutside (hidden : String → Prop) (m m' : AttrList) : Prop where
  keys : (m.map Prod.fst).Perm (m'.map Prod.fst)
  visible : ∀ k, ¬ hidden k → m.filter (fun kv => kv.1 = k) = m'.filter (fun kv => kv.1 = k)

theorem AgreeOutside.length_eq {hidden : String → Prop} {m m' : AttrList} (h : AgreeOutside hidden m m') :
    m.length = m'.length := by
  simpa using h.keys.length_eq

variable {p : Pipeline} {d : EventDef} {resource m : AttrList} {k : String}

variable {hidden : String → Prop} {declared : Declared}

theorem AgreeOutside.survivors_eq {m m' : AttrList} (h : AgreeOutside hidden m m') (maxKeyLen maxValLen : Int)
    (hk : ¬ hidden k) : survivors maxKeyLen maxValLen m k = survivors maxKeyLen maxValLen m' k := by
  unfold survivors
  rw [h.visible k hk]

/-- The rank a record is filtered at, min(declared, ceiling), when both are known. -/
def Pipeline.effectiveRank (p : Pipeline) (resource m : AttrList) : Option Int :=
  match p.resolve resource m with
  | .error _ => none
  | .ok declared =>
    match p.schema.tierRank declared.tier, p.schema.tierRank p.tenant.config.tierCeiling with
    | some declaredRank, some ceilingRank => some (min declaredRank ceilingRank)
    | _, _ => none

/-- A key above the effective tier, other than the tier key and the standard
resource attributes. -/
def Pipeline.AboveTier (p : Pipeline) (resource m : AttrList) (k : String) : Prop :=
  k ≠ tierAttrKey ∧ p.schema.isStandardResourceAttribute k = false ∧
    ∃ attrDef minRank r, p.schema.attrDefFor k = some attrDef ∧
      p.schema.tierRank attrDef.minTier = some minRank ∧ p.effectiveRank resource m = some r ∧ r < minRank

/-- A key the event's definition or the effective tier keeps out of storage. -/
def Pipeline.Withheld (p : Pipeline) (d : EventDef) (resource m : AttrList) (k : String) : Prop :=
  p.AboveTier resource m k ∨
    (k ≠ tierAttrKey ∧ p.schema.isStandardResourceAttribute k = false ∧
      ¬ p.schema.AllowedFor d.allowedAttributes k)

theorem Pipeline.Withheld.ne_tierAttrKey (h : p.Withheld d resource m k) : k ≠ tierAttrKey := by
  rcases h with h | h
  · exact h.1
  · exact h.1

/-- The filter drops a withheld key whatever its value is. -/
theorem Pipeline.Withheld.keepAttribute_eq_false (h : p.Withheld d resource m k) {r : Int}
    (hr : p.effectiveRank resource m = some r) (v : AttrValue) :
    keepAttribute p.schema (allowedSet d.allowedAttributes) r k v = false := by
  unfold keepAttribute
  rcases h with ⟨_, hstandard, attrDef, minRank, r', hdef, hmin, hr', hlt⟩ | ⟨_, hstandard, hallowed⟩
  · have hrank : r' = r := by simpa [hr'] using hr
    subst hrank
    split
    · rw [hdef]
      dsimp only
      split
      · rfl
      · simp [hmin, hlt]
    · exact hstandard
  · rw [if_neg (fun hpos => hallowed (Schema.isAllowed_iff.mp hpos))]
    exact hstandard

theorem resolve_eq_ok (h : p.resolve resource m = .ok declared) :
    ∃ resourceAttrs recordAttrs dropped dropped',
      extractAttrs resource p.bounds.maxAttributeCount p.bounds.maxAttributeKeyLength
        p.bounds.maxAttributeStringValueLength = some (resourceAttrs, dropped) ∧
      extractAttrs m p.bounds.maxAttributeCount p.bounds.maxAttributeKeyLength
        p.bounds.maxAttributeStringValueLength = some (recordAttrs, dropped') ∧
      resolveTier p.schema resourceAttrs recordAttrs = .ok declared.tier ∧
      declared.merged = mergeAttrs resourceAttrs recordAttrs ∧ declared.structDropped = dropped ++ dropped' := by
  unfold Pipeline.resolve at h
  dsimp only at h
  split at h
  · cases h
  rename_i resourceAttrs dropped hresource
  split at h
  · cases h
  rename_i recordAttrs dropped' hrecord
  split at h
  · cases h
  · rename_i tier htier
    cases h
    exact ⟨resourceAttrs, recordAttrs, dropped, dropped', hresource, hrecord, htier, rfl, rfl⟩

/-- Extraction and tier resolution do not see hidden values: both records fail
for the same reason, or declare the same tier with attributes that agree. -/
theorem resolve_agree (p : Pipeline) {resource m m' : AttrList} (hagree : AgreeOutside hidden m m')
    (htier : ¬ hidden tierAttrKey) :
    Except.Agree (fun declared declared' => declared.tier = declared'.tier ∧
      ∀ k, ¬ hidden k → declared.merged.lookup k = declared'.merged.lookup k)
      (p.resolve resource m) (p.resolve resource m') := by
  unfold Pipeline.resolve
  dsimp only
  cases extractAttrs resource p.bounds.maxAttributeCount p.bounds.maxAttributeKeyLength
      p.bounds.maxAttributeStringValueLength with
  | none => rfl
  | some kept =>
    obtain ⟨resourceAttrs, resourceDropped⟩ := kept
    cases hm : extractAttrs m p.bounds.maxAttributeCount p.bounds.maxAttributeKeyLength
        p.bounds.maxAttributeStringValueLength with
    | none =>
      rw [extractAttrs_eq_none_iff, hagree.length_eq, ← extractAttrs_eq_none_iff] at hm
      rw [hm]
      rfl
    | some kept =>
      obtain ⟨recordAttrs, recordDropped⟩ := kept
      cases hm' : extractAttrs m' p.bounds.maxAttributeCount p.bounds.maxAttributeKeyLength
          p.bounds.maxAttributeStringValueLength with
      | none =>
        rw [extractAttrs_eq_none_iff, ← hagree.length_eq, ← extractAttrs_eq_none_iff, hm] at hm'
        cases hm'
      | some kept' =>
        obtain ⟨recordAttrs', recordDropped'⟩ := kept'
        have hlookup : ∀ k, ¬ hidden k → recordAttrs.lookup k = recordAttrs'.lookup k := by
          intro k hk
          rw [lookup_extractAttrs hm, lookup_extractAttrs hm', hagree.survivors_eq _ _ hk]
        have hresolve : resolveTier p.schema resourceAttrs recordAttrs =
            resolveTier p.schema resourceAttrs recordAttrs' := by
          simp only [resolveTier, hlookup _ htier]
        simp only [hresolve]
        cases resolveTier p.schema resourceAttrs recordAttrs' with
        | error err => rfl
        | ok tier =>
          refine ⟨rfl, fun k hk => ?_⟩
          rw [lookup_mergeAttrs, lookup_mergeAttrs, hlookup k hk]

/-- The consent rules do not see withheld values either: both records are
rejected for the same reason, or keep the same map under the same tier. -/
theorem evaluateEvent_agree {s : Schema} {declared ceiling : String} (mode : EnforcementMode) {attrs attrs' : AttrMap}
    {declaredRank : Int} (hdeclared : s.tierRank declared = some declaredRank)
    (hkept : ∀ ceilingRank, s.tierRank ceiling = some ceilingRank → ∀ k,
      (filterAttributes s (allowedSet d.allowedAttributes) (min declaredRank ceilingRank) attrs).1.lookup k =
        (filterAttributes s (allowedSet d.allowedAttributes) (min declaredRank ceilingRank) attrs').1.lookup k) :
    Except.Agree (fun acc acc' => acc.effectiveTier = acc'.effectiveTier ∧
      GoMap.Same acc.keptAttributes acc'.keptAttributes ∧ ∃ ceilingRank, s.tierRank ceiling = some ceilingRank ∧
        acc.effectiveTier = tierNameForRank s (min declaredRank ceilingRank))
      (evaluateEvent s d declared ceiling mode attrs) (evaluateEvent s d declared ceiling mode attrs') := by
  cases hfound : d.found with
  | false =>
    simp only [evaluateEvent, hfound, if_true]
    rfl
  | true =>
    cases hceiling : s.tierRank ceiling with
    | none =>
      simp only [evaluateEvent, hfound, hceiling, Bool.true_eq_false, if_false]
      rfl
    | some c =>
      by_cases hmode : mode = .reject ∧ declaredRank > c
      · simp only [evaluateEvent, hfound, hceiling, hdeclared, Option.getD_some, hmode.1, hmode.2,
          Bool.true_eq_false, if_false, and_self, if_true]
        rfl
      rw [evaluateEvent_of_within_ceiling attrs hfound hdeclared hceiling hmode,
        evaluateEvent_of_within_ceiling attrs' hfound hdeclared hceiling hmode]
      have hsame := GoMap.same_of_lookup (hkept c hceiling)
      refine (requireAttributes_agree _ _ hsame).mono ?_
      rintro acc acc' ⟨rfl, rfl⟩
      exact ⟨rfl, hsame, c, rfl, rfl⟩

private theorem evaluate_agree {declared declared' : Declared} {R : Acceptance → Acceptance → Prop}
    (h : Except.Agree R
      (evaluateEvent p.schema d declared.tier p.tenant.config.tierCeiling p.tenant.config.tierEnforcementMode
        declared.merged)
      (evaluateEvent p.schema d declared'.tier p.tenant.config.tierCeiling p.tenant.config.tierEnforcementMode
        declared'.merged)) :
    Except.Agree (fun out out' => R out.1 out'.1) (p.evaluate d declared) (p.evaluate d declared') := by
  unfold Pipeline.evaluate
  generalize evaluateEvent p.schema d declared.tier _ _ _ = x at h ⊢
  generalize evaluateEvent p.schema d declared'.tier _ _ _ = y at h ⊢
  cases x with
  | error reason =>
    cases y with
    | error reason' => exact congrArg Reason.consent h
    | ok acc' => exact h.elim
  | ok acc =>
    cases y with
    | error reason' => exact h.elim
    | ok acc' => exact h

theorem evaluate_accepts_iff :
    (∃ out, p.evaluate d declared = .ok out) ↔
      ∃ acc, evaluateEvent p.schema d declared.tier p.tenant.config.tierCeiling
        p.tenant.config.tierEnforcementMode declared.merged = .ok acc := by
  unfold Pipeline.evaluate
  cases evaluateEvent p.schema d declared.tier p.tenant.config.tierCeiling
      p.tenant.config.tierEnforcementMode declared.merged with
  | error reason => simp
  | ok acc => simp

/-- Through the whole per-record pipeline, records that differ in withheld values
only are rejected for the same reason or keep the same attributes. -/
theorem resolveAndEvaluate_agree (p : Pipeline) (d : EventDef) {resource m m' : AttrList}
    (hagree : AgreeOutside hidden m m') (hhidden : ∀ k, hidden k → p.Withheld d resource m k) :
    Except.Agree (fun out out' => out.1.effectiveTier = out'.1.effectiveTier ∧
      GoMap.Same out.1.keptAttributes out'.1.keptAttributes ∧
      ∃ r, p.effectiveRank resource m = some r ∧ out.1.effectiveTier = tierNameForRank p.schema r)
      (p.resolveAndEvaluate resource m d) (p.resolveAndEvaluate resource m' d) := by
  have htierKey : ¬ hidden tierAttrKey := fun h => (hhidden _ h).ne_tierAttrKey rfl
  refine (resolve_agree p hagree htierKey).bind ?_
  rintro declared declared' hdeclared _ ⟨htier, hmerged⟩
  obtain ⟨_, _, _, _, _, _, hresolve, _⟩ := resolve_eq_ok hdeclared
  obtain ⟨_, declaredRank, hrank⟩ := resolveTier_eq_ok_iff.mp hresolve
  have heffective : ∀ ceilingRank, p.schema.tierRank p.tenant.config.tierCeiling = some ceilingRank →
      p.effectiveRank resource m = some (min declaredRank ceilingRank) := by
    intro ceilingRank hceiling
    simp only [Pipeline.effectiveRank, hdeclared, hrank, hceiling]
  have hkept : ∀ ceilingRank, p.schema.tierRank p.tenant.config.tierCeiling = some ceilingRank →
      ∀ k, (filterAttributes p.schema (allowedSet d.allowedAttributes) (min declaredRank ceilingRank)
          declared.merged).1.lookup k =
        (filterAttributes p.schema (allowedSet d.allowedAttributes) (min declaredRank ceilingRank)
          declared'.merged).1.lookup k := by
    intro ceilingRank hceiling k
    rw [lookup_filterAttributes, lookup_filterAttributes]
    by_cases hk : hidden k
    · have hdrop := (hhidden k hk).keepAttribute_eq_false (heffective ceilingRank hceiling)
      simp [hdrop]
    · rw [hmerged k hk]
  have hevaluate := evaluateEvent_agree p.tenant.config.tierEnforcementMode hrank hkept
  nth_rewrite 2 [htier] at hevaluate
  refine (evaluate_agree hevaluate).mono ?_
  rintro out out' ⟨heq, hsame, ceilingRank, hceiling, hname⟩
  exact ⟨heq, hsame, _, heffective ceilingRank hceiling, hname⟩

end argvio.otlp
