import Argvio.Consent.Filter

open argvio.allowlist

namespace argvio.consent

/-- Two outcomes of one event under different iteration orders: the same reject
reason, or the same tier, kept map and set of dropped keys. -/
def Decision.Same (x y : Decision) : Prop :=
  Except.Agree (fun acc acc' => acc.effectiveTier = acc'.effectiveTier ∧
    GoMap.Same acc.keptAttributes acc'.keptAttributes ∧ acc.droppedKeys.Perm acc'.droppedKeys) x y

/-- An accepted event keeps what the rule keeps, and every input key is either
kept, dropped or the tier key. -/
structure Acceptance.Exact (s : Schema) (allowedAttributes : List String) (effectiveRank : Int)
    (attrs : AttrMap) (acc : Acceptance) : Prop where
  kept_iff : ∀ k v, k ≠ tierAttrKey →
    (acc.keptAttributes.lookup k = some v ↔
      attrs.lookup k = some v ∧ Keeps s allowedAttributes effectiveRank k v)
  covers : ∀ k, k ∈ attrs ↔
    k ∈ acc.keptAttributes ∨ k ∈ acc.droppedKeys ∨ (k = tierAttrKey ∧ tierAttrKey ∈ attrs)
  disjoint : ∀ k ∈ acc.keptAttributes, k ∉ acc.droppedKeys
  tier_not_kept : tierAttrKey ∉ acc.keptAttributes
  tier_not_dropped : tierAttrKey ∉ acc.droppedKeys
  dropped_nodup : acc.droppedKeys.Nodup

variable {s : Schema} {d : EventDef} {declared ceiling : String} {mode : EnforcementMode} {attrs : AttrMap}

/-- Past the checks on the name and the ceiling, only the filter decides. -/
theorem evaluateEvent_of_within_ceiling {declaredRank ceilingRank : Int} (attrs : AttrMap) (hfound : d.found = true)
    (hdeclared : s.tierRank declared = some declaredRank) (hceiling : s.tierRank ceiling = some ceilingRank)
    (hmode : ¬ (mode = .reject ∧ declaredRank > ceilingRank)) :
    evaluateEvent s d declared ceiling mode attrs =
      requireAttributes d.requiredAttributes (tierNameForRank s (min declaredRank ceilingRank))
        (filterAttributes s (allowedSet d.allowedAttributes) (min declaredRank ceilingRank) attrs) := by
  have hmin : (if ceilingRank < declaredRank then ceilingRank else declaredRank) =
      min declaredRank ceilingRank := by omega
  have hpass : ¬ (declaredRank > ceilingRank ∧ mode = .reject) := fun h => hmode ⟨h.2, h.1⟩
  simp only [evaluateEvent, hfound, hdeclared, hceiling, Option.getD_some, hpass, hmin, if_false,
    Bool.true_eq_false]

/-- The required check sees the kept map only. -/
theorem requireAttributes_agree (required : List String) (tier : String)
    {filtered filtered' : AttrMap × List String} (hkept : GoMap.Same filtered.1 filtered'.1) :
    Except.Agree (fun acc acc' => acc = ⟨tier, filtered.1, filtered.2⟩ ∧ acc' = ⟨tier, filtered'.1, filtered'.2⟩)
      (requireAttributes required tier filtered) (requireAttributes required tier filtered') := by
  unfold requireAttributes
  simp only [hkept.lookup_eq]
  split
  · rfl
  · exact ⟨rfl, rfl⟩

variable {required : List String} {tier : String} {filtered : AttrMap × List String}

theorem requireAttributes_rejects_iff :
    (∃ reason, requireAttributes required tier filtered = .error reason) ↔
      ∃ k ∈ required, (filtered.1.lookup k).isNone = true := by
  unfold requireAttributes
  split
  · rename_i k hk
    have hmissing := List.find?_some hk
    exact ⟨fun _ => ⟨k, List.mem_of_find?_eq_some hk, hmissing⟩, fun _ => ⟨_, rfl⟩⟩
  rename_i hnone
  constructor
  · rintro ⟨reason, hreason⟩
    cases hreason
  · rintro ⟨k, hk, hmissing⟩
    exact absurd hmissing (List.find?_eq_none.mp hnone k hk)

theorem requireAttributes_eq_ok {acc : Acceptance} (h : requireAttributes required tier filtered = .ok acc) :
    acc = { effectiveTier := tier, keptAttributes := filtered.1, droppedKeys := filtered.2 } := by
  unfold requireAttributes at h
  split at h
  · cases h
  · cases h
    rfl

/-- The order in which `range` visits the attributes does not matter. -/
theorem evaluateEvent_same {attrs attrs' : AttrMap} (hsame : GoMap.Same attrs attrs') :
    Decision.Same (evaluateEvent s d declared ceiling mode attrs)
      (evaluateEvent s d declared ceiling mode attrs') := by
  unfold evaluateEvent
  split
  · rfl
  cases s.tierRank ceiling with
  | none => rfl
  | some c =>
    dsimp only
    split
    · rfl
    obtain ⟨hkept, hdropped⟩ := filterAttributes_same hsame
    refine (requireAttributes_agree _ _ hkept).mono ?_
    rintro acc acc' ⟨rfl, rfl⟩
    exact ⟨rfl, hkept, hdropped⟩

/-- An event without required attributes passes once its name is known and the
ceiling admits its tier. -/
theorem evaluateEvent_accepts_iff {declaredRank : Int} (hrequired : d.requiredAttributes = [])
    (hdeclared : s.tierRank declared = some declaredRank) :
    (∃ acc, evaluateEvent s d declared ceiling mode attrs = .ok acc) ↔
      d.found = true ∧ ∃ ceilingRank, s.tierRank ceiling = some ceilingRank ∧
        ¬ (mode = .reject ∧ declaredRank > ceilingRank) := by
  cases hfound : d.found with
  | false => simp [evaluateEvent, hfound]
  | true =>
    cases hceiling : s.tierRank ceiling with
    | none => simp [evaluateEvent, hfound, hceiling]
    | some c =>
      by_cases hmode : mode = .reject ∧ declaredRank > c
      · simp [evaluateEvent, hfound, hceiling, hdeclared, hmode.1, hmode.2]
      rw [evaluateEvent_of_within_ceiling attrs hfound hdeclared hceiling hmode]
      constructor
      · intro _
        exact ⟨rfl, c, rfl, hmode⟩
      · intro _
        simp only [requireAttributes, hrequired, List.find?_nil]
        exact ⟨_, rfl⟩

private theorem exact_filterAttributes (hvalid : s.Valid) {keys : List String} (hkeys : s.Defines keys) (r : Int)
    (attrs : AttrMap) (tier : String) :
    Acceptance.Exact s keys r attrs
      { effectiveTier := tier
        keptAttributes := (filterAttributes s (allowedSet keys) r attrs).1
        droppedKeys := (filterAttributes s (allowedSet keys) r attrs).2 } := by
  refine ⟨?_, ?_, ?_, ?_, ?_, filterAttributes_dropped_nodup s _ r attrs⟩
  · intro k v htier
    rw [filterAttributes_kept_iff, keepAttribute_iff hvalid hkeys]
    simp [htier]
  · intro k
    rw [← AList.lookup_isSome, ← AList.lookup_isSome, Option.isSome_iff_exists, Option.isSome_iff_exists,
      filterAttributes_dropped_iff]
    simp only [filterAttributes_kept_iff]
    constructor
    · rintro ⟨v, hv⟩
      by_cases htier : k = tierAttrKey
      · subst htier
        exact .inr (.inr ⟨rfl, AList.lookup_isSome.mp (by simp [hv])⟩)
      · cases hkeep : keepAttribute s (allowedSet keys) r k v with
        | true => exact .inl ⟨v, htier, hv, hkeep⟩
        | false => exact .inr (.inl ⟨htier, v, hv, hkeep⟩)
    · rintro (⟨v, _, hv, _⟩ | ⟨_, v, hv, _⟩ | ⟨rfl, hmem⟩)
      · exact ⟨v, hv⟩
      · exact ⟨v, hv⟩
      · exact Option.isSome_iff_exists.mp (AList.lookup_isSome.mpr hmem)
  · intro k hkept hdropped
    obtain ⟨v, hv⟩ := Option.isSome_iff_exists.mp (AList.lookup_isSome.mpr hkept)
    obtain ⟨_, hlookup, hkeep⟩ := filterAttributes_kept_iff.mp hv
    obtain ⟨_, v', hlookup', hdrop⟩ := filterAttributes_dropped_iff.mp hdropped
    rw [hlookup] at hlookup'
    cases hlookup'
    rw [hkeep] at hdrop
    cases hdrop
  · intro hkept
    obtain ⟨v, hv⟩ := Option.isSome_iff_exists.mp (AList.lookup_isSome.mpr hkept)
    exact (filterAttributes_kept_iff.mp hv).1 rfl
  · intro hdropped
    exact (filterAttributes_dropped_iff.mp hdropped).1 rfl

/-- What an accepted event carries on; an unknown declared tier has rank 0. -/
theorem exact_of_evaluateEvent (hvalid : s.Valid) (hkeys : s.Defines d.allowedAttributes) {acc : Acceptance}
    (hacc : evaluateEvent s d declared ceiling mode attrs = .ok acc) :
    ∃ ceilingRank, s.tierRank ceiling = some ceilingRank ∧
      acc.Exact s d.allowedAttributes (min ((s.tierRank declared).getD 0) ceilingRank) attrs := by
  unfold evaluateEvent at hacc
  split at hacc
  · cases hacc
  cases hceiling : s.tierRank ceiling with
  | none =>
    rw [hceiling] at hacc
    cases hacc
  | some c =>
    rw [hceiling] at hacc
    dsimp only at hacc
    split at hacc
    · cases hacc
    have hmin : (if c < (s.tierRank declared).getD 0 then c else (s.tierRank declared).getD 0) =
        min ((s.tierRank declared).getD 0) c := by omega
    rw [hmin] at hacc
    refine ⟨c, rfl, ?_⟩
    rw [requireAttributes_eq_ok hacc]
    exact exact_filterAttributes hvalid hkeys _ attrs _

private theorem not_kept_iff (hvalid : s.Valid) {keys : List String} (hkeys : s.Defines keys) {r : Int} {k : String} :
    ((filterAttributes s (allowedSet keys) r attrs).1.lookup k).isNone = true ↔
      ¬ (k ≠ tierAttrKey ∧ ∃ v, attrs.lookup k = some v ∧ Keeps s keys r k v) := by
  rw [Option.isNone_iff_eq_none, Option.eq_none_iff_forall_ne_some]
  constructor
  · rintro hnone ⟨htier, v, hlookup, hkeeps⟩
    exact hnone v (filterAttributes_kept_iff.mpr ⟨htier, hlookup, (keepAttribute_iff hvalid hkeys).mpr hkeeps⟩)
  · intro hnot v hv
    obtain ⟨htier, hlookup, hkeep⟩ := filterAttributes_kept_iff.mp hv
    exact hnot ⟨htier, v, hlookup, (keepAttribute_iff hvalid hkeys).mp hkeep⟩

/-- Consent filtering is exact: when an event is rejected, what an accepted one
keeps, and that the iteration order has no part in either. -/
theorem evaluateEvent_exact {compile : RegexpCompiler} {file : SchemaFile} {s : Schema}
    (hschema : finalize compile file = .ok s) {d : EventDef} (owner : AttrOwner)
    (hrefs : checkAttrRefs s.attributes owner d.allowedAttributes = .ok ()) (declared ceiling : String)
    (mode : EnforcementMode) (attrs : AttrMap) {declaredRank : Int}
    (hdeclared : s.tierRank declared = some declaredRank) :
    ((∃ reason, evaluateEvent s d declared ceiling mode attrs = .error reason) ↔
      d.found = false ∨ s.tierRank ceiling = none ∨
        ∃ ceilingRank, s.tierRank ceiling = some ceilingRank ∧
          ((mode = .reject ∧ declaredRank > ceilingRank) ∨
            ∃ k ∈ d.requiredAttributes, ¬ (k ≠ tierAttrKey ∧ ∃ v, attrs.lookup k = some v ∧
              Keeps s d.allowedAttributes (min declaredRank ceilingRank) k v))) ∧
    (∀ acc, evaluateEvent s d declared ceiling mode attrs = .ok acc →
      ∃ ceilingRank, s.tierRank ceiling = some ceilingRank ∧
        acc.Exact s d.allowedAttributes (min declaredRank ceilingRank) attrs) ∧
    ∀ attrs', GoMap.Same attrs attrs' →
      Decision.Same (evaluateEvent s d declared ceiling mode attrs)
        (evaluateEvent s d declared ceiling mode attrs') := by
  have hvalid := finalize_valid hschema
  have hkeys : s.Defines d.allowedAttributes := checkAttrRefs_eq_ok_iff.mp hrefs
  refine ⟨?_, ?_, fun attrs' hsame => evaluateEvent_same hsame⟩
  · cases hfound : d.found with
    | false => simp [evaluateEvent, hfound]
    | true =>
      cases hceiling : s.tierRank ceiling with
      | none => simp [evaluateEvent, hfound, hceiling]
      | some c =>
        by_cases hmode : mode = .reject ∧ declaredRank > c
        · simp [evaluateEvent, hfound, hceiling, hdeclared, hmode.1, hmode.2]
        rw [evaluateEvent_of_within_ceiling attrs hfound hdeclared hceiling hmode,
          requireAttributes_rejects_iff]
        simp only [not_kept_iff hvalid hkeys]
        simp [hmode]
  · intro acc hacc
    obtain ⟨c, hceiling, hexact⟩ := exact_of_evaluateEvent hvalid hkeys hacc
    rw [hdeclared] at hexact
    exact ⟨c, hceiling, hexact⟩

/-- A small schema with three tiers, a family and one event of each kind. -/
def sampleFile : SchemaFile where
  supportedSignalTypes := ["metrics", "traces", "logs"]
  standardResourceAttributes := ["service.name"]
  consentTiers := [⟨"anonymous", 0⟩, ⟨"basic", 1⟩, ⟨"full", 2⟩]
  attributes := GoMap.putAll ∅ [
    ("cli.command.name", { type := .string, maxLength := 64, minTier := "anonymous" }),
    ("cli.error.message", { type := .string, minTier := "full" }),
    ("cli.dim.*", { type := .string, keyPattern := "^[a-z]+$", minTier := "basic" })]
  metrics := [{ name := "cli.counter", type := .sum, allowedAttributes := ["cli.command.name", "cli.dim.*"] }]
  spans := [{ namePattern := "cli.*", allowedAttributes := ["cli.command.name", "cli.error.message"] }]
  logs := [{ eventName := "cli.error", allowedAttributes := ["cli.command.name", "cli.error.message"] }]

/-- A stand-in for the expression `^[a-z]+$` of the sample schema. -/
def sampleCompile : RegexpCompiler := fun _ => .ok ⟨fun name => name ≠ "" && name.toList.all Char.isLower⟩

def sampleSchema : Schema := (finalize sampleCompile sampleFile).toOption.get rfl

theorem finalize_sampleFile : finalize sampleCompile sampleFile = .ok sampleSchema := rfl

theorem evaluateEvent_exact_above_ceiling :
    finalize sampleCompile sampleFile = .ok sampleSchema ∧ sampleSchema.tierRank "full" = some 2 ∧
      ∃ reason, evaluateEvent sampleSchema
        { found := true, allowedAttributes := ["cli.command.name", "cli.dim.*"] } "full" "basic" .reject
        (GoMap.putAll ∅ [("cli.dim.color", .str "red")]) = .error reason :=
  ⟨finalize_sampleFile, rfl, (evaluateEvent_exact finalize_sampleFile (.log "cli.error") rfl "full" "basic"
    .reject _ rfl).1.mpr (.inr (.inr ⟨1, rfl, .inl ⟨rfl, by decide⟩⟩))⟩

end argvio.consent
