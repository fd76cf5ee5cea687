import Argvio.Allowlist.Validate

open gostrings
open argvio.allowlist

namespace argvio.consent

/-- The attribute with which a record or its resource declares the consent tier. -/
def tierAttrKey : String := "cli.analytics.tier"

inductive EnforcementMode where
  | strip
  | reject
  deriving DecidableEq

/-- Why `resolveTier` finds no usable tier. -/
inductive TierError where
  | missing
  | notString (goType : String)
  | unrecognized (value : String)
  deriving DecidableEq

def TierError.text (isPrint : Char → Bool) : TierError → String
  | .missing =>
    "required attribute " ++ quote isPrint tierAttrKey ++ " missing from both resource and record scope"
  | .notString goType => "attribute " ++ quote isPrint tierAttrKey ++ " must be a string, got " ++ goType
  | .unrecognized value =>
    "attribute " ++ quote isPrint tierAttrKey ++ " has unrecognized value " ++ quote isPrint value

/-- The declared tier, taken from the record scope when that carries the key. -/
def resolveTier (schema : Schema) (resourceAttrs recordAttrs : AttrMap) : Except TierError String :=
  match (recordAttrs.lookup tierAttrKey).or (resourceAttrs.lookup tierAttrKey) with
  | none => .error .missing
  | some (.str tier) =>
    match schema.tierRank tier with
    | none => .error (.unrecognized tier)
    | some _ => .ok tier
  | some v => .error (.notString v.goType)

theorem resolveTier_eq_ok_iff {s : Schema} {resourceAttrs recordAttrs : AttrMap} {tier : String} :
    resolveTier s resourceAttrs recordAttrs = .ok tier ↔
      (recordAttrs.lookup tierAttrKey).or (resourceAttrs.lookup tierAttrKey) = some (.str tier) ∧
        ∃ r, s.tierRank tier = some r := by
  unfold resolveTier
  generalize (recordAttrs.lookup tierAttrKey).or (resourceAttrs.lookup tierAttrKey) = raw
  cases raw with
  | none => simp
  | some v =>
    cases v with
    | str t =>
      cases hrank : s.tierRank t with
      | none =>
        simp only [hrank, Option.some.injEq, AttrValue.str.injEq, reduceCtorEq, false_iff, not_and]
        rintro rfl
        simp [hrank]
      | some r =>
        simp only [hrank, Except.ok.injEq, Option.some.injEq, AttrValue.str.injEq, iff_self_and]
        rintro rfl
        exact ⟨r, hrank⟩
    | int n | bool b | double x | strs items => simp

/-- The allowlist definition of one event, reduced to what the filter needs. -/
structure EventDef where
  found : Bool
  allowedAttributes : List String := []
  requiredAttributes : List String := []
  deriving DecidableEq

inductive RejectReason where
  | notOnAllowlist
  | ceilingUnknown (ceiling : String)
  | aboveCeiling (declared ceiling : String)
  | requiredMissing (key : String)
  deriving DecidableEq

def RejectReason.text (isPrint : Char → Bool) : RejectReason → String
  | .notOnAllowlist => "event name not on allowlist"
  | .ceilingUnknown c => "tenant ceiling " ++ quote isPrint c ++ " is not a recognized tier"
  | .aboveCeiling d c =>
    "declared tier " ++ quote isPrint d ++ " exceeds tenant ceiling " ++ quote isPrint c
  | .requiredMissing k => "required attribute " ++ quote isPrint k ++ " missing or invalid"

/-- What an accepted event carries on. -/
structure Acceptance where
  effectiveTier : String
  keptAttributes : AttrMap
  droppedKeys : List String

/-- A rejected event has a reason and nothing else. -/
abbrev Decision := Except RejectReason Acceptance

def tierNameForRank (schema : Schema) (rank : Int) : String :=
  match schema.consentTiers.find? (fun t => t.rank = rank) with
  | some t => t.name
  | none => ""

/-- Whether the loop of `evaluateEvent` keeps attribute `k` with value `v`. An
unknown `min_tier` reads as rank 0. -/
def keepAttribute (schema : Schema) (allowed : Finset String) (effectiveRank : Int) (k : String)
    (v : AttrValue) : Bool :=
  if schema.isAllowed allowed k then
    match schema.attrDefFor k with
    | none => false
    | some attrDef =>
      match checkAttribute attrDef v with
      | .error _ => false
      | .ok () => decide ((schema.tierRank attrDef.minTier).getD 0 ≤ effectiveRank)
  else schema.isStandardResourceAttribute k

/-- One turn of the loop over the attributes. -/
def filterStep (schema : Schema) (allowed : Finset String) (effectiveRank : Int)
    (acc : AttrMap × List String) (e : Σ _ : String, AttrValue) : AttrMap × List String :=
  if e.1 = tierAttrKey then acc
  else if keepAttribute schema allowed effectiveRank e.1 e.2 then (acc.1.insert e.1 e.2, acc.2)
  else (acc.1, acc.2 ++ [e.1])

/-- The kept attributes and the dropped keys, in the order `range` visits them. -/
def filterAttributes (schema : Schema) (allowed : Finset String) (effectiveRank : Int) (attrs : AttrMap) :
    AttrMap × List String :=
  attrs.entries.foldl (filterStep schema allowed effectiveRank) (∅, [])

/-- What remains once the loop is done: every required attribute must be kept. -/
def requireAttributes (requiredAttributes : List String) (effectiveTier : String)
    (filtered : AttrMap × List String) : Decision :=
  match requiredAttributes.find? (fun k => (filtered.1.lookup k).isNone) with
  | some k => .error (.requiredMissing k)
  | none =>
    .ok { effectiveTier := effectiveTier, keptAttributes := filtered.1, droppedKeys := filtered.2 }

/-- The allowlist and tier rules applied to one event. -/
def evaluateEvent (schema : Schema) (d : EventDef) (declaredTier tenantCeiling : String)
    (mode : EnforcementMode) (attrs : AttrMap) : Decision :=
  if d.found = false then .error .notOnAllowlist
  else
    let declaredRank := (schema.tierRank declaredTier).getD 0
    match schema.tierRank tenantCeiling with
    | none => .error (.ceilingUnknown tenantCeiling)
    | some ceilingRank =>
      if declaredRank > ceilingRank ∧ mode = .reject then .error (.aboveCeiling declaredTier tenantCeiling)
      else
        let effectiveRank := if ceilingRank < declaredRank then ceilingRank else declaredRank
        requireAttributes d.requiredAttributes (tierNameForRank schema effectiveRank)
          (filterAttributes schema (allowedSet d.allowedAttributes) effectiveRank attrs)

end argvio.consent
