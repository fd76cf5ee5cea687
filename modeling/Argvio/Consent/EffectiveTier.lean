import Argvio.Consent.Exact
import Argvio.Consent.Ranks

open argvio.allowlist

namespace argvio.consent

section Lookup

variable {compile : RegexpCompiler} {file : SchemaFile} {s : Schema}

theorem lookup_map_tiers (tiers : List Tier) (name : String) :
    (tiers.map (fun t => (t.name, t.rank))).lookup name = (tiers.find? (fun t => t.name = name)).map Tier.rank := by
  induction tiers with
  | nil => rfl
  | cons t tiers ih =>
    by_cases hname : t.name = name
    · simp [hname]
    · have hne : (name == t.name) = false := by simpa using Ne.symm hname
      simp [List.lookup_cons, hne, hname, ih]

/-- A name has the rank of the last tier listed with it. -/
theorem tierRank_eq (h : finalize compile file = .ok s) (name : String) :
    s.tierRank name = (file.consentTiers.reverse.find? (fun t => t.name = name)).map Tier.rank := by
  unfold Schema.tierRank
  rw [(finalize_tierRanks h).2]
  unfold tierIndex
  rw [GoMap.lookup_putAll, AList.lookup_empty, Option.or_none, ← List.map_reverse, lookup_map_tiers]

/-- The first tier listed with a rank is, by the last tier listed under its name, of that rank. -/
def NamesRank (tiers : List Tier) (rank : Int) : Prop :=
  ∀ first ∈ tiers.find? (fun t => t.rank = rank), ∀ last ∈ tiers.reverse.find? (fun t => t.name = first.name),
    last.rank = rank

theorem tierRank_tierNameForRank_iff (h : finalize compile file = .ok s) {name : String} {rank : Int}
    (hname : s.tierRank name = some rank) :
    s.tierRank (tierNameForRank s rank) = some rank ↔ NamesRank file.consentTiers rank := by
  have hlisted := tierNameForRank_mem h hname
  obtain ⟨r, hr⟩ := exists_tierRank_of_mem h hlisted
  obtain ⟨first, hfirst⟩ : ∃ first, file.consentTiers.find? (fun t => t.rank = rank) = some first := by
    rw [← Option.isSome_iff_exists, List.find?_isSome]
    exact ⟨_, hlisted, by simp⟩
  have heq : tierNameForRank s rank = first.name := by
    unfold tierNameForRank
    rw [(finalize_tierRanks h).1, hfirst]
  dsimp only at hr
  rw [heq, tierRank_eq h] at hr ⊢
  obtain ⟨last, hlast, rfl⟩ := Option.map_eq_some_iff.mp hr
  unfold NamesRank
  rw [hfirst]
  simp only [Option.mem_some_iff, forall_eq', hlast, Option.map_some, Option.some.injEq]

end Lookup

/-- An accepted event carries the name found for the smaller of the two ranks. -/
theorem evaluateEvent_effectiveTier {s : Schema} {d : EventDef} {declared ceiling : String} {mode : EnforcementMode}
    {attrs : AttrMap} {declaredRank ceilingRank : Int} {decision : Acceptance}
    (hdeclared : s.tierRank declared = some declaredRank) (hceiling : s.tierRank ceiling = some ceilingRank)
    (haccepted : evaluateEvent s d declared ceiling mode attrs = .ok decision) :
    decision.effectiveTier = tierNameForRank s (min declaredRank ceilingRank) := by
  have hmin : (if ceilingRank < declaredRank then ceilingRank else declaredRank) = min declaredRank ceilingRank := by
    rw [min_comm, min_def_lt]
  unfold evaluateEvent at haccepted
  rw [hdeclared, hceiling] at haccepted
  dsimp only [Option.getD_some] at haccepted
  rw [hmin] at haccepted
  split at haccepted
  · cases haccepted
  split at haccepted
  · cases haccepted
  unfold requireAttributes at haccepted
  split at haccepted
  · cases haccepted
  · cases haccepted
    rfl

/-- The tier stored with an accepted event is a known one. Its rank is the smaller of the
two exactly when the list of tiers names that rank. -/
theorem effectiveTier_exact_iff {compile : RegexpCompiler} {file : SchemaFile} {s : Schema}
    (h : finalize compile file = .ok s) {d : EventDef} {declared ceiling : String} {mode : EnforcementMode}
    {attrs : AttrMap} {declaredRank ceilingRank : Int} {decision : Acceptance}
    (hdeclared : s.tierRank declared = some declaredRank) (hceiling : s.tierRank ceiling = some ceilingRank)
    (haccepted : evaluateEvent s d declared ceiling mode attrs = .ok decision) :
    (∃ r, s.tierRank decision.effectiveTier = some r) ∧
      (s.tierRank decision.effectiveTier = some (min declaredRank ceilingRank) ↔
        NamesRank file.consentTiers (min declaredRank ceilingRank)) := by
  have hmin : ∃ name, s.tierRank name = some (min declaredRank ceilingRank) := by
    rcases min_choice declaredRank ceilingRank with hmin | hmin
    · exact ⟨declared, by rw [hmin, hdeclared]⟩
    · exact ⟨ceiling, by rw [hmin, hceiling]⟩
  obtain ⟨name, hname⟩ := hmin
  rw [evaluateEvent_effectiveTier hdeclared hceiling haccepted]
  exact ⟨exists_tierRank_of_mem h (tierNameForRank_mem h hname), tierRank_tierNameForRank_iff h hname⟩

theorem effectiveTier_exact_sample : ∃ decision,
    evaluateEvent sampleSchema { found := true } "full" "basic" .strip ∅ = .ok decision ∧
      sampleSchema.tierRank decision.effectiveTier = some (min 2 1) := by
  have hfull : sampleSchema.tierRank "full" = some 2 := rfl
  have hbasic : sampleSchema.tierRank "basic" = some 1 := rfl
  have haccepted : evaluateEvent sampleSchema { found := true } "full" "basic" .strip ∅ = .ok ⟨"basic", ∅, []⟩ := rfl
  refine ⟨_, haccepted, (effectiveTier_exact_iff finalize_sampleFile hfull hbasic haccepted).2.mpr ?_⟩
  intro first hfirst last hlast
  cases hfirst
  cases hlast
  rfl

/-- Three tiers of two names. -/
def repeatedFile : SchemaFile where
  supportedSignalTypes := ["logs"]
  standardResourceAttributes := []
  consentTiers := [⟨"low", 0⟩, ⟨"low", 1⟩, ⟨"none", 0⟩]
  attributes := ∅
  metrics := []
  spans := []
  logs := [{ eventName := "cli.error", allowedAttributes := [] }]

/-- An event declared at rank 0 is stored with a tier of rank 1. -/
theorem effectiveTier_above_declared : ∃ s decision, finalize sampleCompile repeatedFile = .ok s ∧
    s.tierRank "none" = some 0 ∧ evaluateEvent s { found := true } "none" "none" .strip ∅ = .ok decision ∧
      decision.effectiveTier = "low" ∧ s.tierRank "low" = some 1 :=
  ⟨_, _, rfl, rfl, rfl, rfl, rfl⟩

end argvio.consent
