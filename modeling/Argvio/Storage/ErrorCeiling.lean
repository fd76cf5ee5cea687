import Argvio.Storage.ErrorFingerprints
import Argvio.Storage.ValueWindow

open argvio.allowlist argvio.errfp List

namespace argvio.storage

section Join

variable {ev : Multiset ErrorEvent} {env : ErrorsEnv} {bucketExpr : Int → Int} {fp : String} {limit offset : Nat}

theorem mem_fingerprints : fp ∈ fingerprints ev ↔ ∃ e ∈ ev, e.fp = fp := by
  simp [fingerprints]

theorem trendTable_filter (bucketExpr : Int → Int) (hfp : fp ∈ fingerprints ev) :
    (trendTable ev bucketExpr).filter (fun t => t.fp = fp) = [trendRow ev bucketExpr fp] := by
  unfold trendTable
  rw [← filterMap_eq_map]
  refine groupby.filter_filterMap_of_nodup ?_ (Finset.sort_nodup _ _) (Finset.mem_sort _ |>.mpr hfp) rfl
  rintro k r heq
  cases heq
  rfl

theorem latestDetails_ne_zero {group : Multiset ErrorEvent} (h : group ≠ 0) : latestDetails group ≠ 0 := by
  have hnonempty : group.toFinset.Nonempty := Multiset.toFinset_nonempty.mpr h
  obtain ⟨e, he, hlast⟩ := Finset.exists_max_image group.toFinset ErrorEvent.time hnonempty
  simp only [Multiset.mem_toFinset] at he hlast
  intro hzero
  have hmem : (e.message, e.stack) ∈ latestDetails group :=
    Multiset.mem_map_of_mem _ (Multiset.mem_filter.mpr ⟨he, hlast⟩)
  rw [hzero] at hmem
  exact Multiset.notMem_zero _ hmem

theorem sampleTable_filter (env : ErrorsEnv) (hfp : fp ∈ fingerprints ev) :
    ∃ s, (sampleTable ev env).filter (fun s => s.fp = fp) = [s] := by
  obtain ⟨e, he, heq⟩ := mem_fingerprints.mp hfp
  have hgroup : eventsWith ev fp ≠ 0 := by
    intro hzero
    have hmem : e ∈ eventsWith ev fp := Multiset.mem_filter.mpr ⟨he, heq⟩
    rw [hzero] at hmem
    exact Multiset.notMem_zero _ hmem
  obtain ⟨d, hd⟩ := Option.isSome_iff_exists.mp (env.pick_isSome _ (latestDetails_ne_zero hgroup))
  have hrow : sampleRow ev env fp = some ⟨fp, d⟩ := by
    unfold sampleRow
    rw [hd]
    rfl
  refine ⟨_, groupby.filter_filterMap_of_nodup ?_ (Finset.sort_nodup _ _) (Finset.mem_sort _ |>.mpr hfp) hrow⟩
  intro k s hs
  obtain ⟨_, _, rfl⟩ := Option.map_eq_some_iff.mp hs
  rfl

variable {page : List PageRow} {p : PageRow}

/-- The joins with the trend and the sample keep the page as it is. -/
theorem fingerprint_joinFingerprints (bucketExpr : Int → Int) (env : ErrorsEnv)
    (hpage : ∀ p ∈ page, p.fp ∈ fingerprints ev) :
    (joinFingerprints page (trendTable ev bucketExpr) (sampleTable ev env)).map ErrorFingerprint.fingerprint =
      page.map PageRow.fp := by
  induction page with
  | nil => rfl
  | cons p page ih =>
    obtain ⟨hp, hpage⟩ := forall_mem_cons.mp hpage
    obtain ⟨s, hs⟩ := sampleTable_filter env hp
    have hone : joinFingerprints (p :: page) (trendTable ev bucketExpr) (sampleTable ev env) =
        scanFingerprint p (trendRow ev bucketExpr p.fp) s ::
          joinFingerprints page (trendTable ev bucketExpr) (sampleTable ev env) := by
      unfold joinFingerprints
      rw [flatMap_cons, trendTable_filter bucketExpr hp, hs]
      rfl
    rw [hone, map_cons, map_cons, ih hpage]
    rfl

theorem fp_mem_of_mem_pageTable (hp : p ∈ pageTable ev limit offset) : p.fp ∈ fingerprints ev := by
  obtain ⟨key, hkey, rfl⟩ := mem_map.mp hp
  have hsorted := mem_of_mem_drop (mem_of_mem_take hkey)
  obtain ⟨fp, hfp, rfl⟩ := Finset.mem_image.mp ((Finset.mem_sort _).mp hsorted)
  exact hfp

theorem pageTable_eq_nil_iff (hlimit : 0 < limit) : pageTable ev limit 0 = [] ↔ ev = 0 := by
  unfold pageTable groupby.page
  rw [map_eq_nil_iff, drop_zero, take_eq_nil_iff, or_iff_right hlimit.ne', ← length_eq_zero_iff,
    Finset.length_sort, Finset.card_eq_zero, Finset.image_eq_empty]
  unfold fingerprints
  rw [Multiset.toFinset_eq_empty, Multiset.map_eq_zero]

theorem pageTable_zero (limit offset : Nat) : pageTable 0 limit offset = [] := by
  simp [pageTable, groupby.page, fingerprints]

theorem fp_mem_onPage (hp : p ∈ page) (hfp : p.fp ∈ fingerprints ev) : p.fp ∈ fingerprints (onPage ev page) := by
  obtain ⟨e, he, heq⟩ := mem_fingerprints.mp hfp
  refine mem_fingerprints.mpr ⟨e, Multiset.mem_filter.mpr ⟨he, ?_⟩, heq⟩
  rw [heq]
  exact mem_map_of_mem hp

end Join

section Ceiling

variable {env : ErrorsEnv} {tiers : TierRanks} {ceilings : GoMap UUID String} {tenant : UUID} {f : Filters}
  {bucket : Bucket} {logs : Multiset LogRow}

/-- Whether an event has a fingerprint and a known tier at or below the tenant's ceiling. -/
def withinCeiling (tiers : TierRanks) (ceilings : GoMap UUID String) (tenant : UUID) (r : LogRow) : Bool :=
  match (ceilings.lookup tenant).bind (fun name => tiers.lookup name), tiers.lookup r.consentTier with
  | some ceiling, some rank => r.errorFingerprint.isSome && decide (rank ≤ ceiling)
  | _, _ => false

/-- The tenant has a config row, and its ceiling is a known tier of the given rank. -/
def CeilingRank (tiers : TierRanks) (ceilings : GoMap UUID String) (tenant : UUID) (ceiling : Int) : Prop :=
  (ceilings.lookup tenant).bind (fun name => tiers.lookup name) = some ceiling

theorem mem_tierRows {name : String} {n : Int} :
    (name, n) ∈ tierRows tiers ↔ ∃ rank, tiers.lookup name = some rank ∧ wrapInt32 rank = n := by
  unfold tierRows
  rw [mem_map]
  constructor
  · rintro ⟨⟨name', rank⟩, hentry, heq⟩
    cases heq
    exact ⟨rank, AList.mem_lookup_iff.mpr hentry, rfl⟩
  · rintro ⟨rank, hlookup, rfl⟩
    exact ⟨⟨name, rank⟩, AList.mem_lookup_iff.mp hlookup, rfl⟩

theorem mem_readable {tier : String} : tier ∈ readable tiers ceilings tenant ↔
    ∃ ceiling rank, CeilingRank tiers ceilings tenant ceiling ∧ tiers.lookup tier = some rank ∧
      wrapInt32 rank ≤ wrapInt32 ceiling := by
  unfold readable CeilingRank
  cases ceilings.lookup tenant with
  | none => simp
  | some name =>
    simp only [mem_flatMap, mem_map, mem_filter, decide_eq_true_eq, Option.bind_some]
    constructor
    · rintro ⟨⟨name', c⟩, ⟨hrow, rfl⟩, ⟨tier', n⟩, ⟨htier, hle⟩, rfl⟩
      obtain ⟨ceiling, hceiling, rfl⟩ := mem_tierRows.mp hrow
      obtain ⟨rank, hrank, rfl⟩ := mem_tierRows.mp htier
      exact ⟨ceiling, rank, hceiling, hrank, hle⟩
    · rintro ⟨ceiling, rank, hceiling, hrank, hle⟩
      exact ⟨(name, wrapInt32 ceiling), ⟨mem_tierRows.mpr ⟨ceiling, hceiling, rfl⟩, rfl⟩, (tier, wrapInt32 rank),
        ⟨mem_tierRows.mpr ⟨rank, hrank, rfl⟩, hle⟩, rfl⟩

/-- Every rank above the tenant's ceiling is still above it as an `int32`. -/
def CeilingFitsInt32 (tiers : TierRanks) (ceilings : GoMap UUID String) (tenant : UUID) : Prop :=
  ∀ ceiling tier rank, CeilingRank tiers ceilings tenant ceiling → tiers.lookup tier = some rank → ceiling < rank →
    wrapInt32 ceiling < wrapInt32 rank

theorem withinCeiling_iff {r : LogRow} : withinCeiling tiers ceilings tenant r = true ↔
    r.errorFingerprint.isSome = true ∧ ∃ ceiling rank, CeilingRank tiers ceilings tenant ceiling ∧
      tiers.lookup r.consentTier = some rank ∧ rank ≤ ceiling := by
  unfold withinCeiling CeilingRank
  split
  · rename_i ceiling rank hceiling hrank
    simp [hceiling, hrank]
  · rename_i hunknown
    refine iff_of_false Bool.false_ne_true ?_
    rintro ⟨_, ceiling, rank, hceiling, hrank, _⟩
    exact hunknown ceiling rank hceiling hrank

/-- The table `ev` reads only the events within the ceiling. -/
theorem errorEvents_eq_of_fits (hfits : CeilingFitsInt32 tiers ceilings tenant) :
    errorEvents env (readable tiers ceilings tenant) tenant f logs =
      errorEvents env (readable tiers ceilings tenant) tenant f
        (logs.filter (fun r => withinCeiling tiers ceilings tenant r = true)) := by
  unfold errorEvents
  rw [Multiset.filterMap_filter, Multiset.filterMap_filter, Multiset.filterMap_filter]
  refine congrArg (fun row => logs.filterMap row) (funext fun r => ?_)
  by_cases hwithin : withinCeiling tiers ceilings tenant r = true
  · rw [if_pos hwithin]
  rw [if_neg hwithin, ite_eq_right_iff]
  rintro ⟨_, htier⟩
  obtain ⟨ceiling, rank, hceiling, hrank, hle⟩ := mem_readable.mp htier
  -- What is readable is within the ceiling, so the event has no fingerprint.
  have hnone : r.errorFingerprint = none := by
    by_contra hsome
    refine hwithin (withinCeiling_iff.mpr ⟨Option.isSome_iff_ne_none.mpr hsome, ceiling, rank, hceiling, hrank, ?_⟩)
    by_contra habove
    exact absurd hle (not_le.mpr (hfits ceiling _ rank hceiling hrank (not_le.mp habove)))
  unfold errorEvent
  rw [hnone]
  rfl

/-- An answer has the fingerprints of its page. -/
theorem errorFingerprints_eq_ok (hbucket : bucket.Supported) (hoffset : 0 ≤ f.offset) (logs : Multiset LogRow) :
    ∃ out, errorFingerprints env tenant f bucket tiers ceilings logs = .ok out ∧
      out.map ErrorFingerprint.fingerprint =
        (pageTable (errorEvents env (readable tiers ceilings tenant) tenant f logs) (clampLimit f.limit).toNat
          f.offset.toNat).map PageRow.fp := by
  have hknown : bucketRank bucket ≠ none := Option.isSome_iff_ne_none.mp hbucket
  unfold errorFingerprints
  rw [if_neg hknown, if_neg (not_lt.mpr hoffset)]
  refine ⟨_, rfl, fingerprint_joinFingerprints _ _ fun p hp => ?_⟩
  exact fp_mem_onPage hp (fp_mem_of_mem_pageTable hp)

theorem errorFingerprints_of_no_events (hbucket : bucket.Supported) (hoffset : 0 ≤ f.offset)
    (hev : errorEvents env (readable tiers ceilings tenant) tenant f logs = 0) :
    errorFingerprints env tenant f bucket tiers ceilings logs = .ok [] := by
  obtain ⟨out, hout, hfps⟩ : ∃ out, errorFingerprints env tenant f bucket tiers ceilings logs = .ok out ∧ _ :=
    errorFingerprints_eq_ok hbucket hoffset logs
  rw [hev, pageTable_zero, map_nil, map_eq_nil_iff] at hfps
  rw [hout, hfps]

/-- Without a known ceiling nothing is readable. -/
theorem errorFingerprints_of_no_ceiling (hnone : ∀ ceiling, ¬ CeilingRank tiers ceilings tenant ceiling)
    (hbucket : bucket.Supported) (hoffset : 0 ≤ f.offset) (logs : Multiset LogRow) :
    errorFingerprints env tenant f bucket tiers ceilings logs = .ok [] := by
  have hev : errorEvents env (readable tiers ceilings tenant) tenant f logs = 0 := by
    unfold errorEvents
    rw [Multiset.filter_eq_nil.mpr]
    · rfl
    · rintro r _ ⟨_, htier⟩
      obtain ⟨ceiling, _, hceiling, _⟩ := mem_readable.mp htier
      exact hnone ceiling hceiling
  exact errorFingerprints_of_no_events hbucket hoffset hev

/-- What is stored above the ceiling, or without a fingerprint, has no part in any
answer. -/
def CeilingHides (env : ErrorsEnv) (tiers : TierRanks) (ceilings : GoMap UUID String) (tenant : UUID) : Prop :=
  ∀ f bucket logs logs', logs.filter (fun r => withinCeiling tiers ceilings tenant r = true) =
      logs'.filter (fun r => withinCeiling tiers ceilings tenant r = true) →
    errorFingerprints env tenant f bucket tiers ceilings logs = errorFingerprints env tenant f bucket tiers ceilings logs'

/-- An error event of some tier. -/
def errorAt (tenant : UUID) (tier : String) : LogRow :=
  { (default : LogRow) with
    time := 0
    tenantID := tenant
    eventName := eventName
    consentTier := tier
    errorFingerprint := some "f"
    logAttributes := Finmap.singleton attrMessage (.str "denied") }

def firstInstant : Filters where
  from_ := 0
  to_ := 1

/-- A tier above the ceiling whose rank is not above it as an `int32` is shown. -/
theorem errorFingerprints_above_ceiling (env : ErrorsEnv) {ceiling rank : Int} {tier : String}
    (hceiling : CeilingRank tiers ceilings tenant ceiling) (hrank : tiers.lookup tier = some rank)
    (habove : ceiling < rank) (hwrap : wrapInt32 rank ≤ wrapInt32 ceiling) :
    withinCeiling tiers ceilings tenant (errorAt tenant tier) = false ∧
      errorFingerprints env tenant firstInstant .hour tiers ceilings {errorAt tenant tier} ≠
        errorFingerprints env tenant firstInstant .hour tiers ceilings 0 := by
  constructor
  · rw [← Bool.not_eq_true, withinCeiling_iff]
    rintro ⟨_, ceiling', rank', hceiling', hrank', hle⟩
    cases hceiling.symm.trans hceiling'
    cases hrank.symm.trans hrank'
    exact absurd hle (not_le.mpr habove)
  have hreadable : tier ∈ readable tiers ceilings tenant := mem_readable.mpr ⟨ceiling, rank, hceiling, hrank, hwrap⟩
  have hpredicates : errorPredicates tenant firstInstant (errorAt tenant tier) = true := by
    simp [errorPredicates, firstInstant, errorAt, ifAnyStr]
  have hev : errorEvents env (readable tiers ceilings tenant) tenant firstInstant {errorAt tenant tier} ≠ 0 := by
    unfold errorEvents
    obtain ⟨e, he⟩ : ∃ e, errorEvent env (errorAt tenant tier) = some e := ⟨_, rfl⟩
    rw [Multiset.filter_singleton, if_pos ⟨hpredicates, hreadable⟩, ← Multiset.cons_zero,
      Multiset.filterMap_cons_some _ _ _ he]
    exact Multiset.cons_ne_zero
  have hhour : Bucket.hour.Supported := rfl
  obtain ⟨out, hout, hfps⟩ : ∃ out,
      errorFingerprints env tenant firstInstant .hour tiers ceilings {errorAt tenant tier} = .ok out ∧ _ :=
    errorFingerprints_eq_ok hhour (le_refl 0) _
  have hnone : errorFingerprints env tenant firstInstant .hour tiers ceilings 0 = .ok [] :=
    errorFingerprints_of_no_events hhour (le_refl 0) rfl
  rw [hout, hnone]
  intro heq
  cases heq
  exact hev ((pageTable_eq_nil_iff (by decide)).mp (map_eq_nil_iff.mp hfps.symm))

/-- Lowering the ceiling hides what is stored above it, from every answer, exactly when
no rank above the ceiling wraps to it or below. A tenant without a known ceiling sees
nothing either way. -/
theorem ceiling_hides_iff (env : ErrorsEnv) (tiers : TierRanks) (ceilings : GoMap UUID String) (tenant : UUID) :
    (CeilingHides env tiers ceilings tenant ∧
      ((∀ ceiling, ¬ CeilingRank tiers ceilings tenant ceiling) → ∀ f bucket logs, Bucket.Supported bucket →
        0 ≤ f.offset → errorFingerprints env tenant f bucket tiers ceilings logs = .ok [])) ↔
      CeilingFitsInt32 tiers ceilings tenant := by
  constructor
  · rintro ⟨hhides, _⟩ ceiling tier rank hceiling hrank habove
    by_contra hwrap
    obtain ⟨houtside, hshown⟩ := errorFingerprints_above_ceiling env hceiling hrank habove (not_lt.mp hwrap)
    refine hshown (hhides firstInstant .hour {errorAt tenant tier} 0 ?_)
    rw [Multiset.filter_singleton, houtside]
    rfl
  · intro hfits
    refine ⟨fun f bucket logs logs' hsame => ?_, fun hnone f bucket logs hbucket hoffset => ?_⟩
    · unfold errorFingerprints
      rw [errorEvents_eq_of_fits hfits, hsame, ← errorEvents_eq_of_fits hfits]
    · exact errorFingerprints_of_no_ceiling hnone hbucket hoffset logs

end Ceiling

/-- A detail as it is ordered, a missing text first. -/
def detailKey (d : RawDetail) : WithBot String ×ₗ WithBot String := toLex (d.1, d.2)

/-- Times are left whole, no text is changed, and of tied events the one whose details
come first is kept. -/
def plainEnv : ErrorsEnv where
  dateTrunc := fun _ t => t
  render := AttrValue.goType
  pick := fun s => (s.map detailKey).sort.head?.map (fun key => ((ofLex key).1, (ofLex key).2))
  pick_isSome := by
    intro s hs
    obtain ⟨d, hd⟩ := Multiset.exists_mem_of_ne_zero hs
    have hmem : detailKey d ∈ (s.map detailKey).sort := (Multiset.mem_sort _).mpr (Multiset.mem_map_of_mem _ hd)
    rw [Option.isSome_map, isSome_head?]
    exact ne_nil_of_mem hmem
  pick_mem := by
    intro s d hd
    obtain ⟨key, hkey, rfl⟩ := Option.map_eq_some_iff.mp hd
    have hmem := (Multiset.mem_sort _).mp (mem_of_head? hkey)
    obtain ⟨d', hd', rfl⟩ := Multiset.mem_map.mp hmem
    exact hd'

/-- Tiers of which the second ranks too high for an `int32`. -/
def wideTiers : TierRanks := GoMap.putAll ∅ [("basic", 1), ("full", 2 ^ 31)]

def basicCeiling : GoMap UUID String := GoMap.putAll ∅ [(1, "basic")]

/-- An event of the tier "full" is shown to a tenant whose ceiling is "basic". -/
theorem full_shown_under_basic : CeilingRank wideTiers basicCeiling 1 1 ∧ wideTiers.lookup "full" = some (2 ^ 31) ∧
    withinCeiling wideTiers basicCeiling 1 (errorAt 1 "full") = false ∧
      errorFingerprints plainEnv 1 firstInstant .hour wideTiers basicCeiling {errorAt 1 "full"} ≠
        errorFingerprints plainEnv 1 firstInstant .hour wideTiers basicCeiling 0 := by
  have hceiling : CeilingRank wideTiers basicCeiling 1 1 := rfl
  have hrank : wideTiers.lookup "full" = some (2 ^ 31) := rfl
  exact ⟨hceiling, hrank, errorFingerprints_above_ceiling plainEnv hceiling hrank (by decide) (by decide)⟩

end argvio.storage
