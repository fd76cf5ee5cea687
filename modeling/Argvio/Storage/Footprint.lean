import Argvio.GoTypes
import Argvio.Storage.Reach
import Argvio.Storage.VersionOrder

namespace argvio.storage

/-- What one started session reports. -/
structure FootprintSession where
  binarySize : Option Int
  startupMs : Option ℚ
  installID : Option String

/-- A row of `cagg_session_footprint_daily`: the sessions of a day that agree on every
dimension. -/
structure FootprintRow where
  tenantID : UUID
  cliVersion : Option String
  os : Option String
  arch : Option String
  isCI : Option Bool
  bucket : Int
  sessions : List FootprintSession
  sessions_ne_nil : sessions ≠ []

/-- The columns that the predicates read are those of the session rollup. -/
def FootprintRow.toSessionRow (row : FootprintRow) : SessionRow where
  tenantID := row.tenantID
  cliVersion := row.cliVersion
  os := row.os
  arch := row.arch
  isCI := row.isCI
  bucket := row.bucket
  sessions := row.sessions.map FootprintSession.installID
  sessions_ne_nil := by simpa using row.sessions_ne_nil

structure BinarySizeStats where
  reportedSessions : Int
  reportedInstalls : Int
  median : Option ℚ
  min : Option Int
  max : Option Int

structure StartupStats where
  reportedSessions : Int
  reportedInstalls : Int
  p50 : Option ℚ
  p95 : Option ℚ

structure VersionFootprintPoint where
  cliVersion : Option String
  sessionCount : Int
  binarySize : BinarySizeStats
  startup : StartupStats

section Query

variable (estimate : Finset String → Int) (approxPercentile : ℚ → List ℚ → ℚ) (tenant : UUID) (f : Filters)

/-- A percentile, which is NULL without values. -/
def guardedPercentile (q : ℚ) (values : List ℚ) : Option ℚ :=
  if values.length > 0 then some (approxPercentile q values) else none

/-- The installs of the sessions that report a value. -/
def reportedInstalls {α : Type} (value : FootprintSession → Option α) (sessions : List FootprintSession) : Int :=
  (distinctCount estimate ((sessions.filter (fun s => (value s).isSome)).map FootprintSession.installID)).getD 0

/-- What the query selects for a version. -/
def footprintPoint (rows : List FootprintRow) (version : Option String) : VersionFootprintPoint :=
  let sessions := (rows.filter (fun row => row.cliVersion = version)).flatMap FootprintRow.sessions
  let sizes := sessions.filterMap FootprintSession.binarySize
  let startups := sessions.filterMap FootprintSession.startupMs
  { cliVersion := version
    sessionCount := sessions.length
    binarySize :=
      { reportedSessions := sizes.length
        reportedInstalls := reportedInstalls estimate FootprintSession.binarySize sessions
        median := guardedPercentile approxPercentile (1 / 2) (sizes.map (fun n => (n : ℚ)))
        min := sizes.min?
        max := sizes.max? }
    startup :=
      { reportedSessions := startups.length
        reportedInstalls := reportedInstalls estimate FootprintSession.startupMs sessions
        p50 := guardedPercentile approxPercentile (1 / 2) startups
        p95 := guardedPercentile approxPercentile (95 / 100) startups } }

/-- The rows of the query, one for each version. -/
def footprintPoints (table : List FootprintRow) : List VersionFootprintPoint :=
  let rows := table.filter (fun row => sessionActivityPredicates tenant f row.toSessionRow)
  ((rows.map FootprintRow.cliVersion).dedup).map (footprintPoint estimate approxPercentile rows)

/-- `pageOf`, with the sum of an `int`. -/
def pageOf {α : Type} (s : List α) (offset limit : Int) : List α :=
  let offset := if offset < 0 then 0 else offset
  if offset ≥ s.length then []
  else
    let stop := wrapInt64 (offset + limit)
    let stop := if stop > s.length ∨ stop < offset then (s.length : Int) else stop
    (s.take stop.toNat).drop offset.toNat

/-- What the sort of the points goes by: their versions, as bytes. -/
def VersionFootprintPoint.Before (p q : VersionFootprintPoint) : Prop :=
  raw.Before (p.cliVersion.map gobytes.ofString) (q.cliVersion.map gobytes.ofString)

instance : DecidableRel VersionFootprintPoint.Before := fun _ _ => inferInstanceAs (Decidable (raw.Before _ _))

/-- `VersionFootprint`, from the rows in the order they arrive in. The sort is stable. -/
def versionFootprint (rows : List VersionFootprintPoint) : List VersionFootprintPoint :=
  pageOf (rows.insertionSort VersionFootprintPoint.Before) f.offset (clampLimit f.limit)

end Query

/-- Versions are told apart by the sort. -/
theorem eq_of_before {a b : Option String}
    (hab : raw.Before (a.map gobytes.ofString) (b.map gobytes.ofString))
    (hba : raw.Before (b.map gobytes.ofString) (a.map gobytes.ofString)) : a = b := by
  have hinj : Function.Injective gobytes.ofString := fun _ _ => gobytes.ofString_inj.mp
  exact Option.map_injective hinj (Std.Antisymm.antisymm _ _ hab hba)

theorem pairwise_sorted (rows : List VersionFootprintPoint) :
    (rows.insertionSort VersionFootprintPoint.Before).Pairwise VersionFootprintPoint.Before := by
  have htotal : Std.Total VersionFootprintPoint.Before := ⟨fun _ _ => @Std.Total.total _ raw.Before _ _ _⟩
  have htrans : IsTrans VersionFootprintPoint VersionFootprintPoint.Before :=
    ⟨fun _ _ _ hpq hqr => @IsTrans.trans _ raw.Before _ _ _ _ hpq hqr⟩
  exact List.pairwise_insertionSort _ rows

/-- With one row for each version, the order they arrive in does not show. -/
theorem versionFootprint_eq_of_perm {f : Filters} {rows rows' : List VersionFootprintPoint} (h : rows.Perm rows')
    (hversions : (rows.map VersionFootprintPoint.cliVersion).Nodup) : versionFootprint f rows = versionFootprint f rows' := by
  have hperm := (List.perm_insertionSort VersionFootprintPoint.Before rows)
  have hperm' := (List.perm_insertionSort VersionFootprintPoint.Before rows')
  have hsort : rows.insertionSort VersionFootprintPoint.Before = rows'.insertionSort VersionFootprintPoint.Before := by
    refine List.Perm.eq_of_pairwise (fun p q hp hq hpq hqp => ?_) (pairwise_sorted rows) (pairwise_sorted rows')
      (hperm.trans (h.trans hperm'.symm))
    refine List.inj_on_of_nodup_map hversions (hperm.mem_iff.mp hp) (h.mem_iff.mpr (hperm'.mem_iff.mp hq)) ?_
    exact eq_of_before hpq hqp
  unfold versionFootprint
  rw [hsort]

theorem nodup_footprintPoints {estimate : Finset String → Int} {approxPercentile : ℚ → List ℚ → ℚ} {tenant : UUID}
    {f : Filters} {table : List FootprintRow} :
    ((footprintPoints estimate approxPercentile tenant f table).map VersionFootprintPoint.cliVersion).Nodup := by
  unfold footprintPoints
  rw [List.map_map]
  have hid : VersionFootprintPoint.cliVersion ∘ footprintPoint estimate approxPercentile
      (table.filter (fun row => sessionActivityPredicates tenant f row.toSessionRow)) = id := rfl
  rw [hid, List.map_id]
  exact List.nodup_dedup _

/-- Versions are totally ordered, so sorting by them, and the pages of the version footprint, do
not depend on the order rows arrive in. -/
theorem versions_totally_ordered :
    (∀ a b, raw.compareVersionKeys a b = (raw.compareVersionKeys b a).swap) ∧
    (∀ a b c, (raw.compareVersionKeys a b).isLE → (raw.compareVersionKeys b c).isLE → (raw.compareVersionKeys a c).isLE) ∧
    (∀ a b, (raw.compareVersionKeys a b).isLE ∨ (raw.compareVersionKeys b a).isLE) ∧
    (∀ a b, raw.compareVersionKeys a b = .eq ↔ a = b) ∧
    (∀ s t, (raw.parseSemver s).isSome → raw.parseSemver t = none → raw.compareVersionKeys (some s) (some t) = .lt) ∧
    (∀ s, raw.compareVersionKeys (some s) none = .lt) ∧
    (∀ s t u, (raw.parseSemver s).isSome → (raw.parseSemver t).isSome → (raw.parseSemver u).isSome →
      raw.compareVersions s s = some .eq ∧
      ∃ st tu su, raw.compareVersions s t = some st ∧ raw.compareVersions t s = some st.swap ∧
        raw.compareVersions t u = some tu ∧ raw.compareVersions s u = some su ∧ (st.isLE → tu.isLE → su.isLE)) ∧
    (∀ l l' : List (Option gobytes.Text), l.Perm l' → l.insertionSort raw.Before = l'.insertionSort raw.Before) ∧
    (∀ (estimate : Finset String → Int) (approxPercentile : ℚ → List ℚ → ℚ) (tenant : UUID) (f : Filters)
      (table : List FootprintRow) (rows rows' : List VersionFootprintPoint),
      rows.Perm (footprintPoints estimate approxPercentile tenant f table) →
      rows'.Perm (footprintPoints estimate approxPercentile tenant f table) →
        versionFootprint f rows = versionFootprint f rows') := by
  refine ⟨fun a b => Std.OrientedCmp.eq_swap, fun a b c => Std.TransCmp.isLE_trans, fun a b => ?_, fun a b => ?_,
    fun s t hs ht => ?_, fun s => ?_, fun s t u hs ht hu => ?_, fun l l' h => insertionSort_eq_of_perm h, ?_⟩
  · exact Std.Total.total (r := raw.Before) a b
  · exact ⟨Std.LawfulEqCmp.eq_of_compare, fun h => h ▸ Std.ReflCmp.compare_self⟩
  · unfold raw.compareVersionKeys raw.parseSemver at *
    have hrank : raw.bytes.versionRank (some s) = 0 := if_pos hs
    have hrank' : raw.bytes.versionRank (some t) = 1 := by simp [Texts.versionRank, ht]
    rw [Texts.compareVersionKeys_eq, hrank, hrank']
    rfl
  · unfold raw.compareVersionKeys
    rw [Texts.compareVersionKeys_eq]
    cases hs : raw.bytes.parseSemver s <;> simp [Texts.versionRank, hs] <;> rfl
  · obtain ⟨vs, hvs⟩ := Option.isSome_iff_exists.mp hs
    obtain ⟨vt, hvt⟩ := Option.isSome_iff_exists.mp ht
    obtain ⟨vu, hvu⟩ := Option.isSome_iff_exists.mp hu
    unfold raw.parseSemver at hvs hvt hvu
    unfold raw.compareVersions Texts.compareVersions
    simp only [hvs, hvt, hvu]
    refine ⟨congrArg some Std.ReflCmp.compare_self, _, _, _, rfl, congrArg some Std.OrientedCmp.eq_swap, rfl, rfl, ?_⟩
    exact Std.TransCmp.isLE_trans
  · intro estimate approxPercentile tenant f table rows rows' h h'
    refine versionFootprint_eq_of_perm (h.trans h'.symm) ?_
    exact (h.map _).nodup_iff.mpr nodup_footprintPoints

/-- The footprint of two versions, with the rows in either order. -/
theorem versions_totally_ordered_footprint :
    let row (version : String) : FootprintRow :=
      { tenantID := 1, cliVersion := some version, os := none, arch := none, isCI := none, bucket := 0
        sessions := [⟨some 4096, none, some "i"⟩], sessions_ne_nil := List.cons_ne_nil _ _ }
    let points := footprintPoints (fun installs => installs.card) (fun _ _ => 0) 1 wholeHour [row "1.10.0", row "1.9.0"]
    points.map VersionFootprintPoint.cliVersion = [some "1.10.0", some "1.9.0"] ∧
      versionFootprint wholeHour points.reverse = versionFootprint wholeHour points := by
  intro row points
  obtain ⟨-, -, -, -, -, -, -, -, hfootprint⟩ := versions_totally_ordered
  exact ⟨by decide, hfootprint _ _ _ _ _ _ _ (List.reverse_perm _) (List.Perm.refl _)⟩

end argvio.storage
