import Argvio.Storage.VendorGroups

open List

namespace argvio.storage

/-- The key of a group by its dimensions; a key that they lack reads as null. -/
def DimQuery.groupKeyOf (d : DimQuery) (dims : GoMap String (Option String)) : List UInt8 :=
  groupKey (d.groupBy.map (fun k => (dims.lookup k).getD none))

theorem nodup_of_checkGroupBy {seen keys : List String} (h : checkGroupBy seen keys = .ok ()) :
    keys.Nodup ∧ ∀ k ∈ keys, k ∉ seen := by
  induction keys generalizing seen with
  | nil => simp
  | cons k keys ih =>
    unfold checkGroupBy at h
    split_ifs at h with hvalid hseen
    obtain ⟨hnodup, hfresh⟩ := ih h
    refine ⟨nodup_cons.mpr ⟨fun hk => hfresh k hk mem_cons_self, hnodup⟩, forall_mem_cons.mpr ⟨hseen, ?_⟩⟩
    exact fun k' hk' hmem => hfresh k' hk' (mem_cons_of_mem k hmem)

variable {d : DimQuery}

theorem DimQuery.nodup_groupBy (h : d.validate = .ok ()) : d.groupBy.Nodup := by
  unfold DimQuery.validate at h
  by_cases hmany : (d.groupBy.length : Int) > maxDimGroupBy
  · rw [if_pos hmany] at h
    cases h
  · rw [if_neg hmany] at h
    obtain ⟨_, hkeys, -⟩ := Except.bind_eq_ok_iff.mp h
    exact (nodup_of_checkGroupBy hkeys).1

/-- The values of a group are read back from its dimensions. -/
theorem DimQuery.groupKeyOf_dimsOf (h : d.validate = .ok ()) {values : List (Option String)}
    (hlength : values.length = d.groupBy.length) : d.groupKeyOf (d.dimsOf values) = groupKey values := by
  have hkeys : (d.groupBy.zip values).map Prod.fst = d.groupBy := map_fst_zip hlength.ge
  have hlookup : ∀ e ∈ d.groupBy.zip values, ((d.dimsOf values).lookup e.1).getD none = e.2 := by
    intro e he
    have hvalue := (GoMap.lookup_putAll_eq_some_iff (by rw [hkeys]; exact nodup_groupBy h)).mpr he
    rw [DimQuery.dimsOf, hvalue]
    rfl
  refine congrArg groupKey ?_
  calc d.groupBy.map (fun k => ((d.dimsOf values).lookup k).getD none)
    _ = (d.groupBy.zip values).map (fun e => ((d.dimsOf values).lookup e.1).getD none) := by
      conv_lhs => rw [← hkeys, map_map]
      rfl
    _ = (d.groupBy.zip values).map Prod.snd := map_congr_left hlookup
    _ = values := map_snd_zip hlength.le

/-- The count found under the key of some values is that of the rows with these values. -/
theorem lookup_perGroup {estimate : Finset String → Int} {sessions : List SessionRow} {tenant : UUID} {f : Filters}
    {rows : List VendorRow} {bucketExpr : Int → Int} {r : ReachResult}
    (hr : reach estimate sessions tenant f rows bucketExpr d = .ok r) (hgroups : d.groupBy ≠ [])
    (values : List (Option String)) : r.perGroup.lookup (groupKey values) =
      distinctCount estimate ((rows.filter (fun row => d.groupValues row.label = values)).flatMap VendorRow.points) := by
  obtain ⟨perBucket, -, hr⟩ := Except.bind_eq_ok_iff.mp hr
  rw [if_neg hgroups] at hr
  obtain ⟨perGroup, hperGroup, hr⟩ := Except.bind_eq_ok_iff.mp hr
  cases hr
  have hcounts := scanCounts_eq_ok_iff.mp hperGroup
  have hkeys : perGroup.map Prod.fst = (rows.map (fun row => d.groupValues row.label)).dedup := by
    have hfst := congrArg (map Prod.fst) hcounts
    rw [countsOf, map_map, map_map] at hfst
    exact hfst.symm.trans (map_id _)
  have hnodup : ((perGroup.map (fun e => (groupKey e.1, e.2))).map Prod.fst).Nodup := by
    have hmap := (nodup_dedup (rows.map (fun row => d.groupValues row.label))).map groupKey_injective
    rw [← hkeys, map_map] at hmap
    rwa [map_map]
  have hkeyed : Function.Injective (fun e : List (Option String) × Int => (groupKey e.1, e.2)) :=
    groupKey_injective.prodMap Function.injective_id
  have hcounted : Function.Injective (fun e : List (Option String) × Int => (e.1, some e.2)) :=
    Function.injective_id.prodMap (Option.some_injective Int)
  ext n
  have hmem : (groupKey values, n) ∈ perGroup.map (fun e => (groupKey e.1, e.2)) ↔
      (values, some n) ∈ perGroup.map (fun e => (e.1, some e.2)) :=
    (mem_map_of_injective hkeyed (a := (values, n))).trans (mem_map_of_injective hcounted (a := (values, n))).symm
  rw [GoMap.lookup_putAll_eq_some_iff hnodup, hmem, ← hcounts, countsOf, mem_map]
  constructor
  · rintro ⟨k, -, heq⟩
    obtain ⟨rfl, hn⟩ := Prod.mk.inj heq
    exact hn
  intro hn
  refine ⟨values, ?_, Prod.ext rfl hn⟩
  obtain ⟨id, hid⟩ := distinctCount_ne_none_iff.mp (Option.ne_none_iff_exists'.mpr ⟨n, hn⟩)
  obtain ⟨row, hrow, -⟩ := mem_flatMap.mp hid
  obtain ⟨hrow, hvalues⟩ := mem_filter.mp hrow
  exact mem_dedup.mpr (mem_map.mpr ⟨row, hrow, of_decide_eq_true hvalues⟩)

/-- A group's key tells its values, and the count found under the key of its dimensions is that of the
rows with exactly these values. -/
theorem group_identity_unambiguous :
    Function.Injective groupKey ∧
    ∀ d : DimQuery, d.validate = .ok () → ∀ values : List (Option String), values.length = d.groupBy.length →
      d.groupKeyOf (d.dimsOf values) = groupKey values ∧
      ∀ (estimate : Finset String → Int) (sessions : List SessionRow) (tenant : UUID) (f : Filters)
        (rows : List VendorRow) (bucketExpr : Int → Int) (r : ReachResult),
        reach estimate sessions tenant f rows bucketExpr d = .ok r → d.groupBy ≠ [] →
        r.perGroup.lookup (d.groupKeyOf (d.dimsOf values)) = distinctCount estimate
          ((rows.filter (fun row => d.groupValues row.label = values)).flatMap VendorRow.points) := by
  refine ⟨groupKey_injective, fun d hvalid values hlength => ?_⟩
  have hkey := DimQuery.groupKeyOf_dimsOf hvalid hlength
  refine ⟨hkey, fun estimate sessions tenant f rows bucketExpr r hr hgroups => ?_⟩
  rw [hkey]
  exact lookup_perGroup hr hgroups values

/-- Two installs on one plan and one without a plan. -/
theorem group_identity_unambiguous_plan :
    let d : DimQuery := { groupBy := ["plan"] }
    let row (label : Option String) (install : String) : VendorRow :=
      { tenantID := 1, name := some "builds", label, serviceName := none, commandName := none, cliVersion := none,
        os := none, arch := none, isCI := none, bucket := 0, points := [some install], points_ne_nil := cons_ne_nil _ _ }
    let rows := [row (some "plan=pro") "a", row none "b", row (some "plan=pro") "c"]
    d.validate = .ok () ∧ ∃ r, reach (fun installs => installs.card) [] 1 wholeHour rows id d = .ok r ∧
      r.perGroup.lookup (d.groupKeyOf (d.dimsOf [some "pro"])) = some 2 := by
  intro d row rows
  have hvalid : d.validate = .ok () := by decide
  have hnamed : ∀ r ∈ rows, ∃ id, some id ∈ r.points := by simp [rows, row]
  have hreported : ∀ {κ : Type} (key : VendorRow → κ) (k : κ), ¬ Anonymous key VendorRow.points rows k := by
    rintro κ key k ⟨⟨r, hr, hkey⟩, hnone⟩
    exact hnone ⟨r, hr, hkey, hnamed r hr⟩
  obtain ⟨r, hr⟩ : ∃ r, reach (fun installs => installs.card) [] 1 wholeHour rows id d = .ok r :=
    exists_reach_iff.mpr ⟨hreported _, fun _ => hreported _⟩
  refine ⟨hvalid, r, hr, ?_⟩
  rw [(group_identity_unambiguous.2 d hvalid [some "pro"] rfl).2 _ [] 1 wholeHour rows id r hr (cons_ne_nil _ _)]
  decide +kernel

end argvio.storage
