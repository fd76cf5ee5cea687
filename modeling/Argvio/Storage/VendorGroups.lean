import Argvio.FirstSeen
import Argvio.Storage.Reach
import Argvio.GoStrings

open List

namespace argvio.storage

open firstseen tiedorder

theorem groupKey_cons_some (v : String) (values : List (Option String)) :
    groupKey (some v :: values) = 1 :: (v.toUTF8.toList ++ 0xff :: groupKey values) := by
  simp [groupKey]

theorem groupKey_cons_none (values : List (Option String)) : groupKey (none :: values) = 0 :: 0xff :: groupKey values := by
  simp [groupKey]

/-- Groups are told apart by their keys: `0xff` is in no value. -/
theorem groupKey_injective : Function.Injective groupKey := by
  intro x y hkey
  induction x generalizing y with
  | nil =>
    cases y with
    | nil => rfl
    | cons b y => cases b <;> simp [groupKey] at hkey
  | cons a x ih =>
    cases y with
    | nil => cases a <;> simp [groupKey] at hkey
    | cons b y =>
      cases a with
      | none =>
        cases b with
        | none =>
          rw [groupKey_cons_none, groupKey_cons_none, cons_inj_right, cons_inj_right] at hkey
          rw [ih hkey]
        | some w =>
          rw [groupKey_cons_none, groupKey_cons_some, cons.injEq] at hkey
          exact absurd hkey.1 (by decide)
      | some v =>
        cases b with
        | none =>
          rw [groupKey_cons_none, groupKey_cons_some, cons.injEq] at hkey
          exact absurd hkey.1 (by decide)
        | some w =>
          rw [groupKey_cons_some, groupKey_cons_some, cons_inj_right,
            delimited.append_cons_eq_iff (utf8.ff_notMem_toUTF8 v) (utf8.ff_notMem_toUTF8 w),
            utf8.toList_toUTF8_inj] at hkey
          rw [hkey.1, ih hkey.2]

/-- The grouped-by keys with a group's values. -/
def DimQuery.dimsOf (d : DimQuery) (values : List (Option String)) : GoMap String (Option String) :=
  GoMap.putAll ∅ (d.groupBy.zip values)

theorem DimQuery.length_groupValues (d : DimQuery) (label : Option String) :
    (d.groupValues label).length = d.groupBy.length := length_map _

/-- A group's dimensions say which label values it is of. -/
theorem DimQuery.groupValues_eq_of_dimsOf {d : DimQuery} {label label' : Option String}
    (h : GoMap.Same (d.dimsOf (d.groupValues label)) (d.dimsOf (d.groupValues label'))) :
    d.groupValues label = d.groupValues label' := by
  unfold DimQuery.dimsOf DimQuery.groupValues at *
  rw [← map_prod_left_eq_zip, ← map_prod_left_eq_zip] at h
  refine map_congr_left (fun key hkey => ?_)
  have hlookup := h.lookup_eq key
  rw [GoMap.lookup_putAll_map, GoMap.lookup_putAll_map, if_pos hkey, if_pos hkey] at hlookup
  exact Option.some.inj hlookup

/-- A row of a breakdown as the database returns it. -/
@[ext] structure GroupedRow (α : Type) where
  bucket : Int
  values : List (Option String)
  agg : α
  deriving DecidableEq

/-- A group of a breakdown, with its total so far. -/
@[ext] structure OpenGroup (τ π : Type) where
  dims : GoMap String (Option String)
  total : τ
  series : List π

/-- `CounterGroup`, `MeasureGroup` and `ValueGroup`. -/
@[ext] structure VendorGroup (σ π : Type) where
  dims : GoMap String (Option String)
  stats : σ
  series : List π

/-- The groups found so far, and where the group of each key is. -/
structure GroupScan (τ π : Type) where
  index : GoMap (List UInt8) ℕ
  groups : List (OpenGroup τ π)

/-- What the breakdowns of counters, measures and values differ in. -/
structure Breakdown (ρ α τ σ π ω : Type) where
  bucket : ρ → Int
  label : ρ → Option String
  aggregates : List ρ → α
  point : Int → α → π
  zero : τ
  add : τ → α → τ
  stats : τ → σ
  weight : σ → ω

namespace Breakdown

section Loop

variable {ρ α τ σ π ω : Type} (k : Breakdown ρ α τ σ π ω) (dq : DimQuery)

/-- What a row of the rollup is grouped by. -/
def key (bucketExpr : Int → Int) (row : ρ) : Int × List (Option String) :=
  (bucketExpr (k.bucket row), dq.groupValues (k.label row))

/-- The rows of the query that selects, by bucket and values, the aggregates of the rows that
satisfy `pb`. -/
def groupedRows (bucketExpr : Int → Int) (pb : ρ → Bool) (table : List ρ) : List (GroupedRow α) :=
  let rows := table.filter pb
  ((rows.map (k.key dq bucketExpr)).dedup).map (fun e =>
    { bucket := e.1, values := e.2, agg := k.aggregates (rows.filter (fun row => k.key dq bucketExpr row = e)) })

def addTo (row : GroupedRow α) (g : OpenGroup τ π) : OpenGroup τ π :=
  { g with total := k.add g.total row.agg, series := g.series ++ [k.point row.bucket row.agg] }

/-- One turn of the loop over the rows. -/
def scan (s : GroupScan τ π) (row : GroupedRow α) : GroupScan τ π :=
  match s.index.lookup (groupKey row.values) with
  | some i => { s with groups := s.groups.modify i (k.addTo row) }
  | none =>
    let i := s.groups.length
    let groups := s.groups ++ [{ dims := dq.dimsOf row.values, total := k.zero, series := [] }]
    { index := s.index.insert (groupKey row.values) i, groups := groups.modify i (k.addTo row) }

def close (g : OpenGroup τ π) : VendorGroup σ π := { dims := g.dims, stats := k.stats g.total, series := g.series }

/-- The groups of the rows that the database returns, greatest first and at most `limit`. The
sort is stable. -/
def groups [LinearOrder ω] (limit : ℕ) (rows : List (GroupedRow α)) : List (VendorGroup σ π) :=
  let s := rows.foldl (k.scan dq) { index := ∅, groups := [] }
  ((s.groups.map k.close).insertionSort (fun a b => k.weight b.stats ≤ k.weight a.stats)).take limit

/-- The rows in an order that `ORDER BY 1 ASC` allows. -/
def Answers (bucketExpr : Int → Int) (pb : ρ → Bool) (table : List ρ) (l : List (GroupedRow α)) : Prop :=
  Arranges GroupedRow.bucket (k.groupedRows dq bucketExpr pb table) l

/-- The group of some values. -/
def groupOf (rows : List (GroupedRow α)) (values : List (Option String)) : OpenGroup τ π :=
  let own := rows.filter (fun row => row.values = values)
  { dims := dq.dimsOf values
    total := own.foldl (fun total row => k.add total row.agg) k.zero
    series := own.map (fun row => k.point row.bucket row.agg) }

variable {k dq} {rows : List (GroupedRow α)} {row : GroupedRow α} {values : List (Option String)}

theorem groupOf_concat_self : k.groupOf dq (rows ++ [row]) row.values = k.addTo row (k.groupOf dq rows row.values) := by
  simp [groupOf, addTo]

theorem groupOf_concat_of_ne (hne : row.values ≠ values) :
    k.groupOf dq (rows ++ [row]) values = k.groupOf dq rows values := by
  simp [groupOf, hne]

theorem groupOf_of_new (hnew : values ∉ rows.map GroupedRow.values) :
    k.groupOf dq rows values = { dims := dq.dimsOf values, total := k.zero, series := [] } := by
  have hnone : rows.filter (fun row => row.values = values) = [] := by
    rw [filter_eq_nil_iff]
    intro row hrow heq
    exact hnew (mem_map.mpr ⟨row, hrow, of_decide_eq_true heq⟩)
  simp [groupOf, hnone]

/-- The group at the row's index takes it, the others stay. -/
theorem modify_map_groupOf {seen : List (List (Option String))} {i : ℕ} (hseen : seen.Nodup)
    (hi : seen[i]? = some row.values) :
    (seen.map (k.groupOf dq rows)).modify i (k.addTo row) = seen.map (k.groupOf dq (rows ++ [row])) := by
  refine ext_getElem? (fun j => ?_)
  rw [getElem?_modify, getElem?_map, getElem?_map]
  cases hj : seen[j]? with
  | none => rfl
  | some v =>
    by_cases hij : i = j
    · subst hij
      cases hi.symm.trans hj
      simp [groupOf_concat_self]
    · have hne : row.values ≠ v := by
        rintro rfl
        have hlt : i < seen.length := (List.getElem?_eq_some_iff.mp hi).1
        exact hij ((getElem?_inj hlt hseen).mp (hi.trans hj.symm))
      simp [hij, groupOf_concat_of_ne hne]

variable (k dq) in
/-- What the loop has made of the rows it has read. -/
structure Scanned (rows : List (GroupedRow α)) (s : GroupScan τ π) : Prop where
  groups : s.groups = (firstSeen (rows.map GroupedRow.values)).map (k.groupOf dq rows)
  index : ∀ values : List (Option String), values.length = dq.groupBy.length → ∀ i,
    s.index.lookup (groupKey values) = some i ↔ (firstSeen (rows.map GroupedRow.values))[i]? = some values

theorem scanned_nil : k.Scanned dq [] { index := ∅, groups := [] } where
  groups := rfl
  index := by
    intro values _ i
    simp [firstSeen]

/-- Values that are not seen yet take the next index. -/
theorem lookup_insert_concat {index : GoMap (List UInt8) ℕ} {seen : List (List (Option String))}
    (hindex : ∀ values : List (Option String), values.length = dq.groupBy.length → ∀ i,
      index.lookup (groupKey values) = some i ↔ seen[i]? = some values)
    (hseen : (seen ++ [row.values]).Nodup) (hvalues : values.length = dq.groupBy.length) (i : ℕ) :
    (index.insert (groupKey row.values) seen.length).lookup (groupKey values) = some i ↔
      (seen ++ [row.values])[i]? = some values := by
  have hplace : (seen ++ [row.values])[seen.length]? = some row.values := by
    rw [getElem?_append_right le_rfl, Nat.sub_self]
    rfl
  by_cases hsame : values = row.values
  · subst hsame
    rw [AList.lookup_insert]
    constructor
    · intro heq
      cases heq
      exact hplace
    · intro hi
      have hlt := (List.getElem?_eq_some_iff.mp hplace).1
      exact congrArg some ((getElem?_inj hlt hseen).mp (hplace.trans hi.symm))
  · rw [AList.lookup_insert_ne (groupKey_injective.ne hsame), hindex values hvalues]
    rcases lt_or_ge i seen.length with hlt | hge
    · rw [getElem?_append_left hlt]
    · rw [getElem?_eq_none hge, getElem?_append_right hge]
      simp [getElem?_singleton, Ne.symm hsame]

theorem Scanned.step {s : GroupScan τ π} (h : k.Scanned dq rows s) (hrow : row.values.length = dq.groupBy.length) :
    k.Scanned dq (rows ++ [row]) (k.scan dq s row) := by
  have hconcat := firstSeen_concat (rows.map GroupedRow.values) row.values
  have hmap : (rows ++ [row]).map GroupedRow.values = rows.map GroupedRow.values ++ [row.values] := map_append
  rw [← hmap] at hconcat
  unfold scan
  cases hlookup : s.index.lookup (groupKey row.values) with
  | some i =>
    have hi := (h.index row.values hrow i).mp hlookup
    rw [if_pos (mem_firstSeen.mp (mem_of_getElem? hi))] at hconcat
    constructor
    · rw [hconcat, h.groups]
      exact modify_map_groupOf (nodup_firstSeen _) hi
    · rw [hconcat]
      exact h.index
  | none =>
    have hnew : row.values ∉ rows.map GroupedRow.values := by
      intro hmem
      obtain ⟨i, hi⟩ := mem_iff_getElem?.mp (mem_firstSeen.mpr hmem)
      cases hlookup.symm.trans ((h.index row.values hrow i).mpr hi)
    have hlength : s.groups.length = (firstSeen (rows.map GroupedRow.values)).length := by
      rw [h.groups, length_map]
    rw [if_neg hnew] at hconcat
    have hnodup := hconcat ▸ nodup_firstSeen _
    have hplace : (firstSeen (rows.map GroupedRow.values) ++ [row.values])[s.groups.length]? = some row.values := by
      rw [hlength, getElem?_append_right le_rfl, Nat.sub_self]
      rfl
    constructor
    · rw [hconcat, ← modify_map_groupOf hnodup hplace, map_append, ← h.groups, map_singleton,
        groupOf_of_new hnew]
    · intro values hvalues i
      rw [hconcat, hlength]
      exact lookup_insert_concat h.index hnodup hvalues i

/-- The loop makes a group of each combination of values, in the order in which they are seen. -/
theorem scanned_foldl (hrows : ∀ row ∈ rows, row.values.length = dq.groupBy.length) :
    k.Scanned dq rows (rows.foldl (k.scan dq) { index := ∅, groups := [] }) := by
  induction rows using reverseRecOn with
  | nil => exact scanned_nil
  | append_singleton rows row ih =>
    rw [foldl_append]
    exact (ih (fun r hr => hrows r (mem_append_left _ hr))).step
      (hrows row (mem_append_right _ (mem_singleton_self row)))

variable (k dq) in
/-- What the groups are ranked by. -/
def weightIn (rows : List (GroupedRow α)) (values : List (Option String)) : ω :=
  k.weight (k.close (k.groupOf dq rows values)).stats

/-- The groups are the first of the ranking of the values. -/
theorem groups_eq_ranking [LinearOrder ω] (hrows : ∀ row ∈ rows, row.values.length = dq.groupBy.length) (limit : ℕ) :
    k.groups dq limit rows =
      ((ranking GroupedRow.values (k.weightIn dq rows) rows).take limit).map
        (fun values => k.close (k.groupOf dq rows values)) := by
  unfold groups ranking
  simp only []
  rw [(scanned_foldl hrows).groups, map_map, map_take]
  have hsort := map_insertionSort (fun x y => k.weightIn dq rows y ≤ k.weightIn dq rows x)
    (fun a b : VendorGroup σ π => k.weight b.stats ≤ k.weight a.stats)
    (fun values => k.close (k.groupOf dq rows values)) (firstSeen (rows.map GroupedRow.values))
    (fun _ _ _ _ => Iff.rfl)
  rw [hsort]
  rfl

end Loop

section Rows

variable {ρ α τ σ π ω : Type} (k : Breakdown ρ α τ σ π ω) (dq : DimQuery) (bucketExpr : Int → Int)

/-- The rows of a rollup that a group is made of. -/
def rowsOf (rows : List ρ) (values : List (Option String)) : List ρ :=
  rows.filter (fun row => dq.groupValues (k.label row) = values)

/-- The bucket a group begins with. -/
def firstBucket (rows : List ρ) (values : List (Option String)) : Int :=
  (((k.rowsOf dq rows values).map (fun row => bucketExpr (k.bucket row))).min?).getD 0

variable {k dq bucketExpr} {pb : ρ → Bool} {table : List ρ} {l l₁ l₂ : List (GroupedRow α)} {row row' : GroupedRow α}

variable {values : List (Option String)}

theorem mem_rowsOf {rows : List ρ} {r : ρ} :
    r ∈ k.rowsOf dq rows values ↔ r ∈ rows ∧ dq.groupValues (k.label r) = values := by
  rw [rowsOf, mem_filter, decide_eq_true_eq]

/-- A row of the query is of some row of the rollup. -/
theorem exists_of_mem_groupedRows (hrow : row ∈ k.groupedRows dq bucketExpr pb table) :
    (∃ r ∈ table.filter pb, bucketExpr (k.bucket r) = row.bucket ∧ dq.groupValues (k.label r) = row.values) ∧
      row.agg = k.aggregates ((table.filter pb).filter (fun r => k.key dq bucketExpr r = (row.bucket, row.values))) := by
  obtain ⟨e, he, rfl⟩ := mem_map.mp hrow
  obtain ⟨r, hr, rfl⟩ := mem_map.mp (mem_dedup.mp he)
  exact ⟨⟨r, hr, rfl, rfl⟩, rfl⟩

theorem exists_groupedRow {r : ρ} (hr : r ∈ table.filter pb) :
    ∃ row ∈ k.groupedRows dq bucketExpr pb table,
      row.bucket = bucketExpr (k.bucket r) ∧ row.values = dq.groupValues (k.label r) :=
  ⟨_, mem_map_of_mem (mem_dedup.mpr (mem_map_of_mem hr)), rfl, rfl⟩

theorem groupedRows_inj (hrow : row ∈ k.groupedRows dq bucketExpr pb table)
    (hrow' : row' ∈ k.groupedRows dq bucketExpr pb table) (hbucket : row.bucket = row'.bucket)
    (hvalues : row.values = row'.values) : row = row' := by
  refine GroupedRow.ext hbucket hvalues ?_
  rw [(exists_of_mem_groupedRows hrow).2, (exists_of_mem_groupedRows hrow').2, hbucket, hvalues]

theorem nodup_groupedRows : (k.groupedRows dq bucketExpr pb table).Nodup := by
  refine (nodup_dedup _).map (fun e e' heq => ?_)
  have hbucket := congrArg GroupedRow.bucket heq
  have hvalues := congrArg GroupedRow.values heq
  exact Prod.ext hbucket hvalues

theorem length_values (hrow : row ∈ k.groupedRows dq bucketExpr pb table) :
    row.values.length = dq.groupBy.length := by
  obtain ⟨r, -, -, hvalues⟩ := (exists_of_mem_groupedRows hrow).1
  rw [← hvalues, DimQuery.length_groupValues]

theorem mem_map_values_iff :
    values ∈ (k.groupedRows dq bucketExpr pb table).map GroupedRow.values ↔
      values ∈ (table.filter pb).map (fun r => dq.groupValues (k.label r)) := by
  rw [mem_map, mem_map]
  constructor
  · rintro ⟨row, hrow, rfl⟩
    obtain ⟨r, hr, -, hvalues⟩ := (exists_of_mem_groupedRows hrow).1
    exact ⟨r, hr, hvalues⟩
  · rintro ⟨r, hr, rfl⟩
    obtain ⟨row, hrow, -, hvalues⟩ := exists_groupedRow hr
    exact ⟨row, hrow, hvalues⟩

theorem Answers.length_values (h : k.Answers dq bucketExpr pb table l) :
    ∀ row ∈ l, row.values.length = dq.groupBy.length :=
  fun _ hrow => Breakdown.length_values (h.perm.mem_iff.mp hrow)

section TwoAnswers

variable (h₁ : k.Answers dq bucketExpr pb table l₁) (h₂ : k.Answers dq bucketExpr pb table l₂)

include h₁ h₂

/-- The rows of one group come in one order. -/
theorem Answers.filter_values_eq (values : List (Option String)) :
    l₁.filter (fun row => row.values = values) = l₂.filter (fun row => row.values = values) := by
  refine (Arranges.filter h₁ _).eq_of_untied (Arranges.filter h₂ _) (fun x hx y hy hbucket => ?_)
  obtain ⟨hx, hvx⟩ := mem_filter.mp hx
  obtain ⟨hy, hvy⟩ := mem_filter.mp hy
  exact groupedRows_inj hx hy hbucket ((of_decide_eq_true hvx).trans (of_decide_eq_true hvy).symm)

theorem Answers.groupOf_eq : k.groupOf dq l₁ = k.groupOf dq l₂ := by
  funext values
  unfold groupOf
  rw [h₁.filter_values_eq h₂]

end TwoAnswers

/-- A group's first bucket is the first of its rows'. -/
theorem firstBucket_groupedRows :
    FirstBucket GroupedRow.values GroupedRow.bucket (k.groupedRows dq bucketExpr pb table)
      (k.firstBucket dq bucketExpr (table.filter pb)) := by
  have hmin : ∀ r ∈ table.filter pb,
      (((k.rowsOf dq (table.filter pb) (dq.groupValues (k.label r))).map (fun r => bucketExpr (k.bucket r))).min?) =
        some (k.firstBucket dq bucketExpr (table.filter pb) (dq.groupValues (k.label r))) := by
    intro r hr
    have hmem : bucketExpr (k.bucket r) ∈
        (k.rowsOf dq (table.filter pb) (dq.groupValues (k.label r))).map (fun r => bucketExpr (k.bucket r)) :=
      mem_map.mpr ⟨r, mem_rowsOf.mpr ⟨hr, rfl⟩, rfl⟩
    obtain ⟨b, hb⟩ := Option.isSome_iff_exists.mp (isSome_min?_of_mem hmem)
    rw [firstBucket, hb, Option.getD_some]
  constructor
  · intro row hrow
    obtain ⟨r, hr, hbucket, hvalues⟩ := (exists_of_mem_groupedRows hrow).1
    rw [← hvalues, ← hbucket]
    refine (min?_eq_some_iff.mp (hmin r hr)).2 _ ?_
    exact mem_map.mpr ⟨r, mem_rowsOf.mpr ⟨hr, rfl⟩, rfl⟩
  · intro row hrow
    obtain ⟨r, hr, -, hvalues⟩ := (exists_of_mem_groupedRows hrow).1
    obtain ⟨r', hr', hfirst⟩ := mem_map.mp (min?_eq_some_iff.mp (hmin r hr)).1
    obtain ⟨hr', hvalues'⟩ := mem_rowsOf.mp hr'
    obtain ⟨row', hrow', hbucket, heq⟩ := exists_groupedRow hr'
    rw [← hvalues]
    exact ⟨row', hrow', heq.trans hvalues', hbucket.trans hfirst⟩

end Rows

section Totals

variable {ρ α τ σ π ω : Type} [AddCommMonoid τ] {k : Breakdown ρ α τ σ π ω} {dq : DimQuery} {bucketExpr : Int → Int}
  {pb : ρ → Bool} {table : List ρ} {l : List (GroupedRow α)} {value : ρ → τ} {values : List (Option String)}

variable (k value) in
/-- Adding what the database aggregates is adding the rows. -/
structure Adds : Prop where
  zero_eq : k.zero = 0
  add_aggregates : ∀ (total : τ) (rows : List ρ), k.add total (k.aggregates rows) = total + (rows.map value).sum

theorem Adds.foldl (hk : k.Adds value) {parts : GroupedRow α → List ρ}
    (hl : ∀ row ∈ l, row.agg = k.aggregates (parts row)) (total : τ) :
    l.foldl (fun total row => k.add total row.agg) total =
      total + (l.map (fun row => ((parts row).map value).sum)).sum := by
  induction l generalizing total with
  | nil => simp
  | cons row l ih =>
    rw [foldl_cons, ih (fun r hr => hl r (mem_cons_of_mem row hr)), hl row mem_cons_self,
      hk.add_aggregates, map_cons, sum_cons, add_assoc]

/-- A group's total is that of its rows, whatever the buckets. -/
theorem Answers.total_eq (h : k.Answers dq bucketExpr pb table l) (hk : k.Adds value) :
    (k.groupOf dq l values).total = ((k.rowsOf dq (table.filter pb) values).map value).sum := by
  let own := l.filter (fun row => row.values = values)
  have hown : ∀ row ∈ own, row ∈ k.groupedRows dq bucketExpr pb table ∧ row.values = values := by
    intro row hrow
    obtain ⟨hrow, hvalues⟩ := mem_filter.mp hrow
    exact ⟨h.perm.mem_iff.mp hrow, of_decide_eq_true hvalues⟩
  let bucketOf := fun r : ρ => bucketExpr (k.bucket r)
  have hagg : ∀ row ∈ own,
      row.agg = k.aggregates (groupby.group bucketOf (k.rowsOf dq (table.filter pb) values) row.bucket) := by
    intro row hrow
    obtain ⟨hrow, hvalues⟩ := hown row hrow
    have hsplit : (table.filter pb).filter (fun r => k.key dq bucketExpr r = (row.bucket, values)) =
        groupby.group bucketOf (k.rowsOf dq (table.filter pb) values) row.bucket := by
      unfold groupby.group rowsOf
      rw [filter_filter (l := table.filter pb)]
      refine filter_congr (fun r _ => ?_)
      simp [key, bucketOf, Prod.ext_iff]
    rw [(exists_of_mem_groupedRows hrow).2, hvalues, hsplit]
  have hnodup : (own.map GroupedRow.bucket).Nodup := by
    refine List.Nodup.map_on (fun x hx y hy hbucket => ?_) ((h.perm.nodup_iff.mpr nodup_groupedRows).filter _)
    exact groupedRows_inj (hown x hx).1 (hown y hy).1 hbucket ((hown x hx).2.trans (hown y hy).2.symm)
  have hcover : ∀ r ∈ k.rowsOf dq (table.filter pb) values, bucketOf r ∈ own.map GroupedRow.bucket := by
    intro r hr
    obtain ⟨hin, hvalues⟩ := mem_rowsOf.mp hr
    obtain ⟨row, hrow, hbucket, heq⟩ := exists_groupedRow hin
    exact mem_map.mpr
      ⟨row, mem_filter.mpr ⟨h.perm.mem_iff.mpr hrow, decide_eq_true (heq.trans hvalues)⟩, hbucket⟩
  calc (k.groupOf dq l values).total = own.foldl (fun total row => k.add total row.agg) k.zero := rfl
    _ = (own.map (fun row =>
        ((groupby.group bucketOf (k.rowsOf dq (table.filter pb) values) row.bucket).map value).sum)).sum := by
        rw [hk.foldl hagg, hk.zero_eq, zero_add]
    _ = ((own.map GroupedRow.bucket).map (fun b =>
          ((groupby.group bucketOf (k.rowsOf dq (table.filter pb) values) b).map value).sum)).sum := by
        rw [map_map]
        rfl
    _ = ((k.rowsOf dq (table.filter pb) values).map value).sum := groupby.sum_groups_of_cover value hnodup hcover

end Totals

end Breakdown

section Kinds

/-- A row of a rollup of counters or measures, with what its data points add up to. -/
structure RollupRow (α : Type) where
  tenantID : UUID
  name : Option String
  label : Option String
  serviceName : Option String
  commandName : Option String
  cliVersion : Option String
  os : Option String
  arch : Option String
  isCI : Option Bool
  bucket : Int
  agg : α

structure CounterSums where
  total : ℚ
  datapointCount : Int
  deriving DecidableEq

structure CounterPoint where
  bucket : Int
  total : ℚ
  datapointCount : Int
  deriving DecidableEq

def counterBreakdown : Breakdown (RollupRow CounterSums) CounterSums ℚ ℚ CounterPoint ℚ where
  bucket := RollupRow.bucket
  label := RollupRow.label
  aggregates rows :=
    { total := (rows.map (fun row => row.agg.total)).sum
      datapointCount := (rows.map (fun row => row.agg.datapointCount)).sum }
  point bucket sums := { bucket, total := sums.total, datapointCount := sums.datapointCount }
  zero := 0
  add total sums := total + sums.total
  stats total := total
  weight total := total

def counterGroups (dq : DimQuery) (limit : ℕ) (rows : List (GroupedRow CounterSums)) : List (VendorGroup ℚ CounterPoint) :=
  counterBreakdown.groups dq limit rows

abbrev measureBucketCount : ℕ := 12

abbrev MeasureAgg := HistAgg measureBucketCount

structure MeasureStats where
  count : Int
  datapointCount : Int
  sumMS : ℚ
  minMS : Option ℚ
  maxMS : Option ℚ
  p50 : Option ℚ
  p95 : Option ℚ
  p99 : Option ℚ
  deriving DecidableEq

/-- `measureAgg.stats`. -/
def measureStats (a : MeasureAgg) : MeasureStats where
  count := a.count
  datapointCount := a.points
  sumMS := a.sum.getD 0
  minMS := a.min
  maxMS := a.max
  p50 := a.quantile measureBounds (50 / 100)
  p95 := a.quantile measureBounds (95 / 100)
  p99 := a.quantile measureBounds (99 / 100)

structure MeasurePoint where
  bucket : Int
  stats : MeasureStats
  deriving DecidableEq

def measureBreakdown : Breakdown (RollupRow MeasureAgg) MeasureAgg MeasureAgg MeasureStats MeasurePoint Int where
  bucket := RollupRow.bucket
  label := RollupRow.label
  aggregates rows := HistAgg.sqlAggregate (rows.map RollupRow.agg)
  point bucket a := { bucket, stats := measureStats a }
  zero := HistAgg.zero
  add := HistAgg.merge
  stats := measureStats
  weight := MeasureStats.count

def measureGroups (dq : DimQuery) (limit : ℕ) (rows : List (GroupedRow MeasureAgg)) :
    List (VendorGroup MeasureStats MeasurePoint) :=
  measureBreakdown.groups dq limit rows

def valueBreakdown : Breakdown ValueRow ValueAgg ValueAgg ValueStats ValuePoint Int where
  bucket := ValueRow.bucket
  label := ValueRow.valueLabel
  aggregates rows := HistAgg.sqlAggregate (rows.map ValueRow.agg)
  point bucket a := { bucket, stats := valueStats a }
  zero := HistAgg.zero
  add := HistAgg.merge
  stats := valueStats
  weight := ValueStats.count

def valueGroups (dq : DimQuery) (limit : ℕ) (rows : List (GroupedRow ValueAgg)) : List (VendorGroup ValueStats ValuePoint) :=
  valueBreakdown.groups dq limit rows

theorem counterBreakdown_adds : counterBreakdown.Adds (fun row => row.agg.total) where
  zero_eq := rfl
  add_aggregates := fun _ _ => rfl

theorem measureBreakdown_adds : measureBreakdown.Adds RollupRow.agg where
  zero_eq := rfl
  add_aggregates := fun total rows => congrArg total.merge (HistAgg.sqlAggregate_eq_sum (rows.map RollupRow.agg))

theorem valueBreakdown_adds : valueBreakdown.Adds ValueRow.agg where
  zero_eq := rfl
  add_aggregates := fun total rows => congrArg total.merge (HistAgg.sqlAggregate_eq_sum (rows.map ValueRow.agg))

end Kinds

end argvio.storage
