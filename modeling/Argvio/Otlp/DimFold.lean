import Argvio.Allowlist.Families
import Argvio.Otlp.Sent
import Argvio.Storage.DimCodec

open gostrings List
open argvio.allowlist argvio.consent argvio.storage

namespace argvio.otlp

theorem dimKey_eq_some_iff {k key : String} : dimKey k = some key ↔ k = attrDimPrefix ++ key := by
  unfold dimKey cutPrefix
  constructor
  · intro h
    split at h
    · rename_i hlead
      obtain ⟨rest, hrest⟩ := hlead
      cases h
      apply String.toList_inj.mp
      rw [String.toList_append, String.toList_ofList, ← hrest, drop_left]
    · cases h
  · rintro rfl
    rw [if_pos (by simp), String.toList_append, drop_left, String.ofList_toList]

theorem dimKey_append (key : String) : dimKey (attrDimPrefix ++ key) = some key := dimKey_eq_some_iff.mpr rfl

theorem dimKey_tierAttrKey : dimKey tierAttrKey = none := by decide

theorem ne_tierAttrKey_of_dimKey {k key : String} (h : dimKey k = some key) : k ≠ tierAttrKey := by
  rintro rfl
  rw [dimKey_tierAttrKey] at h
  cases h

variable {p : Pipeline} {labelAttr : String}

variable (rule : CatalogRule) {metric : String} {kept folded : AttrMap}

/-- A catalog rule drops the dimensions it does not declare. -/
theorem lookup_stripUndeclared_dim (hlabel : dimKey labelAttr = none) (kept : AttrMap) (key : String) :
    (stripUndeclared rule labelAttr kept).lookup (attrDimPrefix ++ key) =
      if key ∈ rule.dims then kept.lookup (attrDimPrefix ++ key) else none := by
  have hne : attrDimPrefix ++ key ≠ labelAttr := by
    rintro rfl
    rw [dimKey_append] at hlabel
    cases hlabel
  have hkeep : (GoMap.keep (fun k _ => (dimKey k).all (fun key => key ∈ rule.dims)) kept).lookup
      (attrDimPrefix ++ key) = if key ∈ rule.dims then kept.lookup (attrDimPrefix ++ key) else none := by
    rw [GoMap.lookup_keep, dimKey_append]
    cases kept.lookup (attrDimPrefix ++ key) <;> simp [Option.filter]
  unfold stripUndeclared
  dsimp only
  split
  · exact hkeep
  · rw [AList.lookup_erase_ne hne, hkeep]

/-- The plain label is dropped unless the rule declares the dimension `label`. -/
theorem lookup_stripUndeclared_label (hlabel : dimKey labelAttr = none) (kept : AttrMap) :
    (stripUndeclared rule labelAttr kept).lookup labelAttr =
      if dimLabelKey ∈ rule.dims then kept.lookup labelAttr else none := by
  unfold stripUndeclared
  dsimp only
  split
  · rw [GoMap.lookup_keep, hlabel]
    cases kept.lookup labelAttr <;> simp [Option.filter]
  · exact AList.lookup_erase _ _

/-- What a dimension attribute contributes to a tuple. -/
def dimText : AttrValue → String
  | .str s => s
  | _ => ""

theorem lookup_sentDims (kept : AttrMap) (key : String) :
    (sentDims kept).lookup key = (kept.lookup (attrDimPrefix ++ key)).map dimText := by
  cases hdims : (sentDims kept).lookup key with
  | some v =>
    obtain ⟨⟨k, w⟩, hentry, hpair⟩ := mem_filterMap.mp (GoMap.mem_of_lookup_putAll hdims)
    obtain ⟨key', hkey', heq⟩ := Option.map_eq_some_iff.mp hpair
    cases heq
    rw [← dimKey_eq_some_iff.mp hkey', AList.mem_lookup_iff.mpr hentry]
    cases w <;> rfl
  | none =>
    cases hkept : kept.lookup (attrDimPrefix ++ key) with
    | none => rfl
    | some w =>
      unfold sentDims at hdims
      rw [GoMap.lookup_putAll, AList.lookup_empty, Option.or_none, lookup_eq_none_iff] at hdims
      have hpair : (key, dimText w) ∈ kept.entries.filterMap (fun e =>
          (dimKey e.1).map (fun key => (key, match e.2 with | .str s => s | _ => ""))) := by
        refine mem_filterMap.mpr ⟨⟨_, w⟩, AList.mem_lookup_iff.mp hkept, ?_⟩
        rw [dimKey_append]
        cases w <;> rfl
      have hne := hdims _ (mem_reverse.mpr hpair)
      simp at hne

theorem sentDims_keys_eq_nil_iff : (sentDims kept).keys = [] ↔ ∀ key, kept.lookup (attrDimPrefix ++ key) = none := by
  rw [eq_nil_iff_forall_not_mem]
  constructor
  · intro hnil key
    have hnone := hnil key
    rw [← AList.mem_keys, ← AList.lookup_eq_none, lookup_sentDims] at hnone
    simpa using hnone
  · intro hnone key
    rw [← AList.mem_keys, ← AList.lookup_eq_none, lookup_sentDims, hnone]
    rfl

/-- A point's plain label, if its attributes hold one. -/
def plainLabel (kept : AttrMap) (labelAttr : String) : Option String :=
  match kept.lookup labelAttr with
  | some (.str label) => if label = "" then none else some label
  | _ => none

/-- A point's dimensions, with its plain label as the dimension `label`. -/
def pointDims (labelAttr : String) (kept : AttrMap) : GoMap String String :=
  match plainLabel kept labelAttr with
  | some label => (sentDims kept).insert dimLabelKey label
  | none => sentDims kept

/-- The dimensions of a point became its label. -/
structure FoldedInto (p : Pipeline) (labelAttr : String) (kept folded : AttrMap) : Prop where
  sent : (sentDims kept).keys ≠ []
  bounded : ((pointDims labelAttr kept).keys.length : Int) ≤ p.metricCaps.dims
  unclashed : plainLabel kept labelAttr ≠ none → (sentDims kept).lookup dimLabelKey = none
  stored : folded = (GoMap.keep (fun k _ => (dimKey k).isNone) kept).insert labelAttr
    (.str (formatDims (pointDims labelAttr kept)))

theorem FoldedInto.of_storeDims (hsent : (sentDims kept).keys ≠ [])
    (hunclashed : plainLabel kept labelAttr ≠ none → (sentDims kept).lookup dimLabelKey = none)
    (h : p.storeDims labelAttr kept (pointDims labelAttr kept) = .ok folded) : FoldedInto p labelAttr kept folded := by
  unfold Pipeline.storeDims at h
  split at h
  · cases h
  · cases h
    exact ⟨hsent, by omega, hunclashed, rfl⟩

/-- The tuple of a point with dimensions, unless its plain label is one of them. -/
theorem foldDims_of_sent {dropped : List String} (hvendor : vendorLabelAttr metric ≠ "")
    (hfind : dropped.find? (fun k => (dimKey k).isSome) = none) (hsent : (sentDims kept).keys ≠ []) :
    p.foldDims metric kept dropped =
      if plainLabel kept (vendorLabelAttr metric) ≠ none ∧ (sentDims kept).lookup dimLabelKey ≠ none then
        .error (.sameDimension (vendorLabelAttr metric))
      else p.storeDims (vendorLabelAttr metric) kept (pointDims (vendorLabelAttr metric) kept) := by
  unfold Pipeline.foldDims
  dsimp only
  rw [if_neg hvendor, hfind]
  dsimp only
  rw [if_neg hsent]
  split
  · rename_i label hlabel
    by_cases hempty : label = ""
    · have hplain : plainLabel kept (vendorLabelAttr metric) = none := by simp [plainLabel, hlabel, hempty]
      simp [pointDims, hplain, hempty]
    · have hplain : plainLabel kept (vendorLabelAttr metric) = some label := by simp [plainLabel, hlabel, hempty]
      simp [pointDims, hplain, hempty, Option.isSome_iff_ne_none]
  · rename_i hother
    have hplain : plainLabel kept (vendorLabelAttr metric) = none := by
      unfold plainLabel
      split
      · rename_i label hlabel
        exact absurd hlabel (hother label)
      · rfl
    simp [pointDims, hplain]

/-- A point folds when no dimension was dropped: without dimensions it stays as it
is, and otherwise they become its label. -/
theorem foldDims_eq_ok {dropped : List String} (hvendor : vendorLabelAttr metric ≠ "")
    (h : p.foldDims metric kept dropped = .ok folded) :
    (∀ k ∈ dropped, dimKey k = none) ∧
      ((sentDims kept).keys = [] ∧ folded = kept ∨ FoldedInto p (vendorLabelAttr metric) kept folded) := by
  cases hfind : dropped.find? (fun k => (dimKey k).isSome) with
  | some k =>
    unfold Pipeline.foldDims at h
    dsimp only at h
    rw [if_neg hvendor, hfind] at h
    cases h
  | none =>
    refine ⟨fun k hk => by simpa using find?_eq_none.mp hfind k hk, ?_⟩
    by_cases hnil : (sentDims kept).keys = []
    · unfold Pipeline.foldDims at h
      dsimp only at h
      rw [if_neg hvendor, hfind] at h
      dsimp only at h
      rw [if_pos hnil] at h
      cases h
      exact .inl ⟨hnil, rfl⟩
    · rw [foldDims_of_sent hvendor hfind hnil] at h
      split at h
      · cases h
      rename_i hclash
      refine .inr (.of_storeDims hnil (fun hlabel => ?_) h)
      by_contra hsame
      exact hclash ⟨hlabel, hsame⟩

end argvio.otlp
