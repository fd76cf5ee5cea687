import Argvio.Otlp.FoldedRows
import Argvio.Otlp.LogRuns

open gostrings List
open argvio.storage

namespace argvio.otlp

/-- Lower-case letters, digits, dots, underscores and dashes, at least one. -/
def IdentifierText (s : String) : Prop := s ≠ "" ∧ ∀ c ∈ s.toList, lowerOrDigit c = true ∨ c ∈ ['.', '_', '-']

/-- Dimensions whose keys and values are such texts. -/
def IdentifierPairs (d : GoMap String String) : Prop := ∀ k v, d.lookup k = some v → IdentifierText k ∧ IdentifierText v

/-- Dimensions with some of their values replaced by `other`. -/
def othered (past : String → String → Bool) (d : GoMap String String) : GoMap String String :=
  GoMap.assignSome (fun k v => if past k v then some counterOther else none) d d

section Codec

variable {d d' : GoMap String String} {past : String → String → Bool}

theorem dimClean_of_identifierText {s : String} (h : IdentifierText s) : DimClean s := by
  have hnot : ∀ x, lowerOrDigit x = false → x ∉ ['.', '_', '-'] → x ∉ s.toList := by
    intro x hx hmark hmem
    obtain hletter | hin := h.2 x hmem
    · rw [hx] at hletter
      cases hletter
    · exact hmark hin
  exact ⟨hnot ';' (by decide) (by decide), hnot '=' (by decide) (by decide)⟩

theorem IdentifierPairs.readable (h : IdentifierPairs d) : ReadableDims d :=
  fun k v hlookup => ⟨dimClean_of_identifierText (h k v hlookup).1, (dimClean_of_identifierText (h k v hlookup).2).1⟩

theorem formatDims_of_keys_eq_nil (h : d.keys = []) : formatDims d = "" := by
  rw [formatDims, h]
  rfl

theorem same_parseDims_formatDims (h : ReadableDims d) : GoMap.Same (parseDims (formatDims d)) d := by
  by_cases hne : d.keys = []
  · rw [formatDims_of_keys_eq_nil hne]
    have hempty : d.entries = [] := map_eq_nil_iff.mp hne
    rw [GoMap.Same, hempty]
    exact List.Perm.refl []
  · exact GoMap.same_of_lookup (lookup_parseDims_formatDims h hne)

theorem lookup_othered (k : String) :
    (othered past d).lookup k = (d.lookup k).map (fun v => if past k v then counterOther else v) := by
  rw [othered, GoMap.lookup_assignSome]
  cases d.lookup k with
  | none => rfl
  | some v => by_cases hpast : past k v = true <;> simp [hpast]

theorem IdentifierPairs.othered (h : IdentifierPairs d) (past : String → String → Bool) :
    IdentifierPairs (othered past d) := by
  intro k v hlookup
  rw [lookup_othered] at hlookup
  obtain ⟨w, hw, rfl⟩ := Option.map_eq_some_iff.mp hlookup
  refine ⟨(h k w hw).1, ?_⟩
  split_ifs
  · have hletters : counterOther.toList.all lowerOrDigit = true := by decide
    exact ⟨by decide, fun c hc => .inl (all_eq_true.mp hletters c hc)⟩
  · exact (h k w hw).2

theorem othered_same (h : GoMap.Same d d') : GoMap.Same (othered past d) (othered past d') := by
  refine GoMap.same_of_lookup (fun k => ?_)
  rw [lookup_othered, lookup_othered, h.lookup_eq]

/-- Replacing the entries that a row has past the cap is replacing these values. -/
theorem replaceDims_same_othered :
    GoMap.Same (replaceDims d (d.entries.filter (fun e => past e.1 e.2))) (othered past d) := by
  refine GoMap.same_of_lookup (fun k => ?_)
  have hpast : k ∈ (d.entries.filter (fun e => past e.1 e.2)).map Sigma.fst ↔
      ∃ v, d.lookup k = some v ∧ past k v = true := by
    constructor
    · intro hk
      obtain ⟨e, he, rfl⟩ := mem_map.mp hk
      obtain ⟨hentry, hp⟩ := mem_filter.mp he
      exact ⟨e.2, AList.mem_lookup_iff.mpr hentry, hp⟩
    · rintro ⟨v, hv, hp⟩
      exact mem_map.mpr ⟨⟨k, v⟩, mem_filter.mpr ⟨AList.mem_lookup_iff.mp hv, hp⟩, rfl⟩
  rw [lookup_replaceDims, lookup_othered]
  cases hlookup : d.lookup k with
  | none =>
    rw [if_neg (fun hk => ?_), Option.map_none]
    obtain ⟨v, hv, -⟩ := hpast.mp hk
    rw [hlookup] at hv
    cases hv
  | some v =>
    rw [Option.map_some]
    by_cases hp : past k v = true
    · rw [if_pos (hpast.mpr ⟨v, hlookup, hp⟩), if_pos hp]
    rw [if_neg (fun hk => ?_), if_neg hp]
    obtain ⟨w, hw, hpw⟩ := hpast.mp hk
    rw [hlookup] at hw
    cases hw
    exact hp hpw

end Codec

section Rows

variable {p : Pipeline} {rows : List MetricRow} {inst : VendorInstrument} {v : Vocabulary} {r : MetricRow}
  {d : GoMap String String}

/-- Whether the cap on dimension values replaces a value of a name. -/
def Pipeline.pastCap (p : Pipeline) (rows : List MetricRow) (inst : VendorInstrument) (v : Vocabulary)
    (name key value : String) : Bool :=
  let adm := (admitDims v.dims (p.dimCall (inst.keys rows))).1
  adm.folded ≠ 0 ∧ (⟨name, key, value⟩ : DimValueKey) ∉ adm.values

theorem othered_of_not_past {past : String → String → Bool} (h : ∀ k v, d.lookup k = some v → past k v = false) :
    othered past d = d := by
  refine GoMap.assignSome_eq_self d (fun k v hlookup => ?_)
  rw [h k v hlookup, if_neg Bool.false_ne_true]

theorem isTuple_formatDims : isTuple (formatDims d) = true ↔ d.keys ≠ [] := by
  refine ⟨fun htuple hnil => ?_, containsChar_formatDims⟩
  rw [formatDims_of_keys_eq_nil hnil] at htuple
  cases htuple

theorem pastDims_eq (hfolded : (admitDims v.dims (p.dimCall (inst.keys rows))).1.folded ≠ 0) :
    inst.pastDims (admitDims v.dims (p.dimCall (inst.keys rows))).1 r =
      (parseDims (vendorKey r.datapointAttributes inst).label).entries.filter
        (fun e => p.pastCap rows inst v (vendorKey r.datapointAttributes inst).name e.1 e.2) := by
  refine filter_congr (fun e _ => ?_)
  simp only [Pipeline.pastCap, ne_eq, hfolded, not_false_eq_true, true_and]

/-- A row's tuple becomes the one of its dimensions with the values past the cap replaced. -/
theorem label_dimRewrite (hmetric : r.metricName = inst.metric) (hd : IdentifierPairs d)
    (hlabel : (vendorKey r.datapointAttributes inst).label = formatDims d) :
    (vendorKey (p.dimRewrite rows inst v r).datapointAttributes inst).label =
      formatDims (othered (p.pastCap rows inst v (vendorKey r.datapointAttributes inst).name) d) := by
  have hsame := same_parseDims_formatDims hd.readable
  by_cases hfolded : (admitDims v.dims (p.dimCall (inst.keys rows))).1.folded = 0
  · rw [dimRewrite_of_room hfolded, id_eq, hlabel, othered_of_not_past (fun k w _ => ?_)]
    simp only [Pipeline.pastCap, ne_eq, hfolded, not_true_eq_false, false_and, decide_false]
  have hfold : formatDims (replaceDims (parseDims (formatDims d))
      (inst.pastDims (admitDims v.dims (p.dimCall (inst.keys rows))).1 r)) =
      formatDims (othered (p.pastCap rows inst v (vendorKey r.datapointAttributes inst).name) d) := by
    rw [pastDims_eq hfolded, hlabel]
    exact formatDims_eq_of_same (replaceDims_same_othered.trans (othered_same hsame))
  rw [Pipeline.dimRewrite, if_neg hfolded, foldDimValues_eq, if_neg (not_not_intro hmetric), hlabel]
  split_ifs with htuple hpast
  · rw [hpast] at hfold
    rw [← hfold, hlabel]
    exact (formatDims_eq_of_same hsame).symm
  · rw [label_relabel, hfold]
  · have hnil : d.keys = [] := by
      by_contra hne
      exact htuple (isTuple_formatDims.mpr hne)
    rw [hlabel, othered_of_not_past (fun k w hlookup => ?_)]
    have hmem : k ∈ d.keys := AList.mem_keys.mp (AList.lookup_isSome.mp (by rw [hlookup]; rfl))
    rw [hnil] at hmem
    cases hmem

end Rows

/-- Tuples of identifiers stand for the dimensions they are made from, also with values folded, and
the cap on dimension values writes the tuple of the folded dimensions. -/
theorem dim_tuples_canonical :
    (∀ d : GoMap String String, IdentifierPairs d → GoMap.Same (parseDims (formatDims d)) d) ∧
    (∀ d d' : GoMap String String, GoMap.Same d d' → formatDims d = formatDims d') ∧
    (∀ d d' : GoMap String String, IdentifierPairs d → IdentifierPairs d' → formatDims d = formatDims d' →
      GoMap.Same d d') ∧
    (∀ d : GoMap String String, IdentifierPairs d → (isTuple (formatDims d) = true ↔ d.keys ≠ [])) ∧
    (∀ d : GoMap String String, IdentifierPairs d → formatDims (parseDims (formatDims d)) = formatDims d ∧
      ∀ past, formatDims (othered past (parseDims (formatDims d))) = formatDims (othered past d) ∧
        formatDims (parseDims (formatDims (othered past d))) = formatDims (othered past d)) ∧
    ∀ (o : MapOrder) (p : Pipeline) (rows : List MetricRow) (inst : VendorInstrument) (v : Vocabulary) (i : ℕ)
      (r : MetricRow) (d : GoMap String String), rows[i]? = some r → r.metricName = inst.metric → IdentifierPairs d →
      (vendorKey r.datapointAttributes inst).label = formatDims d →
      ((p.capDimValuesIn o rows inst v).1[i]?).map (fun r' => (vendorKey r'.datapointAttributes inst).label) =
        some (formatDims (othered (p.pastCap rows inst v (vendorKey r.datapointAttributes inst).name) d)) := by
  have hround : ∀ d : GoMap String String, IdentifierPairs d → GoMap.Same (parseDims (formatDims d)) d :=
    fun d hd => same_parseDims_formatDims hd.readable
  refine ⟨hround, fun d d' => formatDims_eq_of_same, ?_, fun d _ => isTuple_formatDims, ?_, ?_⟩
  · intro d d' hd hd' hsame
    have hparsed := hround d hd
    rw [hsame] at hparsed
    exact hparsed.symm.trans (hround d' hd')
  · intro d hd
    refine ⟨formatDims_eq_of_same (hround d hd), fun past => ⟨?_, ?_⟩⟩
    · exact formatDims_eq_of_same (othered_same (hround d hd))
    · exact formatDims_eq_of_same (hround _ (hd.othered past))
  · intro o p rows inst v i r d hr hmetric hd hlabel
    rw [capDimValuesIn_eq o (List.Perm.refl rows), getElem?_map, hr, Option.map_some, Option.map_some,
      label_dimRewrite hmetric hd hlabel]

def platform : GoMap String String := ((∅ : GoMap String String).insert "os" "linux").insert "arch" "amd64"

theorem identifierPairs_platform : IdentifierPairs platform := by
  have hentries : ∀ e ∈ platform.entries, IdentifierText e.1 ∧ IdentifierText e.2 := by
    simp [platform, IdentifierText, lowerOrDigit]
  exact fun k v hlookup => hentries ⟨k, v⟩ (AList.mem_lookup_iff.mp hlookup)

/-- Room for one value of a key: of two rows the second is folded. -/
theorem dim_tuples_canonical_platform :
    let p : Pipeline := { samplePipeline with
      tenant := { samplePipeline.tenant with
        config := { samplePipeline.tenant.config with metricCaps := { maxDimValuesPerKey := some 1 } } } }
    let inst := p.counterInstrument
    let row (label : String) : MetricRow :=
      { metricName := inst.metric, datapointAttributes := Finmap.singleton inst.labelAttr (.str label) }
    let rows := [row "os=darwin", row "arch=amd64;os=linux"]
    GoMap.Same (parseDims "arch=amd64;os=linux") platform ∧
      ((p.capDimValuesIn .insertion rows inst .empty).1[1]?).map (fun r => (vendorKey r.datapointAttributes inst).label) =
        some "arch=amd64;os=other" := by
  intro p inst row rows
  obtain ⟨hround, -, -, -, -, hcap⟩ := dim_tuples_canonical
  have hformat : formatDims platform = "arch=amd64;os=linux" := by decide
  refine ⟨hformat ▸ hround platform identifierPairs_platform, ?_⟩
  rw [hcap .insertion p rows inst .empty 1 _ platform rfl rfl identifierPairs_platform hformat.symm]
  decide

end argvio.otlp
