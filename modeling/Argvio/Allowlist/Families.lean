import Argvio.Allowlist.Accepted

open gostrings List

namespace argvio.allowlist

section Attributes

variable {compile : RegexpCompiler} {tierRanks : GoMap String Int}

variable {entries : List (Σ _ : String, AttrSpec)} {attributes attributes' : GoMap String AttrDef}
  {families families' : List AttrDef}

/-- The attribute loop leaves under a key what its entry was finalized to. -/
theorem finalizeAttributes_lookup (hnodup : entries.NodupKeys)
    (h : finalizeAttributes compile tierRanks entries attributes families = .ok (attributes', families')) (k : String) :
    (entries.dlookup k = none ∧ attributes'.lookup k = attributes.lookup k) ∨
      ∃ spec d, entries.dlookup k = some spec ∧ finalizeAttribute compile tierRanks k spec = .ok d ∧
        attributes'.lookup k = some d := by
  induction entries generalizing attributes families with
  | nil =>
    cases h
    exact .inl ⟨rfl, rfl⟩
  | cons e rest ih =>
    obtain ⟨a, spec⟩ := e
    unfold finalizeAttributes at h
    rw [Except.bind_eq_ok_iff] at h
    obtain ⟨d, hd, h⟩ := h
    have hrest := ih (nodupKeys_of_nodupKeys_cons hnodup) h
    by_cases hk : k = a
    · subst hk
      have hfresh := dlookup_eq_none.mpr (notMem_keys_of_nodupKeys_cons hnodup)
      rcases hrest with ⟨_, hlookup⟩ | ⟨spec', _, hspec', _⟩
      · rw [AList.lookup_insert] at hlookup
        exact .inr ⟨spec, d, dlookup_cons_eq .., hd, hlookup⟩
      · rw [hfresh] at hspec'
        cases hspec'
    · rw [dlookup_cons_ne _ _ hk]
      rwa [AList.lookup_insert_ne hk] at hrest

/-- The attribute loop collects the entries whose key has the family suffix. -/
theorem finalizeAttributes_families
    (h : finalizeAttributes compile tierRanks entries attributes families = .ok (attributes', families'))
    {f : AttrDef} : f ∈ families' ↔ f ∈ families ∨
      ∃ e ∈ entries, hasSuffix e.1 familySuffix = true ∧ finalizeAttribute compile tierRanks e.1 e.2 = .ok f := by
  induction entries generalizing attributes families with
  | nil =>
    cases h
    simp
  | cons e rest ih =>
    obtain ⟨a, spec⟩ := e
    unfold finalizeAttributes at h
    rw [Except.bind_eq_ok_iff] at h
    obtain ⟨d, hd, h⟩ := h
    simp only [ih h, mem_cons, exists_eq_or_imp]
    rw [← or_assoc]
    refine or_congr_left ?_
    split
    · rename_i hsuffix
      rw [mem_append, mem_singleton, hd]
      simp [hsuffix, eq_comm]
    · rename_i hsuffix
      simp [hsuffix]

/-- A family's key ends in one more `*` than its prefix. -/
theorem exists_family_lead {fam : String} (h : hasSuffix fam familySuffix = true) : ∃ lead, fam = lead ++ "*" := by
  obtain ⟨lead, rfl⟩ := hasSuffix_iff.mp h
  refine ⟨lead ++ ".", ?_⟩
  rw [String.append_assoc]
  rfl

end Attributes

/-- An accepted attribute carries its compiled expressions. -/
theorem finalizeAttribute_patterns {compile : RegexpCompiler} {tierRanks : GoMap String Int} {k : String}
    {spec : AttrSpec} {d : AttrDef} (h : finalizeAttribute compile tierRanks k spec = .ok d) :
    compilePattern compile k spec = .ok d.compiledPattern ∧
      compileKeyPattern compile k spec = .ok d.compiledKeyPattern := by
  unfold finalizeAttribute at h
  split at h
  · cases h
  rw [Except.bind_eq_ok_iff] at h
  obtain ⟨pattern, hpattern, h⟩ := h
  rw [Except.bind_eq_ok_iff] at h
  obtain ⟨keyPattern, hkeyPattern, h⟩ := h
  cases h
  exact ⟨hpattern, hkeyPattern⟩

section Schema

variable {compile : RegexpCompiler} {file : SchemaFile} {s : Schema}

/-- An accepted schema defines exactly the attributes of its file. -/
theorem finalize_lookup_iff (h : finalize compile file = .ok s) {k : String} {d : AttrDef} :
    s.attributes.lookup k = some d ↔
      ∃ spec, file.attributes.lookup k = some spec ∧ finalizeAttribute compile s.tierRanks k spec = .ok d := by
  obtain ⟨families, hattributes, _⟩ := finalize_ok h
  rcases finalizeAttributes_lookup file.attributes.nodupKeys hattributes k with
    ⟨hnone, hlookup⟩ | ⟨spec, d', hspec, hd', hlookup⟩
  · have hempty : file.attributes.lookup k = none := hnone
    simp [hlookup, hempty]
  · have hentry : file.attributes.lookup k = some spec := hspec
    simp [hlookup, hentry, hd']

theorem finalize_standardResSet (h : finalize compile file = .ok s) :
    s.standardResSet = file.standardResourceAttributes.toFinset := by
  unfold finalize at h
  split at h
  · cases h
  simp only [Except.bind_eq_ok_iff] at h
  obtain ⟨_, _, _, _, _, _, _, _, h⟩ := h
  cases h
  rfl

/-- A family: a defined attribute whose key ends in `.*`. -/
def Schema.IsFamily (s : Schema) (fam : String) : Prop :=
  hasSuffix fam familySuffix = true ∧ ∃ d, s.attributes.lookup fam = some d

/-- The family `fam` covers a key: its prefix leads the key and its `key_pattern`
matches the remainder. -/
def Schema.FamilyCovers (s : Schema) (fam key : String) : Prop :=
  s.IsFamily fam ∧ ∃ d, s.attributes.lookup fam = some d ∧ Schema.familyCovers d key = true

/-- What the lookup finds is a family that covers the key. -/
theorem familyCovers_of_familyOf (h : finalize compile file = .ok s) {key fam : String}
    (hfam : s.familyOf key = some fam) : s.FamilyCovers fam key := by
  unfold Schema.familyOf at hfam
  split at hfam
  · cases hfam
  obtain ⟨f, hfind, rfl⟩ := Option.map_eq_some_iff.mp hfam
  have hmem := mem_of_find?_eq_some hfind
  have hdefined := (finalize_valid h).family_defined hmem
  obtain ⟨families, hattributes, hfamilies, _⟩ := finalize_ok h
  rw [hfamilies, mem_insertionSort, finalizeAttributes_families hattributes] at hmem
  have hsuffix : hasSuffix f.key familySuffix = true := by
    rcases hmem with hnil | ⟨e, _, hsuffix, hf⟩
    · cases hnil
    · rw [(finalizeAttribute_ok hf).1]
      exact hsuffix
  have hcovers := find?_some hfind
  exact ⟨⟨hsuffix, f, hdefined⟩, f, hdefined, hcovers⟩

/-- A definition is the key's own or that of a family which covers the key. -/
theorem attrDefFor_cases (h : finalize compile file = .ok s) {key : String} {d : AttrDef}
    (hd : s.attrDefFor key = some d) :
    s.attributes.lookup key = some d ∨
      ∃ fam d', s.FamilyCovers fam key ∧ s.attributes.lookup fam = some d' ∧ d = { d' with key := key } := by
  unfold Schema.attrDefFor at hd
  split at hd
  · rename_i d' hown
    cases hd
    exact .inl hown
  · split at hd
    · rename_i fam hfam
      obtain ⟨d', hd', rfl⟩ := Option.map_eq_some_iff.mp hd
      exact .inr ⟨fam, d', familyCovers_of_familyOf h hfam, hd', rfl⟩
    · cases hd

end Schema

end argvio.allowlist
