import Argvio.Allowlist.Families

open gostrings List

namespace argvio.allowlist

/-- In a sorted list the first element that passes a test comes before all others that do. -/
theorem rel_of_find?_eq_some {α : Type} {r : α → α → Prop} {p : α → Bool} {l : List α} {a b : α} (hsorted : l.Pairwise r)
    (hfind : l.find? p = some a) (hb : b ∈ l) (hpb : p b = true) : b = a ∨ r a b := by
  obtain ⟨_, before, after, rfl, hbefore⟩ := find?_eq_some_iff_append.mp hfind
  rcases mem_append.mp hb with hb | hb
  · have hnot := hbefore b hb
    rw [hpb] at hnot
    cases hnot
  · have hcons := (pairwise_append.mp hsorted).2.1
    rcases mem_cons.mp hb with heq | hb
    · exact .inl heq
    · exact .inr (rel_of_pairwise_cons hcons hb)

section Order

variable {a b c : AttrDef}

theorem familyLe_iff : familyLe a b = true ↔ len b.key < len a.key ∨ len a.key = len b.key ∧ a.key ≤ b.key := by
  unfold familyLe
  by_cases hlen : len a.key = len b.key
  · simp [hlen]
  · simp [hlen]

theorem familyLe_total (a b : AttrDef) : familyLe a b = true ∨ familyLe b a = true := by
  rw [familyLe_iff, familyLe_iff]
  rcases lt_trichotomy (len a.key) (len b.key) with hlt | heq | hgt
  · exact .inr (.inl hlt)
  · rcases le_total a.key b.key with hle | hle
    · exact .inl (.inr ⟨heq, hle⟩)
    · exact .inr (.inr ⟨heq.symm, hle⟩)
  · exact .inl (.inl hgt)

theorem familyLe_trans (hab : familyLe a b = true) (hbc : familyLe b c = true) : familyLe a c = true := by
  rw [familyLe_iff] at hab hbc ⊢
  rcases hab with hab | ⟨hab, hleab⟩
  · left
    omega
  · rcases hbc with hbc | ⟨hbc, hlebc⟩
    · left
      omega
    · exact .inr ⟨hab.trans hbc, le_trans hleab hlebc⟩

theorem pairwise_sorted_families (families : List AttrDef) :
    (families.insertionSort (fun a b => familyLe a b)).Pairwise (fun a b => familyLe a b) := by
  have htotal : Std.Total (fun a b => familyLe a b = true) := ⟨familyLe_total⟩
  have htrans : IsTrans AttrDef (fun a b => familyLe a b = true) := ⟨fun _ _ _ => familyLe_trans⟩
  exact pairwise_insertionSort _ families

end Order

/-- The family `fam` of a schema file covers a key: the key starts with the family's
prefix, its key without the `*`, and the remainder matches the family's `key_pattern`. -/
def SchemaFile.Covers (file : SchemaFile) (compile : RegexpCompiler) (fam key : String) : Prop :=
  ∃ spec re lead rest, file.attributes.lookup fam = some spec ∧ hasSuffix fam familySuffix = true ∧
    compile spec.keyPattern = .ok re ∧ fam = lead ++ "*" ∧ key = lead ++ rest ∧ re.matchString rest = true

/-- Of the families that cover a key one is the longest. -/
theorem SchemaFile.Covers.unique {file : SchemaFile} {compile : RegexpCompiler} {fam g key : String}
    (hfam : file.Covers compile fam key) (hg : file.Covers compile g key) (hlen : len fam = len g) : fam = g := by
  obtain ⟨_, _, lead, rest, _, _, _, rfl, hkey, _⟩ := hfam
  obtain ⟨_, _, lead', rest', _, _, _, rfl, hkey', _⟩ := hg
  rw [len_append, len_append] at hlen
  rw [eq_of_append_eq (hkey.symm.trans hkey') (by omega)]

theorem compileKeyPattern_family {compile : RegexpCompiler} {k : String} {spec : AttrSpec} {pattern : Option Regexp}
    (h : compileKeyPattern compile k spec = .ok pattern) (hsuffix : hasSuffix k familySuffix = true) :
    ∃ re, compile spec.keyPattern = .ok re ∧ pattern = some re := by
  unfold compileKeyPattern at h
  simp only [hsuffix, true_and, not_true_eq_false, false_and, if_false, if_true] at h
  split at h
  · cases h
  cases hre : compile spec.keyPattern with
  | error err =>
    rw [hre] at h
    cases h
  | ok re =>
    rw [hre] at h
    cases h
    exact ⟨re, rfl, rfl⟩

theorem familyCovers_iff {f : AttrDef} {lead key : String} {re : Regexp} (hkey : f.key = lead ++ "*")
    (hre : f.compiledKeyPattern = some re) :
    Schema.familyCovers f key = true ↔ ∃ rest, key = lead ++ rest ∧ re.matchString rest = true := by
  unfold Schema.familyCovers
  rw [hkey, trimSuffix_append, hre]
  cases hcut : cutPrefix key lead with
  | none =>
    refine iff_of_false nofun ?_
    rintro ⟨rest, hrest, _⟩
    rw [cutPrefix_eq_some_iff.mpr hrest] at hcut
    cases hcut
  | some rest =>
    rw [cutPrefix_eq_some_iff] at hcut
    subst hcut
    constructor
    · intro hmatch
      exact ⟨rest, rfl, hmatch⟩
    · rintro ⟨rest', heq, hmatch⟩
      rwa [(String.append_right_inj lead).mp heq]

section Schema

variable {compile : RegexpCompiler} {file : SchemaFile} {s : Schema}

theorem mem_families_iff (h : finalize compile file = .ok s) {f : AttrDef} :
    f ∈ s.families ↔ ∃ spec, file.attributes.lookup f.key = some spec ∧ hasSuffix f.key familySuffix = true ∧
      finalizeAttribute compile s.tierRanks f.key spec = .ok f := by
  obtain ⟨families, hattributes, hfamilies, _⟩ := finalize_ok h
  rw [hfamilies, mem_insertionSort, finalizeAttributes_families hattributes]
  constructor
  · rintro (hnil | ⟨⟨k, spec⟩, he, hsuffix, hf⟩)
    · cases hnil
    · have hkey := (finalizeAttribute_ok hf).1
      rw [hkey]
      exact ⟨spec, AList.mem_lookup_iff.mpr he, hsuffix, hf⟩
  · rintro ⟨spec, hspec, hsuffix, hf⟩
    exact .inr ⟨⟨f.key, spec⟩, AList.mem_lookup_iff.mp hspec, hsuffix, hf⟩

theorem exists_finalizeAttribute (h : finalize compile file = .ok s) {k : String} {spec : AttrSpec}
    (hspec : file.attributes.lookup k = some spec) : ∃ d, finalizeAttribute compile s.tierRanks k spec = .ok d := by
  obtain ⟨families, hattributes, _⟩ := finalize_ok h
  rcases finalizeAttributes_lookup file.attributes.nodupKeys hattributes k with ⟨hnone, _⟩ | ⟨spec', d, hspec', hd, _⟩
  · have hempty : file.attributes.lookup k = none := hnone
    rw [hspec] at hempty
    cases hempty
  · have hentry : file.attributes.lookup k = some spec' := hspec'
    rw [hspec] at hentry
    cases hentry
    exact ⟨d, hd⟩

/-- The families that cover a key are found among the collected ones. -/
theorem covers_iff (h : finalize compile file = .ok s) {fam key : String} :
    file.Covers compile fam key ↔ ∃ f ∈ s.families, f.key = fam ∧ Schema.familyCovers f key = true := by
  constructor
  · rintro ⟨spec, re, lead, rest, hspec, hsuffix, hre, rfl, rfl, hmatch⟩
    obtain ⟨f, hf⟩ := exists_finalizeAttribute h hspec
    have hkey := (finalizeAttribute_ok hf).1
    obtain ⟨re', hre', hpattern⟩ := compileKeyPattern_family (finalizeAttribute_patterns hf).2 hsuffix
    rw [hre] at hre'
    cases hre'
    refine ⟨f, (mem_families_iff h).mpr ⟨spec, ?_⟩, hkey, (familyCovers_iff hkey hpattern).mpr ⟨rest, rfl, hmatch⟩⟩
    rw [hkey]
    exact ⟨hspec, hsuffix, hf⟩
  · rintro ⟨f, hf, rfl, hcovers⟩
    obtain ⟨spec, hspec, hsuffix, hdef⟩ := (mem_families_iff h).mp hf
    obtain ⟨re, hre, hpattern⟩ := compileKeyPattern_family (finalizeAttribute_patterns hdef).2 hsuffix
    obtain ⟨lead, hkey⟩ := exists_family_lead hsuffix
    obtain ⟨rest, hrest, hmatch⟩ := (familyCovers_iff hkey hpattern).mp hcovers
    exact ⟨spec, re, lead, rest, hspec, hsuffix, hre, hkey, hrest, hmatch⟩

variable {key : String}

section Undefined

variable (h : finalize compile file = .ok s) (hkey : key ∉ file.attributes)

include h hkey

theorem lookup_eq_none : s.attributes.lookup key = none := by
  cases hlookup : s.attributes.lookup key with
  | none => rfl
  | some d =>
    obtain ⟨spec, hspec, _⟩ := (finalize_lookup_iff h).mp hlookup
    rw [AList.lookup_eq_none.mpr hkey] at hspec
    cases hspec

theorem familyOf_eq : s.familyOf key = (s.families.find? (fun f => Schema.familyCovers f key)).map (·.key) := by
  unfold Schema.familyOf
  rw [lookup_eq_none h hkey]

theorem familyOf_eq_none_iff : s.familyOf key = none ↔ ∀ fam, ¬ file.Covers compile fam key := by
  rw [familyOf_eq h hkey, Option.map_eq_none_iff, find?_eq_none]
  constructor
  · intro hnone fam hcovers
    obtain ⟨f, hf, _, hcovers⟩ := (covers_iff h).mp hcovers
    exact hnone f hf hcovers
  · intro hnone f hf hcovers
    exact hnone f.key ((covers_iff h).mpr ⟨f, hf, rfl, hcovers⟩)

/-- The lookup finds the longest of the families that cover a key. -/
theorem longest_of_familyOf {fam : String} (hfam : s.familyOf key = some fam) :
    file.Covers compile fam key ∧ ∀ g, file.Covers compile g key → len g ≤ len fam := by
  rw [familyOf_eq h hkey] at hfam
  obtain ⟨f, hfind, rfl⟩ := Option.map_eq_some_iff.mp hfam
  have hsorted : s.families.Pairwise (fun a b => familyLe a b) := by
    obtain ⟨families, _, hfamilies, _⟩ := finalize_ok h
    rw [hfamilies]
    exact pairwise_sorted_families families
  have hfound := find?_some hfind
  refine ⟨(covers_iff h).mpr ⟨f, mem_of_find?_eq_some hfind, rfl, hfound⟩, ?_⟩
  intro g hg
  obtain ⟨f', hf', rfl, hcovers⟩ := (covers_iff h).mp hg
  rcases rel_of_find?_eq_some hsorted hfind hf' hcovers with rfl | hle
  · exact le_refl _
  · rcases familyLe_iff.mp hle with hlt | ⟨heq, _⟩
    · exact hlt.le
    · exact heq.ge

theorem familyOf_eq_some_iff {fam : String} :
    s.familyOf key = some fam ↔ file.Covers compile fam key ∧ ∀ g, file.Covers compile g key → len g ≤ len fam := by
  refine ⟨longest_of_familyOf h hkey, ?_⟩
  rintro ⟨hcovers, hlongest⟩
  cases hfound : s.familyOf key with
  | none => exact absurd hcovers ((familyOf_eq_none_iff h hkey).mp hfound fam)
  | some g =>
    obtain ⟨hg, hglongest⟩ := longest_of_familyOf h hkey hfound
    rw [hg.unique hcovers (le_antisymm (hlongest g hg) (hglongest fam hcovers))]

end Undefined

end Schema

section Order

variable {compile : RegexpCompiler} {tierRanks : GoMap String Int}

theorem finalizeAttributes_accepts_iff {entries : List (Σ _ : String, AttrSpec)} {attributes : GoMap String AttrDef}
    {families : List AttrDef} :
    (∃ out, finalizeAttributes compile tierRanks entries attributes families = .ok out) ↔
      ∀ e ∈ entries, ∃ d, finalizeAttribute compile tierRanks e.1 e.2 = .ok d := by
  induction entries generalizing attributes families with
  | nil => exact iff_of_true ⟨_, rfl⟩ (by simp)
  | cons e rest ih =>
    rw [forall_mem_cons]
    unfold finalizeAttributes
    cases hd : finalizeAttribute compile tierRanks e.1 e.2 with
    | error err =>
      refine iff_of_false ?_ ?_
      · rintro ⟨out, hout⟩
        cases hout
      · rintro ⟨⟨d, hok⟩, _⟩
        cases hok
    | ok d =>
      refine Iff.trans ?_ (and_iff_right ⟨d, rfl⟩).symm
      exact ih

variable {attributes attributes' : GoMap String AttrDef}

/-- The checks of the event lists only ask which attributes are defined. -/
theorem checkAttrRefs_of_defined (hdefined : ∀ k, k ∈ attributes → k ∈ attributes') {owner : AttrOwner}
    {keys : List String} (h : checkAttrRefs attributes owner keys = .ok ()) :
    checkAttrRefs attributes' owner keys = .ok () := by
  rw [checkAttrRefs_eq_ok_iff] at h ⊢
  intro k hk
  have hmem := hdefined k (AList.lookup_isSome.mp (Option.isSome_iff_exists.mpr (h k hk)))
  exact Option.isSome_iff_exists.mp (AList.lookup_isSome.mpr hmem)

theorem checkMetric_of_defined (hdefined : ∀ k, k ∈ attributes → k ∈ attributes') {m : MetricDef}
    (h : checkMetric attributes m = .ok ()) : checkMetric attributes' m = .ok () := by
  unfold checkMetric at h ⊢
  rw [Except.bind_eq_ok_iff] at h ⊢
  obtain ⟨_, hrefs, hrest⟩ := h
  exact ⟨(), checkAttrRefs_of_defined hdefined hrefs, hrest⟩

variable {file : SchemaFile} {s : Schema} {order : GoMap String AttrSpec}

theorem lookup_of_perm (horder : order.entries.Perm file.attributes.entries) (k : String) :
    order.lookup k = file.attributes.lookup k := perm_dlookup k order.nodupKeys horder

/-- A file is accepted in every order of its attributes or in none. -/
theorem finalize_accepts_of_perm (h : finalize compile file = .ok s)
    (horder : order.entries.Perm file.attributes.entries) :
    ∃ s', finalize compile { file with attributes := order } = .ok s' := by
  have htiers : (tierIndex file.consentTiers).entries ≠ [] := by
    intro hempty
    unfold finalize at h
    rw [if_pos hempty] at h
    cases h
  obtain ⟨families, hattributes, _, hranks, _, _, _, _, hmetrics, hspans, hlogs⟩ := finalize_ok h
  rw [hranks] at hattributes
  obtain ⟨⟨attributes', families'⟩, hattributes'⟩ : ∃ out,
      finalizeAttributes compile (tierIndex file.consentTiers) order.entries ∅ [] = .ok out := by
    rw [finalizeAttributes_accepts_iff]
    intro e he
    exact finalizeAttributes_accepts_iff.mp ⟨_, hattributes⟩ e (horder.mem_iff.mp he)
  have hdefined : ∀ k, k ∈ s.attributes → k ∈ attributes' := by
    intro k hk
    obtain ⟨d, hd⟩ := Option.isSome_iff_exists.mp (AList.lookup_isSome.mpr hk)
    obtain ⟨spec, hspec, _⟩ := (finalize_lookup_iff h).mp hd
    have hentry : order.entries.dlookup k = some spec := (lookup_of_perm horder k).trans hspec
    rcases finalizeAttributes_lookup order.nodupKeys hattributes' k with ⟨hnone, _⟩ | ⟨_, d', _, _, hd'⟩
    · rw [hentry] at hnone
      cases hnone
    · exact AList.lookup_isSome.mp (Option.isSome_iff_exists.mpr ⟨d', hd'⟩)
  have hmetrics' := Except.forM_eq_ok_iff.mpr fun m hm => checkMetric_of_defined hdefined (hmetrics m hm)
  have hspans' := Except.forM_eq_ok_iff.mpr fun sp hsp => checkAttrRefs_of_defined hdefined (hspans sp hsp)
  have hlogs' := Except.forM_eq_ok_iff.mpr fun l hl => checkAttrRefs_of_defined hdefined (hlogs l hl)
  unfold finalize
  rw [if_neg htiers]
  simp only [Except.bind_eq_ok_iff]
  exact ⟨_, _, hattributes', (), hmetrics', (), hspans', (), hlogs', rfl⟩

theorem covers_order (horder : order.entries.Perm file.attributes.entries) {fam key : String} :
    { file with attributes := order }.Covers compile fam key ↔ file.Covers compile fam key := by
  unfold SchemaFile.Covers
  dsimp only
  rw [lookup_of_perm horder]

theorem familyOf_order (h : finalize compile file = .ok s) (horder : order.entries.Perm file.attributes.entries)
    {s' : Schema} (h' : finalize compile { file with attributes := order } = .ok s') {key : String}
    (hkey : key ∉ file.attributes) : s'.familyOf key = s.familyOf key := by
  have hkey' : key ∉ order := by
    rw [← AList.lookup_eq_none, lookup_of_perm horder, AList.lookup_eq_none]
    exact hkey
  ext fam
  rw [familyOf_eq_some_iff h hkey, familyOf_eq_some_iff h' hkey']
  simp only [covers_order horder]

end Order

section Allowed

variable {compile : RegexpCompiler} {file : SchemaFile} {s : Schema}

/-- The definition that `AttrDefFor` finds: the key's own, or its family's under the key. -/
def Schema.DefinedBy (s : Schema) (k : String) (d : AttrDef) : Prop :=
  s.attributes.lookup k = some d ∨
    ∃ fam d', s.familyOf k = some fam ∧ s.attributes.lookup fam = some d' ∧ d = { d' with key := k }

theorem attrDefFor_of_isAllowed (h : finalize compile file = .ok s) {owner : AttrOwner} {keys : List String}
    (hkeys : checkAttrRefs s.attributes owner keys = .ok ()) {k : String}
    (hallowed : s.isAllowed (allowedSet keys) k = true) :
    ∃ d r, s.attrDefFor k = some d ∧ s.DefinedBy k d ∧ s.tierRank d.minTier = some r := by
  have hvalid := finalize_valid h
  obtain ⟨d, r, hd, hr⟩ :=
    hvalid.attrDefFor_of_allowed (checkAttrRefs_eq_ok_iff.mp hkeys) (Schema.isAllowed_iff.mp hallowed)
  refine ⟨d, r, hd, ?_, hr⟩
  unfold Schema.attrDefFor at hd
  split at hd
  · rename_i d' hown
    cases hd
    exact .inl hown
  · split at hd
    · rename_i fam hfam
      obtain ⟨d', hd', rfl⟩ := Option.map_eq_some_iff.mp hd
      exact .inr ⟨fam, d', hfam, hd', rfl⟩
    · cases hd

/-- For a key without a definition of its own the lookup finds the covering family with the
longest prefix, in whatever order the attributes are visited; and every allowed key has a
definition with a known tier. -/
theorem familyOf_most_specific (h : finalize compile file = .ok s) :
    (∀ key, key ∉ file.attributes →
      (∀ fam, s.familyOf key = some fam ↔
        file.Covers compile fam key ∧ ∀ g, file.Covers compile g key → len g ≤ len fam) ∧
      (s.familyOf key = none ↔ ∀ fam, ¬ file.Covers compile fam key) ∧
      ∀ order : GoMap String AttrSpec, order.entries.Perm file.attributes.entries →
        ∃ s', finalize compile { file with attributes := order } = .ok s' ∧ s'.familyOf key = s.familyOf key) ∧
    ∀ owner keys k, checkAttrRefs s.attributes owner keys = .ok () → s.isAllowed (allowedSet keys) k = true →
      ∃ d r, s.attrDefFor k = some d ∧ s.DefinedBy k d ∧ s.tierRank d.minTier = some r := by
  constructor
  · intro key hkey
    refine ⟨fun fam => familyOf_eq_some_iff h hkey, familyOf_eq_none_iff h hkey, fun order horder => ?_⟩
    obtain ⟨s', h'⟩ := finalize_accepts_of_perm h horder
    exact ⟨s', h', familyOf_order h horder h' hkey⟩
  · intro owner keys k hkeys hallowed
    exact attrDefFor_of_isAllowed h hkeys hallowed

end Allowed

/-- Two families, one inside the other. -/
def nestedFile : SchemaFile where
  supportedSignalTypes := ["logs"]
  standardResourceAttributes := []
  consentTiers := [⟨"basic", 0⟩]
  attributes := GoMap.putAll ∅ [
    ("cli.*", { type := .string, keyPattern := "^.+$", minTier := "basic" }),
    ("cli.dim.*", { type := .string, keyPattern := "^.+$", minTier := "basic" })]
  metrics := []
  spans := []
  logs := []

/-- A stand-in for the expression `^.+$`. -/
def nonemptyCompile : RegexpCompiler := fun _ => .ok ⟨fun rest => rest ≠ ""⟩

theorem familyOf_most_specific_nested : ∃ s, finalize nonemptyCompile nestedFile = .ok s ∧
    s.familyOf "cli.dim.color" = some "cli.dim.*" ∧ nestedFile.Covers nonemptyCompile "cli.*" "cli.dim.color" ∧
    ∀ g, nestedFile.Covers nonemptyCompile g "cli.dim.color" → len g ≤ len "cli.dim.*" := by
  obtain ⟨s, hs⟩ : ∃ s, finalize nonemptyCompile nestedFile = .ok s := ⟨_, rfl⟩
  have hfam : s.familyOf "cli.dim.color" = some "cli.dim.*" := by
    cases hs
    decide +kernel
  obtain ⟨hspecific, -⟩ := (familyOf_most_specific hs).1 "cli.dim.color" (by decide +kernel)
  refine ⟨s, hs, hfam, ?_, ((hspecific "cli.dim.*").mp hfam).2⟩
  exact ⟨_, _, "cli.", "dim.color", rfl, by decide, rfl, by decide, by decide, by decide⟩

end argvio.allowlist
