import Argvio.Regex
import Argvio.Storage.DimCodec
import Argvio.Storage.DimQuery

open gostrings regex

namespace argvio.storage

/-- The value of a key in a stored label, if the label carries the key. -/
def dimValue (label key : String) : Option String :=
  if label = counterOther then some counterOther else (parseDims label).lookup key

/-- The regular expression `dimExpr` binds for a key. -/
def dimPattern (key : String) : String := "(?:^|;)" ++ quoteMeta key ++ "=([^;]*)"

section Sql

/-- `a = b` in SQL: unknown when a side is null. -/
def sqlEq {α : Type} [DecidableEq α] (a b : Option α) : Option Bool :=
  match a, b with
  | some x, some y => some (x = y)
  | _, _ => none

/-- `strpos` for one character: its first position, counted from one, or zero. -/
def strpos (s : Option String) (c : Char) : Option Int :=
  s.map (fun text => if c ∈ text.toList then text.toList.idxOf c + 1 else 0)

structure InvalidPattern where
  pattern : String
  deriving DecidableEq

/-- `substring(s from pattern)`: null when `s` is null or nothing in it matches. -/
def substringFrom (s : Option String) (pattern : String) : Except InvalidPattern (Option String) :=
  match s with
  | none => .ok none
  | some text =>
    match parse pattern.toList with
    | none => .error ⟨pattern⟩
    | some r => .ok ((r.substring text.toList).map String.ofList)

end Sql

/-- What the SQL expression for a key evaluates to on a label column. A branch of
the `CASE` is taken when its condition is true, not when it is unknown. -/
def dimExpr (col : Option String) (key : String) : Except InvalidPattern (Option String) :=
  let plain := if key = dimLabelKey then col else none
  if sqlEq col (some "other") = some true then .ok (some "other")
  else if sqlEq (strpos col '=') (some 0) = some true then .ok plain
  else substringFrom col (dimPattern key)

/-- The expression a key's pattern stands for. -/
def dimRegex (key : List Char) : Regex :=
  .seqOf (.alt (.seqOf [.start]) (.seqOf (Regex.literal [';'])) ::
    (Regex.literal (key ++ ['=']) ++ [.group (.seqOf [.many (.except ';')])]))

theorem hasGroup_dimRegex (key : List Char) : (dimRegex key).hasGroup = true := by
  have hseq (rs : List Regex) (r : Regex) : (Regex.seqOf (rs ++ [.group r])).hasGroup = true := by
    induction rs with
    | nil => rfl
    | cons a rs ih =>
      change (a.hasGroup || (Regex.seqOf (rs ++ [.group r])).hasGroup) = true
      rw [ih, Bool.or_true]
  exact hseq (_ :: Regex.literal (key ++ ['='])) _

theorem toList_quoteMeta (s : String) : (quoteMeta s).toList = s.toList.flatMap escape := by
  unfold quoteMeta
  rw [String.toList_ofList]
  refine List.flatMap_congr (fun c _ => ?_)
  change (if c ∈ special then ['\\', c] else [c]) = escape c
  by_cases hc : c ∈ special
  · rw [if_pos hc]
    simp [escape, ordinary, hc]
  · rw [if_neg hc]
    simp [escape, ordinary, hc]

/-- The pattern is well formed whatever the key is. -/
theorem parse_dimPattern (key : String) : parse (dimPattern key).toList = some (dimRegex key.toList) := by
  have hlead : lex ("(?:^|;)".toList ++ (key.toList.flatMap escape ++ "=([^;]*)".toList)) =
      (lex (key.toList.flatMap escape ++ "=([^;]*)".toList)).map
        ([.opened false, .caret, .bar, .set (.only ';'), .closed] ++ ·) := by
    simp [lex, ordinary, special, Option.map_map, Function.comp_def]
  have htail : lex "=([^;]*)".toList =
      some [.set (.only '='), .opened true, .set (.except ';'), .star, .closed] := by
    simp [lex, ordinary, special]
  unfold parse dimPattern
  rw [String.toList_append, String.toList_append, toList_quoteMeta, List.append_assoc, hlead, lex_flatMap_escape, htail]
  simp only [Option.map_some, Option.bind_some, List.cons_append, List.nil_append, parseTokens]
  rw [parseTokens_text]
  simp [parseTokens, Frame.push, Frame.close, Frame.body, Frame.new, Regex.altOf, dimRegex, Regex.literal, Regex.seqOf]

section Search

variable {key before after : List Char}

/-- What may stand before a key: nothing at the start of the label, or a separator. -/
def Leads (before lead : List Char) : Prop := before = [] ∧ lead = [] ∨ lead = [';']

variable {m : Match} {lead : List Char}

theorem mem_matchesAt_lead :
    m ∈ (Regex.alt (.seqOf [.start]) (.seqOf (Regex.literal [';']))).matchesAt before after ↔
      ∃ lead rest, Leads before lead ∧ after = lead ++ rest ∧ m = ⟨lead, none⟩ := by
  have hsep := @Regex.mem_matchesAt_literal [';'] [] before after m
  rw [List.append_nil] at hsep
  rw [Regex.matchesAt, List.mem_append, hsep]
  by_cases hbefore : before = [] <;>
    simp [Leads, Regex.seqOf, Regex.matchesAt, Match.append, hbefore, or_and_right, exists_or]

theorem mem_matchesAt_value :
    m ∈ (Regex.seqOf [.group (.seqOf [.many (.except ';')])]).matchesAt before after ↔
      ∃ value, value <+: after.takeWhile (· ≠ ';') ∧ m = ⟨value, some value⟩ := by
  have hset : (CharSet.except ';').mem = (fun c => decide (c ≠ ';')) := funext (fun c => CharSet.mem_except)
  simp [Regex.seqOf, Regex.matchesAt, Match.append, hset, eq_comm]

/-- Every match of a key's expression. -/
theorem mem_matchesAt_dimRegex :
    m ∈ (dimRegex key).matchesAt before after ↔
      ∃ lead rest value, Leads before lead ∧ after = lead ++ (key ++ '=' :: rest) ∧
        value <+: rest.takeWhile (· ≠ ';') ∧ m = ⟨lead ++ (key ++ '=' :: value), some value⟩ := by
  unfold dimRegex
  change m ∈ (Regex.seq _ (Regex.seqOf _)).matchesAt before after ↔ _
  rw [Regex.mem_matchesAt_seq]
  constructor
  · rintro ⟨x, hx, y, hy, rfl⟩
    obtain ⟨lead, tail, hlead, rfl, rfl⟩ := mem_matchesAt_lead.mp hx
    obtain ⟨rest, htail, n, hn, rfl⟩ := Regex.mem_matchesAt_literal.mp hy
    obtain ⟨value, hvalue, rfl⟩ := mem_matchesAt_value.mp hn
    refine ⟨lead, rest, value, hlead, ?_, hvalue, by simp [Match.append]⟩
    have htail' : tail = key ++ '=' :: rest := by simpa using htail
    rw [htail']
  · rintro ⟨lead, rest, value, hlead, rfl, hvalue, rfl⟩
    refine ⟨⟨lead, none⟩, mem_matchesAt_lead.mpr ⟨lead, _, hlead, rfl, rfl⟩, ⟨key ++ '=' :: value, some value⟩, ?_,
      by simp [Match.append]⟩
    refine Regex.mem_matchesAt_literal.mpr ⟨rest, by simp, ⟨value, some value⟩, ?_, by simp⟩
    exact mem_matchesAt_value.mpr ⟨value, hvalue, rfl⟩

/-- The separator in front of a key cannot be part of the key. -/
theorem Leads.unique {lead lead' x y : List Char} (h : Leads before lead) (h' : Leads before lead')
    (hx : ';' ∉ x) (hy : ';' ∉ y) {u v : List Char} (heq : lead ++ (x ++ '=' :: u) = lead' ++ (y ++ '=' :: v)) :
    lead = lead' := by
  have hhead (z w : List Char) (hz : ';' ∉ z) (t : List Char) : ';' :: t ≠ z ++ '=' :: w := by
    intro hcons
    cases z with
    | nil => simp at hcons
    | cons c z =>
      rw [List.cons_append, List.cons.injEq] at hcons
      exact hz (hcons.1 ▸ List.mem_cons_self)
  rcases h with ⟨_, rfl⟩ | rfl
  · rcases h' with ⟨_, rfl⟩ | rfl
    · rfl
    · exact absurd heq.symm (hhead x u hx _)
  · rcases h' with ⟨_, rfl⟩ | rfl
    · exact absurd heq (hhead y v hy _)
    · rfl

/-- Where a key stands, the match takes the whole value. -/
theorem longestAt_dimRegex (hkey : delimited.Clean ';' '=' key) (hlead : Leads before lead) (rest : List Char) :
    (dimRegex key).longestAt before (lead ++ (key ++ '=' :: rest)) =
      some ⟨lead ++ (key ++ '=' :: rest.takeWhile (· ≠ ';')), some (rest.takeWhile (· ≠ ';'))⟩ := by
  refine Regex.longestAt_eq_some (mem_matchesAt_dimRegex.mpr ⟨lead, rest, _, hlead, rfl, List.prefix_rfl, rfl⟩) ?_
  intro n hn hne
  obtain ⟨lead', rest', value, hlead', hafter, hvalue, rfl⟩ := mem_matchesAt_dimRegex.mp hn
  obtain rfl := hlead.unique hlead' hkey.1 hkey.1 hafter
  obtain ⟨_, rfl⟩ := (delimited.append_cons_eq_iff hkey.2 hkey.2).mp (List.append_cancel_left hafter)
  have hshort : value.length < (rest.takeWhile (· ≠ ';')).length := by
    refine lt_of_le_of_ne hvalue.length_le (fun hlen => hne ?_)
    rw [hvalue.eq_of_length hlen]
  simpa using hshort

variable {fields : List (List Char × List Char)} {f : List Char × List Char}

/-- Where another key stands, nothing matches. -/
theorem longestAt_dimRegex_of_ne (hkey : delimited.Clean ';' '=' key) (hlead : Leads before lead)
    (hf : delimited.Clean ';' '=' f.1) (hne : f.1 ≠ key) (tail : List Char) :
    (dimRegex key).longestAt before (lead ++ (delimited.field '=' f ++ tail)) = none := by
  refine Regex.longestAt_eq_none (fun m hm => hne ?_)
  obtain ⟨lead', rest, _, hlead', hafter, _, _⟩ := mem_matchesAt_dimRegex.mp hm
  rw [delimited.field, List.append_assoc, List.cons_append] at hafter
  obtain rfl := hlead.unique hlead' hf.1 hkey.1 hafter
  exact ((delimited.append_cons_eq_iff hf.2 hkey.2).mp (List.append_cancel_left hafter)).1

/-- Past the start of the label, a match begins with a separator. -/
theorem longestAt_dimRegex_of_inside (hbefore : before ≠ []) {c : Char} (hc : c ≠ ';') (after : List Char) :
    (dimRegex key).longestAt before (c :: after) = none := by
  refine Regex.longestAt_eq_none (fun m hm => ?_)
  obtain ⟨lead, rest, _, hlead, hafter, _, _⟩ := mem_matchesAt_dimRegex.mp hm
  rcases hlead with ⟨hnil, _⟩ | rfl
  · exact hbefore hnil
  · rw [List.cons_append, List.cons.injEq] at hafter
    exact hc hafter.1

/-- At a field the search ends with its value, or it goes on after the field. -/
theorem search_dimRegex_field (hkey : delimited.Clean ';' '=' key) (hlead : Leads before lead)
    (hf : delimited.Clean ';' '=' f.1 ∧ delimited.Clean ';' '=' f.2) (rest : List (List Char × List Char)) :
    ((dimRegex key).search before (lead ++ (delimited.field '=' f ++ delimited.more ';' '=' rest))).bind Match.capture =
      if f.1 = key then some f.2
      else
        ((dimRegex key).search (before ++ (lead ++ delimited.field '=' f)) (delimited.more ';' '=' rest)).bind
          Match.capture := by
  by_cases hname : f.1 = key
  · have hmatch := longestAt_dimRegex hkey hlead (f.2 ++ delimited.more ';' '=' rest)
    rw [delimited.takeWhile_value hf.2.1] at hmatch
    rw [if_pos hname, delimited.field, List.append_assoc, List.cons_append, hname, Regex.search_of_longestAt hmatch]
    rfl
  have hhere := longestAt_dimRegex_of_ne hkey hlead hf.1 hname (delimited.more ';' '=' rest)
  have hsep : ';' ∉ delimited.field '=' f := delimited.sep_notMem_field (by decide) ⟨hf.1.1, hf.2.1⟩
  rw [if_neg hname, ← List.append_assoc, Regex.search_append_of_none]
  intro x c y hsplit
  cases x with
  | nil =>
    rw [List.nil_append] at hsplit
    rw [List.append_nil, ← hsplit, List.append_assoc]
    exact hhere
  | cons d x =>
    -- Only the first character of the skipped text can be a separator.
    have hmem : c ∈ delimited.field '=' f := by
      rcases hlead with ⟨_, rfl⟩ | rfl
      · rw [List.nil_append] at hsplit
        simp [hsplit]
      · rw [List.singleton_append, List.cons_append, List.cons.injEq] at hsplit
        simp [hsplit.2]
    have hc : c ≠ ';' := fun heq => hsep (heq ▸ hmem)
    exact longestAt_dimRegex_of_inside (by simp) hc _

/-- The fields after the first are searched in order. -/
theorem search_dimRegex_more (hkey : delimited.Clean ';' '=' key) (hclean : delimited.CleanFields ';' '=' fields)
    (before : List Char) :
    ((dimRegex key).search before (delimited.more ';' '=' fields)).bind Match.capture =
      (fields.find? (fun f => f.1 = key)).map Prod.snd := by
  induction fields generalizing before with
  | nil =>
    have hnone : (dimRegex key).longestAt before [] = none := by
      refine Regex.longestAt_eq_none (fun m hm => ?_)
      obtain ⟨lead, rest, _, _, hafter, _, _⟩ := mem_matchesAt_dimRegex.mp hm
      simp at hafter
    simp [delimited.more, Regex.search, hnone]
  | cons f fields ih =>
    obtain ⟨hf, hrest⟩ := List.forall_mem_cons.mp hclean
    have hlead : Leads before [';'] := .inr rfl
    have hfield := search_dimRegex_field hkey hlead hf fields
    rw [ih hrest] at hfield
    rw [List.find?_cons]
    by_cases hname : f.1 = key <;> simpa [delimited.more, hname] using hfield

/-- On a tuple, the expression finds the value of the first field with the key. -/
theorem substring_dimRegex (hkey : delimited.Clean ';' '=' key) (hclean : delimited.CleanFields ';' '=' fields)
    (hne : fields ≠ []) :
    (dimRegex key).substring (delimited.encode ';' '=' fields) =
      (fields.find? (fun f => f.1 = key)).map Prod.snd := by
  obtain ⟨f, rest, rfl⟩ := List.exists_cons_of_ne_nil hne
  obtain ⟨hf, hrest⟩ := List.forall_mem_cons.mp hclean
  have hlead : Leads [] [] := .inl ⟨rfl, rfl⟩
  have hfield := search_dimRegex_field hkey hlead hf rest
  rw [search_dimRegex_more hkey hrest] at hfield
  unfold Regex.substring
  simp only [hasGroup_dimRegex, if_true]
  rw [delimited.encode_cons, List.find?_cons]
  by_cases hname : f.1 = key <;> simpa [hname] using hfield

end Search

/-- The labels that are stored: none, the fold of every label, a plain label or
the tuple of some dimensions. -/
inductive StoredLabel : Option String → Prop where
  | null : StoredLabel none
  | other : StoredLabel (some counterOther)
  | plain {label : String} (hlabel : isIdentifier label = true) : StoredLabel (some label)
  | tuple {dims : GoMap String String} (hne : dims.keys ≠ [])
      (hdims : ∀ k v, dims.lookup k = some v → isIdentifier k = true ∧ isIdentifier v = true) :
      StoredLabel (some (formatDims dims))

theorem strpos_eq_zero_iff {text : String} : sqlEq (strpos (some text) '=') (some 0) = some true ↔ '=' ∉ text.toList := by
  by_cases hmem : '=' ∈ text.toList
  · have hpos : (text.toList.idxOf '=' : Int) + 1 ≠ 0 := by omega
    simp [strpos, sqlEq, hmem, hpos]
  · simp [strpos, sqlEq, hmem]

/-- The expression on a label that is not null. -/
theorem dimExpr_some (label key : String) :
    dimExpr (some label) key =
      if label = counterOther then .ok (some counterOther)
      else if '=' ∉ label.toList then .ok (if key = dimLabelKey then some label else none)
      else .ok (((dimRegex key.toList).substring label.toList).map String.ofList) := by
  have hother : sqlEq (some label) (some "other") = some true ↔ label = counterOther := by simp [sqlEq, counterOther]
  simp only [dimExpr, substringFrom, parse_dimPattern, hother, strpos_eq_zero_iff]
  split_ifs <;> rfl

theorem dimExpr_plain {label : String} (hlabel : isIdentifier label = true) (key : String) :
    dimExpr (some label) key = .ok (dimValue label key) := by
  have hclean := dimClean_of_isIdentifier hlabel
  have hne : label ≠ "" := by
    rintro rfl
    cases hlabel
  rw [dimExpr_some, dimValue, if_pos hclean.2, lookup_parseDims_plain hne hclean]
  split <;> rfl

variable {dims : GoMap String String}

theorem find?_tupleFields (key : String) :
    ((tupleFields dims).find? (fun f => f.1 = key.toList)).map (fun f => String.ofList f.2) = dims.lookup key := by
  have hfields : (tupleFields dims).find? (fun f => f.1 = key.toList) =
      ((tupleKeys dims).find? (fun k => k = key)).map (fun k => (k.toList, (dimOf dims k).toList)) := by
    unfold tupleFields
    rw [List.find?_map, Function.comp_def]
    simp only [String.toList_inj]
  rw [hfields, Option.map_map]
  cases hfind : (tupleKeys dims).find? (fun k => k = key) with
  | some k =>
    obtain rfl : k = key := by simpa using List.find?_some hfind
    have hlookup := mem_tupleKeys.mp (List.mem_of_find?_eq_some hfind)
    simp [hlookup]
  | none =>
    have hnot : key ∉ tupleKeys dims := by
      intro hmem
      simpa using List.find?_eq_none.mp hfind key hmem
    cases hlookup : dims.lookup key with
    | none => rfl
    | some v => exact absurd (mem_tupleKeys.mpr (by simp [dimOf, hlookup])) hnot

theorem dimExpr_tuple (hne : dims.keys ≠ []) (hclean : CleanDims dims) {key : String} (hkey : DimClean key) :
    dimExpr (some (formatDims dims)) key = .ok (dimValue (formatDims dims) key) := by
  have hfields : tupleFields dims ≠ [] := by simpa [tupleFields] using tupleKeys_ne_nil hne
  have heq : '=' ∈ (formatDims dims).toList := by simpa [containsChar] using containsChar_formatDims hne
  have hother : formatDims dims ≠ counterOther := by
    intro h
    rw [h] at heq
    exact absurd heq (by decide)
  rw [dimExpr_some, dimValue, if_neg hother, if_neg hother, if_neg (not_not.mpr heq), toList_formatDims,
    substring_dimRegex hkey (cleanFields_tupleFields hclean) hfields, lookup_parseDims_formatDims hclean.readable hne,
    ← find?_tupleFields key, Option.map_map]
  rfl

/-- The SQL reading of a stored label is the Go reading: the value where the
label carries the key, null where it does not. -/
theorem dimExpr_eq_dimValue {col : Option String} (hcol : StoredLabel col) {key : String}
    (hkey : validDimKey key = true) : dimExpr col key = .ok (dimValue (col.getD "") key) := by
  have hclean : DimClean key := by
    unfold validDimKey isShortIdentifier at hkey
    rw [Bool.and_eq_true] at hkey
    exact dimClean_of_isIdentifier hkey.1
  cases hcol with
  | null => simp [dimExpr, sqlEq, strpos, substringFrom, dimValue, parseDims, counterOther]
  | other => exact dimExpr_some counterOther key
  | plain hlabel => exact dimExpr_plain hlabel key
  | tuple hne hdims =>
    refine dimExpr_tuple hne (fun k v hlookup => ?_) hclean
    obtain ⟨hk, hv⟩ := hdims k v hlookup
    exact ⟨dimClean_of_isIdentifier hk, dimClean_of_isIdentifier hv⟩

theorem dimExpr_eq_dimValue_suffix_key :
    StoredLabel (some "host.os=bsd;os=linux") ∧ validDimKey "os" = true ∧
      dimExpr (some "host.os=bsd;os=linux") "os" = .ok (some "linux") := by
  have hlabel : StoredLabel (some "host.os=bsd;os=linux") := by
    have htuple : formatDims (GoMap.putAll ∅ [("os", "linux"), ("host.os", "bsd")]) = "host.os=bsd;os=linux" := by
      decide +kernel
    rw [← htuple]
    refine .tuple (by decide +kernel) (fun k v hlookup => ?_)
    have hmem := GoMap.mem_of_lookup_putAll hlookup
    simp only [List.mem_cons, Prod.mk.injEq, List.not_mem_nil, or_false] at hmem
    rcases hmem with ⟨rfl, rfl⟩ | ⟨rfl, rfl⟩ <;> decide
  have hkey : validDimKey "os" = true := by decide
  have hvalue : dimValue "host.os=bsd;os=linux" "os" = some "linux" := by decide +kernel
  exact ⟨hlabel, hkey, hvalue ▸ dimExpr_eq_dimValue hlabel hkey⟩

end argvio.storage
