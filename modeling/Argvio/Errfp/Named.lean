import Argvio.Errfp.Identity
import Argvio.Errfp.Locations
import Mathlib.Data.List.TakeWhile

open List

namespace argvio.errfp

open gostrings goregexp goregexp.Regex

/-- Anything but white space. -/
def inked (c : Char) : Bool := !isSpace c

def Blank (s : String) : Prop := ∀ c ∈ s.toList, isSpace c = true

section Blanks

variable {s t : String}

theorem blank_iff_any : Blank s ↔ s.toList.any inked = false := by
  simp [Blank, inked]

theorem any_inked_dropWhile (text : List Char) : (text.dropWhile isSpace).any inked = text.any inked := by
  induction text with
  | nil => rfl
  | cons c text ih =>
    by_cases hc : isSpace c = true
    · rw [dropWhile_cons_of_pos hc, ih, any_cons, inked, hc, Bool.not_true, Bool.false_or]
    · rw [dropWhile_cons_of_neg hc]

theorem any_inked_trimSpace (s : String) : (trimSpace s).toList.any inked = s.toList.any inked := by
  rw [trimSpace_eq, String.toList_ofList, any_reverse, any_inked_dropWhile, any_reverse, any_inked_dropWhile]

theorem trimSpace_eq_empty_iff : trimSpace s = "" ↔ Blank s := by
  constructor
  · intro h
    rw [blank_iff_any, ← any_inked_trimSpace, h]
    rfl
  · intro h
    rw [trimSpace_eq, dropWhile_eq_nil_iff.mpr h]
    rfl

theorem blank_append : Blank (s ++ t) ↔ Blank s ∧ Blank t := by
  rw [Blank, String.toList_append, forall_mem_append]
  rfl

end Blanks

section Normalizing

variable {c : Char}

theorem inked_of_hexDigit (h : hexDigit c = true) : inked c = true := by
  have hrange : (48 ≤ c.toNat ∧ c.toNat ≤ 57) ∨ (97 ≤ c.toNat ∧ c.toNat ≤ 102) ∨ (65 ≤ c.toNat ∧ c.toNat ≤ 70) := by
    simpa [hexDigit, Char.isDigit, Char.le_def, UInt32.le_iff_toNat_le, or_assoc] using h
  simp only [inked, isSpace, Bool.not_eq_true', decide_eq_false_iff_not]
  omega

theorem inked_of_digit (h : digit c = true) : inked c = true := by
  apply inked_of_hexDigit
  rw [hexDigit, ← digit, h]
  rfl

theorem isSpace_of_space (h : space c = true) : isSpace c = true := by
  have hclass : c = ' ' ∨ c = '\t' ∨ c = '\n' ∨ c = '\x0c' ∨ c = '\r' := by simpa [space] using h
  obtain rfl | rfl | rfl | rfl | rfl := hclass <;> decide

theorem needs_char {p : Char → Bool} (h : p c = true) : (char c).Needs p := by
  intro d hd
  rwa [of_decide_eq_true hd]

theorem needs_reQuoted : reQuoted.Needs inked :=
  ⟨.inl (needs_char (by decide)), .inl (needs_char (by decide)), .inl (needs_char (by decide))⟩

theorem needs_reUUID : reUUID.Needs inked := .inr (.inr (.inl (needs_char (by decide))))

theorem needs_reURL : reURL.Needs inked := .inr (.inr (.inr (.inl (.inl (needs_char (by decide))))))

theorem needs_rePath : rePath.Needs inked :=
  .inr (.inl ⟨.inr (.inl (needs_char (by decide))), .inr (.inl (needs_char (by decide))), .inl (needs_char (by decide))⟩)

theorem needs_reHex : reHex.Needs inked :=
  ⟨.inr (.inl (needs_char (by decide))), .inr (.inl (.inl (fun _ => inked_of_hexDigit)))⟩

theorem needs_reNumber : reNumber.Needs inked := .inr (.inl (.inl (fun _ => inked_of_digit)))

/-- A placeholder stands for something, and every match is something. -/
theorem any_inked_replaceAll {r : Regex} {repl : Match → List Char} (hr : r.Needs inked)
    (hrepl : ∀ m, m.text.any inked = true → (repl m).any inked = true) (text : List Char) :
    (r.replaceAll repl text).any inked = text.any inked := by
  refine any_replaceAll (fun before after m hm => ?_)
  have hany := any_of_needs hr hm
  rw [hany, hrepl m hany]

theorem any_inked_reSpace (text : List Char) : (reSpace.replaceAll (fun _ => [' ']) text).any inked = text.any inked := by
  refine any_replaceAll (fun before after m hm => ?_)
  obtain ⟨-, -, -, hall⟩ := mem_matchesAt_plus_one.mp hm
  have hblank : m.text.any inked = false := by
    rw [any_eq_false]
    intro c hc
    rw [inked, isSpace_of_space (hall c hc)]
    decide
  rw [hblank]
  rfl

/-- Normalizing empties a text only if there is nothing but white space in it. -/
theorem blank_normalizeMessage {s : String} : Blank (normalizeMessage s) ↔ Blank s := by
  rw [blank_iff_any, blank_iff_any, normalizeMessage]
  rw [any_inked_trimSpace, String.toList_ofList, any_inked_reSpace, any_inked_replaceAll needs_reNumber,
    any_inked_replaceAll needs_reHex, any_inked_replaceAll needs_rePath, any_inked_replaceAll needs_reURL,
    any_inked_replaceAll needs_reUUID, any_inked_replaceAll needs_reQuoted]
  · exact fun _ _ => by decide
  · exact fun _ _ => by decide
  · exact fun _ _ => by decide
  · intro m _
    rw [any_append, Bool.or_eq_true]
    exact .inr (by decide)
  · intro m hm
    split_ifs
    · decide
    · exact hm
  · exact fun _ _ => by decide

end Normalizing

section Offsets

/-- Nothing but white space and, at the end, a program-counter offset. -/
def OffsetOnly (fn : String) : Prop :=
  Blank fn ∨ ∃ lead digits, Blank lead ∧ digits ≠ [] ∧ (∀ c ∈ digits, hexDigit c = true) ∧
    fn.toList = lead.toList ++ '+' :: '0' :: 'x' :: digits

variable {before after : List Char} {m : Match}

theorem parts_of_mem_reOffset (h : m ∈ reOffset.matchesAt before after) :
    ∃ lead digits, (∀ c ∈ lead, space c = true) ∧ digits ≠ [] ∧ (∀ c ∈ digits, hexDigit c = true) ∧
      m.text = lead ++ '+' :: '0' :: 'x' :: digits ∧ after = m.text := by
  obtain ⟨lead, tail, rest, rfl, hlead, htail, rfl⟩ := mem_seq_iff.mp h
  obtain ⟨mark, tail₁, rest₁, rfl, hmark, htail₁, rfl⟩ := mem_seq_iff.mp htail
  obtain ⟨digits, tail₂, rest₂, rfl, hdigits, htail₂, rfl⟩ := mem_seq_iff.mp htail₁
  obtain ⟨final, last, rest₃, rfl, hfinal, hlast, rfl⟩ := mem_seq_iff.mp htail₂
  cases mem_singleton.mp hlast
  rw [matchesAt] at hfinal
  split_ifs at hfinal with hrest
  · cases mem_singleton.mp hfinal
    obtain rfl : rest₃ = [] := hrest
    have htext : mark.text = ['+', '0', 'x'] := prefix_of_mem_literal hmark
    obtain ⟨-, -, hspace⟩ := mem_matchesAt_star_one.mp hlead
    obtain ⟨-, hne, -, hhex⟩ := mem_matchesAt_plus_one.mp hdigits
    refine ⟨lead.text, digits.text, hspace, hne, hhex, ?_, ?_⟩
    · simp [htext]
    · simp
  · cases hfinal

theorem firstAt_reOffset {digits : List Char} (hne : digits ≠ []) (hdigits : ∀ c ∈ digits, hexDigit c = true) :
    reOffset.firstAt before ('+' :: '0' :: 'x' :: digits) ≠ none := by
  have hspace : ∀ rest, Takes (star true (one space)) before [] rest :=
    fun _ => ⟨.nil, mem_matchesAt_star_one.mpr ⟨rfl, nil_prefix, nofun⟩, rfl⟩
  have hmark : ∀ before rest, Takes (literal "+0x") before (['+'] ++ (['0'] ++ (['x'] ++ []))) rest :=
    fun _ _ => (takes_char '+').seq ((takes_char '0').seq ((takes_char 'x').seq takes_empty))
  have hend : ∀ before, Takes endText before [] [] := fun _ => ⟨.nil, mem_singleton_self _, rfl⟩
  have htakes : Takes reOffset before ([] ++ ((['+'] ++ (['0'] ++ (['x'] ++ []))) ++ (digits ++ ([] ++ [])))) [] :=
    (hspace _).seq ((hmark _ _).seq ((takes_plus_one hne hdigits).seq ((hend _).seq takes_empty)))
  obtain ⟨m, hm, -⟩ := htakes
  intro hnone
  rw [firstAt, head?_eq_none_iff] at hnone
  have hempty : m ∈ reOffset.matchesAt before ('+' :: '0' :: 'x' :: digits) := by simpa using hm
  rw [hnone] at hempty
  cases hempty

/-- What is left when the offset is removed is blank exactly if there is nothing else. -/
theorem blank_removeAll_reOffset {fn : String} : Blank (removeAll reOffset fn) ↔ OffsetOnly fn := by
  rw [removeAll]
  cases hfind : reOffset.find fn.toList with
  | none =>
    rw [replaceAll_of_find_eq_none hfind, String.ofList_toList]
    refine ⟨.inl, ?_⟩
    rintro (hblank | ⟨lead, digits, -, hne, hdigits, hfn⟩)
    · exact hblank
    · rw [hfn] at hfind
      exact absurd (firstAt_of_findFrom_eq_none hfind) (firstAt_reOffset hne hdigits)
  | some f =>
    obtain ⟨skipped, hbefore, hfn, hmem, -⟩ := findFrom_eq_some hfind
    obtain ⟨lead, digits, hlead, hne, hdigits, htext, hafter⟩ := parts_of_mem_reOffset hmem
    have hend : f.after = [] := append_right_eq_self.mp hafter
    have hmatched : f.matched.text ≠ [] := by
      rw [htext]
      exact append_ne_nil_of_right_ne_nil _ (cons_ne_nil _ _)
    rw [hend, append_nil, htext, ← append_assoc] at hfn
    rw [replaceAll_of_find_end hfind hmatched hend, append_nil, hbefore, nil_append]
    have hspace : ∀ c ∈ lead, isSpace c = true := fun c hc => isSpace_of_space (hlead c hc)
    constructor
    · intro hblank
      refine .inr ⟨String.ofList (skipped ++ lead), digits, ?_, hne, hdigits, ?_⟩
      · rw [Blank, String.toList_ofList] at hblank ⊢
        exact forall_mem_append.mpr ⟨hblank, hspace⟩
      · rw [String.toList_ofList, hfn]
    intro honly
    rw [Blank, String.toList_ofList]
    obtain hblank | ⟨lead', digits', hblank, -, hdigits', hfn'⟩ := honly
    · intro c hc
      refine hblank c ?_
      rw [hfn]
      exact mem_append_left _ (mem_append_left _ hc)
    · -- The plus sign of the offset is the only one.
      have hplus : '+' ∉ '0' :: 'x' :: digits' := by
        simp only [mem_cons, not_or]
        exact ⟨by decide, by decide, fun h => absurd (hdigits' _ h) (by decide)⟩
      have hplus' : '+' ∉ lead'.toList := fun h => absurd (hblank _ h) (by decide)
      obtain ⟨hleads, -⟩ := (append_cons_inj_of_notMem hplus' hplus).mp (hfn'.symm.trans hfn)
      intro c hc
      refine hblank c ?_
      rw [hleads]
      exact mem_append_left _ hc

/-- A frame is empty exactly if neither the function nor the file is anything. -/
theorem frame_eq_empty_iff {fn file : String} : frame fn file = "" ↔ OffsetOnly fn ∧ Blank file := by
  have hspace : Blank " " := all_eq_true.mp (by decide)
  rw [frame, trimSpace_eq_empty_iff, blank_append, blank_append, blank_normalizeMessage, blank_normalizeMessage,
    blank_removeAll_reOffset]
  exact and_congr_left' (and_iff_left hspace)

end Offsets

section Lines

/-- A line that names neither a function nor a file: what reads it takes nothing but white space, or
an offset, for either. One with a location is not such, nor is one that is read with the next. -/
def Nameless (line : String) (next : Option String) : Prop :=
  let rest := (cutPrefix line "at ").getD line
  match rePythonFrame.find line.toList with
  | some m => OffsetOnly (submatch m 2) ∧ Blank (baseName (submatch m 1))
  | none =>
    goFrame line next = none ∧
      match reDotnetIn.find rest.toList with
      | some m => OffsetOnly (submatch m 1) ∧ Blank (baseName (submatch m 2))
      | none =>
        reLocation.find rest.toList = none ∧
          match reBareLocation.find rest.toList with
          | some m => OffsetOnly (String.ofList m.before) ∧ Blank (submatch m 1)
          | none => OffsetOnly (trimSpace (trimRightMarks (trimSpace rest)))

variable {line raw f : String} {next : Option String}

/-- A location has a file, with an extension. -/
theorem not_blank_of_reLocation {text : List Char} {l : Found} (h : reLocation.find text = some l) :
    ¬Blank (submatch l 1) := by
  obtain ⟨skipped, -, -, hmem, -⟩ := findFrom_eq_some h
  obtain ⟨lead, file, rest, -, hlead, hfile, hmatch⟩ := mem_seq_iff.mp hmem
  obtain ⟨hgroups, -, -⟩ := mem_matchesAt_star_one.mp hlead
  obtain ⟨name, ext, rest', -, -, hfile⟩ := parts_of_mem_fileLine hfile
  have hgroup : l.matched.group 1 = some (name ++ '.' :: ext) := by
    rw [← hmatch, Match.group, Match.append_groups, hgroups, hfile]
    rfl
  intro hblank
  rw [submatch, hgroup, Option.getD_some, Blank, String.toList_ofList] at hblank
  exact absurd (hblank '.' (mem_append_right _ mem_cons_self)) (by decide)

theorem goFrame_ne_empty (h : goFrame line next = some f) : f ≠ "" := by
  cases next with
  | none => cases h
  | some next =>
    rw [goFrame] at h
    split_ifs at h
    split at h
    case h_1 loc hloc =>
      split_ifs at h
      rw [← Option.some.inj h, Ne, frame_eq_empty_iff]
      exact fun hempty => not_blank_of_reLocation hloc hempty.2
    · cases h

theorem genericFrame_eq_empty_iff (h : genericFrame line = some f) (hpython : rePythonFrame.find line.toList = none)
    (hgo : goFrame line next = none) : f = "" ↔ Nameless line next := by
  rw [genericFrame] at h
  simp only at h
  split_ifs at h
  rw [Nameless, hpython]
  simp only [hgo, true_and]
  cases hdotnet : reDotnetIn.find ((cutPrefix line "at ").getD line).toList with
  | some m =>
    rw [hdotnet] at h
    rw [← Option.some.inj h]
    exact frame_eq_empty_iff
  | none =>
    rw [hdotnet] at h
    simp only at h ⊢
    cases hloc : reLocation.find ((cutPrefix line "at ").getD line).toList with
    | some l =>
      rw [hloc] at h
      rw [← Option.some.inj h, frame_eq_empty_iff]
      exact iff_of_false (fun hempty => not_blank_of_reLocation hloc hempty.2) (fun hnone => nomatch hnone.1)
    | none =>
      rw [hloc] at h
      rw [eq_self, true_and]
      cases hbare : reBareLocation.find ((cutPrefix line "at ").getD line).toList with
      | some m =>
        rw [hbare] at h
        rw [← Option.some.inj h]
        exact frame_eq_empty_iff
      | none =>
        rw [hbare] at h
        rw [← Option.some.inj h, frame_eq_empty_iff]
        exact and_iff_left nofun

/-- A line that is read as a frame is read as an empty one exactly if it is nameless. -/
theorem readLine_eq_empty_iff (h : (readLine raw next).frame? = some f) : f = "" ↔ Nameless (trimSpace raw) next := by
  simp only [readLine] at h
  split_ifs at h
  · cases h
  · cases h
  · cases hpython : rePythonFrame.find (trimSpace raw).toList with
    | some m =>
      rw [hpython] at h
      rw [Nameless, hpython, ← Option.some.inj h]
      exact frame_eq_empty_iff
    | none =>
      rw [hpython] at h
      simp only at h
      cases hgo : goFrame (trimSpace raw) next with
      | some g =>
        rw [hgo] at h
        rw [Nameless, hpython, ← Option.some.inj h]
        exact iff_of_false (goFrame_ne_empty hgo) (fun hnone => absurd (hgo.symm.trans hnone.1) (Option.some_ne_none g))
      | none =>
        rw [hgo] at h
        simp only at h
        cases hgeneric : genericFrame (trimSpace raw) with
        | some g =>
          rw [hgeneric] at h
          rw [← Option.some.inj h]
          exact genericFrame_eq_empty_iff hgeneric hpython hgo
        | none =>
          rw [hgeneric] at h
          cases h

/-- The lines that are read as frames, each with the next one. -/
def frameLines (skip : Bool) : List String → List (String × Option String)
  | [] => []
  | raw :: rest =>
    if skip then frameLines false rest
    else
      match readLine raw rest.head? with
      | .nothing | .traceback => frameLines false rest
      | .single _ => (raw, rest.head?) :: frameLines false rest
      | .pair _ => (raw, rest.head?) :: frameLines true rest

/-- The frames are those of these lines. -/
theorem readLines_eq_map (skip : Bool) (lines : List String) :
    (readLines skip lines).2.map some = (frameLines skip lines).map (fun l => (readLine l.1 l.2).frame?) := by
  induction lines generalizing skip with
  | nil => rfl
  | cons raw rest ih =>
    rw [readLines, frameLines]
    split_ifs
    · exact ih false
    cases hread : readLine raw rest.head? with
    | nothing | traceback => exact ih false
    | single f | pair f => simp only [map_cons, hread, ih, LineRead.frame?]

/-- The lines of a stack trace that are read as its innermost frames. -/
def innermostLines (stack : String) : List (String × Option String) :=
  let lines := splitChar (String.ofList (unixLines stack.toList)) '\n'
  (if (readLines false lines).1 then (frameLines false lines).reverse else frameLines false lines).take maxFrames

theorem frames_eq_map (stack : String) :
    (frames stack).map some = (innermostLines stack).map (fun l => (readLine l.1 l.2).frame?) := by
  simp only [frames, innermostLines, map_take]
  split_ifs
  · rw [map_reverse, map_reverse, readLines_eq_map]
  · rw [readLines_eq_map]

end Lines

/-- A stack trace's frames all name something, and so does the top one of an event grouped by it,
exactly if no line read as one of them is nameless. -/
theorem frames_named_iff (stack : String) :
    ((∀ f ∈ frames stack, f ≠ "") ∧
      ∀ message r, compute message stack = some r → r.source = sourceStack → r.topFrame ≠ "") ↔
      ∀ l ∈ innermostLines stack, ¬Nameless (trimSpace l.1) l.2 := by
  have hlines : (∀ f ∈ frames stack, f ≠ "") ↔ ∀ l ∈ innermostLines stack, ¬Nameless (trimSpace l.1) l.2 := by
    have hread : (∀ f ∈ frames stack, f ≠ "") ↔ ∀ l ∈ innermostLines stack, (readLine l.1 l.2).frame? ≠ some "" :=
      calc (∀ f ∈ frames stack, f ≠ "")
        _ ↔ ∀ read ∈ (frames stack).map some, read ≠ some "" := by
          rw [forall_mem_map]
          exact forall₂_congr (fun f _ => not_congr Option.some_inj.symm)
        _ ↔ ∀ read ∈ (innermostLines stack).map (fun l => (readLine l.1 l.2).frame?), read ≠ some "" := by
          rw [frames_eq_map]
        _ ↔ ∀ l ∈ innermostLines stack, (readLine l.1 l.2).frame? ≠ some "" := forall_mem_map
    rw [hread]
    refine forall₂_congr (fun l hl => not_congr ?_)
    have hmem : (readLine l.1 l.2).frame? ∈ (frames stack).map some := by
      rw [frames_eq_map]
      exact mem_map_of_mem hl
    obtain ⟨f, -, hf⟩ := mem_map.mp hmem
    rw [← hf, Option.some_inj]
    exact readLine_eq_empty_iff hf.symm
  rw [← hlines]
  refine and_iff_left_of_imp (fun hframes message r hr hsource => ?_)
  cases htop : frames stack with
  | nil =>
    simp only [compute, htop] at hr
    split_ifs at hr
    rw [← Option.some.inj hr] at hsource
    have hdiffer : sourceMessage ≠ sourceStack := by decide
    exact absurd hsource hdiffer
  | cons top rest =>
    rw [compute_of_frames htop] at hr
    rw [← Option.some.inj hr]
    refine hframes top ?_
    rw [htop]
    exact mem_cons_self

theorem frames_open : frames "at (" = [""] := by decide +kernel

/-- A call without a name is read as an empty frame, and unrelated errors are grouped under it. -/
theorem topFrame_of_open :
    frames "at (" = [""] ∧
      (compute "disk full" "at (").map (fun r => (r.source, r.topFrame)) = some (sourceStack, "") ∧
      (compute "disk full" "at (").map (fun r => r.fingerprint) =
        (compute "no route" "at (").map (fun r => r.fingerprint) := by
  simp only [compute_of_frames frames_open, Option.map_some, frames_open, and_self]

end argvio.errfp
