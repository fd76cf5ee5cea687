import Argvio.Errfp.Frames

open List

namespace argvio.errfp

open goregexp goregexp.Regex

/-- A directory that leaves a location behind it alone: it has no whitespace, parenthesis or quote,
and nothing in it looks like a file with an extension and a line number. -/
def Clean (dir : List Char) : Prop := (∀ c ∈ dir, locationChar c = true) ∧ reLocation.find dir = none

instance (dir : List Char) : Decidable (Clean dir) :=
  decidable_of_iff (dir.all locationChar = true ∧ reLocation.find dir = none) (and_congr_left' all_eq_true)

section Directories

variable {dir before tail : List Char} {c : Char}

theorem firstAt_fileLine_slash : fileLine.firstAt before (dir ++ '/' :: tail) = fileLine.firstAt [] dir := by
  have hplain : fileLine.unanchored = true := by decide
  rw [firstAt, matchesAt_append hplain (by decide), matchesAt_before hplain [], firstAt]

theorem firstAt_reLocation_cons :
    reLocation.firstAt before (c :: dir) =
      (fileLine.firstAt before (c :: dir)).or
        (if locationChar c then (reLocation.firstAt [] dir).map (Match.append ⟨[c], []⟩) else none) := by
  have hplain : reLocation.unanchored = true := by decide
  rw [← @firstAt_before reLocation (before ++ [c]) dir hplain []]
  exact firstAt_lazily_cons c

theorem clean_cons : Clean (c :: dir) ↔ locationChar c = true ∧ fileLine.firstAt [] (c :: dir) = none ∧ Clean dir := by
  have hplain : reLocation.unanchored = true := by decide
  unfold Clean
  rw [find_cons_eq_none hplain, firstAt_reLocation_cons, forall_mem_cons]
  constructor
  · rintro ⟨⟨hc, hdir⟩, hfirst, hfind⟩
    exact ⟨hc, (Option.or_eq_none_iff.mp hfirst).1, hdir, hfind⟩
  · rintro ⟨hc, hfile, hdir, hfind⟩
    refine ⟨⟨hc, hdir⟩, ?_, hfind⟩
    rw [hfile, firstAt_eq_none_of_find hfind, if_pos hc, Option.map_none, Option.none_or]

theorem firstAt_reLocation_slash :
    reLocation.firstAt before ('/' :: tail) = (reLocation.firstAt [] tail).map (Match.append ⟨['/'], []⟩) := by
  have hfile : fileLine.firstAt before ('/' :: tail) = none := (@firstAt_fileLine_slash [] before tail).trans (by decide)
  rw [firstAt_reLocation_cons, hfile, Option.none_or, if_pos (by decide)]

/-- Behind a clean directory the same file is located as without it. -/
theorem groups_of_clean (h : Clean dir) :
    (reLocation.firstAt before (dir ++ '/' :: tail)).map Match.groups = (reLocation.firstAt [] tail).map Match.groups := by
  induction dir generalizing before with
  | nil =>
    rw [nil_append, firstAt_reLocation_slash, Option.map_map]
    exact congrArg (Option.map · _) (funext (fun m => append_nil m.groups))
  | cons c dir ih =>
    obtain ⟨hc, hfile, hclean⟩ := clean_cons.mp h
    have hnone : fileLine.firstAt before (c :: (dir ++ '/' :: tail)) = none :=
      (@firstAt_fileLine_slash (c :: dir) before tail).trans hfile
    rw [cons_append, firstAt_reLocation_cons, hnone, Option.none_or, if_pos hc, Option.map_map, ← @ih [] hclean]
    exact congrArg (Option.map · _) (funext (fun m => append_nil m.groups))

/-- Behind another directory it is always the same location, one in the directory, or always none. -/
theorem firstAt_of_not_clean (h : ¬Clean dir) :
    (∃ m, ∀ tail, reLocation.firstAt [] (dir ++ '/' :: tail) = some m) ∨
      ∀ tail, reLocation.firstAt [] (dir ++ '/' :: tail) = none := by
  induction dir with
  | nil => exact absurd ⟨nofun, by decide⟩ h
  | cons c dir ih =>
    have hstep : ∀ tail, reLocation.firstAt [] (c :: dir ++ '/' :: tail) =
        (fileLine.firstAt [] (c :: dir)).or
          (if locationChar c then (reLocation.firstAt [] (dir ++ '/' :: tail)).map (Match.append ⟨[c], []⟩) else none) := by
      intro tail
      rw [cons_append, firstAt_reLocation_cons]
      exact congrArg (Option.or · _) (@firstAt_fileLine_slash (c :: dir) [] tail)
    cases hfile : fileLine.firstAt [] (c :: dir) with
    | some m => exact .inl ⟨m, fun tail => by rw [hstep, hfile, Option.some_or]⟩
    | none =>
      simp only [hstep, hfile, Option.none_or]
      by_cases hc : locationChar c = true
      · simp only [hc, if_true]
        obtain ⟨m, hm⟩ | hnone := ih (fun hclean => h (clean_cons.mpr ⟨hc, hfile, hclean⟩))
        · exact .inl ⟨_, fun tail => by rw [hm, Option.map_some]⟩
        · exact .inr (fun tail => by rw [hnone, Option.map_none])
      · exact .inr (fun _ => if_neg hc)

end Directories

section Files

/-- A letter, a digit, an underscore, or a character beyond ASCII. -/
def identifierChar (c : Char) : Bool := isWord c || decide (128 ≤ c.toNat)

variable {stem digits before after : List Char} {m : Match}

theorem nameChar_of_identifierChar {c : Char} (h : identifierChar c = true) : nameChar c = true := by
  have hne : ∀ x, identifierChar x = false → c ≠ x := by
    rintro x hx rfl
    rw [h] at hx
    cases hx
  simp [nameChar, locationChar, space, quoteMark, hne ' ' (by decide), hne '\t' (by decide), hne '\n' (by decide),
    hne '\x0c' (by decide), hne '\r' (by decide), hne '\x27' (by decide), hne '\x22' (by decide), hne '(' (by decide),
    hne ')' (by decide), hne '/' (by decide), hne '\\' (by decide)]

/-- The parts of a file name with an extension and a line: what is before the last dot, the
extension and what follows the colon. -/
theorem parts_of_mem_fileLine (h : m ∈ fileLine.matchesAt before after) :
    ∃ name ext rest, after = name ++ '.' :: (ext ++ ':' :: rest) ∧ (∀ c ∈ ext, c.isAlphanum = true) ∧
      m.groups = [(1, name ++ '.' :: ext)] := by
  obtain ⟨l, n, rest, hafter, hl, hn, rfl⟩ := mem_seq_iff.mp h
  have hgroups : n.groups = [] := groups_of_mem_matchesAt (by decide) hn
  obtain ⟨colon, -, rest', rfl, hcolon, -, -⟩ := mem_seq_iff.mp hn
  obtain ⟨k, hk, rfl⟩ := mem_matchesAt_group.mp hl
  obtain ⟨name, tail, rest₁, -, hname, htail, rfl⟩ := mem_seq_iff.mp hk
  obtain ⟨dot, tail₁, rest₂, -, hdot, htail₁, rfl⟩ := mem_seq_iff.mp htail
  obtain ⟨ext, last, rest₃, -, hext, hlast, rfl⟩ := mem_seq_iff.mp htail₁
  obtain ⟨c, _, -, hc, rfl⟩ := mem_matchesAt_one.mp hcolon
  obtain ⟨d, _, -, hd, rfl⟩ := mem_matchesAt_one.mp hdot
  cases of_decide_eq_true hc
  cases of_decide_eq_true hd
  cases mem_singleton.mp hlast
  obtain ⟨hnamed, -, -, -⟩ := mem_matchesAt_plus_one.mp hname
  obtain ⟨hextd, -, -, hall⟩ := mem_matchesAt_plus_one.mp hext
  refine ⟨name.text, ext.text, rest', ?_, hall, ?_⟩
  · simpa using hafter
  · simp [hgroups, hnamed, hextd, Match.nil]

/-- The file and line of a Go file are matched in one way only. -/
theorem groups_of_mem_fileLine (hstem : '.' ∉ stem) (hdigits : '.' ∉ digits ∧ ':' ∉ digits)
    (h : m ∈ fileLine.matchesAt before (stem ++ '.' :: (['g', 'o'] ++ ':' :: digits))) :
    m.groups = [(1, stem ++ ['.', 'g', 'o'])] := by
  obtain ⟨name, ext, rest, hparts, hext, hgroups⟩ := parts_of_mem_fileLine h
  have hdot : '.' ∉ ['g', 'o'] ++ ':' :: digits := by simpa using hdigits.1
  obtain ⟨rfl, -, hparts⟩ := (append_cons_inj_of_notMem hstem hdot).mp hparts
  obtain ⟨rfl, -, -⟩ := (append_cons_inj_of_notMem (by decide) hdigits.2).mp hparts
  exact hgroups

section FileLine

variable {rest : List Char} (hne : stem ≠ []) (hstem : ∀ c ∈ stem, identifierChar c = true) (hdigit : digits ≠ [])
  (hdigits : ∀ c ∈ digits, digit c = true)

include hne hstem hdigit hdigits

theorem takes_fileLine : Takes fileLine before (stem ++ '.' :: (['g', 'o'] ++ ':' :: digits)) rest := by
  have hname : Takes (seqOf [plus (one nameChar), char '.', plus (one Char.isAlphanum)]) before
      (stem ++ (['.'] ++ (['g', 'o'] ++ []))) ([':'] ++ (digits ++ ([] ++ [])) ++ rest) := by
    refine (takes_plus_one hne (fun c hc => nameChar_of_identifierChar (hstem c hc))).seq ?_
    exact (takes_char '.').seq ((takes_plus_one (by decide) (all_eq_true.mp (by decide))).seq takes_empty)
  have hline : Takes (seqOf [char ':', plus (one digit), opt (seq (char ':') (plus (one digit)))])
      (before ++ (stem ++ (['.'] ++ (['g', 'o'] ++ [])))) ([':'] ++ (digits ++ ([] ++ []))) rest :=
    (takes_char ':').seq ((takes_plus_one hdigit hdigits).seq (takes_opt.seq takes_empty))
  have hfile : Takes fileLine before
      (stem ++ (['.'] ++ (['g', 'o'] ++ [])) ++ ([':'] ++ (digits ++ ([] ++ [])))) rest := hname.group.seq hline
  simpa using hfile

/-- A Go file and line is located with its whole name, also before an offset. -/
theorem groups_of_file (hrest : rest = [] ∨ ∃ more, rest = ' ' :: more) :
    (reLocation.firstAt [] (stem ++ '.' :: (['g', 'o'] ++ ':' :: digits) ++ rest)).map Match.groups =
      some [(1, stem ++ ['.', 'g', 'o'])] := by
  have hdot : '.' ∉ stem := fun h => absurd (hstem '.' h) (by decide)
  have hmarks : '.' ∉ digits ∧ ':' ∉ digits :=
    ⟨fun h => absurd (hdigits '.' h) (by decide), fun h => absurd (hdigits ':' h) (by decide)⟩
  have halone : fileLine.matchesAt [] (stem ++ '.' :: (['g', 'o'] ++ ':' :: digits) ++ rest) =
      fileLine.matchesAt [] (stem ++ '.' :: (['g', 'o'] ++ ':' :: digits)) := by
    obtain rfl | ⟨more, rfl⟩ := hrest
    · rw [append_nil]
    · exact matchesAt_append (by decide) (by decide) _ _
  obtain ⟨m, hm, -⟩ := @takes_fileLine stem digits [] rest hne hstem hdigit hdigits
  cases hfirst : fileLine.firstAt [] (stem ++ '.' :: (['g', 'o'] ++ ':' :: digits) ++ rest) with
  | none =>
    rw [firstAt, head?_eq_none_iff] at hfirst
    rw [hfirst] at hm
    cases hm
  | some n =>
    have hn := mem_of_mem_head? hfirst
    rw [halone] at hn
    rw [reLocation, firstAt_lazily_of_some hfirst, Option.map_some, groups_of_mem_fileLine hdot hmarks hn]

end FileLine

end Files

end argvio.errfp
