import Argvio.Errfp.Frames
import Argvio.Errfp.Locations

open List

namespace argvio.errfp

open gostrings goregexp goregexp.Regex

/-- The name of a function, with its package and receiver. -/
structure GoName where
  text : List Char
  nonempty : text ≠ []
  spaceless : ∀ c ∈ text, isSpace c = false

/-- The function of a frame: one that was called, or that started a goroutine. -/
inductive GoFunction where
  | called (name : GoName) (args : List Char) (oneLine : '\n' ∉ args)
  | created (name : GoName) (goroutine : Option ℕ)

def inGoroutine : Option ℕ → List Char
  | some n => [' ', 'i', 'n', ' ', 'g', 'o', 'r', 'o', 'u', 't', 'i', 'n', 'e', ' '] ++ Nat.toDigits 10 n
  | none => []

/-- How a traceback shows a function. -/
def GoFunction.line : GoFunction → List Char
  | called name args _ => name.text ++ '(' :: (args ++ [')'])
  | created name goroutine =>
    ['c', 'r', 'e', 'a', 't', 'e', 'd', ' ', 'b', 'y', ' '] ++ (name.text ++ inGoroutine goroutine)

/-- A frame of a Go program: a function that shows no source location, and a file. -/
structure GoFrame where
  function : GoFunction
  unlocated : reLocation.hasMatch function.line = false
  stem : List Char
  named : stem ≠ []
  identifier : ∀ c ∈ stem, identifierChar c = true

def GoFrame.file (f : GoFrame) : List Char := f.stem ++ ['.', 'g', 'o']

/-- An absolute POSIX path without a newline. -/
structure Directory where
  path : List Char
  absolute : path.head? = some '/'
  oneLine : '\n' ∉ path

/-- Where a build has a frame's file, and the program counter in it. -/
structure Place where
  dir : Directory
  line : ℕ
  offset : Option ℕ

def Place.offsetText (p : Place) : List Char :=
  match p.offset with
  | some n => [' ', '+', '0', 'x'] ++ Nat.toDigits 16 n
  | none => []

/-- How a traceback shows a frame's place. -/
def GoFrame.location (f : GoFrame) (p : Place) : List Char :=
  p.dir.path ++ '/' :: (f.file ++ ':' :: Nat.toDigits 10 p.line ++ p.offsetText)

/-- Frames in their places: each function and, indented, its location. -/
def tracebackLines (r : List (GoFrame × Place)) : List (List Char) :=
  r.flatMap (fun e => [e.1.function.line, '\t' :: e.1.location e.2])

def traceback (r : List (GoFrame × Place)) : String := String.ofList (['\n'].intercalate (tracebackLines r))

section Digits

variable {b n : ℕ} {c : Char}

theorem isSpace_of_mem_toDigits (hb : 1 < b) (hb' : b ≤ 16) (hc : c ∈ Nat.toDigits b n) : isSpace c = false := by
  have hdigit : ∀ d < 16, isSpace (Nat.digitChar d) = false := by decide
  induction n using Nat.strong_induction_on with
  | _ n ih =>
    rw [Nat.toDigits_eq_if hb] at hc
    split_ifs at hc with hn
    · rw [mem_singleton.mp hc]
      exact hdigit n (by omega)
    · rcases mem_append.mp hc with hc | hc
      · exact ih (n / b) (Nat.div_lt_self (by omega) hb) hc
      · rw [mem_singleton.mp hc]
        exact hdigit (n % b) (lt_of_lt_of_le (Nat.mod_lt n (by omega)) hb')

theorem newline_notMem_toDigits (hb : 1 < b) (hb' : b ≤ 16) : '\n' ∉ Nat.toDigits b n :=
  fun h => absurd (isSpace_of_mem_toDigits hb hb' h) (by decide)

end Digits

theorem not_prefix_of_word {word rest name more : List Char} (hname : ' ' ∉ name) (hword : '(' ∉ word) :
    ¬word ++ ' ' :: rest <+: name ++ '(' :: more := by
  induction word generalizing name with
  | nil =>
    cases name with
    | nil => exact fun h => absurd (cons_prefix_cons.mp h).1 (by decide)
    | cons c name => exact fun h => hname ((cons_prefix_cons.mp h).1 ▸ mem_cons_self)
  | cons w word ih =>
    cases name with
    | nil => exact fun h => hword ((cons_prefix_cons.mp h).1 ▸ mem_cons_self)
    | cons c name =>
      intro h
      refine ih (fun hmem => hname (mem_cons_of_mem c hmem)) (fun hmem => hword (mem_cons_of_mem w hmem)) ?_
      exact (cons_prefix_cons.mp h).2

namespace GoFunction

variable (fn : GoFunction)

theorem newline_notMem : '\n' ∉ fn.line := by
  have hname : ∀ name : GoName, '\n' ∉ name.text := fun name h => absurd (name.spaceless '\n' h) (by decide)
  cases fn with
  | called name args oneLine => simp [line, hname name, oneLine]
  | created name goroutine =>
    have hgoroutine : '\n' ∉ inGoroutine goroutine := by
      cases goroutine with
      | none => exact not_mem_nil
      | some n => simp [inGoroutine, @newline_notMem_toDigits 10 n (by decide) (by decide)]
    simp [line, hname name, hgoroutine]

theorem line_ne_nil : fn.line ≠ [] := by
  cases fn with
  | called name args oneLine => exact append_ne_nil_of_left_ne_nil name.nonempty _
  | created name goroutine => exact cons_ne_nil _ _

theorem isSpace_head : ∀ c ∈ fn.line.head?, isSpace c = false := by
  cases fn with
  | called name args oneLine =>
    obtain ⟨d, rest, htext⟩ := exists_cons_of_ne_nil name.nonempty
    intro c hc
    rw [line, htext] at hc
    cases hc
    exact name.spaceless d (htext ▸ mem_cons_self)
  | created name goroutine =>
    intro c hc
    have hhead : c = 'c' := by simpa [line, eq_comm] using hc
    rw [hhead]
    decide

theorem isSpace_getLast : ∀ c ∈ fn.line.getLast?, isSpace c = false := by
  cases fn with
  | called name args oneLine =>
    intro c hc
    have hlast : c = ')' := by simpa [line, getLast?_append, getLast?_cons, eq_comm] using hc
    rw [hlast]
    decide
  | created name goroutine =>
    intro c hc
    rw [line, getLast?_append_of_ne_nil _ (append_ne_nil_of_left_ne_nil name.nonempty _)] at hc
    cases goroutine with
    | none =>
      rw [inGoroutine, append_nil] at hc
      exact name.spaceless c (mem_of_mem_getLast? hc)
    | some n =>
      rw [inGoroutine, ← append_assoc, getLast?_append_of_ne_nil _ Nat.toDigits_ne_nil] at hc
      exact isSpace_of_mem_toDigits (by decide) (by decide) (mem_of_mem_getLast? hc)

/-- Words that other kinds of frames begin with. -/
def keywords : List (List Char) := [['T', 'r', 'a', 'c', 'e', 'b', 'a', 'c', 'k'], ['F', 'i', 'l', 'e'], ['a', 't']]

/-- The line of a function begins with no such word. -/
theorem not_prefix_line {lead : List Char} (hlead : ∃ word ∈ keywords, word ++ [' '] <+: lead) :
    ¬lead <+: fn.line := by
  obtain ⟨word, hword, rest, rfl⟩ := hlead
  rw [append_assoc, singleton_append]
  cases fn with
  | called name args oneLine =>
    refine not_prefix_of_word (fun h => absurd (name.spaceless ' ' h) (by decide)) ?_
    revert word
    decide
  | created name goroutine =>
    have hhead : ∃ more, line (created name goroutine) = 'c' :: more := ⟨_, by rw [line]; rfl⟩
    obtain ⟨more, hmore⟩ := hhead
    rw [hmore]
    simp only [keywords, mem_cons, not_mem_nil, or_false] at hword
    obtain rfl | rfl | rfl := hword
    all_goals exact fun h => absurd (cons_prefix_cons.mp h).1 (by decide)

theorem cutPrefix_line {lead : String} (hlead : ∃ word ∈ keywords, word ++ [' '] <+: lead.toList) :
    cutPrefix (String.ofList fn.line) lead = none := by
  rw [cutPrefix, String.toList_ofList, if_neg (fn.not_prefix_line hlead)]

end GoFunction

section Lines

theorem unixLines_cons_of_ne {c : Char} {rest : List Char} (h : c = '\r' → rest.head? ≠ some '\n') :
    unixLines (c :: rest) = c :: unixLines rest := by
  conv_lhs => unfold unixLines
  split
  · rename_i heq
    obtain ⟨rfl, rfl⟩ := cons.inj heq
    exact absurd rfl (h rfl)
  · rename_i heq
    obtain ⟨rfl, rfl⟩ := cons.inj heq
    rfl
  · rename_i heq
    cases heq

theorem unixLines_append {line rest : List Char} (hnewline : '\n' ∉ line)
    (hreturn : line.getLast? = some '\r' → rest.head? ≠ some '\n') :
    unixLines (line ++ rest) = line ++ unixLines rest := by
  induction line with
  | nil => rfl
  | cons c line ih =>
    rw [mem_cons, not_or] at hnewline
    rw [cons_append, unixLines_cons_of_ne, ih hnewline.2, cons_append]
    · cases line with
      | nil => exact nofun
      | cons d line => exact hreturn
    · cases line with
      | nil =>
        rintro rfl
        exact hreturn rfl
      | cons d line => exact fun _ heq => hnewline.2 (Option.some.inj heq ▸ mem_cons_self)

/-- A text of one line that does not end in a carriage return. -/
def OneLine (line : List Char) : Prop := '\n' ∉ line ∧ line.getLast? ≠ some '\r'

theorem unixLines_intercalate {lines : List (List Char)} (h : ∀ line ∈ lines, OneLine line) :
    unixLines (['\n'].intercalate lines) = ['\n'].intercalate lines := by
  induction lines with
  | nil => rfl
  | cons line lines ih =>
    obtain ⟨⟨hnewline, hreturn⟩, hlines⟩ := forall_mem_cons.mp h
    cases lines with
    | nil =>
      have hline := @unixLines_append line [] hnewline (fun hlast => absurd hlast hreturn)
      simpa [unixLines] using hline
    | cons next lines =>
      rw [intercalate_cons_cons, append_assoc, unixLines_append hnewline (fun hlast => absurd hlast hreturn),
        singleton_append, unixLines_cons_of_ne (fun heq => absurd heq (by decide)), ih hlines]

/-- The lines of a text that ends none in a carriage return are read one by one. -/
theorem frames_intercalate {lines : List (List Char)} (hne : lines ≠ []) (h : ∀ line ∈ lines, OneLine line) :
    frames (String.ofList (['\n'].intercalate lines)) =
      let read := readLines false (lines.map String.ofList)
      (if read.1 then read.2.reverse else read.2).take maxFrames := by
  have hsplit : splitChar (String.ofList (['\n'].intercalate lines)) '\n' = lines.map String.ofList := by
    rw [splitChar, String.toList_ofList, splitOn_intercalate _ (fun line hline => (h line hline).1) hne]
  rw [frames, String.toList_ofList, unixLines_intercalate h, hsplit]

end Lines

section Reading

variable (f : GoFrame) (p : Place)

theorem oneLine_function : OneLine f.function.line := by
  refine ⟨f.function.newline_notMem, fun hlast => ?_⟩
  exact absurd (f.function.isSpace_getLast '\r' hlast) (by decide)

/-- A location ends in the digits of its line or of its offset. -/
theorem location_eq_append : ∃ front b n, 1 < b ∧ b ≤ 16 ∧ f.location p = front ++ Nat.toDigits b n := by
  unfold GoFrame.location Place.offsetText
  cases p.offset with
  | none =>
    refine ⟨p.dir.path ++ '/' :: (f.file ++ [':']), 10, p.line, by decide, by decide, ?_⟩
    simp
  | some n =>
    refine ⟨p.dir.path ++ '/' :: (f.file ++ ':' :: Nat.toDigits 10 p.line ++ [' ', '+', '0', 'x']), 16, n, by decide,
      by decide, ?_⟩
    simp

theorem isSpace_getLast_location : ∀ c ∈ (f.location p).getLast?, isSpace c = false := by
  obtain ⟨front, b, n, hb, hb', hlocation⟩ := location_eq_append f p
  intro c hc
  rw [hlocation, getLast?_append_of_ne_nil _ Nat.toDigits_ne_nil] at hc
  exact isSpace_of_mem_toDigits hb hb' (mem_of_mem_getLast? hc)

theorem head_location : (f.location p).head? = some '/' := by
  rw [GoFrame.location, head?_append, p.dir.absolute, Option.some_or]

theorem newline_notMem_location : '\n' ∉ f.location p := by
  have hstem : '\n' ∉ f.stem := fun h => absurd (f.identifier '\n' h) (by decide)
  have hoffset : '\n' ∉ p.offsetText := by
    unfold Place.offsetText
    cases p.offset with
    | none => exact not_mem_nil
    | some n => simp [@newline_notMem_toDigits 16 n (by decide) (by decide)]
  simp [GoFrame.location, GoFrame.file, p.dir.oneLine, hstem, hoffset,
    @newline_notMem_toDigits 10 p.line (by decide) (by decide)]

theorem oneLine_location : OneLine ('\t' :: f.location p) := by
  refine ⟨fun hmem => ?_, fun hlast => ?_⟩
  · rcases mem_cons.mp hmem with heq | hmem
    · cases heq
    · exact newline_notMem_location f p hmem
  have hne : f.location p ≠ [] := by
    intro hnil
    have hhead := head_location f p
    rw [hnil] at hhead
    cases hhead
  rw [← singleton_append, getLast?_append_of_ne_nil _ hne] at hlast
  exact absurd (isSpace_getLast_location f p '\r' hlast) (by decide)

theorem trimSpace_function : trimSpace (String.ofList f.function.line) = String.ofList f.function.line :=
  @trimSpace_padded [] _ nofun f.function.isSpace_head f.function.isSpace_getLast

theorem trimSpace_location : trimSpace (String.ofList ('\t' :: f.location p)) = String.ofList (f.location p) := by
  have htab : ∀ c ∈ ['\t'], isSpace c = true := forall_mem_singleton.mpr (by decide)
  refine @trimSpace_padded ['\t'] (f.location p) htab (fun c hc => ?_) (isSpace_getLast_location f p)
  rw [head_location] at hc
  cases hc
  decide

/-- Behind a clean directory the frame's file is located. -/
theorem groups_location (hclean : Clean p.dir.path) :
    (reLocation.firstAt [] (f.location p)).map Match.groups = some [(1, f.file)] := by
  have hdigit : ∀ c ∈ Nat.toDigits 10 p.line, digit c = true :=
    fun c hc => Nat.isDigit_of_mem_toDigits (by decide) (by decide) hc
  have hrest : p.offsetText = [] ∨ ∃ more, p.offsetText = ' ' :: more := by
    unfold Place.offsetText
    cases p.offset with
    | none => exact .inl rfl
    | some n => exact .inr ⟨_, rfl⟩
  have hfile := groups_of_file f.named f.identifier Nat.toDigits_ne_nil hdigit hrest
  rw [GoFrame.location, groups_of_clean hclean]
  simpa [GoFrame.file] using hfile

/-- A function's line is a frame together with the location after it, or nothing. -/
theorem readLine_function :
    readLine (String.ofList f.function.line) (some (String.ofList ('\t' :: f.location p))) =
      match reLocation.firstAt [] (f.location p) with
      | some m => .pair (frame (goFunc (String.ofList f.function.line)) (String.ofList ((m.group 1).getD [])))
      | none => .nothing := by
  have hne : String.ofList f.function.line ≠ "" := by
    intro hempty
    have hnil : f.function.line = [] := String.ofList_eq_empty_iff.mp hempty
    exact f.function.line_ne_nil hnil
  have htraceback : cutPrefix (String.ofList f.function.line) "Traceback (most recent call last)" = none :=
    f.function.cutPrefix_line (by decide)
  have hpython : rePythonFrame.find (String.ofList f.function.line).toList = none := by
    rw [String.toList_ofList]
    exact find_anchored_eq_none (f.function.not_prefix_line (by decide))
  have hgeneric : genericFrame (String.ofList f.function.line) = none := by
    have hcut : cutPrefix (String.ofList f.function.line) "at " = none := f.function.cutPrefix_line (by decide)
    have hfind : reLocation.find f.function.line = none := by
      have hunlocated := f.unlocated
      rwa [hasMatch, Option.isSome_eq_false_iff, Option.isNone_iff_eq_none] at hunlocated
    simp [genericFrame, hcut, hfind]
  have hindent : isIndented (String.ofList ('\t' :: f.location p)) = true := by
    have hcut : cutPrefix (String.ofList ('\t' :: f.location p)) "\t" = some (String.ofList (f.location p)) :=
      cutPrefix_eq_some_iff.mpr (@String.ofList_append ['\t'] (f.location p))
    rw [isIndented, hcut]
    rfl
  rw [readLine_of_not_python (by rwa [trimSpace_function]) (by rwa [trimSpace_function]) (by rwa [trimSpace_function]),
    trimSpace_function, goFrame_indented hindent (by rw [String.toList_ofList]; exact f.unlocated), trimSpace_location,
    String.toList_ofList, hgeneric]
  cases reLocation.firstAt [] (f.location p) <;> rfl

end Reading

/-- What a frame is reduced to: its function and its file. -/
def GoFrame.reduced (f : GoFrame) : String := frame (goFunc (String.ofList f.function.line)) (String.ofList f.file)

section Tracebacks

variable {r r' : List (GoFrame × Place)}

theorem oneLine_tracebackLines : ∀ line ∈ tracebackLines r, OneLine line := by
  intro line hline
  obtain ⟨e, -, hline⟩ := mem_flatMap.mp hline
  simp only [mem_cons, not_mem_nil, or_false] at hline
  obtain rfl | rfl := hline
  · exact oneLine_function e.1
  · exact oneLine_location e.1 e.2

theorem frames_traceback (hne : r ≠ []) :
    frames (traceback r) =
      let read := readLines false ((tracebackLines r).map String.ofList)
      (if read.1 then read.2.reverse else read.2).take maxFrames := by
  refine frames_intercalate ?_ oneLine_tracebackLines
  obtain ⟨e, r, rfl⟩ := exists_cons_of_ne_nil hne
  exact cons_ne_nil _ _

/-- A function and its location, with what follows them. -/
theorem readLines_frame (f : GoFrame) (p : Place) (rest : List String) :
    readLines false (String.ofList f.function.line :: String.ofList ('\t' :: f.location p) :: rest) =
      match reLocation.firstAt [] (f.location p) with
      | some m =>
        ((readLines false rest).1,
          frame (goFunc (String.ofList f.function.line)) (String.ofList ((m.group 1).getD [])) :: (readLines false rest).2)
      | none => readLines false (String.ofList ('\t' :: f.location p) :: rest) := by
  rw [readLines, if_neg (by decide), head?_cons, readLine_function]
  cases reLocation.firstAt [] (f.location p) with
  | none => rfl
  | some m =>
    simp only
    rw [readLines, if_pos rfl]

/-- In clean directories every frame is reduced to its function and file. -/
theorem readLines_clean (hclean : ∀ e ∈ r, Clean e.2.dir.path) :
    readLines false ((tracebackLines r).map String.ofList) = (false, r.map (fun e => e.1.reduced)) := by
  induction r with
  | nil => rfl
  | cons e r ih =>
    obtain ⟨he, hr⟩ := forall_mem_cons.mp hclean
    have hgroups := groups_location e.1 e.2 he
    obtain ⟨m, hm, hm'⟩ := Option.map_eq_some_iff.mp hgroups
    have hfile : (m.group 1).getD [] = e.1.file := by
      rw [Match.group, hm']
      rfl
    rw [tracebackLines, flatMap_cons, ← tracebackLines, map_append, map_cons, map_cons, map_nil,
      cons_append, cons_append, nil_append, readLines_frame, hm]
    simp only [hfile, ih hr, map_cons]
    rfl

theorem frames_clean (hne : r ≠ []) (hclean : ∀ e ∈ r, Clean e.2.dir.path) :
    frames (traceback r) = (r.map (fun e => e.1.reduced)).take maxFrames := by
  rw [frames_traceback hne, readLines_clean hclean]
  rfl

end Tracebacks

end argvio.errfp
