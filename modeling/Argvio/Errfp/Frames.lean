import Argvio.Errfp.Normalize
import Argvio.Sha256

namespace argvio.errfp

open gostrings goregexp goregexp.Regex

/-- How many of the innermost stack frames identify a failure. -/
def maxFrames : ℕ := 5

section Patterns

def rePythonFrame : Regex :=
  seqOf [beginText, literal "File \"", group 1 (star true (one (· ≠ '\x22'))), literal "\", line ", plus (one digit),
    opt (seqOf [literal ", in ", group 2 (plus (one (· ≠ '\n')))]), endText]

/-- `[^\s()'"]`. -/
def locationChar (c : Char) : Bool := !(space c || quoteMark c || c ∈ ['(', ')'])

/-- `[^\s()'"/\\]`. -/
def nameChar (c : Char) : Bool := locationChar c && c ∉ ['/', '\\']

/-- A file name with an extension, as group 1, then `:line[:col]`. -/
def fileLine : Regex :=
  seqOf [group 1 (seqOf [plus (one nameChar), char '.', plus (one Char.isAlphanum)]), char ':', plus (one digit),
    opt (seq (char ':') (plus (one digit)))]

/-- A source location: a file name and line behind any directories or URL scheme. -/
def reLocation : Regex := lazily locationChar fileLine

def rubyMark (c : Char) : Bool := c = '\x60' || c = '\x27'

def reRubyIn : Regex :=
  seqOf [beginText, literal ":in ", one rubyMark, group 1 (plus (one (fun c => !rubyMark c))), char '\x27']

def reDotnetIn : Regex :=
  seqOf [beginText, group 1 (star true (one (· ≠ '\n'))), literal " in ", group 2 (plus (one (· ≠ '\n'))),
    literal ":line ", plus (one digit), endText]

/-- `[^\s()]`. -/
def bareChar (c : Char) : Bool := !(space c || c ∈ ['(', ')'])

/-- A location without a file extension. -/
def reBareLocation : Regex :=
  seqOf [char '(', group 1 (seq (one bareChar) (star false (one bareChar))), char ':', plus (one digit), char ':',
    plus (one digit), char ')', endText]

def reGoSuffix : Regex := seqOf [plus (one space), literal "in goroutine ", plus (one digit), endText]

def reOffset : Regex := seqOf [star true (one space), literal "+0x", plus (one hexDigit), endText]

end Patterns

def removeAll (r : Regex) (s : String) : String := String.ofList (r.replaceAll (fun _ => []) s.toList)

/-- What a group matched, empty if it took no part. -/
def submatch (f : Found) (index : ℕ) : String := String.ofList ((f.matched.group index).getD [])

/-- A frame's function and file, both normalized. -/
def frame (fn file : String) : String :=
  trimSpace (normalizeMessage (removeAll reOffset fn) ++ " " ++ normalizeMessage file)

def isIndented (line : String) : Bool := (cutPrefix line "\t").isSome || (cutPrefix line "  ").isSome

/-- The last element of a POSIX or Windows path. -/
def baseName (p : String) : String :=
  String.ofList (p.toList.reverse.takeWhile (fun c => c ≠ '/' && c ≠ '\\')).reverse

/-- The text before the last `c`, when there is one. -/
def beforeLast (s : String) (c : Char) : Option (List Char) :=
  match s.toList.reverse.dropWhile (· ≠ c) with
  | [] => none
  | _ :: before => some before.reverse

/-- The function name of a line of a Go traceback. -/
def goFunc (line : String) : String :=
  let line := (cutPrefix line "created by ").getD line
  let line := removeAll reGoSuffix line
  -- The arguments are the last parenthesized group; earlier ones belong to the name.
  match beforeLast line '(' with
  | some before => if before ≠ [] ∧ hasSuffix line ")" then String.ofList before else line
  | none => line

/-- `strings.TrimRight(s, "(@")`. -/
def trimRightMarks (s : String) : String :=
  String.ofList (s.toList.reverse.dropWhile (fun c => c = '(' || c = '@')).reverse

/-- The `at fn (file:line:col)` family, and any other line with a location. -/
def genericFrame (line : String) : Option String :=
  let cut := cutPrefix line "at "
  let rest := cut.getD line
  let loc := reLocation.find rest.toList
  if cut.isNone && loc.isNone then none
  else
    match reDotnetIn.find rest.toList with
    | some m => some (frame (submatch m 1) (baseName (submatch m 2)))
    | none =>
      match loc, reBareLocation.find rest.toList with
      | none, some m => some (frame (String.ofList m.before) (submatch m 1))
      | none, none => some (frame (trimSpace (trimRightMarks (trimSpace rest))) "")
      | some l, _ =>
        let before := String.ofList l.before
        let fn := match reRubyIn.find l.after with
          | some m => if trimSpace before = "" then submatch m 1 else before
          | none => before
        some (frame (trimSpace (trimRightMarks (trimSpace fn))) (submatch l 1))

/-- A line of a Go traceback and the next one, when that one is indented and only a location. -/
def goFrame (line : String) (next : Option String) : Option String :=
  match next with
  | none => none
  | some next =>
    if isIndented next && !reLocation.hasMatch line.toList then
      match reLocation.find (trimSpace next).toList with
      | some loc => if loc.before = [] then some (frame (goFunc line) (submatch loc 1)) else none
      | none => none
    else none

/-- The line after a function is read with it when it begins with a location. -/
theorem goFrame_indented {line next : String} (hindent : isIndented next = true)
    (hline : reLocation.hasMatch line.toList = false) :
    goFrame line (some next) =
      (reLocation.firstAt [] (trimSpace next).toList).map
        (fun m => frame (goFunc line) (String.ofList ((m.group 1).getD []))) := by
  rw [goFrame, hindent, hline, Bool.not_false, Bool.and_true, if_pos rfl]
  cases hfirst : reLocation.firstAt [] (trimSpace next).toList with
  | none =>
    cases hfind : reLocation.find (trimSpace next).toList with
    | none => rfl
    | some loc => exact if_neg (before_ne_nil_of_firstAt hfirst hfind)
  | some m =>
    rw [find_of_firstAt hfirst]
    rfl

/-- What a line of a stack trace is: nothing of it, the head of a Python traceback, a frame, or
one together with the next line. -/
inductive LineRead where
  | nothing
  | traceback
  | single (frame : String)
  | pair (frame : String)

def readLine (raw : String) (next : Option String) : LineRead :=
  let line := trimSpace raw
  if line = "" then .nothing
  else if (cutPrefix line "Traceback (most recent call last)").isSome then .traceback
  else
    match rePythonFrame.find line.toList with
    | some m => .single (frame (submatch m 2) (baseName (submatch m 1)))
    | none =>
      match goFrame line next with
      | some f => .pair f
      | none =>
        match genericFrame line with
        | some f => .single f
        | none => .nothing

section Lines

variable {raw : String} {next : Option String}

/-- A line of a traceback that is not Python's is read with the next one if that is its location,
and by itself otherwise. -/
theorem readLine_of_not_python (hne : trimSpace raw ≠ "")
    (htraceback : cutPrefix (trimSpace raw) "Traceback (most recent call last)" = none)
    (hpython : rePythonFrame.find (trimSpace raw).toList = none) :
    readLine raw next =
      match goFrame (trimSpace raw) next with
      | some f => .pair f
      | none => ((genericFrame (trimSpace raw)).map LineRead.single).getD .nothing := by
  rw [readLine, if_neg hne, htraceback, hpython]
  cases goFrame (trimSpace raw) next with
  | some f => simp
  | none => cases genericFrame (trimSpace raw) <;> simp

end Lines

/-- Whether a traceback is Python's, and the frames in the order of the lines; `skip` is set when
the line was read with the one before. -/
def readLines (skip : Bool) : List String → Bool × List String
  | [] => (false, [])
  | raw :: rest =>
    if skip then readLines false rest
    else
      match readLine raw rest.head? with
      | .nothing => readLines false rest
      | .traceback => (true, (readLines false rest).2)
      | .single f => let read := readLines false rest; (read.1, f :: read.2)
      | .pair f => let read := readLines true rest; (read.1, f :: read.2)

/-- `strings.ReplaceAll(s, "\r\n", "\n")`. -/
def unixLines : List Char → List Char
  | '\r' :: '\n' :: rest => '\n' :: unixLines rest
  | c :: rest => c :: unixLines rest
  | [] => []

/-- The innermost frames of a stack trace, innermost first. -/
def frames (stack : String) : List String :=
  let read := readLines false (splitChar (String.ofList (unixLines stack.toList)) '\n')
  (if read.1 then read.2.reverse else read.2).take maxFrames

/-- The log event fingerprints are computed for, and the attributes they are computed from. -/
def eventName : String := "cli.error.raised"

def attrMessage : String := "cli.error.message"

def attrStacktrace : String := "cli.error.stacktrace"

def sourceStack : String := "stack"

def sourceMessage : String := "message"

/-- Mixed into every fingerprint. -/
def version : String := "v1"

/-- The outcome of fingerprinting one event. -/
structure Result where
  fingerprint : String := ""
  source : String := ""
  message : String := ""
  topFrame : String := ""
  deriving DecidableEq

def hash (source : String) (lines : List String) : String :=
  String.ofList ((gobytes.hexString (sha256.sum256
    (gobytes.ofString (version ++ "\n" ++ source ++ "\n" ++ "\n".intercalate lines)))).take 16)

/-- Fingerprints an event from its message and stack trace, if there is anything to group on. -/
def compute (message stack : String) : Option Result :=
  let text := normalizeMessage message
  match frames stack with
  | top :: rest =>
    some { source := sourceStack, message := text, topFrame := top, fingerprint := hash sourceStack (top :: rest) }
  | [] =>
    if text = "" then none
    else some { source := sourceMessage, message := text, topFrame := "", fingerprint := hash sourceMessage [text] }

/-- A stack trace with frames is what an event is grouped by. -/
theorem compute_of_frames {message stack top : String} {rest : List String} (h : frames stack = top :: rest) :
    compute message stack =
      some { source := sourceStack, message := normalizeMessage message, topFrame := top,
             fingerprint := hash sourceStack (top :: rest) } := by
  simp only [compute, h]

/-- At most `n` runes of `s`, a cut marked with "…". -/
def truncate (s : String) (n : Nat) : String :=
  if s.toList.length ≤ n then s else String.ofList (s.toList.take (n - 1)) ++ "…"

end argvio.errfp
