import Mathlib.Data.List.MinMax

open List

namespace regex

/-- A set of characters: those listed, or all but those listed. -/
structure CharSet where
  negated : Bool
  chars : List Char
  deriving DecidableEq

def CharSet.mem (s : CharSet) (c : Char) : Bool := xor s.negated (decide (c ∈ s.chars))

def CharSet.only (c : Char) : CharSet := ⟨false, [c]⟩

def CharSet.except (c : Char) : CharSet := ⟨true, [c]⟩

@[simp] theorem CharSet.mem_only {c d : Char} : (CharSet.only c).mem d = decide (d = c) := by
  simp [CharSet.mem, CharSet.only]

@[simp] theorem CharSet.mem_except {c d : Char} : (CharSet.except c).mem d = decide (d ≠ c) := by
  simp [CharSet.mem, CharSet.except]

/-- Regular expressions: the empty one, the start of the text, a character, a
character any number of times, sequences, alternatives and capturing groups. -/
inductive Regex where
  | empty
  | start
  | one (s : CharSet)
  | many (s : CharSet)
  | seq (a b : Regex)
  | alt (a b : Regex)
  | group (a : Regex)
  deriving DecidableEq

/-- A matched text, with what the first group of the expression matched in it. -/
structure Match where
  text : List Char
  capture : Option (List Char)
  deriving DecidableEq

def Match.append (m n : Match) : Match := ⟨m.text ++ n.text, m.capture.or n.capture⟩

namespace Regex

def hasGroup : Regex → Bool
  | empty | start | one _ | many _ => false
  | seq a b | alt a b => a.hasGroup || b.hasGroup
  | group _ => true

/-- Every match that begins between `before` and `after`. -/
def matchesAt : Regex → List Char → List Char → List Match
  | empty, _, _ => [⟨[], none⟩]
  | start, before, _ => if before = [] then [⟨[], none⟩] else []
  | one _, _, [] => []
  | one s, _, c :: _ => if s.mem c then [⟨[c], none⟩] else []
  | many s, _, after => (after.takeWhile s.mem).inits.map (fun text => ⟨text, none⟩)
  | seq a b, before, after =>
    (a.matchesAt before after).flatMap (fun m =>
      (b.matchesAt (before ++ m.text) (after.drop m.text.length)).map m.append)
  | alt a b, before, after => a.matchesAt before after ++ b.matchesAt before after
  | group a, before, after => (a.matchesAt before after).map (fun m => ⟨m.text, some m.text⟩)

/-- The longest match that begins between `before` and `after`. -/
def longestAt (r : Regex) (before after : List Char) : Option Match :=
  (r.matchesAt before after).argmax (fun m => m.text.length)

/-- The leftmost match that begins in `after`, and the longest there. -/
def search (r : Regex) (before : List Char) : List Char → Option Match
  | [] => r.longestAt before []
  | c :: after =>
    match r.longestAt before (c :: after) with
    | some m => some m
    | none => r.search (before ++ [c]) after

/-- What the first group matched, or the whole match of an expression without groups. -/
def substring (r : Regex) (text : List Char) : Option (List Char) :=
  (r.search [] text).bind (fun m => if r.hasGroup then m.capture else some m.text)

variable {r : Regex} {before after : List Char} {m : Match}

theorem mem_matchesAt_one {s : CharSet} :
    m ∈ (one s).matchesAt before after ↔ ∃ c rest, after = c :: rest ∧ s.mem c = true ∧ m = ⟨[c], none⟩ := by
  cases after with
  | nil => simp [matchesAt]
  | cons c rest => by_cases hc : s.mem c = true <;> simp [matchesAt, hc]

theorem mem_matchesAt_seq {a b : Regex} :
    m ∈ (seq a b).matchesAt before after ↔
      ∃ x ∈ a.matchesAt before after,
        ∃ y ∈ b.matchesAt (before ++ x.text) (after.drop x.text.length), m = x.append y := by
  simp [matchesAt, eq_comm]

theorem longestAt_eq_none (h : ∀ m, m ∉ r.matchesAt before after) :
    r.longestAt before after = none := by
  rw [longestAt, eq_nil_iff_forall_not_mem.mpr h]
  rfl

theorem longestAt_eq_some (hm : m ∈ r.matchesAt before after)
    (hmax : ∀ n ∈ r.matchesAt before after, n ≠ m → n.text.length < m.text.length) :
    r.longestAt before after = some m := by
  have hle : ∀ n ∈ r.matchesAt before after, n.text.length ≤ m.text.length := by
    intro n hn
    by_cases heq : n = m
    · rw [heq]
    · exact (hmax n hn heq).le
  refine argmax_eq_some_iff.mpr ⟨hm, hle, fun n hn hlen => ?_⟩
  by_cases heq : n = m
  · rw [heq]
  · exact absurd hlen (not_le.mpr (hmax n hn heq))

theorem search_of_longestAt (h : r.longestAt before after = some m) : r.search before after = some m := by
  cases after with
  | nil => exact h
  | cons c rest => simp [search, h]

/-- Where no match begins, the search moves on. -/
theorem search_append_of_none {before skipped after : List Char}
    (h : ∀ x c y, skipped = x ++ c :: y → r.longestAt (before ++ x) (c :: y ++ after) = none) :
    r.search before (skipped ++ after) = r.search (before ++ skipped) after := by
  induction skipped generalizing before with
  | nil => simp
  | cons c rest ih =>
    have hhere : r.longestAt before (c :: rest ++ after) = none := by simpa using h [] c rest rfl
    have hrest : r.search (before ++ [c]) (rest ++ after) = r.search (before ++ [c] ++ rest) after := by
      apply ih
      rintro x d y rfl
      simpa using h (c :: x) d y rfl
    rw [cons_append] at hhere ⊢
    rw [search, hhere]
    simpa using hrest

def seqOf (rs : List Regex) : Regex := rs.foldr seq empty

/-- A text to be matched as it is. -/
def literal (text : List Char) : List Regex := text.map (fun c => one (.only c))

/-- A literal matches where the text goes on with it. -/
theorem mem_matchesAt_literal {text : List Char} {rs : List Regex} {before after : List Char} {m : Match} :
    m ∈ (seqOf (literal text ++ rs)).matchesAt before after ↔
      ∃ rest, after = text ++ rest ∧ ∃ n ∈ (seqOf rs).matchesAt (before ++ text) rest, m = ⟨text ++ n.text, n.capture⟩ := by
  induction text generalizing before after m with
  | nil => simp [literal]
  | cons c text ih =>
    change m ∈ (seq (one (.only c)) (seqOf (literal text ++ rs))).matchesAt before after ↔ _
    rw [mem_matchesAt_seq]
    constructor
    · rintro ⟨x, hx, y, hy, rfl⟩
      obtain ⟨d, tail, rfl, hd, rfl⟩ := mem_matchesAt_one.mp hx
      obtain rfl : d = c := by simpa using hd
      obtain ⟨rest, hrest, n, hn, rfl⟩ := ih.mp hy
      refine ⟨rest, ?_, n, by simpa using hn, by simp [Match.append]⟩
      simpa using hrest
    · rintro ⟨rest, rfl, n, hn, rfl⟩
      refine ⟨⟨[c], none⟩, mem_matchesAt_one.mpr ⟨c, text ++ rest, rfl, by simp, rfl⟩, ⟨text ++ n.text, n.capture⟩, ?_,
        by simp [Match.append]⟩
      exact ih.mpr ⟨rest, by simp, n, by simpa using hn, rfl⟩

/-- The alternatives of a non-empty list. -/
def altOf (r : Regex) : List Regex → Regex
  | [] => r
  | s :: rest => alt r (altOf s rest)

end Regex

inductive Token where
  | opened (capturing : Bool)
  | closed
  | bar
  | caret
  | star
  | set (s : CharSet)
  deriving DecidableEq

def special : List Char := ['\\', '.', '+', '*', '?', '(', ')', '|', '[', ']', '\x7b', '\x7d', '^', '$']

/-- A character that stands for itself. -/
def ordinary (c : Char) : Bool := c ∉ special

theorem special_not_alphanum : ∀ c ∈ special, c.isAlphanum = false := by
  have hall : special.all (fun c => !c.isAlphanum) = true := by decide
  simpa using hall

/-- The tokens of an expression; `none` for what this fragment does not have. -/
def lex : List Char → Option (List Token)
  | [] => some []
  | c :: cs =>
    if ordinary c then (lex cs).map (.set (.only c) :: ·)
    else
      match c, cs with
      | '(', '?' :: ':' :: rest => (lex rest).map (.opened false :: ·)
      | '(', '?' :: _ => none
      | '(', rest => (lex rest).map (.opened true :: ·)
      | ')', rest => (lex rest).map (.closed :: ·)
      | '|', rest => (lex rest).map (.bar :: ·)
      | '^', rest => (lex rest).map (.caret :: ·)
      | '*', rest => (lex rest).map (.star :: ·)
      | '[', '^' :: d :: ']' :: rest => if d = '\\' then none else (lex rest).map (.set (.except d) :: ·)
      | '\\', d :: rest => if d.isAlphanum then none else (lex rest).map (.set (.only d) :: ·)
      | _, _ => none

theorem lex_ordinary {c : Char} (hc : ordinary c = true) (cs : List Char) :
    lex (c :: cs) = (lex cs).map (.set (.only c) :: ·) := by
  rw [lex.eq_def]
  exact if_pos hc

/-- A character written so that it stands for itself. -/
def escape (c : Char) : List Char := if ordinary c then [c] else ['\\', c]

theorem lex_escape (c : Char) (cs : List Char) : lex (escape c ++ cs) = (lex cs).map (.set (.only c) :: ·) := by
  unfold escape
  by_cases hc : ordinary c = true
  · rw [if_pos hc]
    exact lex_ordinary hc cs
  · rw [if_neg hc]
    have hmark : ordinary '\\' = false := by decide
    have hnot : c.isAlphanum = false := special_not_alphanum c (by simpa [ordinary] using hc)
    rw [cons_append, cons_append, lex.eq_def]
    simp [hmark, hnot]

theorem lex_flatMap_escape (text cs : List Char) :
    lex (text.flatMap escape ++ cs) = (lex cs).map (text.map (fun c => .set (.only c)) ++ ·) := by
  induction text with
  | nil => simp
  | cons c text ih =>
    rw [flatMap_cons, append_assoc, lex_escape, ih, Option.map_map]
    rfl

/-- A group that is still open: the alternatives before the last bar and what
follows it, latest first. -/
structure Frame where
  capturing : Bool
  alts : List Regex
  items : List Regex

def Frame.new (capturing : Bool) : Frame := ⟨capturing, [], []⟩

def Frame.push (f : Frame) (r : Regex) : Frame := { f with items := r :: f.items }

/-- The expression inside a group. -/
def Frame.body (f : Frame) : Regex :=
  match f.alts.reverse with
  | [] => Regex.seqOf f.items.reverse
  | r :: rest => Regex.altOf r (rest ++ [Regex.seqOf f.items.reverse])

def Frame.close (f : Frame) : Regex := if f.capturing then .group f.body else f.body

/-- The groups around the next token, innermost first. -/
def parseTokens : List Token → Frame → List Frame → Option Regex
  | [], f, [] => some f.body
  | [], _, _ :: _ => none
  | .opened capturing :: ts, f, outer => parseTokens ts (.new capturing) (f :: outer)
  | .closed :: ts, f, g :: outer => parseTokens ts (g.push f.close) outer
  | .closed :: _, _, [] => none
  | .bar :: ts, f, outer => parseTokens ts ⟨f.capturing, Regex.seqOf f.items.reverse :: f.alts, []⟩ outer
  | .caret :: ts, f, outer => parseTokens ts (f.push .start) outer
  | .set s :: ts, f, outer => parseTokens ts (f.push (.one s)) outer
  | .star :: ts, f, outer =>
    match f.items with
    | .one s :: items => parseTokens ts { f with items := .many s :: items } outer
    | _ => none

theorem parseTokens_text (text : List Char) (ts : List Token) (f : Frame) (outer : List Frame) :
    parseTokens (text.map (fun c => .set (.only c)) ++ ts) f outer =
      parseTokens ts { f with items := (Regex.literal text).reverse ++ f.items } outer := by
  induction text generalizing f with
  | nil => rfl
  | cons c text ih =>
    rw [map_cons, cons_append, parseTokens, ih]
    simp [Frame.push, Regex.literal]

def parse (pattern : List Char) : Option Regex := (lex pattern).bind (fun ts => parseTokens ts (.new false) [])

end regex
