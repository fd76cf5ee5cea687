import Mathlib.Data.String.Basic
import Mathlib.Algebra.Group.Int.Defs

open List

namespace gostrings

/-- `len(s)`: the number of bytes of a string. -/
def len (s : String) : Int := s.utf8ByteSize

/-- `strings.CutPrefix`: what follows `lead` in `s`, when `s` starts with it. -/
def cutPrefix (s lead : String) : Option String :=
  if lead.toList <+: s.toList then some (String.ofList (s.toList.drop lead.toList.length)) else none

/-- `strings.HasSuffix`. -/
def hasSuffix (s tail : String) : Bool := decide (tail.toList <:+ s.toList)

/-- `strings.TrimSuffix`: `s` without one trailing `tail`. -/
def trimSuffix (s tail : String) : String :=
  if hasSuffix s tail then String.ofList (s.toList.take (s.toList.length - tail.toList.length)) else s

/-- `strings.Contains` for a separator of one character. -/
def containsChar (s : String) (c : Char) : Bool := decide (c ∈ s.toList)

/-- `strings.Split` for a separator of one character. -/
def splitChar (s : String) (c : Char) : List String := (s.toList.splitOn c).map String.ofList

/-- `strings.Cut` for a separator of one character: the text before and after
its first occurrence. -/
def cutChar (s : String) (c : Char) : Option (String × String) :=
  match s.toList.span (· ≠ c) with
  | (_, []) => none
  | (before, _ :: after) => some (String.ofList before, String.ofList after)

/-- `regexp.QuoteMeta`: the characters that mean something in a pattern, escaped. -/
def quoteMeta (s : String) : String :=
  String.ofList (s.toList.flatMap (fun c =>
    if c ∈ ['\\', '.', '+', '*', '?', '(', ')', '|', '[', ']', '\x7b', '\x7d', '^', '$'] then ['\\', c] else [c]))

/-- A lower-case letter or a digit. -/
def lowerOrDigit (c : Char) : Bool := ('a' ≤ c ∧ c ≤ 'z') ∨ ('0' ≤ c ∧ c ≤ '9')

/-- A match of `^[a-z0-9][a-z0-9._-]*$`. -/
def isIdentifier (s : String) : Bool :=
  match s.toList with
  | [] => false
  | c :: rest => lowerOrDigit c && rest.all (fun c => lowerOrDigit c || c = '.' || c = '_' || c = '-')

/-- A match of `^[a-z0-9][a-z0-9._-]{0,63}$`. -/
def isShortIdentifier (s : String) : Bool := isIdentifier s && decide (s.toList.length ≤ 64)

/-- `unicode.IsSpace`. -/
def isSpace (c : Char) : Bool :=
  let n := c.toNat
  (9 ≤ n ∧ n ≤ 13) ∨ n = 0x20 ∨ n = 0x85 ∨ n = 0xA0 ∨ n = 0x1680 ∨ (0x2000 ≤ n ∧ n ≤ 0x200A) ∨ n = 0x2028 ∨
    n = 0x2029 ∨ n = 0x202F ∨ n = 0x205F ∨ n = 0x3000

/-- The characters that `unicode.IsSpace` accepts. -/
def spaceCodes : List ℕ :=
  [0x09, 0x0A, 0x0B, 0x0C, 0x0D, 0x20, 0x85, 0xA0, 0x1680, 0x2000, 0x2001, 0x2002, 0x2003, 0x2004, 0x2005, 0x2006, 0x2007,
    0x2008, 0x2009, 0x200A, 0x2028, 0x2029, 0x202F, 0x205F, 0x3000]

def spaces : List Char := spaceCodes.map Char.ofNat

/-- Drops some codes from the front, at most `fuel` of them. -/
def trimFront {α : Type} [DecidableEq α] (codes : List (List α)) : ℕ → List α → List α
  | 0, s => s
  | fuel + 1, s =>
    match codes.find? (fun code => decide (code <+: s)) with
    | some code => trimFront codes fuel (s.drop code.length)
    | none => s

/-- Drops some codes from both ends. -/
def trimEnds {α : Type} [DecidableEq α] (codes : List (List α)) (s : List α) : List α :=
  let front := trimFront codes s.length s
  (trimFront (codes.map reverse) front.length front.reverse).reverse

/-- `strings.TrimSpace`. -/
def trimSpace (s : String) : String := String.ofList (trimEnds (spaces.map ([·])) s.toList)

/-- `strings.Fields`. -/
def fields (s : String) : List String :=
  ((s.toList.splitOnP isSpace).filter (fun cs => cs ≠ [])).map String.ofList

/-- The number that decimal digits stand for. -/
def decimal (digits : List Char) : Nat := digits.foldl (fun n c => 10 * n + (c.toNat - 48)) 0

/-- The number of 64 bits that the codes of decimal digits stand for. -/
def parseDigits (codes : List ℕ) : Option ℕ :=
  if codes ≠ [] ∧ codes.all (fun c => 48 ≤ c ∧ c ≤ 57) then
    let n := codes.foldl (fun n c => 10 * n + (c - 48)) 0
    if n < 2 ^ 64 then some n else none
  else none

/-- `strconv.ParseUint(s, 10, 64)`: decimal digits only, within 64 bits. -/
def parseUint (s : String) : Option ℕ := parseDigits (s.toList.map Char.toNat)

/-- A number's sign, whether it is negative, and its digits. -/
def cutSign : List Char → Bool × List Char
  | '-' :: digits => (true, digits)
  | '+' :: digits => (false, digits)
  | digits => (false, digits)

/-- `strconv.Atoi` where an `int` has 64 bits: an optional sign and decimal digits. -/
def atoi (s : String) : Option Int :=
  let number := cutSign s.toList
  if number.2 ≠ [] ∧ number.2.all (fun c => '0' ≤ c ∧ c ≤ '9') then
    let n : Int := if number.1 then -(decimal number.2 : Int) else decimal number.2
    if -2 ^ 63 ≤ n ∧ n < 2 ^ 63 then some n else none
  else none

private def hexDigits (width n : Nat) : String :=
  let digits := (Nat.toDigits 16 n).map Char.toLower
  String.ofList (replicate (width - digits.length) '0' ++ digits)

/-- One character inside `strconv.Quote`, given `unicode.IsPrint`. -/
private def quoteChar (isPrint : Char → Bool) (c : Char) : String :=
  if c = '"' then "\\\""
  else if c = '\\' then "\\\\"
  else if isPrint c then String.singleton c
  else if c.toNat = 7 then "\\a"
  else if c.toNat = 8 then "\\b"
  else if c.toNat = 12 then "\\f"
  else if c = '\n' then "\\n"
  else if c = '\r' then "\\r"
  else if c = '\t' then "\\t"
  else if c.toNat = 11 then "\\v"
  else if c.toNat < 32 ∨ c.toNat = 127 then "\\x" ++ hexDigits 2 c.toNat
  else if c.toNat < 65536 then "\\u" ++ hexDigits 4 c.toNat
  else "\\U" ++ hexDigits 8 c.toNat

/-- The `%q` rendering of a string, `strconv.Quote`. -/
def quote (isPrint : Char → Bool) (s : String) : String :=
  "\"" ++ String.join (s.toList.map (quoteChar isPrint)) ++ "\""

theorem eq_append_iff {s a b : String} : s = a ++ b ↔ s.toList = a.toList ++ b.toList := by
  rw [← String.toList_append, String.toList_inj]

theorem cutPrefix_eq_some_iff {s lead rest : String} : cutPrefix s lead = some rest ↔ s = lead ++ rest := by
  rw [eq_append_iff]
  unfold cutPrefix
  split
  · rename_i hlead
    obtain ⟨tail, htail⟩ := hlead
    rw [← htail, drop_left, Option.some.injEq, append_cancel_left_eq]
    constructor
    · rintro rfl
      exact String.toList_ofList.symm
    · rintro rfl
      exact String.ofList_toList
  · rename_i hlead
    refine iff_of_false nofun fun heq => hlead ?_
    rw [heq]
    exact prefix_append _ _

theorem hasSuffix_iff {s tail : String} : hasSuffix s tail = true ↔ ∃ lead, s = lead ++ tail := by
  unfold hasSuffix
  rw [decide_eq_true_iff]
  constructor
  · rintro ⟨lead, hlead⟩
    refine ⟨String.ofList lead, eq_append_iff.mpr ?_⟩
    rw [String.toList_ofList, hlead]
  · rintro ⟨lead, rfl⟩
    rw [String.toList_append]
    exact suffix_append _ _

theorem trimSuffix_append (lead tail : String) : trimSuffix (lead ++ tail) tail = lead := by
  have hsuffix : hasSuffix (lead ++ tail) tail = true := hasSuffix_iff.mpr ⟨lead, rfl⟩
  unfold trimSuffix
  rw [if_pos hsuffix, String.toList_append, length_append, Nat.add_sub_cancel, take_left,
    String.ofList_toList]

theorem len_append (a b : String) : len (a ++ b) = len a + len b := by
  unfold len
  rw [String.utf8ByteSize_append]
  exact Int.natCast_add _ _

theorem eq_of_isPrefix_of_len_eq {a b : String} (hlead : a.toList <+: b.toList) (hlen : len a = len b) : a = b := by
  obtain ⟨c, hc⟩ := hlead
  have hb : b = a ++ String.ofList c := eq_append_iff.mpr (by rw [String.toList_ofList, hc])
  have hempty : String.ofList c = "" := by
    rw [hb, len_append] at hlen
    unfold len at hlen
    rw [← String.utf8ByteSize_eq_zero_iff]
    omega
  rw [hb, hempty, String.append_empty]

/-- A string has one lead of each length. -/
theorem eq_of_append_eq {a b rest rest' : String} (h : a ++ rest = b ++ rest') (hlen : len a = len b) : a = b := by
  have ha : a.toList <+: (b ++ rest').toList := by
    rw [← h, String.toList_append]
    exact prefix_append _ _
  have hb : b.toList <+: (b ++ rest').toList := by
    rw [String.toList_append]
    exact prefix_append _ _
  rcases prefix_or_prefix_of_prefix ha hb with hab | hba
  · exact eq_of_isPrefix_of_len_eq hab hlen
  · exact (eq_of_isPrefix_of_len_eq hba hlen.symm).symm

theorem dropWhile_isSpace {text : List Char} (h : ∀ c ∈ text.head?, isSpace c = false) :
    text.dropWhile isSpace = text := by
  cases text with
  | nil => rfl
  | cons c text => exact dropWhile_cons_of_neg (by simp [h c rfl])

theorem isSpace_iff {c : Char} : isSpace c = true ↔ c ∈ spaces := by
  have hcodes : ∀ n ∈ spaceCodes, (Char.ofNat n).toNat = n := by decide
  have hspaces : c ∈ spaces ↔ c.toNat ∈ spaceCodes := by
    rw [spaces, mem_map]
    constructor
    · rintro ⟨n, hn, rfl⟩
      rwa [hcodes n hn]
    · intro hn
      exact ⟨c.toNat, hn, Char.ofNat_toNat c⟩
  rw [hspaces, isSpace, decide_eq_true_eq]
  simp only [spaceCodes, mem_cons, not_mem_nil, or_false]
  omega

theorem trimFront_spaces {fuel : ℕ} {s : List Char} (h : s.length ≤ fuel) :
    trimFront (spaces.map ([·])) fuel s = s.dropWhile isSpace := by
  induction fuel generalizing s with
  | zero =>
    rw [length_eq_zero_iff.mp (Nat.le_zero.mp h)]
    rfl
  | succ fuel ih =>
    unfold trimFront
    cases hfind : (spaces.map ([·])).find? (fun code => decide (code <+: s)) with
    | none =>
      refine (dropWhile_isSpace fun c hc => ?_).symm
      obtain ⟨rest, rfl⟩ := head?_eq_some_iff.mp hc
      rw [Bool.eq_false_iff]
      intro hspace
      have hprefix := find?_eq_none.mp hfind [c] (mem_map_of_mem (isSpace_iff.mp hspace))
      exact hprefix (decide_eq_true ⟨rest, rfl⟩)
    | some code =>
      obtain ⟨c, hc, rfl⟩ := mem_map.mp (mem_of_find?_eq_some hfind)
      have hprefix := find?_some hfind
      obtain ⟨rest, rfl⟩ := of_decide_eq_true hprefix
      exact (ih (Nat.le_of_succ_le_succ h)).trans (dropWhile_cons_of_pos (isSpace_iff.mpr hc)).symm

theorem trimSpace_eq (s : String) :
    trimSpace s = String.ofList (((s.toList.dropWhile isSpace).reverse.dropWhile isSpace).reverse) := by
  have hreverse : (spaces.map ([·])).map reverse = spaces.map ([·]) := by simp [Function.comp_def]
  rw [trimSpace, trimEnds, hreverse, trimFront_spaces (le_refl _), trimFront_spaces (length_reverse ..).le]

/-- A text without space at its ends is what is left of it after leading space. -/
theorem trimSpace_padded {lead text : List Char} (hlead : ∀ c ∈ lead, isSpace c = true)
    (hfirst : ∀ c ∈ text.head?, isSpace c = false) (hlast : ∀ c ∈ text.getLast?, isSpace c = false) :
    trimSpace (String.ofList (lead ++ text)) = String.ofList text := by
  have hback : ∀ c ∈ text.reverse.head?, isSpace c = false := by
    rwa [head?_reverse]
  rw [trimSpace_eq, String.toList_ofList, dropWhile_append_of_pos hlead, dropWhile_isSpace hfirst,
    dropWhile_isSpace hback, reverse_reverse]

end gostrings

namespace utf8

theorem loop_toByteArray (front back acc : List UInt8) :
    ByteArray.toList.loop (front ++ back).toByteArray front.length acc = acc.reverse ++ back := by
  induction back generalizing front acc with
  | nil => rw [ByteArray.toList.loop.eq_def, if_neg (by simp), append_nil]
  | cons b back ih =>
    have hsize : front.length < (front ++ b :: back).toByteArray.size := by simp
    have hget : (front ++ b :: back).toByteArray.get! front.length = b := by
      simp [ByteArray.get!]
    have hnext := ih (front ++ [b]) (b :: acc)
    rw [append_assoc, singleton_append, length_append, length_singleton] at hnext
    rw [ByteArray.toList.loop.eq_def, if_pos hsize, hget, hnext, reverse_cons, append_assoc,
      singleton_append]

theorem toList_toByteArray (l : List UInt8) : l.toByteArray.toList = l := by
  rw [ByteArray.toList.eq_1]
  exact loop_toByteArray [] l []

/-- The bytes of a string are those of its characters. -/
theorem toList_toUTF8 (s : String) : s.toUTF8.toList = s.toList.flatMap String.utf8EncodeChar := by
  rw [String.toUTF8_eq_toByteArray, ← String.utf8Encode_toList, utf8Encode, toList_toByteArray]

theorem toList_toUTF8_inj {s t : String} : s.toUTF8.toList = t.toUTF8.toList ↔ s = t := by
  refine ⟨fun h => ?_, fun h => h ▸ rfl⟩
  rw [toList_toUTF8, toList_toUTF8] at h
  rw [← String.toByteArray_inj, ← String.utf8Encode_toList, ← String.utf8Encode_toList, utf8Encode,
    utf8Encode, h]

theorem lt_255_of_mem_utf8EncodeChar {c : Char} {b : UInt8} (hb : b ∈ String.utf8EncodeChar c) : b.toNat < 255 := by
  unfold String.utf8EncodeChar at hb
  simp only at hb
  split_ifs at hb
  all_goals
    simp only [mem_cons, not_mem_nil, or_false] at hb
    rcases hb with rfl | rfl | rfl | rfl <;> rw [UInt8.toNat_ofNat'] <;> omega

/-- `0xff` is not a byte of any string. -/
theorem ff_notMem_toUTF8 (s : String) : (0xff : UInt8) ∉ s.toUTF8.toList := by
  intro hb
  rw [toList_toUTF8] at hb
  obtain ⟨c, -, hb⟩ := mem_flatMap.mp hb
  exact absurd (lt_255_of_mem_utf8EncodeChar hb) (by decide)

end utf8

namespace gobytes

/-- A Go string: bytes, which need not be UTF-8. -/
abbrev Text := List UInt8

/-- The bytes of a string that is UTF-8. -/
def ofString (s : String) : Text := s.toList.flatMap String.utf8EncodeChar

/-- `hex.EncodeToString`. -/
def hexString (bytes : List UInt8) : List Char :=
  bytes.flatMap (fun b => [Nat.digitChar (b.toNat / 16), Nat.digitChar (b.toNat % 16)])

/-- `strings.TrimSpace`. A space is one by its encoding, and bytes that are not UTF-8 are none. -/
def trimSpace (s : Text) : Text := gostrings.trimEnds (gostrings.spaces.map String.utf8EncodeChar) s

/-- `strings.TrimPrefix` for a lead of one byte. -/
def trimPrefix (s : Text) (lead : UInt8) : Text :=
  match s with
  | b :: rest => if b = lead then rest else s
  | [] => []

/-- The text before the first `b`, and the text after it when there is one. -/
def splitFirst (s : Text) (b : UInt8) : Text × Option Text :=
  match s.span (· ≠ b) with
  | (_, []) => (s, none)
  | (before, _ :: after) => (before, some after)

/-- `strconv.ParseUint(s, 10, 64)`. -/
def parseUint (s : Text) : Option ℕ := gostrings.parseDigits (s.map UInt8.toNat)

theorem ofString_inj {s t : String} : ofString s = ofString t ↔ s = t := by
  rw [ofString, ofString, ← utf8.toList_toUTF8, ← utf8.toList_toUTF8, utf8.toList_toUTF8_inj]

end gobytes
