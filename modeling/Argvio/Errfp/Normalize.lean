import Argvio.GoRegexp
import Argvio.GoStrings

namespace argvio.errfp

open gostrings goregexp goregexp.Regex

section Classes

/-- The class `\s`. -/
def space (c : Char) : Bool := c ∈ [' ', '\t', '\n', '\x0c', '\r']

def digit (c : Char) : Bool := c.isDigit

/-- `[0-9a-f]` in either case. -/
def hexDigit (c : Char) : Bool := c.isDigit || ('a' ≤ c && c ≤ 'f') || ('A' ≤ c && c ≤ 'F')

/-- `[a-z]` in either case; the long s and the Kelvin sign are such cases. -/
def foldedLetter (c : Char) : Bool := c.isAlpha || c = 'ſ' || c = 'K'

/-- Either quotation mark of one line. -/
def quoteMark (c : Char) : Bool := c = '\x27' || c = '\x22'

/-- `[^\s'"()\[\]{},;:]`. -/
def pathChar (c : Char) : Bool :=
  !(space c || quoteMark c || c ∈ ['(', ')', '[', ']', '\x7b', '\x7d', ',', ';', ':'])

end Classes

section Patterns

/-- A text between two marks, with escapes. -/
def quoted (mark : Char) : Regex :=
  seqOf [char mark, star true (alt (one (fun c => c ≠ mark && c ≠ '\\')) (seq (char '\\') (one (· ≠ '\n')))), char mark]

def reQuoted : Regex :=
  altOf (quoted '\x22') [quoted '\x27', seqOf [char '\x60', star true (one (· ≠ '\x60')), char '\x60']]

def reUUID : Regex :=
  seqOf [wordBoundary, times 8 (one hexDigit), char '-', times 4 (one hexDigit), char '-', times 4 (one hexDigit),
    char '-', times 4 (one hexDigit), char '-', times 12 (one hexDigit), wordBoundary]

def reURL : Regex :=
  seqOf [wordBoundary, one foldedLetter, star true (one (fun c => foldedLetter c || c.isDigit || c ∈ ['+', '.', '-'])),
    literal "://", plus (one (fun c => !(space c || quoteMark c || c ∈ ['<', '>', '(', ')'])))]

/-- An absolute path at the beginning of the text or after a delimiter: POSIX, Windows drive or UNC. -/
def rePath : Regex :=
  seqOf [group 1 (alt beginText (one (fun c => space c || c ∈ ['(', '[', '\x7b', '=', ',', ':', ';']))),
    group 2 (altOf (seqOf [opt (char '~'), char '/', plus (one pathChar)])
      [seqOf [one Char.isAlpha, char ':', one (fun c => c = '\\' || c = '/'), star true (one pathChar)],
        seqOf [char '\\', char '\\', plus (one pathChar)]])]

def reHex : Regex :=
  alt (seqOf [wordBoundary, char '0', one (fun c => c = 'x' || c = 'X'), plus (one hexDigit), wordBoundary])
    (seqOf [wordBoundary, times 8 (one hexDigit), star true (one hexDigit), wordBoundary])

/-- Numbers, with dotted or colon-separated parts and a short duration or size unit. -/
def reNumber : Regex :=
  seqOf [wordBoundary, plus (one digit), star true (seqOf [one (fun c => c = '.' || c = ':'), plus (one digit)]),
    opt (altOf (literal "ns") (["us", "ms", "s", "m", "h", "b", "kb", "mb", "gb", "k"].map literal)), wordBoundary]

def reSpace : Regex := plus (one space)

end Patterns

/-- A run of hex digits is an id after `0x`, or if it mixes digits and letters. -/
def hexId (text : List Char) : Bool :=
  ['0', 'x'].isPrefixOf (text.map Char.toLower) ||
    (text.any Char.isDigit && text.any (fun c => c.toLower ∈ ['a', 'b', 'c', 'd', 'e', 'f']))

/-- The variable parts of an error message replaced by placeholders, and whitespace collapsed. -/
def normalizeMessage (s : String) : String :=
  let text := reQuoted.replaceAll (fun _ => "<str>".toList) s.toList
  let text := reUUID.replaceAll (fun _ => "<uuid>".toList) text
  let text := reURL.replaceAll (fun _ => "<url>".toList) text
  let text := rePath.replaceAll (fun m => (m.group 1).getD [] ++ "<path>".toList) text
  let text := reHex.replaceAll (fun m => if hexId m.text then "<hex>".toList else m.text) text
  let text := reNumber.replaceAll (fun _ => "<n>".toList) text
  trimSpace (String.ofList (reSpace.replaceAll (fun _ => [' ']) text))

end argvio.errfp
