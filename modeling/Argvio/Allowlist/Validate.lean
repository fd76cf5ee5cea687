import Argvio.Allowlist.Schema

open gostrings

namespace argvio.allowlist

/-- The plain Go values attribute extraction produces. -/
inductive AttrValue where
  | str (s : String)
  | int (n : Int)
  | bool (b : Bool)
  | double (x : GoFloat)
  | strs (items : List String)
  deriving DecidableEq

/-- The `%T` of a value. -/
def AttrValue.goType : AttrValue → String
  | .str _ => "string"
  | .int _ => "int64"
  | .bool _ => "bool"
  | .double _ => "float64"
  | .strs _ => "[]string"

abbrev AttrMap := GoMap String AttrValue

/-- Why a value does not conform to its definition. -/
inductive AttrError where
  | expected (type got : String)
  | tooLong (max got : Int)
  | notInEnum (value : String) (enum : List String)
  | patternMismatch (pattern : String)
  | tooManyItems (max got : Int)
  | itemTooLong (max got : Int)
  | unknownType (key declared : String)
  deriving DecidableEq

def AttrError.text (isPrint : Char → Bool) : AttrError → String
  | .expected type got => "expected " ++ type ++ ", got " ++ got
  | .tooLong max got => "string exceeds max_length " ++ toString max ++ " (got " ++ toString got ++ ")"
  | .notInEnum value enum =>
    "value " ++ quote isPrint value ++ " not in allowed enum [" ++ " ".intercalate enum ++ "]"
  | .patternMismatch pattern => "value does not match pattern " ++ pattern
  | .tooManyItems max got => "array exceeds max_items " ++ toString max ++ " (got " ++ toString got ++ ")"
  | .itemTooLong max got => "array item exceeds max_length " ++ toString max ++ " (got " ++ toString got ++ ")"
  | .unknownType key declared =>
    "attribute " ++ quote isPrint key ++ " has unknown declared type " ++ quote isPrint declared

def checkString (d : AttrDef) (s : String) : Except AttrError Unit :=
  if d.maxLength > 0 ∧ len s > d.maxLength then .error (.tooLong d.maxLength (len s))
  else if d.enum ≠ [] ∧ s ∉ d.enum then .error (.notInEnum s d.enum)
  else
    match d.compiledPattern with
    | none => .ok ()
    | some re => if re.matchString s then .ok () else .error (.patternMismatch d.pattern)

def checkStringArray (d : AttrDef) (items : List String) : Except AttrError Unit :=
  if d.maxItems > 0 ∧ (items.length : Int) > d.maxItems then .error (.tooManyItems d.maxItems items.length)
  else if d.maxLength > 0 then
    match items.find? (fun s => decide (len s > d.maxLength)) with
    | some s => .error (.itemTooLong d.maxLength (len s))
    | none => .ok ()
  else .ok ()

/-- Whether a value conforms to its definition's type and bounds. -/
def checkAttribute (d : AttrDef) (value : AttrValue) : Except AttrError Unit :=
  match d.type, value with
  | .string, .str s => checkString d s
  | .string, v => .error (.expected "string" v.goType)
  | .int, .int _ => .ok ()
  | .int, v => .error (.expected "int" v.goType)
  | .bool, .bool _ => .ok ()
  | .bool, v => .error (.expected "bool" v.goType)
  | .double, .double _ => .ok ()
  | .double, v => .error (.expected "double" v.goType)
  | .stringArray, .strs items => checkStringArray d items
  | .stringArray, v => .error (.expected "string_array" v.goType)
  | .unknown declared, _ => .error (.unknownType d.key declared)

end argvio.allowlist
