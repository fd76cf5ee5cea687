import Argvio.Allowlist.Validate

open gostrings
open argvio.allowlist

namespace argvio.otlp

/-- An OTLP attribute value. -/
inductive Value where
  | empty
  | str (s : String)
  | bool (b : Bool)
  | int (n : Int)
  | double (x : GoFloat)
  | map (entries : List (String × Value))
  | slice (items : List Value)
  | bytes (data : List UInt8)

/-- An OTLP attribute list; a client may repeat a key. -/
abbrev AttrList := List (String × Value)

/-- The string of a slice item that is a string within bounds. -/
def extractItem (maxValLen : Int) : Value → Option String
  | .str s => if len s > maxValLen then none else some s
  | _ => none

/-- The value the allowlist can check, if it is of a supported kind. -/
def extractValue (maxValLen : Int) : Value → Option AttrValue
  | .str s => if len s > maxValLen then none else some (.str s)
  | .int n => some (.int n)
  | .double x => some (.double x)
  | .bool b => some (.bool b)
  | .slice items => (items.mapM (extractItem maxValLen)).map .strs
  | .empty => none
  | .map _ => none
  | .bytes _ => none

/-- An attribute survives extraction when its key is short and its value supported. -/
def extractAttr (maxKeyLen maxValLen : Int) (k : String) (v : Value) : Option AttrValue :=
  if len k > maxKeyLen then none else extractValue maxValLen v

def extractStep (maxKeyLen maxValLen : Int) (acc : AttrMap × List String) (kv : String × Value) :
    AttrMap × List String :=
  match extractAttr maxKeyLen maxValLen kv.1 kv.2 with
  | some v => (acc.1.insert kv.1 v, acc.2)
  | none => (acc.1, acc.2 ++ [kv.1])

/-- The kept attributes and the dropped keys, or `none` for too many attributes. -/
def extractAttrs (m : AttrList) (maxCount maxKeyLen maxValLen : Int) : Option (AttrMap × List String) :=
  if (m.length : Int) > maxCount then none
  else some (m.foldl (extractStep maxKeyLen maxValLen) (∅, []))

/-- Record-scope attributes over resource-scope ones. -/
def mergeAttrs (resourceAttrs recordAttrs : AttrMap) : AttrMap :=
  GoMap.assignAll (GoMap.assignAll ∅ resourceAttrs) recordAttrs

/-- The values of `k` in the list that survive extraction, in list order. -/
def survivors (maxKeyLen maxValLen : Int) (m : AttrList) (k : String) : List AttrValue :=
  (m.filter (fun kv => kv.1 = k)).filterMap (fun kv => extractAttr maxKeyLen maxValLen k kv.2)

private theorem lookup_foldl_extractStep (maxKeyLen maxValLen : Int) (m : AttrList) (kept : AttrMap)
    (dropped : List String) (k : String) :
    (m.foldl (extractStep maxKeyLen maxValLen) (kept, dropped)).1.lookup k =
      (survivors maxKeyLen maxValLen m k).getLast?.or (kept.lookup k) := by
  induction m generalizing kept dropped with
  | nil => simp [survivors]
  | cons kv rest ih =>
    obtain ⟨a, v⟩ := kv
    rw [List.foldl_cons]
    cases hextract : extractAttr maxKeyLen maxValLen a v with
    | none =>
      have hstep : extractStep maxKeyLen maxValLen (kept, dropped) (a, v) = (kept, dropped ++ [a]) := by
        simp [extractStep, hextract]
      rw [hstep, ih]
      by_cases hk : a = k
      · subst hk
        simp [survivors, hextract]
      · simp [survivors, hk]
    | some w =>
      have hstep : extractStep maxKeyLen maxValLen (kept, dropped) (a, v) = (kept.insert a w, dropped) := by
        simp [extractStep, hextract]
      rw [hstep, ih]
      by_cases hk : a = k
      · subst hk
        have hcons : survivors maxKeyLen maxValLen ((a, v) :: rest) a =
            w :: survivors maxKeyLen maxValLen rest a := by
          simp [survivors, hextract]
        rw [hcons, AList.lookup_insert, List.getLast?_cons]
        cases (survivors maxKeyLen maxValLen rest a).getLast? <;> rfl
      · have hcons : survivors maxKeyLen maxValLen ((a, v) :: rest) k =
            survivors maxKeyLen maxValLen rest k := by
          simp [survivors, hk]
        rw [hcons, AList.lookup_insert_ne (Ne.symm hk)]

variable {maxCount maxKeyLen maxValLen : Int} {m : AttrList}

/-- Of a repeated key the last surviving value is kept. -/
theorem lookup_extractAttrs {kept : AttrMap} {dropped : List String}
    (h : extractAttrs m maxCount maxKeyLen maxValLen = some (kept, dropped)) (k : String) :
    kept.lookup k = (survivors maxKeyLen maxValLen m k).getLast? := by
  unfold extractAttrs at h
  split at h
  · cases h
  have heq := Option.some.inj h
  have hkept : kept = (m.foldl (extractStep maxKeyLen maxValLen) (∅, [])).1 := by rw [heq]
  rw [hkept, lookup_foldl_extractStep]
  simp

theorem extractAttrs_eq_none_iff :
    extractAttrs m maxCount maxKeyLen maxValLen = none ↔ (m.length : Int) > maxCount := by
  unfold extractAttrs
  split
  · simpa
  · simpa using by omega

theorem lookup_mergeAttrs (resourceAttrs recordAttrs : AttrMap) (k : String) :
    (mergeAttrs resourceAttrs recordAttrs).lookup k = (recordAttrs.lookup k).or (resourceAttrs.lookup k) := by
  unfold mergeAttrs
  rw [GoMap.lookup_assignAll, GoMap.lookup_assignAll]
  simp

end argvio.otlp
