import Argvio.GoStrings

namespace argvio.storage

/-- What a version is read with: the operations of Go on texts, be they the characters of a string
or bytes that need not be UTF-8. -/
structure Texts (τ : Type) where
  empty : τ
  trimSpace : τ → τ
  /-- Without a leading `v`. -/
  trimV : τ → τ
  /-- The text before the first such character, and the text after it when there is one. -/
  splitFirst : τ → Char → τ × Option τ
  splitDots : τ → List τ
  parseUint : τ → Option ℕ

/-- Up to three numeric parts, missing ones zero, and the prerelease identifiers. -/
structure Semver (τ : Type) where
  major : ℕ
  minor : ℕ
  patch : ℕ
  pre : List τ
  deriving DecidableEq

namespace Texts

variable {τ : Type} (T : Texts τ)

/-- The numeric parts of a version; more than three do not parse. -/
def parseParts (s : τ) : Option (ℕ × ℕ × ℕ) :=
  match (T.splitDots s).mapM T.parseUint with
  | some [major] => some (major, 0, 0)
  | some [major, minor] => some (major, minor, 0)
  | some [major, minor, patch] => some (major, minor, patch)
  | _ => none

/-- An optional `v`, the text up to a `+`, and what follows a `-` in it as the prerelease. -/
def parseSemver [DecidableEq τ] (s : τ) : Option (Semver τ) :=
  let core := (T.splitFirst (T.trimV (T.trimSpace s)) '+').1
  match T.splitFirst core '-' with
  | (nums, none) => (T.parseParts nums).map (fun n => ⟨n.1, n.2.1, n.2.2, []⟩)
  | (nums, some pre) =>
    if pre = T.empty then none else (T.parseParts nums).map (fun n => ⟨n.1, n.2.1, n.2.2, T.splitDots pre⟩)

variable [Ord τ]

/-- Numeric identifiers numerically and below the others, which compare as strings. -/
def comparePreIdent (a b : τ) : Ordering :=
  match T.parseUint a, T.parseUint b with
  | some na, some nb => compare na nb
  | some _, none => .lt
  | none, some _ => .gt
  | none, none => compare a b

/-- Prerelease identifiers left to right; of two lists that agree so far the
longer one is greater. -/
def comparePre : List τ → List τ → Ordering
  | [], [] => .eq
  | [], _ :: _ => .lt
  | _ :: _, [] => .gt
  | a :: as, b :: bs => (T.comparePreIdent a b).then (comparePre as bs)

/-- A version with a prerelease sorts before the same version without one. -/
def comparePrerelease (a b : List τ) : Ordering :=
  match a, b with
  | [], [] => .eq
  | [], _ :: _ => .gt
  | _ :: _, [] => .lt
  | as, bs => T.comparePre as bs

def compareSemver (va vb : Semver τ) : Ordering :=
  (compare va.major vb.major).then ((compare va.minor vb.minor).then
    ((compare va.patch vb.patch).then (T.comparePrerelease va.pre vb.pre)))

variable [DecidableEq τ]

/-- How two versions are ordered, when both parse. -/
def compareVersions (a b : τ) : Option Ordering :=
  match T.parseSemver a, T.parseSemver b with
  | some va, some vb => some (T.compareSemver va vb)
  | _, _ => none

def versionRank : Option τ → ℕ
  | none => 2
  | some s => if (T.parseSemver s).isSome then 0 else 1

/-- Versions that parse in their order, then the others as strings, then a missing one. -/
def compareVersionKeys (a b : Option τ) : Ordering :=
  if T.versionRank a ≠ T.versionRank b then compare (T.versionRank a) (T.versionRank b)
  else
    match a, b with
    | some a, some b => ((T.compareVersions a b).getD .eq).then (compare a b)
    | _, _ => .eq

end Texts

/-- Texts that are UTF-8. -/
def strings : Texts String where
  empty := ""
  trimSpace := gostrings.trimSpace
  trimV s := (gostrings.cutPrefix s "v").getD s
  splitFirst s c := ((gostrings.cutChar s c).map (fun (before, after) => (before, some after))).getD (s, none)
  splitDots s := gostrings.splitChar s '.'
  parseUint := gostrings.parseUint

def parseSemver (s : String) : Option (Semver String) := strings.parseSemver s

def compareVersions (a b : String) : Option Ordering := strings.compareVersions a b

def compareVersionKeys (a b : Option String) : Ordering := strings.compareVersionKeys a b

namespace raw

/-- Any bytes. -/
def bytes : Texts gobytes.Text where
  empty := []
  trimSpace := gobytes.trimSpace
  trimV s := gobytes.trimPrefix s 118
  splitFirst s c := gobytes.splitFirst s (UInt8.ofNat c.toNat)
  splitDots s := s.splitOn 46
  parseUint := gobytes.parseUint

def parseSemver (s : gobytes.Text) : Option (Semver gobytes.Text) := bytes.parseSemver s

def compareVersions (a b : gobytes.Text) : Option Ordering := bytes.compareVersions a b

def compareVersionKeys (a b : Option gobytes.Text) : Ordering := bytes.compareVersionKeys a b

end raw

end argvio.storage
