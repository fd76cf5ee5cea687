import Argvio.Storage.Semver
import Mathlib.Data.List.TakeDrop

open List

namespace argvio.storage

open gostrings

/-- The characters of an identifier: ASCII letters, digits and hyphens. -/
def identChar (c : Char) : Bool := c.isAlphanum || c = '-'

/-- A prerelease identifier of Semantic Versioning 2.0.0. A numeric one has no leading zero, so
the number says it all. -/
inductive PreIdent where
  | numeric (n : ℕ)
  | alphanumeric (text : List Char) (chars : text.all identChar = true) (nonDigit : ∃ c ∈ text, c.isDigit = false)

/-- A build identifier. -/
structure BuildIdent where
  text : List Char
  nonempty : text ≠ []
  chars : text.all identChar = true

/-- A version of Semantic Versioning 2.0.0. -/
structure Version where
  major : ℕ
  minor : ℕ
  patch : ℕ
  pre : List PreIdent
  build : List BuildIdent

def PreIdent.text : PreIdent → List Char
  | .numeric n => Nat.toDigits 10 n
  | .alphanumeric text _ _ => text

/-- Identifiers with dots between them, after a mark; none if there are none. -/
def marked (mark : Char) (idents : List (List Char)) : List Char :=
  if idents = [] then [] else mark :: ['.'].intercalate idents

namespace Version

variable (v w : Version)

def numbers : List Char := ['.'].intercalate [Nat.toDigits 10 v.major, Nat.toDigits 10 v.minor, Nat.toDigits 10 v.patch]

/-- How a version is written. -/
def text : String :=
  String.ofList (v.numbers ++ marked '-' (v.pre.map PreIdent.text) ++ marked '+' (v.build.map BuildIdent.text))

end Version

/-- Numeric identifiers numerically and below alphanumeric ones, which compare as ASCII strings. -/
def PreIdent.precedence : PreIdent → PreIdent → Ordering
  | .numeric m, .numeric n => compare m n
  | .numeric _, .alphanumeric _ _ _ => .lt
  | .alphanumeric _ _ _, .numeric _ => .gt
  | .alphanumeric a _ _, .alphanumeric b _ _ => compare (String.ofList a) (String.ofList b)

/-- Identifiers left to right; a longer list is above its beginning. -/
def prePrecedence : List PreIdent → List PreIdent → Ordering
  | [], [] => .eq
  | [], _ :: _ => .lt
  | _ :: _, [] => .gt
  | a :: as, b :: bs => (a.precedence b).then (prePrecedence as bs)

/-- The precedence of Semantic Versioning 2.0.0, which ignores the build. -/
def Version.precedence (v w : Version) : Ordering :=
  (compare v.major w.major).then ((compare v.minor w.minor).then ((compare v.patch w.patch).then
    (match v.pre, w.pre with
      | [], [] => .eq
      | [], _ :: _ => .gt
      | _ :: _, [] => .lt
      | as, bs => prePrecedence as bs)))

section Parsing

variable {c : Char} {l : List Char} (a : PreIdent)

theorem isDigit_iff : c.isDigit = true ↔ 48 ≤ c.toNat ∧ c.toNat ≤ 57 := by
  unfold Char.isDigit
  rw [Bool.and_eq_true, decide_eq_true_eq, decide_eq_true_eq]
  exact Iff.and UInt32.le_iff_toNat_le UInt32.le_iff_toNat_le

theorem isDigit_of_mem_toDigits {n : ℕ} (hc : c ∈ Nat.toDigits 10 n) : c.isDigit = true :=
  Nat.isDigit_of_mem_toDigits (by decide) (by decide) hc

variable {idents : List (List Char)} (n : ℕ)

theorem decimal_toDigits : (Nat.toDigits 10 n).foldl (fun n c => 10 * n + (c.toNat - 48)) 0 = n :=
  Nat.ofDigitChars_ten_toDigits

/-- A number is read back when it has 64 bits. -/
theorem parseUint_toDigits : strings.parseUint (String.ofList (Nat.toDigits 10 n)) = if n < 2 ^ 64 then some n else none := by
  have hcodes : (Nat.toDigits 10 n).map Char.toNat ≠ [] := by simp [Nat.toDigits_ne_nil]
  have hall : ((Nat.toDigits 10 n).map Char.toNat).all (fun c => 48 ≤ c ∧ c ≤ 57) = true := by
    rw [all_map, all_eq_true]
    intro c hc
    exact decide_eq_true (isDigit_iff.mp (isDigit_of_mem_toDigits hc))
  unfold strings parseUint parseDigits
  dsimp only
  rw [String.toList_ofList, if_pos ⟨hcodes, hall⟩, foldl_map, decimal_toDigits]

theorem parseUint_alphanumeric {text : List Char} (h : ∃ c ∈ text, c.isDigit = false) :
    strings.parseUint (String.ofList text) = none := by
  obtain ⟨c, hc, hdigit⟩ := h
  unfold strings parseUint parseDigits
  dsimp only
  rw [String.toList_ofList, if_neg]
  rintro ⟨-, hall⟩
  rw [all_map] at hall
  have hin := isDigit_iff.mpr (of_decide_eq_true (all_eq_true.mp hall c hc))
  rw [hdigit] at hin
  cases hin

theorem trimSpace_of_forall (h : ∀ c ∈ l, isSpace c = false) : trimSpace (String.ofList l) = String.ofList l :=
  @trimSpace_padded [] l nofun (fun c hc => h c (mem_of_mem_head? hc)) (fun c hc => h c (mem_of_mem_getLast? hc))

/-- What follows a mark that is nowhere before it. -/
theorem splitFirst_marked {mark : Char} {front : List Char} (hfront : mark ∉ front) (idents : List (List Char)) :
    strings.splitFirst (String.ofList (front ++ marked mark idents)) mark =
      (String.ofList front, if idents = [] then none else some (String.ofList (['.'].intercalate idents))) := by
  have hall : ∀ c ∈ front, decide (c ≠ mark) = true := fun c hc => decide_eq_true (fun heq => hfront (heq ▸ hc))
  unfold strings cutChar marked
  dsimp only
  rw [String.toList_ofList, span_eq_takeWhile_dropWhile, takeWhile_append_of_pos hall,
    dropWhile_append_of_pos hall]
  by_cases hidents : idents = []
  · simp [hidents]
  · simp [hidents]

theorem identChar_range (h : identChar c = true) : c.toNat = 45 ∨ 48 ≤ c.toNat ∧ c.toNat ≤ 122 := by
  unfold identChar Char.isAlphanum Char.isAlpha Char.isUpper Char.isLower Char.isDigit at h
  simp only [Bool.or_eq_true, Bool.and_eq_true, decide_eq_true_eq] at h
  have hbetween : ∀ {low high : Char}, 48 ≤ low.toNat → high.toNat ≤ 122 → low.val ≤ c.val → c.val ≤ high.val →
      48 ≤ c.toNat ∧ c.toNat ≤ 122 :=
    fun hlow hhigh hle hge => ⟨hlow.trans (UInt32.le_iff_toNat_le.mp hle), (UInt32.le_iff_toNat_le.mp hge).trans hhigh⟩
  rcases h with ((⟨hle, hge⟩ | ⟨hle, hge⟩) | ⟨hle, hge⟩) | rfl
  · exact .inr (@hbetween 'A' 'Z' (by decide) (by decide) hle hge)
  · exact .inr (@hbetween 'a' 'z' (by decide) (by decide) hle hge)
  · exact .inr (@hbetween '0' '9' (by decide) (by decide) hle hge)
  · exact .inl rfl

theorem identChar_of_isDigit (h : c.isDigit = true) : identChar c = true := by
  simp [identChar, Char.isAlphanum, h]

/-- A dot and a plus are not characters of an identifier. -/
theorem notMem_of_all_identChar (hl : l.all identChar = true) (hc : c = '.' ∨ c = '+') : c ∉ l := by
  intro hmem
  have hrange := identChar_range (all_eq_true.mp hl c hmem)
  rcases hc with rfl | rfl <;> exact absurd hrange (by decide)

theorem PreIdent.all_identChar : a.text.all identChar = true := by
  cases a with
  | numeric n => exact all_eq_true.mpr (fun c hc => identChar_of_isDigit (isDigit_of_mem_toDigits hc))
  | alphanumeric text chars nonDigit => exact chars

theorem PreIdent.text_ne_nil : a.text ≠ [] := by
  cases a with
  | numeric n => exact Nat.toDigits_ne_nil
  | alphanumeric text chars nonDigit =>
    obtain ⟨c, hc, -⟩ := nonDigit
    exact ne_nil_of_mem hc

theorem mem_intercalate (h : c ∈ ['.'].intercalate idents) : c = '.' ∨ ∃ ident ∈ idents, c ∈ ident := by
  induction idents with
  | nil => simp [intercalate] at h
  | cons ident rest ih =>
    cases rest with
    | nil => exact .inr ⟨ident, mem_cons_self, by simpa [intercalate] using h⟩
    | cons next rest =>
      rw [intercalate_cons_cons] at h
      rcases mem_append.mp h with h | h
      · rcases mem_append.mp h with h | h
        · exact .inr ⟨ident, mem_cons_self, h⟩
        · exact .inl (mem_singleton.mp h)
      · rcases ih h with hdot | ⟨ident', hident, hc⟩
        · exact .inl hdot
        · exact .inr ⟨ident', mem_cons_of_mem ident hident, hc⟩

theorem mem_marked {c mark : Char} (hidents : ∀ ident ∈ idents, ident.all identChar = true)
    (hc : c ∈ marked mark idents) : c = mark ∨ c = '.' ∨ identChar c = true := by
  unfold marked at hc
  split_ifs at hc
  · cases hc
  rcases mem_cons.mp hc with rfl | hc
  · exact .inl rfl
  · rcases mem_intercalate hc with hdot | ⟨ident, hident, hc⟩
    · exact .inr (.inl hdot)
    · exact .inr (.inr (all_eq_true.mp (hidents ident hident) c hc))

end Parsing

namespace Version

variable (v : Version)

theorem mem_numbers {c : Char} (h : c ∈ v.numbers) : c = '.' ∨ c.isDigit = true := by
  rcases mem_intercalate h with hdot | ⟨ident, hident, hc⟩
  · exact .inl hdot
  · simp only [mem_cons, not_mem_nil, or_false] at hident
    rcases hident with rfl | rfl | rfl <;> exact .inr (isDigit_of_mem_toDigits hc)

theorem notMem_numbers {c : Char} (hdot : c ≠ '.') (hdigit : c.isDigit = false) : c ∉ v.numbers := by
  intro h
  rcases v.mem_numbers h with heq | htrue
  · exact hdot heq
  · rw [hdigit] at htrue
    cases htrue

/-- The characters of a version: those of identifiers, and the marks. -/
theorem mem_text {c : Char} (h : c ∈ v.text.toList) : c = '.' ∨ c = '-' ∨ c = '+' ∨ identChar c = true := by
  unfold text at h
  rw [String.toList_ofList, mem_append, mem_append] at h
  rcases h with (h | h) | h
  · rcases v.mem_numbers h with hdot | hdigit
    · exact .inl hdot
    · exact .inr (.inr (.inr (identChar_of_isDigit hdigit)))
  · have hpre := mem_marked (forall_mem_map.mpr (fun a _ => PreIdent.all_identChar a)) h
    tauto
  · have hbuild := mem_marked (forall_mem_map.mpr (fun b _ => BuildIdent.chars b)) h
    tauto

theorem plus_notMem : '+' ∉ v.numbers ++ marked '-' (v.pre.map PreIdent.text) := by
  rw [mem_append, not_or]
  refine ⟨v.notMem_numbers (by decide) (by decide), fun h => ?_⟩
  have hpre := mem_marked (forall_mem_map.mpr (fun a _ => PreIdent.all_identChar a)) h
  exact absurd hpre (by decide)

theorem trimSpace_text : strings.trimSpace v.text = v.text := by
  have hspace : ∀ c ∈ v.text.toList, isSpace c = false := by
    intro c hc
    have hrange : 43 ≤ c.toNat ∧ c.toNat ≤ 122 := by
      rcases v.mem_text hc with rfl | rfl | rfl | hident
      · decide
      · decide
      · decide
      · have hident := identChar_range hident
        omega
    unfold isSpace
    rw [decide_eq_false_iff_not]
    omega
  have htrim := trimSpace_of_forall hspace
  rw [String.ofList_toList] at htrim
  exact htrim

/-- A version begins with a digit. -/
theorem trimV_text : strings.trimV v.text = v.text := by
  obtain ⟨d, rest, hdigits⟩ := exists_cons_of_ne_nil (@Nat.toDigits_ne_nil v.major 10)
  have hd : d.isDigit = true := isDigit_of_mem_toDigits (hdigits ▸ mem_cons_self)
  have hne : 'v' ≠ d := by
    rintro rfl
    cases hd
  have hcut : cutPrefix v.text "v" = none := by
    unfold cutPrefix text numbers
    rw [String.toList_ofList, intercalate_cons_cons, hdigits, if_neg]
    simpa using hne
  unfold strings
  dsimp only
  rw [hcut]
  rfl

theorem parseParts_numbers :
    strings.parseParts (String.ofList v.numbers) =
      if v.major < 2 ^ 64 ∧ v.minor < 2 ^ 64 ∧ v.patch < 2 ^ 64 then some (v.major, v.minor, v.patch) else none := by
  have hsplit : strings.splitDots (String.ofList v.numbers) =
      [String.ofList (Nat.toDigits 10 v.major), String.ofList (Nat.toDigits 10 v.minor),
        String.ofList (Nat.toDigits 10 v.patch)] := by
    unfold strings splitChar numbers
    dsimp only
    rw [String.toList_ofList, splitOn_intercalate _ (fun l hl hdot => ?_) (by simp)]
    · rfl
    simp only [mem_cons, not_mem_nil, or_false] at hl
    have hdigit : '.'.isDigit = true := by
      rcases hl with rfl | rfl | rfl <;> exact isDigit_of_mem_toDigits hdot
    cases hdigit
  unfold Texts.parseParts
  rw [hsplit]
  simp only [mapM_cons, mapM_nil, parseUint_toDigits]
  by_cases hall : v.major < 2 ^ 64 ∧ v.minor < 2 ^ 64 ∧ v.patch < 2 ^ 64
  · rw [if_pos hall, if_pos hall.1, if_pos hall.2.1, if_pos hall.2.2]
    rfl
  · rw [if_neg hall]
    split_ifs with hmajor hminor hpatch
    · exact absurd ⟨hmajor, hminor, hpatch⟩ hall
    all_goals rfl

/-- A version is read back when its numbers have 64 bits. -/
theorem parseSemver_text :
    parseSemver v.text =
      if v.major < 2 ^ 64 ∧ v.minor < 2 ^ 64 ∧ v.patch < 2 ^ 64 then
        some ⟨v.major, v.minor, v.patch, v.pre.map (fun a => String.ofList a.text)⟩
      else none := by
  unfold parseSemver Texts.parseSemver
  simp only [v.trimSpace_text, v.trimV_text]
  rw [text, splitFirst_marked v.plus_notMem, splitFirst_marked (v.notMem_numbers (by decide) (by decide))]
  by_cases hpre : v.pre = []
  · simp only [hpre, map_nil, if_true, parseParts_numbers]
    split_ifs <;> rfl
  have hmap : v.pre.map PreIdent.text ≠ [] := by simpa using hpre
  have hsplit : strings.splitDots (String.ofList (['.'].intercalate (v.pre.map PreIdent.text))) =
      v.pre.map (fun a => String.ofList a.text) := by
    unfold strings splitChar
    dsimp only
    rw [String.toList_ofList, splitOn_intercalate _ ?_ hmap, map_map]
    · rfl
    · exact forall_mem_map.mpr (fun a _ => notMem_of_all_identChar a.all_identChar (.inl rfl))
  have hne : String.ofList (['.'].intercalate (v.pre.map PreIdent.text)) ≠ strings.empty := by
    intro hempty
    rw [hempty] at hsplit
    have hmem : "" ∈ v.pre.map (fun a => String.ofList a.text) := hsplit ▸ mem_singleton_self ""
    obtain ⟨a, -, ha⟩ := mem_map.mp hmem
    have hnil := congrArg String.toList ha
    rw [String.toList_ofList] at hnil
    exact a.text_ne_nil hnil
  simp only [if_neg hmap, if_neg hne, hsplit, parseParts_numbers]
  split_ifs <;> rfl

theorem parseSemver_of_isSome (h : (parseSemver v.text).isSome) :
    parseSemver v.text = some ⟨v.major, v.minor, v.patch, v.pre.map (fun a => String.ofList a.text)⟩ := by
  rw [parseSemver_text] at h ⊢
  split_ifs at h ⊢
  · rfl
  · cases h

end Version

section Identifiers

theorem toDigits_inj {m n : ℕ} : Nat.toDigits 10 m = Nat.toDigits 10 n ↔ m = n := by
  refine ⟨fun h => ?_, fun h => h ▸ rfl⟩
  rw [← decimal_toDigits m, h, decimal_toDigits]

/-- The order of two identifiers as 64-bit numbers or strings is their precedence: a number of
more bits is compared as a string. -/
def PreIdent.Comparable : PreIdent → PreIdent → Prop
  | .numeric m, .numeric n =>
    m < 2 ^ 64 ∨ n < 2 ^ 64 ∨ (m < n ↔ String.ofList (Nat.toDigits 10 m) < String.ofList (Nat.toDigits 10 n))
  | .numeric n, .alphanumeric text _ _ => n < 2 ^ 64 ∨ String.ofList (Nat.toDigits 10 n) < String.ofList text
  | .alphanumeric text _ _, .numeric n => n < 2 ^ 64 ∨ String.ofList (Nat.toDigits 10 n) < String.ofList text
  | .alphanumeric _ _ _, .alphanumeric _ _ _ => True

/-- The first identifiers that differ are compared by their precedence. -/
def Decided : List PreIdent → List PreIdent → Prop
  | a :: as, b :: bs => if a.text = b.text then Decided as bs else a.Comparable b
  | _, _ => True

variable {a b : PreIdent}

theorem compare_eq_compare_iff {α β : Type} [LinearOrder α] [LinearOrder β] {x y : α} {p q : β} (heq : x = y ↔ p = q) :
    compare x y = compare p q ↔ (p < q ↔ x < y) := by
  rcases lt_trichotomy p q with hpq | hpq | hpq
  · rw [compare_lt_iff_lt.mpr hpq, compare_lt_iff_lt]
    exact ⟨fun hxy => iff_of_true hpq hxy, fun hiff => hiff.mp hpq⟩
  · have hxy := heq.mpr hpq
    rw [hpq, hxy, compare_eq_iff_eq.mpr rfl, compare_eq_iff_eq.mpr rfl]
    exact iff_of_true rfl (iff_of_false (lt_irrefl q) (lt_irrefl y))
  · rw [compare_gt_iff_gt.mpr hpq, compare_gt_iff_gt]
    have hne : x ≠ y := fun hxy => hpq.ne' (heq.mp hxy)
    constructor
    · exact fun hgt => iff_of_false hpq.asymm (not_lt.mpr (le_of_lt hgt))
    · exact fun hiff => lt_of_le_of_ne (not_lt.mp (mt hiff.mpr hpq.asymm)) hne.symm

/-- When the code's order of two identifiers is their precedence. -/
theorem comparePreIdent_text_iff :
    strings.comparePreIdent (String.ofList a.text) (String.ofList b.text) = a.precedence b ↔ a.Comparable b := by
  unfold Texts.comparePreIdent
  cases a with
  | numeric m =>
    cases b with
    | numeric n =>
      simp only [PreIdent.text, PreIdent.precedence, PreIdent.Comparable, parseUint_toDigits]
      by_cases hm : m < 2 ^ 64
      · by_cases hn : n < 2 ^ 64
        · rw [if_pos hm, if_pos hn]
          exact iff_of_true rfl (.inl hm)
        · simp only [if_pos hm, if_neg hn]
          exact iff_of_true (compare_lt_iff_lt.mpr (by omega)).symm (.inl hm)
      · by_cases hn : n < 2 ^ 64
        · simp only [if_neg hm, if_pos hn]
          exact iff_of_true (compare_gt_iff_gt.mpr (by omega)).symm (.inr (.inl hn))
        · simp only [hm, hn, if_false, false_or]
          exact compare_eq_compare_iff (String.ofList_inj.trans toDigits_inj)
    | alphanumeric text chars nonDigit =>
      simp only [PreIdent.text, PreIdent.precedence, PreIdent.Comparable, parseUint_toDigits,
        parseUint_alphanumeric nonDigit]
      by_cases hm : m < 2 ^ 64
      · rw [if_pos hm]
        exact iff_of_true rfl (.inl hm)
      · simp only [hm, if_false, false_or]
        exact compare_lt_iff_lt
  | alphanumeric text chars nonDigit =>
    cases b with
    | numeric n =>
      simp only [PreIdent.text, PreIdent.precedence, PreIdent.Comparable, parseUint_toDigits,
        parseUint_alphanumeric nonDigit]
      by_cases hn : n < 2 ^ 64
      · rw [if_pos hn]
        exact iff_of_true rfl (.inl hn)
      · simp only [hn, if_false, false_or]
        exact compare_gt_iff_gt
    | alphanumeric text' chars' nonDigit' =>
      simp only [PreIdent.text, PreIdent.precedence, PreIdent.Comparable, parseUint_alphanumeric nonDigit,
        parseUint_alphanumeric nonDigit']

/-- The text of an identifier says whether it is a number. -/
theorem text_numeric_ne {n : ℕ} {text : List Char} (h : ∃ c ∈ text, c.isDigit = false) : Nat.toDigits 10 n ≠ text := by
  rintro rfl
  obtain ⟨c, hc, hdigit⟩ := h
  rw [isDigit_of_mem_toDigits hc] at hdigit
  cases hdigit

theorem precedence_eq_iff : a.precedence b = .eq ↔ a.text = b.text := by
  cases a with
  | numeric m =>
    cases b with
    | numeric n => exact compare_eq_iff_eq.trans toDigits_inj.symm
    | alphanumeric text chars nonDigit => exact iff_of_false nofun (text_numeric_ne nonDigit)
  | alphanumeric text chars nonDigit =>
    cases b with
    | numeric n => exact iff_of_false nofun (text_numeric_ne nonDigit).symm
    | alphanumeric text' chars' nonDigit' => exact compare_eq_iff_eq.trans String.ofList_inj

/-- An identifier that is read as a number is the digits of the number. -/
theorem text_of_parseUint {n : ℕ} (h : strings.parseUint (String.ofList a.text) = some n) : a.text = Nat.toDigits 10 n := by
  cases a with
  | numeric m =>
    rw [PreIdent.text, parseUint_toDigits] at h
    split_ifs at h
    cases h
    rfl
  | alphanumeric text chars nonDigit =>
    rw [PreIdent.text, parseUint_alphanumeric nonDigit] at h
    cases h

theorem comparePreIdent_eq_iff :
    strings.comparePreIdent (String.ofList a.text) (String.ofList b.text) = .eq ↔ a.text = b.text := by
  unfold Texts.comparePreIdent
  cases ha : strings.parseUint (String.ofList a.text) with
  | none =>
    cases hb : strings.parseUint (String.ofList b.text) with
    | none => exact compare_eq_iff_eq.trans String.ofList_inj
    | some n =>
      refine iff_of_false nofun (fun heq => ?_)
      rw [heq, hb] at ha
      cases ha
  | some m =>
    cases hb : strings.parseUint (String.ofList b.text) with
    | none =>
      refine iff_of_false nofun (fun heq => ?_)
      rw [heq, hb] at ha
      cases ha
    | some n =>
      rw [text_of_parseUint ha, text_of_parseUint hb]
      exact compare_eq_iff_eq.trans toDigits_inj.symm

theorem then_eq_then_iff {o o' p q : Ordering} (ho : o ≠ .eq) (ho' : o' ≠ .eq) : o.then p = o'.then q ↔ o = o' := by
  cases o <;> cases o' <;> simp_all [Ordering.then]

theorem comparePre_text_iff (as bs : List PreIdent) :
    strings.comparePre (as.map (fun a => String.ofList a.text)) (bs.map (fun b => String.ofList b.text)) = prePrecedence as bs ↔
      Decided as bs := by
  induction as generalizing bs with
  | nil => cases bs <;> exact iff_of_true rfl trivial
  | cons a as ih =>
    cases bs with
    | nil => exact iff_of_true rfl trivial
    | cons b bs =>
      rw [map_cons, map_cons, Texts.comparePre, prePrecedence, Decided]
      by_cases htext : a.text = b.text
      · rw [if_pos htext, comparePreIdent_eq_iff.mpr htext, precedence_eq_iff.mpr htext]
        exact ih bs
      · rw [if_neg htext, then_eq_then_iff (mt comparePreIdent_eq_iff.mp htext) (mt precedence_eq_iff.mp htext)]
        exact comparePreIdent_text_iff

end Identifiers

/-- The order of two versions is their precedence exactly when, for versions of the same numbers,
the first prerelease identifiers that differ are compared by theirs. -/
theorem compareVersions_precedence_iff (v w : Version) (hv : (parseSemver v.text).isSome)
    (hw : (parseSemver w.text).isSome) :
    compareVersions v.text w.text = some (v.precedence w) ↔
      (v.major = w.major ∧ v.minor = w.minor ∧ v.patch = w.patch → Decided v.pre w.pre) := by
  have hparsed := v.parseSemver_of_isSome hv
  have hparsed' := w.parseSemver_of_isSome hw
  unfold parseSemver at hparsed hparsed'
  unfold compareVersions Texts.compareVersions Texts.compareSemver Version.precedence
  simp only [hparsed, hparsed', Option.some.injEq]
  by_cases hnumbers : v.major = w.major ∧ v.minor = w.minor ∧ v.patch = w.patch
  · obtain ⟨hmajor, hminor, hpatch⟩ := hnumbers
    simp only [hmajor, hminor, hpatch, compare_eq_iff_eq.mpr rfl, Ordering.eq_then, true_and, forall_const]
    cases v.pre with
    | nil => cases w.pre <;> exact iff_of_true rfl trivial
    | cons a as =>
      cases w.pre with
      | nil => exact iff_of_true rfl trivial
      | cons b bs => exact comparePre_text_iff (a :: as) (b :: bs)
  · refine iff_of_true ?_ (fun h => absurd h hnumbers)
    have hdecided : ∀ {m n : ℕ} {p q : Ordering}, m ≠ n → (compare m n).then p = (compare m n).then q := by
      intro m n p q hne
      have hcompare : compare m n ≠ .eq := mt compare_eq_iff_eq.mp hne
      exact (then_eq_then_iff hcompare hcompare).mpr rfl
    -- The first of the three numbers that differs decides both.
    by_cases hmajor : v.major = w.major
    · by_cases hminor : v.minor = w.minor
      · have hpatch : v.patch ≠ w.patch := fun hpatch => hnumbers ⟨hmajor, hminor, hpatch⟩
        rw [hdecided hpatch]
      · rw [hdecided hminor]
    · rw [hdecided hmajor]

theorem compareVersions_precedence_release :
    let v : Version := ⟨1, 0, 0, [.alphanumeric ['r', 'c'] (by decide) ⟨'r', by decide, by decide⟩, .numeric 1], []⟩
    let w : Version := ⟨1, 0, 0, [.alphanumeric ['r', 'c'] (by decide) ⟨'r', by decide, by decide⟩, .numeric 10],
      [⟨['0', '5'], by decide, by decide⟩]⟩
    v.text = "1.0.0-rc.1" ∧ w.text = "1.0.0-rc.10+05" ∧ compareVersions v.text w.text = some .lt := by
  refine ⟨by decide, by decide, ?_⟩
  refine (compareVersions_precedence_iff _ _ (by decide) (by decide)).mpr (fun _ => ?_)
  exact .inl (by decide)

/-- Of two numbers of more than 64 bits, the one with more digits sorts first here. -/
theorem compareVersions_wide_identifiers :
    let v : Version := ⟨1, 0, 0, [.numeric 99999999999999999999], []⟩
    let w : Version := ⟨1, 0, 0, [.numeric 100000000000000000000], []⟩
    v.text = "1.0.0-99999999999999999999" ∧ w.text = "1.0.0-100000000000000000000" ∧ v.precedence w = .lt ∧
      compareVersions v.text w.text = some .gt := by
  decide +kernel

end argvio.storage
