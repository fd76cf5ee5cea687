import Mathlib.Data.List.Infix

open List

namespace goregexp

/-- Regular expressions of Go's package: the empty one, a character of a class, the beginning and
the end of the text, an ASCII word boundary, sequences, alternatives in order of preference,
repetitions that prefer more or fewer rounds, and numbered groups. -/
inductive Regex where
  | empty
  | one (accepts : Char → Bool)
  | beginText
  | endText
  | wordBoundary
  | seq (a b : Regex)
  | alt (a b : Regex)
  | star (greedy : Bool) (a : Regex)
  | group (index : ℕ) (a : Regex)

/-- A matched text and what the groups matched in it, the latest first. -/
structure Match where
  text : List Char
  groups : List (ℕ × List Char)
  deriving DecidableEq

attribute [ext] Match

namespace Match

def nil : Match := ⟨[], []⟩

def append (m n : Match) : Match := ⟨m.text ++ n.text, n.groups ++ m.groups⟩

/-- What a group matched, if it took part. -/
def group (m : Match) (index : ℕ) : Option (List Char) := m.groups.lookup index

@[simp] theorem nil_append (m : Match) : nil.append m = m := by
  simp [nil, append]

@[simp] theorem nil_append_fun : nil.append = id := funext nil_append

theorem append_assoc (l m n : Match) : (l.append m).append n = l.append (m.append n) := by
  simp [append]

@[simp] theorem nil_text : nil.text = [] := rfl

@[simp] theorem append_text (m n : Match) : (m.append n).text = m.text ++ n.text := rfl

@[simp] theorem append_groups (m n : Match) : (m.append n).groups = n.groups ++ m.groups := rfl

end Match

def isWord (c : Char) : Bool := c.isAlphanum || c = '_'

namespace Regex

/-- The matches of a repetition in order of preference. A round takes some text. -/
def rounds (greedy : Bool) (round : List Char → List Char → List Match) : ℕ → List Char → List Char → List Match
  | 0, _, _ => [.nil]
  | fuel + 1, before, after =>
    let more := ((round before after).filter (fun m => m.text ≠ [])).flatMap (fun m =>
      (rounds greedy round fuel (before ++ m.text) (after.drop m.text.length)).map m.append)
    if greedy then more ++ [.nil] else .nil :: more

/-- Every match that begins between `before` and `after`, in order of preference. -/
def matchesAt : Regex → List Char → List Char → List Match
  | empty, _, _ => [.nil]
  | one _, _, [] => []
  | one accepts, _, c :: _ => if accepts c then [⟨[c], []⟩] else []
  | beginText, before, _ => if before = [] then [.nil] else []
  | endText, _, after => if after = [] then [.nil] else []
  | wordBoundary, before, after => if before.getLast?.any isWord ≠ after.head?.any isWord then [.nil] else []
  | seq a b, before, after =>
    (a.matchesAt before after).flatMap (fun m =>
      (b.matchesAt (before ++ m.text) (after.drop m.text.length)).map m.append)
  | alt a b, before, after => a.matchesAt before after ++ b.matchesAt before after
  | star greedy a, before, after => rounds greedy a.matchesAt after.length before after
  | group index a, before, after => (a.matchesAt before after).map (fun m => ⟨m.text, (index, m.text) :: m.groups⟩)

/-- The preferred match that begins between `before` and `after`. -/
def firstAt (r : Regex) (before after : List Char) : Option Match := (r.matchesAt before after).head?

/-- A match and the texts on either side of it. -/
structure Found where
  before : List Char
  matched : Match
  after : List Char
  deriving DecidableEq

/-- The leftmost match that begins in `after`, the preferred one there. -/
def findFrom (r : Regex) (before : List Char) : List Char → Option Found
  | [] => (r.firstAt before []).map (fun m => ⟨before, m, []⟩)
  | c :: after =>
    match r.firstAt before (c :: after) with
    | some m => some ⟨before, m, (c :: after).drop m.text.length⟩
    | none => r.findFrom (before ++ [c]) after

/-- `FindStringSubmatchIndex` and its kin. -/
def find (r : Regex) (text : List Char) : Option Found := r.findFrom [] text

/-- `MatchString`. -/
def hasMatch (r : Regex) (text : List Char) : Bool := (r.find text).isSome

/-- The matches in `after` replaced one after the other, for an expression that matches no
empty text. -/
def replaceFrom (r : Regex) (repl : Match → List Char) : ℕ → List Char → List Char → List Char
  | 0, _, after => after
  | fuel + 1, before, after =>
    match r.findFrom before after with
    | none => after
    | some f =>
      if f.matched.text = [] then after
      else
        f.before.drop before.length ++ repl f.matched ++ r.replaceFrom repl fuel (f.before ++ f.matched.text) f.after

/-- `ReplaceAllStringFunc` and its kin. -/
def replaceAll (r : Regex) (repl : Match → List Char) (text : List Char) : List Char :=
  r.replaceFrom repl text.length [] text

section Forms

/-- `a+`. -/
def plus (a : Regex) : Regex := seq a (star true a)

/-- `a?`. -/
def opt (a : Regex) : Regex := alt a empty

/-- One expression after the other. -/
def seqOf (rs : List Regex) : Regex := rs.foldr seq empty

/-- The first expression of a list that matches. -/
def altOf (r : Regex) : List Regex → Regex
  | [] => r
  | s :: rs => alt r (altOf s rs)

def char (c : Char) : Regex := one (· = c)

def literal (text : String) : Regex := seqOf (text.toList.map char)

/-- A number of times, exactly. -/
def times (n : ℕ) (a : Regex) : Regex := seqOf (replicate n a)

end Forms

section Laws

variable {r a b : Regex} {p : Char → Bool} {greedy : Bool} {round : List Char → List Char → List Match}
  {before after : List Char} {m : Match} {x : Char}

theorem mem_matchesAt_seq :
    m ∈ (seq a b).matchesAt before after ↔
      ∃ l ∈ a.matchesAt before after, ∃ n ∈ b.matchesAt (before ++ l.text) (after.drop l.text.length), l.append n = m := by
  simp only [matchesAt, mem_flatMap, mem_map]

theorem mem_matchesAt_group {index : ℕ} :
    m ∈ (group index a).matchesAt before after ↔
      ∃ l ∈ a.matchesAt before after, (⟨l.text, (index, l.text) :: l.groups⟩ : Match) = m := by
  simp only [matchesAt, mem_map]

theorem mem_rounds_succ {fuel : ℕ} :
    m ∈ rounds greedy round (fuel + 1) before after ↔
      m = .nil ∨ ∃ l ∈ round before after, l.text ≠ [] ∧
        ∃ n ∈ rounds greedy round fuel (before ++ l.text) (after.drop l.text.length), l.append n = m := by
  cases greedy <;> simp [rounds, and_assoc, or_comm]

/-- A round lies in the text. -/
def Inside (round : List Char → List Char → List Match) : Prop :=
  ∀ before after, ∀ m ∈ round before after, m.text <+: after

theorem prefix_append_of_drop {l n after : List Char} (hl : l <+: after) (hn : n <+: after.drop l.length) :
    l ++ n <+: after := by
  obtain ⟨rest, rfl⟩ := hl
  rw [drop_left] at hn
  exact prefix_append_right_inj l |>.mpr hn

theorem prefix_of_mem_rounds (hround : Inside round) (fuel : ℕ) (h : m ∈ rounds greedy round fuel before after) :
    m.text <+: after := by
  induction fuel generalizing before after m with
  | zero =>
    cases mem_singleton.mp h
    exact nil_prefix
  | succ fuel ih =>
    obtain rfl | ⟨l, hl, -, n, hn, rfl⟩ := mem_rounds_succ.mp h
    · exact nil_prefix
    · exact prefix_append_of_drop (hround before after l hl) (ih hn)

/-- A match lies in the text. -/
theorem prefix_of_mem_matchesAt (h : m ∈ r.matchesAt before after) : m.text <+: after := by
  induction r generalizing before after m with
  | empty =>
    cases mem_singleton.mp h
    exact nil_prefix
  | one accepts =>
    cases after with
    | nil => cases h
    | cons c after =>
      rw [matchesAt] at h
      split_ifs at h
      · cases mem_singleton.mp h
        exact cons_prefix_cons.mpr ⟨rfl, nil_prefix⟩
      · cases h
  | beginText | endText | wordBoundary =>
    rw [matchesAt] at h
    split_ifs at h
    · cases mem_singleton.mp h
      exact nil_prefix
    · cases h
  | seq a b iha ihb =>
    obtain ⟨l, hl, n, hn, rfl⟩ := mem_matchesAt_seq.mp h
    exact prefix_append_of_drop (iha hl) (ihb hn)
  | alt a b iha ihb =>
    rw [matchesAt, mem_append] at h
    exact h.elim iha ihb
  | star greedy a ih => exact prefix_of_mem_rounds (fun _ _ _ => ih) _ h
  | group index a ih =>
    obtain ⟨l, hl, rfl⟩ := mem_matchesAt_group.mp h
    exact @ih before after l hl

theorem inside_matchesAt (r : Regex) : Inside r.matchesAt := fun _ _ _ => prefix_of_mem_matchesAt

/-- A match of a sequence is one of its first part, with what the second matches in the rest. -/
theorem mem_seq_iff :
    m ∈ (seq a b).matchesAt before after ↔
      ∃ l n rest, after = l.text ++ rest ∧ l ∈ a.matchesAt before after ∧ n ∈ b.matchesAt (before ++ l.text) rest ∧
        l.append n = m := by
  rw [mem_matchesAt_seq]
  constructor
  · rintro ⟨l, hl, n, hn, rfl⟩
    obtain ⟨rest, rfl⟩ := prefix_of_mem_matchesAt hl
    rw [drop_left] at hn
    exact ⟨l, n, rest, rfl, hl, hn, rfl⟩
  · rintro ⟨l, n, rest, rfl, hl, hn, rfl⟩
    refine ⟨l, hl, n, ?_, rfl⟩
    rwa [drop_left]

/-- No round takes anything of an empty text. -/
theorem rounds_empty_text (hround : Inside round) (fuel : ℕ)
    (h : after.length = 0) : rounds greedy round fuel before after = [.nil] := by
  cases fuel with
  | zero => rfl
  | succ fuel =>
    have hnone : (round before after).filter (fun m => m.text ≠ []) = [] := by
      refine filter_eq_nil_iff.mpr (fun m hm => ?_)
      have hlead := hround before after m hm
      rw [eq_nil_of_length_eq_zero h] at hlead
      have hempty : m.text = [] := prefix_nil.mp hlead
      simp only [hempty, ne_eq, not_true_eq_false, decide_false, Bool.false_eq_true, not_false_eq_true]
    simp only [rounds, hnone, flatMap_nil, nil_append, ite_self]

/-- Fuel of at least the length of the text is enough for a repetition. -/
theorem rounds_fuel (hround : Inside round) {fuel fuel' : ℕ}
    (h : after.length ≤ fuel) (h' : after.length ≤ fuel') :
    rounds greedy round fuel before after = rounds greedy round fuel' before after := by
  induction fuel generalizing fuel' before after with
  | zero =>
    have hempty := Nat.le_zero.mp h
    rw [rounds_empty_text hround _ hempty, rounds_empty_text hround _ hempty]
  | succ fuel ih =>
    cases fuel' with
    | zero =>
      have hempty := Nat.le_zero.mp h'
      rw [rounds_empty_text hround _ hempty, rounds_empty_text hround _ hempty]
    | succ fuel' =>
      have hmore : ∀ m ∈ (round before after).filter (fun m => m.text ≠ []),
          (rounds greedy round fuel (before ++ m.text) (after.drop m.text.length)).map m.append =
            (rounds greedy round fuel' (before ++ m.text) (after.drop m.text.length)).map m.append := by
        intro m hm
        have hpos := length_pos_iff.mpr (of_decide_eq_true (mem_filter.mp hm).2)
        have hdrop : (after.drop m.text.length).length ≤ fuel ∧ (after.drop m.text.length).length ≤ fuel' := by
          rw [length_drop]
          omega
        rw [ih hdrop.1 hdrop.2]
      simp only [rounds, flatMap_congr hmore]

/-- An expression that does not look at what is around the matched text. -/
def unanchored : Regex → Bool
  | empty | one _ => true
  | beginText | endText | wordBoundary => false
  | seq a b | alt a b => a.unanchored && b.unanchored
  | star _ a | group _ a => a.unanchored

/-- An expression that accepts a character nowhere. -/
def avoids (x : Char) : Regex → Bool
  | one accepts => !accepts x
  | empty | beginText | endText | wordBoundary => true
  | seq a b | alt a b => a.avoids x && b.avoids x
  | star _ a | group _ a => a.avoids x

theorem rounds_before (hround : ∀ before before' after, round before after = round before' after) (fuel : ℕ)
    (before' : List Char) : rounds greedy round fuel before after = rounds greedy round fuel before' after := by
  induction fuel generalizing before before' after with
  | zero => rfl
  | succ fuel ih =>
    simp only [rounds, hround before before' after]
    have hmore : ∀ m : Match, (rounds greedy round fuel (before ++ m.text) (after.drop m.text.length)).map m.append =
        (rounds greedy round fuel (before' ++ m.text) (after.drop m.text.length)).map m.append :=
      fun m => congrArg _ (ih _)
    simp only [hmore]

theorem matchesAt_before (hr : r.unanchored) (before' : List Char) :
    r.matchesAt before after = r.matchesAt before' after := by
  induction r generalizing before before' after with
  | empty => rfl
  | one accepts => cases after <;> rfl
  | beginText | endText | wordBoundary => cases hr
  | seq a b iha ihb =>
    obtain ⟨ha, hb⟩ := (Bool.and_eq_true _ _).mp hr
    rw [matchesAt, matchesAt, iha ha before']
    have hmore : ∀ m : Match, (b.matchesAt (before ++ m.text) (after.drop m.text.length)).map m.append =
        (b.matchesAt (before' ++ m.text) (after.drop m.text.length)).map m.append :=
      fun m => congrArg _ (ihb hb _)
    simp only [hmore]
  | alt a b iha ihb =>
    obtain ⟨ha, hb⟩ := (Bool.and_eq_true _ _).mp hr
    rw [matchesAt, matchesAt, iha ha before', ihb hb before']
  | star greedy a ih =>
    have hround : ∀ before before' after, a.matchesAt before after = a.matchesAt before' after :=
      fun _ before' _ => ih hr before'
    exact rounds_before hround _ before'
  | group index a ih => rw [matchesAt, matchesAt, ih hr before']

theorem rounds_append {u v : List Char} (hinside : Inside round)
    (hround : ∀ before u, round before (u ++ v) = round before u) (fuel : ℕ) :
    rounds greedy round fuel before (u ++ v) = rounds greedy round fuel before u := by
  induction fuel generalizing before u with
  | zero => rfl
  | succ fuel ih =>
    have hmore : ∀ m ∈ (round before u).filter (fun m => m.text ≠ []),
        (rounds greedy round fuel (before ++ m.text) ((u ++ v).drop m.text.length)).map m.append =
          (rounds greedy round fuel (before ++ m.text) (u.drop m.text.length)).map m.append := by
      intro m hm
      rw [drop_append_of_le_length (hinside before u m (mem_filter.mp hm).1).length_le, ih]
    simp only [rounds, hround, flatMap_congr hmore]

/-- What follows a character that is accepted nowhere does not matter. -/
theorem matchesAt_append (hr : r.unanchored) (hx : r.avoids x) (u v : List Char) :
    r.matchesAt before (u ++ x :: v) = r.matchesAt before u := by
  induction r generalizing before u with
  | empty => rfl
  | one accepts =>
    cases u with
    | nil =>
      have hreject : accepts x = false := by simpa only [avoids, Bool.not_eq_true'] using hx
      simp only [nil_append, matchesAt, hreject, Bool.false_eq_true, if_false]
    | cons c u => rfl
  | beginText | endText | wordBoundary => cases hr
  | seq a b iha ihb =>
    obtain ⟨ha, hb⟩ := (Bool.and_eq_true _ _).mp hr
    obtain ⟨hxa, hxb⟩ := (Bool.and_eq_true _ _).mp hx
    have hmore : ∀ m ∈ a.matchesAt before u,
        (b.matchesAt (before ++ m.text) ((u ++ x :: v).drop m.text.length)).map m.append =
          (b.matchesAt (before ++ m.text) (u.drop m.text.length)).map m.append := by
      intro m hm
      rw [drop_append_of_le_length (prefix_of_mem_matchesAt hm).length_le, ihb hb hxb]
    rw [matchesAt, matchesAt, iha ha hxa, flatMap_congr hmore]
  | alt a b iha ihb =>
    obtain ⟨ha, hb⟩ := (Bool.and_eq_true _ _).mp hr
    obtain ⟨hxa, hxb⟩ := (Bool.and_eq_true _ _).mp hx
    rw [matchesAt, matchesAt, iha ha hxa, ihb hb hxb]
  | star greedy a ih =>
    rw [matchesAt, matchesAt, rounds_append (inside_matchesAt a) (fun before u => ih hr hx u)]
    exact rounds_fuel (inside_matchesAt a) (by rw [length_append]; omega) le_rfl
  | group index a ih => rw [matchesAt, matchesAt, ih hr hx]

theorem mem_matchesAt_one :
    m ∈ (one p).matchesAt before after ↔ ∃ c rest, after = c :: rest ∧ p c = true ∧ m = ⟨[c], []⟩ := by
  cases after with
  | nil => simp [matchesAt]
  | cons c after =>
    rw [matchesAt]
    by_cases hc : p c = true <;> simp [hc]

theorem mem_matchesAt_star_one :
    m ∈ (star greedy (one p)).matchesAt before after ↔ m.groups = [] ∧ m.text <+: after ∧ ∀ c ∈ m.text, p c = true := by
  rw [matchesAt]
  induction after generalizing before m with
  | nil =>
    rw [length_nil, rounds, mem_singleton, prefix_nil]
    refine ⟨?_, fun h => Match.ext h.2.1 h.1⟩
    rintro rfl
    exact ⟨rfl, rfl, nofun⟩
  | cons c after ih =>
    rw [length_cons, mem_rounds_succ]
    constructor
    · rintro (rfl | ⟨l, hl, -, n, hn, rfl⟩)
      · exact ⟨rfl, nil_prefix, nofun⟩
      obtain ⟨d, rest, hd, hp, rfl⟩ := mem_matchesAt_one.mp hl
      obtain ⟨rfl, rfl⟩ := cons.inj hd
      obtain ⟨hgroups, hlead, hall⟩ := ih.mp hn
      refine ⟨by rw [Match.append_groups, hgroups]; rfl, cons_prefix_cons.mpr ⟨rfl, hlead⟩, ?_⟩
      exact forall_mem_cons.mpr ⟨hp, hall⟩
    · rintro ⟨hgroups, hlead, hall⟩
      obtain ⟨text, groups⟩ := m
      cases text with
      | nil => exact .inl (Match.ext rfl hgroups)
      | cons d text =>
        obtain ⟨rfl, hrest⟩ := cons_prefix_cons.mp hlead
        obtain ⟨hp, hall⟩ := forall_mem_cons.mp hall
        refine .inr ⟨⟨[d], []⟩, mem_matchesAt_one.mpr ⟨d, after, rfl, hp, rfl⟩, nofun, ⟨text, []⟩, ?_, ?_⟩
        · exact ih.mpr ⟨rfl, hrest, hall⟩
        · exact Match.ext rfl hgroups.symm

theorem mem_matchesAt_plus_one :
    m ∈ (plus (one p)).matchesAt before after ↔
      m.groups = [] ∧ m.text ≠ [] ∧ m.text <+: after ∧ ∀ c ∈ m.text, p c = true := by
  rw [plus, mem_matchesAt_seq]
  constructor
  · rintro ⟨l, hl, n, hn, rfl⟩
    obtain ⟨c, rest, rfl, hp, rfl⟩ := mem_matchesAt_one.mp hl
    obtain ⟨hgroups, hlead, hall⟩ := mem_matchesAt_star_one.mp hn
    refine ⟨by rw [Match.append_groups, hgroups]; rfl, nofun, cons_prefix_cons.mpr ⟨rfl, hlead⟩, ?_⟩
    exact forall_mem_cons.mpr ⟨hp, hall⟩
  rintro ⟨hgroups, hne, hlead, hall⟩
  obtain ⟨text, groups⟩ := m
  cases text with
  | nil => exact absurd rfl hne
  | cons c text =>
    obtain ⟨rest, rfl⟩ := hlead
    obtain ⟨hp, hall⟩ := forall_mem_cons.mp hall
    refine ⟨⟨[c], []⟩, mem_matchesAt_one.mpr ⟨c, text ++ rest, rfl, hp, rfl⟩, ⟨text, []⟩, ?_, ?_⟩
    · exact mem_matchesAt_star_one.mpr ⟨rfl, prefix_append text rest, hall⟩
    · exact Match.ext rfl hgroups.symm

/-- An expression without groups. -/
def groupless : Regex → Bool
  | empty | one _ | beginText | endText | wordBoundary => true
  | seq a b | alt a b => a.groupless && b.groupless
  | star _ a => a.groupless
  | group _ _ => false

theorem groups_of_mem_rounds (hround : ∀ before after, ∀ m ∈ round before after, m.groups = []) (fuel : ℕ)
    (h : m ∈ rounds greedy round fuel before after) : m.groups = [] := by
  induction fuel generalizing before after m with
  | zero =>
    cases mem_singleton.mp h
    rfl
  | succ fuel ih =>
    obtain rfl | ⟨l, hl, -, n, hn, rfl⟩ := mem_rounds_succ.mp h
    · rfl
    · rw [Match.append_groups, hround before after l hl, ih hn, append_nil]

theorem groups_of_mem_matchesAt (hr : r.groupless) (h : m ∈ r.matchesAt before after) : m.groups = [] := by
  induction r generalizing before after m with
  | empty =>
    cases mem_singleton.mp h
    rfl
  | one accepts =>
    obtain ⟨c, rest, -, -, rfl⟩ := mem_matchesAt_one.mp h
    rfl
  | beginText | endText | wordBoundary =>
    rw [matchesAt] at h
    split_ifs at h
    · cases mem_singleton.mp h
      rfl
    · cases h
  | seq a b iha ihb =>
    obtain ⟨ha, hb⟩ := (Bool.and_eq_true _ _).mp hr
    obtain ⟨l, hl, n, hn, rfl⟩ := mem_matchesAt_seq.mp h
    rw [Match.append_groups, iha ha hl, ihb hb hn, append_nil]
  | alt a b iha ihb =>
    obtain ⟨ha, hb⟩ := (Bool.and_eq_true _ _).mp hr
    rw [matchesAt, mem_append] at h
    exact h.elim (iha ha) (ihb hb)
  | star greedy a ih => exact groups_of_mem_rounds (fun _ _ _ => ih hr) _ h
  | group index a ih => cases hr

theorem prefix_of_mem_literal {text : List Char} (h : m ∈ (seqOf (text.map char)).matchesAt before after) :
    m.text = text := by
  induction text generalizing before after m with
  | nil =>
    cases mem_singleton.mp h
    rfl
  | cons c text ih =>
    obtain ⟨l, n, rest, rfl, hl, hn, rfl⟩ := mem_seq_iff.mp h
    obtain ⟨d, rest', -, hd, rfl⟩ := mem_matchesAt_one.mp hl
    rw [Match.append_text, ih hn, of_decide_eq_true hd]
    rfl

/-- An expression that starts with a given text, at the beginning only, is not found elsewhere. -/
theorem find_anchored_eq_none {lead : String} (h : ¬lead.toList <+: after) :
    (seq beginText (seq (literal lead) r)).find after = none := by
  have hnone : ∀ before after, (before = [] → ¬lead.toList <+: after) →
      (seq beginText (seq (literal lead) r)).firstAt before after = none := by
    intro before after hlead
    rw [firstAt, head?_eq_none_iff, eq_nil_iff_forall_not_mem]
    intro m hm
    obtain ⟨l, n, rest, rfl, hl, hn, rfl⟩ := mem_seq_iff.mp hm
    rw [matchesAt] at hl
    split_ifs at hl with hbefore
    · obtain ⟨l', n', rest', rfl, hl', -, -⟩ := mem_seq_iff.mp hn
      cases mem_singleton.mp hl
      refine hlead hbefore ?_
      rw [← prefix_of_mem_literal hl']
      exact prefix_append l'.text rest'
    · cases hl
  have hfrom : ∀ before after, (before = [] → ¬lead.toList <+: after) →
      (seq beginText (seq (literal lead) r)).findFrom before after = none := by
    intro before after hlead
    induction after generalizing before with
    | nil => rw [findFrom, hnone before [] hlead, Option.map_none]
    | cons c after ih =>
      rw [findFrom, hnone before (c :: after) hlead]
      refine ih (before ++ [c]) (fun hbefore => absurd hbefore ?_)
      exact append_ne_nil_of_right_ne_nil before (cons_ne_nil c [])
  exact hfrom [] after (fun _ => h)

section Taking

variable {text text' rest : List Char}

/-- Some match at a place takes a given text. -/
def Takes (r : Regex) (before text rest : List Char) : Prop := ∃ m ∈ r.matchesAt before (text ++ rest), m.text = text

theorem takes_empty : Takes empty before [] rest := ⟨.nil, mem_singleton_self _, rfl⟩

theorem takes_char (c : Char) : Takes (char c) before [c] rest :=
  ⟨⟨[c], []⟩, mem_matchesAt_one.mpr ⟨c, rest, rfl, decide_eq_true rfl, rfl⟩, rfl⟩

theorem takes_plus_one (hne : text ≠ []) (hall : ∀ c ∈ text, p c = true) : Takes (plus (one p)) before text rest :=
  ⟨⟨text, []⟩, mem_matchesAt_plus_one.mpr ⟨rfl, hne, prefix_append text rest, hall⟩, rfl⟩

theorem Takes.seq (ha : Takes a before text (text' ++ rest)) (hb : Takes b (before ++ text) text' rest) :
    Takes (seq a b) before (text ++ text') rest := by
  obtain ⟨l, hl, rfl⟩ := ha
  obtain ⟨n, hn, rfl⟩ := hb
  rw [← append_assoc] at hl
  exact ⟨l.append n, mem_seq_iff.mpr ⟨l, n, n.text ++ rest, append_assoc _ _ _, hl, hn, rfl⟩, rfl⟩

theorem Takes.group {index : ℕ} (h : Takes a before text rest) : Takes (group index a) before text rest := by
  obtain ⟨m, hm, rfl⟩ := h
  exact ⟨_, mem_matchesAt_group.mpr ⟨m, hm, rfl⟩, rfl⟩

theorem takes_opt : Takes (opt a) before [] rest :=
  ⟨.nil, mem_append_right _ (mem_singleton_self _), rfl⟩

end Taking

section Lazy

/-- An expression after as few characters of a class as possible. -/
def lazily (p : Char → Bool) (r : Regex) : Regex := seq (star false (one p)) r

theorem matchesAt_lazy_cons (c : Char) :
    (star false (one p)).matchesAt before (c :: after) =
      .nil ::
        (if p c then ((star false (one p)).matchesAt (before ++ [c]) after).map (Match.append ⟨[c], []⟩) else []) := by
  rw [matchesAt, matchesAt, length_cons, rounds]
  by_cases hc : p c = true
  · simp [matchesAt, hc]
  · simp [matchesAt, hc]

theorem firstAt_lazily_nil : (lazily p r).firstAt before [] = r.firstAt before [] := by
  simp [firstAt, lazily, matchesAt, rounds]

theorem firstAt_lazily_cons (c : Char) :
    (lazily p r).firstAt before (c :: after) =
      (r.firstAt before (c :: after)).or
        (if p c then ((lazily p r).firstAt (before ++ [c]) after).map (Match.append ⟨[c], []⟩) else none) := by
  unfold firstAt lazily
  rw [matchesAt, matchesAt_lazy_cons, flatMap_cons, head?_append]
  congr 1
  · simp
  by_cases hc : p c = true
  · rw [if_pos hc, if_pos hc, matchesAt, flatMap_map, ← head?_map, map_flatMap]
    congr 1
    refine flatMap_congr (fun m _ => ?_)
    rw [map_map, Match.append_text, ← append_assoc]
    exact congrArg (map · _) (funext (fun n => Match.append_assoc _ m n))
  · rw [if_neg hc, if_neg hc, flatMap_nil, head?_nil]

theorem firstAt_lazily_of_some (h : r.firstAt before after = some m) : (lazily p r).firstAt before after = some m := by
  cases after with
  | nil => rw [firstAt_lazily_nil, h]
  | cons c after => rw [firstAt_lazily_cons, h, Option.some_or]

end Lazy

theorem length_le_of_findFrom {f : Found} (h : r.findFrom before after = some f) : before.length ≤ f.before.length := by
  induction after generalizing before with
  | nil =>
    obtain ⟨m, -, rfl⟩ := Option.map_eq_some_iff.mp h
    exact le_rfl
  | cons c after ih =>
    rw [findFrom] at h
    split at h
    · cases h
      exact le_rfl
    · have hlen := ih h
      rw [length_append, length_singleton] at hlen
      omega

theorem find_of_firstAt (h : r.firstAt [] after = some m) : r.find after = some ⟨[], m, after.drop m.text.length⟩ := by
  cases after with
  | nil => rw [find, findFrom, h, Option.map_some, drop_nil]
  | cons c after => rw [find, findFrom, h]

/-- A match that is not at the beginning is preceded by something. -/
theorem before_ne_nil_of_firstAt {f : Found} (h : r.firstAt [] after = none) (hf : r.find after = some f) :
    f.before ≠ [] := by
  cases after with
  | nil =>
    rw [find, findFrom, h] at hf
    cases hf
  | cons c after =>
    rw [find, findFrom, h] at hf
    have hlen := length_le_of_findFrom hf
    exact ne_nil_of_length_pos hlen

theorem firstAt_before (hr : r.unanchored) (before' : List Char) : r.firstAt before after = r.firstAt before' after := by
  rw [firstAt, matchesAt_before hr before', firstAt]

theorem findFrom_eq_none_before (hr : r.unanchored) (before' : List Char) :
    r.findFrom before after = none ↔ r.findFrom before' after = none := by
  induction after generalizing before before' with
  | nil => rw [findFrom, findFrom, Option.map_eq_none_iff, Option.map_eq_none_iff, firstAt_before hr before']
  | cons c after ih =>
    rw [findFrom, findFrom, firstAt_before hr before']
    cases r.firstAt before' (c :: after) with
    | none => exact ih _
    | some m => exact iff_of_false nofun nofun

theorem firstAt_eq_none_of_find (h : r.find after = none) : r.firstAt [] after = none := by
  cases hfirst : r.firstAt [] after with
  | none => rfl
  | some m =>
    rw [find_of_firstAt hfirst] at h
    cases h

theorem find_cons_eq_none (hr : r.unanchored) {c : Char} :
    r.find (c :: after) = none ↔ r.firstAt [] (c :: after) = none ∧ r.find after = none := by
  rw [find, findFrom]
  cases r.firstAt [] (c :: after) with
  | none => exact (findFrom_eq_none_before hr []).trans (and_iff_right rfl).symm
  | some m => exact iff_of_false nofun (fun h => nomatch h.1)

/-- An expression all of whose matches have a character of a class. -/
def Needs (p : Char → Bool) : Regex → Prop
  | one accepts => ∀ c, accepts c = true → p c = true
  | empty | beginText | endText | wordBoundary | star _ _ => False
  | seq a b => a.Needs p ∨ b.Needs p
  | alt a b => a.Needs p ∧ b.Needs p
  | group _ a => a.Needs p

theorem any_of_needs (hr : r.Needs p) (h : m ∈ r.matchesAt before after) : m.text.any p = true := by
  induction r generalizing before after m with
  | one accepts =>
    obtain ⟨c, rest, -, hc, rfl⟩ := mem_matchesAt_one.mp h
    exact any_eq_true.mpr ⟨c, mem_singleton_self c, hr c hc⟩
  | empty | beginText | endText | wordBoundary | star => exact hr.elim
  | seq a b iha ihb =>
    obtain ⟨l, hl, n, hn, rfl⟩ := mem_matchesAt_seq.mp h
    rw [Match.append_text, any_append, Bool.or_eq_true]
    exact hr.imp (fun ha => iha ha hl) (fun hb => ihb hb hn)
  | alt a b iha ihb =>
    rw [matchesAt, mem_append] at h
    exact h.elim (iha hr.1) (ihb hr.2)
  | group index a ih =>
    obtain ⟨l, hl, rfl⟩ := mem_matchesAt_group.mp h
    exact @ih before after l hr hl

section Replacing

variable {repl : Match → List Char} {f : Found} {fuel : ℕ}

theorem append_of_firstAt (h : r.firstAt before after = some m) :
    after = m.text ++ after.drop m.text.length ∧ m ∈ r.matchesAt before (m.text ++ after.drop m.text.length) := by
  have hmem := mem_of_head? h
  obtain ⟨rest, rfl⟩ := prefix_of_mem_matchesAt hmem
  rw [drop_left]
  exact ⟨rfl, hmem⟩

/-- A found match follows the text passed over, at no character of which another begins. -/
theorem findFrom_eq_some (h : r.findFrom before after = some f) :
    ∃ skipped, f.before = before ++ skipped ∧ after = skipped ++ (f.matched.text ++ f.after) ∧
      f.matched ∈ r.matchesAt f.before (f.matched.text ++ f.after) ∧
      ∀ c ∈ skipped, ∃ before after, r.firstAt before (c :: after) = none := by
  induction after generalizing before with
  | nil =>
    obtain ⟨m, hm, rfl⟩ := Option.map_eq_some_iff.mp h
    obtain ⟨htext, hmem⟩ := append_of_firstAt hm
    rw [drop_nil] at htext hmem
    exact ⟨[], (append_nil _).symm, htext, hmem, nofun⟩
  | cons c after ih =>
    rw [findFrom] at h
    split at h
    case h_1 m hm =>
      cases h
      obtain ⟨htext, hmem⟩ := append_of_firstAt hm
      exact ⟨[], (append_nil _).symm, htext, hmem, nofun⟩
    case h_2 hnone =>
      obtain ⟨skipped, hbefore, rfl, hmem, hskipped⟩ := ih h
      refine ⟨c :: skipped, ?_, rfl, hmem, forall_mem_cons.mpr ⟨⟨before, _, hnone⟩, hskipped⟩⟩
      rw [hbefore, append_assoc, singleton_append]

theorem firstAt_of_findFrom_eq_none {u v : List Char} (h : r.findFrom before (u ++ v) = none) :
    r.firstAt (before ++ u) v = none := by
  induction u generalizing before with
  | nil =>
    rw [append_nil]
    cases v with
    | nil => exact Option.map_eq_none_iff.mp h
    | cons c v =>
      rw [nil_append, findFrom] at h
      split at h
      · cases h
      · assumption
  | cons c u ih =>
    rw [cons_append, findFrom] at h
    split at h
    · cases h
    · have hrest := ih h
      rwa [append_assoc, singleton_append] at hrest

/-- When every match is replaced by a text with a character of a class exactly if it has one, so is
the whole text. -/
theorem any_replaceFrom (h : ∀ before after, ∀ m ∈ r.matchesAt before after, (repl m).any p = m.text.any p) :
    (r.replaceFrom repl fuel before after).any p = after.any p := by
  induction fuel generalizing before after with
  | zero => rfl
  | succ fuel ih =>
    rw [replaceFrom]
    cases hfind : r.findFrom before after with
    | none => rfl
    | some f =>
      obtain ⟨skipped, hbefore, rfl, hmem, -⟩ := findFrom_eq_some hfind
      simp only
      split_ifs
      · rfl
      · rw [hbefore, drop_left, any_append, any_append, ih, h _ _ _ hmem, any_append, any_append,
          Bool.or_assoc]

/-- What is left after replacing is of the replacements, or no match begins at it. -/
theorem forall_mem_replaceFrom {q : Char → Prop} (htakes : ∀ before after, ∀ m ∈ r.matchesAt before after, m.text ≠ [])
    (hskip : ∀ before c after, r.firstAt before (c :: after) = none → q c) (hrepl : ∀ m, ∀ c ∈ repl m, q c)
    (hfuel : after.length ≤ fuel) : ∀ c ∈ r.replaceFrom repl fuel before after, q c := by
  have hpassed : ∀ {text : List Char}, (∀ c ∈ text, ∃ before after, r.firstAt before (c :: after) = none) →
      ∀ c ∈ text, q c := by
    intro text htext c hc
    obtain ⟨before, after, hnone⟩ := htext c hc
    exact hskip before c after hnone
  induction fuel generalizing before after with
  | zero =>
    rw [eq_nil_of_length_eq_zero (Nat.le_zero.mp hfuel)]
    exact nofun
  | succ fuel ih =>
    rw [replaceFrom]
    cases hfind : r.findFrom before after with
    | none =>
      refine hpassed (fun c hc => ?_)
      obtain ⟨u, v, rfl⟩ := append_of_mem hc
      exact ⟨before ++ u, v, firstAt_of_findFrom_eq_none hfind⟩
    | some f =>
      obtain ⟨skipped, hbefore, rfl, hmem, hskipped⟩ := findFrom_eq_some hfind
      have hpos := length_pos_iff.mpr (htakes _ _ _ hmem)
      have hfuel' : f.after.length ≤ fuel := by
        rw [length_append, length_append] at hfuel
        omega
      simp only
      rw [if_neg (htakes _ _ _ hmem), hbefore, drop_left]
      refine forall_mem_append.mpr ⟨forall_mem_append.mpr ⟨hpassed hskipped, hrepl _⟩, ih hfuel'⟩

theorem replaceFrom_nil : r.replaceFrom repl fuel before [] = [] := by
  cases fuel with
  | zero => rfl
  | succ fuel =>
    rw [replaceFrom]
    cases hfind : r.findFrom before [] with
    | none => rfl
    | some f =>
      obtain ⟨skipped, -, hempty, -, -⟩ := findFrom_eq_some hfind
      exact if_pos (append_eq_nil_iff.mp (append_eq_nil_iff.mp hempty.symm).2).1

theorem replaceAll_of_find_eq_none {text : List Char} (h : r.find text = none) : r.replaceAll repl text = text := by
  rw [replaceAll]
  cases text.length with
  | zero => rfl
  | succ fuel =>
    rw [find] at h
    rw [replaceFrom, h]

/-- A match up to the end of the text is the only one. -/
theorem replaceAll_of_find_end {text : List Char} (h : r.find text = some f) (hne : f.matched.text ≠ [])
    (hend : f.after = []) : r.replaceAll repl text = f.before ++ repl f.matched := by
  rw [replaceAll]
  cases hlen : text.length with
  | zero =>
    obtain ⟨skipped, -, rfl, -, -⟩ := findFrom_eq_some h
    rw [length_append, length_append] at hlen
    exact absurd (length_eq_zero_iff.mp (by omega)) hne
  | succ fuel =>
    rw [find] at h
    simp only [replaceFrom, h, hend, replaceFrom_nil, append_nil, if_neg hne, length_nil, drop_zero]

theorem any_replaceAll {text : List Char}
    (h : ∀ before after, ∀ m ∈ r.matchesAt before after, (repl m).any p = m.text.any p) :
    (r.replaceAll repl text).any p = text.any p := any_replaceFrom h

/-- Replacing the runs of a class leaves no other character of it. -/
theorem forall_mem_replaceAll_plus_one {q : Char → Prop} {text : List Char} (hother : ∀ c, p c = false → q c)
    (hrepl : ∀ m, ∀ c ∈ repl m, q c) : ∀ c ∈ (plus (one p)).replaceAll repl text, q c := by
  refine forall_mem_replaceFrom (fun _ _ m hm => (mem_matchesAt_plus_one.mp hm).2.1) ?_ hrepl le_rfl
  intro before c after hnone
  refine hother c (Bool.eq_false_iff.mpr (fun hc => ?_))
  have hmem : (⟨[c], []⟩ : Match) ∈ (plus (one p)).matchesAt before (c :: after) :=
    mem_matchesAt_plus_one.mpr
      ⟨rfl, cons_ne_nil _ _, cons_prefix_cons.mpr ⟨rfl, nil_prefix⟩, forall_mem_singleton.mpr hc⟩
  rw [firstAt, head?_eq_none_iff] at hnone
  rw [hnone] at hmem
  cases hmem

end Replacing

end Laws

end Regex

end goregexp
