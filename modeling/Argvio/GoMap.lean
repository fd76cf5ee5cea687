import Mathlib.Algebra.BigOperators.Ring.Finset
import Mathlib.Data.Finmap

open List

/-- Sorting by a total order forgets the order in which the elements came. -/
theorem insertionSort_eq_of_perm {α : Type} {r : α → α → Prop} [DecidableRel r] [Std.Total r] [IsTrans α r]
    [Std.Antisymm r] {l l' : List α} (h : l.Perm l') : l.insertionSort r = l'.insertionSort r :=
  List.Perm.eq_of_pairwise' (pairwise_insertionSort r l) (pairwise_insertionSort r l')
    ((perm_insertionSort r l).trans (h.trans (perm_insertionSort r l').symm))

/-- A Go map. Its entry list is the order in which one `range` statement visits
it, which Go leaves open, so a fact about the map itself speaks of `lookup`. -/
abbrev GoMap (κ ν : Type) := AList (fun _ : κ => ν)

namespace GoMap

variable {κ ν : Type}

/-- The same map, visited in a possibly different order. -/
def Same (m₁ m₂ : GoMap κ ν) : Prop := m₁.entries.Perm m₂.entries

theorem Same.refl (m : GoMap κ ν) : Same m m := List.Perm.refl _

variable {m₁ m₂ : GoMap κ ν}

theorem Same.symm (h : Same m₁ m₂) : Same m₂ m₁ := List.Perm.symm h

theorem Same.keys_perm (h : Same m₁ m₂) : m₁.keys.Perm m₂.keys := List.Perm.map Sigma.fst h

theorem Same.keys_eq_nil_iff (h : Same m₁ m₂) : m₁.keys = [] ↔ m₂.keys = [] := by
  rw [← length_eq_zero_iff, h.keys_perm.length_eq, length_eq_zero_iff]

/-- What is read off some entries has no duplicates when it determines their keys. -/
theorem nodup_map_filter_entries {α : Type} (m : GoMap κ ν) (p : (Σ _ : κ, ν) → Bool) (f : (Σ _ : κ, ν) → α)
    (hkey : ∀ e e', p e = true → p e' = true → f e = f e' → e.1 = e'.1) :
    ((m.entries.filter p).map f).Nodup := by
  have hkeys : (m.entries.map Sigma.fst).Nodup := m.nodupKeys
  refine List.Nodup.map_on ?_ (List.Nodup.filter _ (List.Nodup.of_map _ hkeys))
  intro e he e' he' heq
  obtain ⟨hmem, hp⟩ := mem_filter.mp he
  obtain ⟨hmem', hp'⟩ := mem_filter.mp he'
  exact inj_on_of_nodup_map hkeys hmem hmem' (hkey e e' hp hp' heq)

/-- The same values under other keys. -/
def mapKeys {κ' : Type} (f : κ → κ') (hf : Function.Injective f) (m : GoMap κ ν) : GoMap κ' ν where
  entries := m.entries.map (.map f fun _ => id)
  nodupKeys := List.NodupKeys.map₁ f hf m.nodupKeys

theorem keys_mapKeys {κ' : Type} {f : κ → κ'} (hf : Function.Injective f) (m : GoMap κ ν) :
    (m.mapKeys f hf).keys = m.keys.map f := by
  simp [mapKeys, AList.keys, keys, Function.comp_def, Sigma.map]

theorem length_le_of_keys_subset (h : m₁.keys ⊆ m₂.keys) :
    m₁.entries.length ≤ m₂.entries.length := by
  have hle := (m₁.keys_nodup.subperm h).length_le
  simpa [AList.keys, keys] using hle

variable [DecidableEq κ]

theorem Same.lookup_eq (h : Same m₁ m₂) (k : κ) : m₁.lookup k = m₂.lookup k :=
  AList.perm_lookup h

theorem toFinmap_eq_of_lookup (h : ∀ k, m₁.lookup k = m₂.lookup k) : m₁.toFinmap = m₂.toFinmap := by
  apply Finmap.ext_lookup
  intro k
  simpa using h k

theorem same_of_lookup (h : ∀ k, m₁.lookup k = m₂.lookup k) : Same m₁ m₂ :=
  AList.toFinmap_eq.mp (toFinmap_eq_of_lookup h)

theorem sum_filter_key (m : GoMap κ Int) (k : κ) :
    ((m.entries.filter (fun e => e.1 = k)).map Sigma.snd).sum = (m.lookup k).getD 0 := by
  have hsum : ∀ l : List (Σ _ : κ, Int), l.NodupKeys →
      ((l.filter (fun e => e.1 = k)).map Sigma.snd).sum = (l.dlookup k).getD 0 := by
    intro l
    induction l with
    | nil => intro _; rfl
    | cons e rest ih =>
      intro hnodup
      obtain ⟨a, v⟩ := e
      have hrest := ih (nodupKeys_of_nodupKeys_cons hnodup)
      have hfresh := notMem_keys_of_nodupKeys_cons hnodup
      by_cases hk : a = k
      · subst hk
        rw [dlookup_eq_none.mpr hfresh] at hrest
        rw [dlookup_cons_eq, filter_cons_of_pos (by simp), map_cons, sum_cons, hrest]
        simp
      · rw [dlookup_cons_ne _ _ (Ne.symm hk), filter_cons_of_neg (by simpa using hk), hrest]
  exact hsum m.entries m.nodupKeys

/-- Assigning every pair of a sequence in turn, as in `for ... { m[k] = v }`. -/
def putAll (m : GoMap κ ν) (pairs : List (κ × ν)) : GoMap κ ν :=
  pairs.foldl (fun m pair => m.insert pair.1 pair.2) m

variable (m : GoMap κ ν) {pairs : List (κ × ν)} (p : κ → ν → Bool)

@[simp] theorem putAll_nil : putAll m [] = m := rfl

@[simp] theorem putAll_cons (pair : κ × ν) (pairs : List (κ × ν)) :
    putAll m (pair :: pairs) = putAll (m.insert pair.1 pair.2) pairs := rfl

/-- The last assignment to a key wins; keys never assigned keep their value. -/
theorem lookup_putAll (pairs : List (κ × ν)) (k : κ) :
    (putAll m pairs).lookup k = (pairs.reverse.lookup k).or (m.lookup k) := by
  induction pairs generalizing m with
  | nil => simp
  | cons pair pairs ih =>
    obtain ⟨a, v⟩ := pair
    rw [putAll_cons, ih, reverse_cons, lookup_append, Option.or_assoc]
    by_cases hk : k = a
    · subst hk
      simp
    · have hne : (k == a) = false := by simpa using hk
      rw [AList.lookup_insert_ne hk]
      simp [lookup_cons, hne]

theorem mem_of_lookup_putAll {k : κ} {v : ν} (h : (putAll (∅ : GoMap κ ν) pairs).lookup k = some v) :
    (k, v) ∈ pairs := by
  rw [lookup_putAll, AList.lookup_empty, Option.or_none, lookup_eq_some_iff] at h
  obtain ⟨l₁, l₂, hsplit, _⟩ := h
  rw [← mem_reverse, hsplit]
  simp

/-- With distinct keys every assignment stays. -/
theorem lookup_putAll_eq_some_iff (hnodup : (pairs.map Prod.fst).Nodup) {k : κ} {v : ν} :
    (putAll (∅ : GoMap κ ν) pairs).lookup k = some v ↔ (k, v) ∈ pairs := by
  refine ⟨mem_of_lookup_putAll, fun hmem => ?_⟩
  cases hlookup : (putAll (∅ : GoMap κ ν) pairs).lookup k with
  | none =>
    rw [lookup_putAll, AList.lookup_empty, Option.or_none, lookup_eq_none_iff] at hlookup
    have hne := hlookup (k, v) (mem_reverse.mpr hmem)
    simp at hne
  | some w =>
    have heq := inj_on_of_nodup_map hnodup (mem_of_lookup_putAll hlookup) hmem rfl
    cases heq
    rfl

/-- The map made of some entries of a table under other keys. -/
theorem lookup_putAll_entries {κ' ν' : Type} [DecidableEq κ'] (p : (Σ _ : κ, ν) → Bool) (key : κ → κ')
    (value : ν → ν') (hinj : ∀ e e', p e = true → p e' = true → key e.1 = key e'.1 → e.1 = e'.1) {k : κ}
    (hkey : ∀ e, p e = true → key e.1 = key k → e.1 = k) :
    (putAll ∅ ((m.entries.filter p).map (fun e => (key e.1, value e.2)))).lookup (key k) =
      ((m.lookup k).filter (fun v => p ⟨k, v⟩)).map value := by
  ext v'
  rw [lookup_putAll_eq_some_iff, Option.map_eq_some_iff]
  · constructor
    · intro hmem
      obtain ⟨⟨k', v⟩, hentry, heq⟩ := mem_map.mp hmem
      obtain ⟨hin, hp⟩ := mem_filter.mp hentry
      obtain ⟨hsame, rfl⟩ := Prod.mk.inj heq
      obtain rfl : k' = k := hkey ⟨k', v⟩ hp hsame
      exact ⟨v, Option.filter_eq_some_iff.mpr ⟨AList.mem_lookup_iff.mpr hin, hp⟩, rfl⟩
    · rintro ⟨v, hv, rfl⟩
      obtain ⟨hv, hp⟩ := Option.filter_eq_some_iff.mp hv
      exact mem_map.mpr ⟨⟨k, v⟩, mem_filter.mpr ⟨AList.mem_lookup_iff.mp hv, hp⟩, rfl⟩
  · rw [map_map]
    exact nodup_map_filter_entries m p _ hinj

/-- Assigning to each of some keys a value of its own. -/
theorem lookup_putAll_map (ks : List κ) (f : κ → ν) (m : GoMap κ ν) (k : κ) :
    (putAll m (ks.map (fun a => (a, f a)))).lookup k = if k ∈ ks then some (f k) else m.lookup k := by
  induction ks generalizing m with
  | nil => rfl
  | cons a ks ih =>
    rw [map_cons, putAll_cons, ih]
    by_cases hk : k = a
    · subst hk
      simp
    · simp [hk, AList.lookup_insert_ne hk]

private theorem lookup_foldl_assignSome (f : κ → ν → Option ν) (entries : List (Σ _ : κ, ν))
    (hnodup : entries.NodupKeys) (m : GoMap κ ν) (k : κ) :
    (entries.foldl (fun m e => (f e.1 e.2).elim m (fun v => m.insert e.1 v)) m).lookup k =
      ((entries.dlookup k).bind (f k)).or (m.lookup k) := by
  induction entries generalizing m with
  | nil => simp
  | cons e rest ih =>
    obtain ⟨a, v⟩ := e
    have hrest := nodupKeys_of_nodupKeys_cons hnodup
    have hfresh := notMem_keys_of_nodupKeys_cons hnodup
    rw [foldl_cons, ih hrest]
    by_cases hk : k = a
    · subst hk
      rw [dlookup_eq_none.mpr hfresh, dlookup_cons_eq]
      cases hf : f k v <;> simp [hf]
    · rw [dlookup_cons_ne _ _ hk]
      cases hf : f a v with
      | none => simp
      | some w => simp [AList.lookup_insert_ne hk]

/-- Assigning only the pairs a test accepts, over the entries of another map. -/
theorem lookup_foldl_insert_if (entries : List (Σ _ : κ, ν)) (hnodup : entries.NodupKeys) (m : GoMap κ ν) (k : κ) :
    (entries.foldl (fun m e => if p e.1 e.2 then m.insert e.1 e.2 else m) m).lookup k =
      ((entries.dlookup k).filter (p k)).or (m.lookup k) := by
  have hfold := lookup_foldl_assignSome (fun k v => if p k v then some v else none) entries hnodup m k
  have hstep : ∀ (m : GoMap κ ν) (e : Σ _ : κ, ν), (if p e.1 e.2 then some e.2 else none).elim m (m.insert e.1 ·) =
      if p e.1 e.2 then m.insert e.1 e.2 else m := by
    intro m e
    split <;> rfl
  simp only [hstep] at hfold
  rw [hfold]
  cases entries.dlookup k <;> rfl

/-- The entries a test accepts, copied into a new map. -/
def keep (p : κ → ν → Bool) (src : GoMap κ ν) : GoMap κ ν :=
  src.entries.foldl (fun m e => if p e.1 e.2 then m.insert e.1 e.2 else m) ∅

theorem lookup_keep (src : GoMap κ ν) (k : κ) : (keep p src).lookup k = (src.lookup k).filter (p k) := by
  unfold keep
  rw [lookup_foldl_insert_if p src.entries src.nodupKeys ∅ k]
  simp [AList.lookup]

section Entrywise

-- What holds of every entry of a map.
variable {P : κ → ν → Prop} {m : GoMap κ ν} {key : κ} {value : ν}

theorem forall_lookup_insert (h : ∀ k v, m.lookup k = some v → P k v) (hkey : P key value) :
    ∀ k v, (m.insert key value).lookup k = some v → P k v := by
  intro k v hlookup
  by_cases hk : k = key
  · subst hk
    rw [AList.lookup_insert] at hlookup
    cases hlookup
    exact hkey
  · rw [AList.lookup_insert_ne hk] at hlookup
    exact h k v hlookup

theorem forall_lookup_erase (h : ∀ k v, m.lookup k = some v → P k v) :
    ∀ k v, (m.erase key).lookup k = some v → P k v := by
  intro k v hlookup
  by_cases hk : k = key
  · subst hk
    rw [AList.lookup_erase] at hlookup
    cases hlookup
  · rw [AList.lookup_erase_ne hk] at hlookup
    exact h k v hlookup

theorem forall_lookup_keep {p : κ → ν → Bool} (h : ∀ k v, m.lookup k = some v → P k v) :
    ∀ k v, (keep p m).lookup k = some v → P k v := by
  intro k v hlookup
  rw [lookup_keep] at hlookup
  exact h k v (Option.eq_some_of_filter_eq_some hlookup)

end Entrywise

theorem length_erase_le (k : κ) : (m.erase k).entries.length ≤ m.entries.length := by
  apply length_le_of_keys_subset
  rw [AList.keys_erase]
  exact erase_subset

theorem length_keep_le : (keep p m).entries.length ≤ m.entries.length := by
  apply length_le_of_keys_subset
  intro k hk
  rw [← AList.mem_keys, ← AList.lookup_isSome, lookup_keep] at hk
  rw [← AList.mem_keys, ← AList.lookup_isSome]
  exact Option.isSome_of_isSome_filter _ _ hk

theorem length_insert_of_mem {m : GoMap κ ν} {k : κ} (h : k ∈ m) (v : ν) :
    (m.insert k v).entries.length = m.entries.length := by
  have hkeys := congrArg length (AList.keys_insert (b := v) m (a := k))
  have hpos := length_pos_of_mem (AList.mem_keys.mp h)
  rw [length_cons, length_erase_of_mem (AList.mem_keys.mp h)] at hkeys
  simp only [AList.keys, keys, length_map] at hkeys hpos
  omega

theorem length_insert_le (k : κ) (v : ν) : (m.insert k v).entries.length ≤ m.entries.length + 1 := by
  by_cases h : k ∈ m
  · rw [length_insert_of_mem h]
    exact Nat.le_succ _
  · rw [AList.entries_insert_of_notMem h]
    exact Nat.le_refl _

/-- Copying every entry of `src` into `m`, as in `for k, v := range src { m[k] = v }`. -/
def assignAll (m src : GoMap κ ν) : GoMap κ ν :=
  src.entries.foldl (fun m e => m.insert e.1 e.2) m

theorem lookup_assignAll (m src : GoMap κ ν) (k : κ) :
    (assignAll m src).lookup k = (src.lookup k).or (m.lookup k) := by
  have hfold := lookup_foldl_insert_if (fun _ _ => true) src.entries src.nodupKeys m k
  have hall : (src.entries.dlookup k).filter (fun _ => true) = src.entries.dlookup k := by
    cases src.entries.dlookup k <;> rfl
  rw [hall] at hfold
  simp only [if_true] at hfold
  exact hfold

/-- Assigning in `m` what `f` makes of the entries of `src`, where it makes something
of them: an `UPDATE ... WHERE` over `src` whose rows are written to `m`. -/
def assignSome (f : κ → ν → Option ν) (src m : GoMap κ ν) : GoMap κ ν :=
  src.entries.foldl (fun m e => (f e.1 e.2).elim m (fun v => m.insert e.1 v)) m

theorem lookup_assignSome (f : κ → ν → Option ν) (src m : GoMap κ ν) (k : κ) :
    (assignSome f src m).lookup k = ((src.lookup k).bind (f k)).or (m.lookup k) :=
  lookup_foldl_assignSome f src.entries src.nodupKeys m k

theorem assignSome_eq_self {f : κ → ν → Option ν} {src : GoMap κ ν} (h : ∀ k v, src.lookup k = some v → f k v = none) :
    assignSome f src m = m := by
  unfold assignSome
  have hnone : ∀ e ∈ src.entries, f e.1 e.2 = none := fun e he => h e.1 e.2 (AList.mem_lookup_iff.mpr he)
  generalize src.entries = entries at hnone
  induction entries generalizing m with
  | nil => rfl
  | cons e rest ih =>
    rw [foldl_cons, hnone e mem_cons_self]
    exact ih m (fun e' he' => hnone e' (mem_cons_of_mem e he'))

/-- Counting a sequence, as in `for ... { m[k]++ }`. -/
def tally (ks : List κ) : GoMap κ Int :=
  ks.foldl (fun m k => m.insert k ((m.lookup k).getD 0 + 1)) ∅

theorem lookup_tally (ks : List κ) (k : κ) :
    (tally ks).lookup k = if k ∈ ks then some (ks.count k : Int) else none := by
  induction ks using reverseRecOn with
  | nil => rfl
  | append_singleton ks a ih =>
    have hstep : tally (ks ++ [a]) = (tally ks).insert a (((tally ks).lookup a).getD 0 + 1) := by
      simp [tally, foldl_append]
    rw [hstep]
    by_cases hk : k = a
    · subst hk
      rw [AList.lookup_insert, ih]
      by_cases hmem : k ∈ ks
      · simp [hmem]
      · simp [hmem, count_eq_zero_of_not_mem hmem]
    · rw [AList.lookup_insert_ne hk, ih]
      have hcount : count k [a] = 0 := count_eq_zero_of_not_mem (by simpa using hk)
      simp [mem_append, hk, count_append, hcount]

theorem tally_same {ks ks' : List κ} (h : ks.Perm ks') : Same (tally ks) (tally ks') := by
  apply same_of_lookup
  intro k
  rw [lookup_tally, lookup_tally]
  simp only [h.mem_iff, h.count_eq]

theorem mem_keys_tally {ks : List κ} {k : κ} : k ∈ (tally ks).keys ↔ k ∈ ks := by
  rw [← AList.mem_keys, ← AList.lookup_isSome, lookup_tally]
  split <;> simp_all

/-- Each distinct element with its count, in order of last appearance. -/
private def counted (ks : List κ) : GoMap κ Int where
  entries := ks.dedup.map (fun k => ⟨k, (ks.count k : Int)⟩)
  nodupKeys := by
    simpa [List.NodupKeys, keys, Function.comp_def] using ks.nodup_dedup

private theorem same_counted (ks : List κ) : Same (tally ks) (counted ks) := by
  apply same_of_lookup
  intro k
  rw [lookup_tally]
  split
  · rename_i hmem
    symm
    apply AList.mem_lookup_iff.mpr
    simpa [counted] using hmem
  · rename_i hmem
    symm
    rw [AList.lookup_eq_none]
    simpa [counted, AList.mem_keys, AList.keys, keys] using hmem

/-- The counts of all the keys a test accepts add up to how often it holds. -/
theorem sum_tally (p : κ → Bool) (ks : List κ) :
    (((tally ks).entries.filter (fun e => p e.1)).map Sigma.snd).sum = (ks.countP p : Int) := by
  have hperm := ((same_counted ks).filter (fun e => p e.1)).map Sigma.snd
  rw [hperm.sum_eq, ← sum_map_count_dedup_filter_eq_countP p ks]
  simp [counted, filter_map, Function.comp_def, Nat.cast_list_sum]

end GoMap
