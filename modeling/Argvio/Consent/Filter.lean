import Argvio.Allowlist.Accepted
import Argvio.Consent.Tier

open argvio.allowlist

namespace argvio.consent

/-- The rule the filter enforces on one attribute of an event: a key outside the
event's list needs to be a standard resource attribute, and a key on the list
needs a value its definition accepts and a tier within the effective one. -/
def Keeps (s : Schema) (allowedAttributes : List String) (effectiveRank : Int) (k : String)
    (v : AttrValue) : Prop :=
  (¬ s.AllowedFor allowedAttributes k ∧ s.isStandardResourceAttribute k = true) ∨
    (s.AllowedFor allowedAttributes k ∧ ∃ attrDef minRank, s.attrDefFor k = some attrDef ∧
      checkAttribute attrDef v = .ok () ∧ s.tierRank attrDef.minTier = some minRank ∧
      minRank ≤ effectiveRank)

variable {s : Schema} {k : String}

theorem keepAttribute_iff (hvalid : s.Valid) {keys : List String} (hkeys : s.Defines keys) {effectiveRank : Int}
    {v : AttrValue} :
    keepAttribute s (allowedSet keys) effectiveRank k v = true ↔ Keeps s keys effectiveRank k v := by
  unfold keepAttribute Keeps
  by_cases hallowed : s.AllowedFor keys k
  · obtain ⟨d, r, hd, hr⟩ := hvalid.attrDefFor_of_allowed hkeys hallowed
    rw [if_pos (Schema.isAllowed_iff.mpr hallowed)]
    cases hcheck : checkAttribute d v with
    | error err => simp [hallowed, hd, hcheck]
    | ok _ => simp [hallowed, hd, hcheck, hr]
  · rw [if_neg (fun hpos => hallowed (Schema.isAllowed_iff.mp hpos))]
    simp [hallowed]

private theorem foldl_filterStep (s : Schema) (allowed : Finset String) (r : Int)
    (entries : List (Σ _ : String, AttrValue)) (kept : AttrMap) (dropped : List String) :
    entries.foldl (filterStep s allowed r) (kept, dropped) =
      (entries.foldl (fun m e =>
          if decide (e.1 ≠ tierAttrKey) && keepAttribute s allowed r e.1 e.2 then m.insert e.1 e.2 else m) kept,
        dropped ++ (entries.filter (fun e =>
          decide (e.1 ≠ tierAttrKey) && !keepAttribute s allowed r e.1 e.2)).map Sigma.fst) := by
  induction entries generalizing kept dropped with
  | nil => simp
  | cons e rest ih =>
    rw [List.foldl_cons, List.foldl_cons]
    by_cases htier : e.1 = tierAttrKey
    · have hstep : filterStep s allowed r (kept, dropped) e = (kept, dropped) := by
        simp [filterStep, htier]
      rw [hstep, ih]
      simp [htier]
    by_cases hkeep : keepAttribute s allowed r e.1 e.2 = true
    · have hstep : filterStep s allowed r (kept, dropped) e = (kept.insert e.1 e.2, dropped) := by
        simp [filterStep, htier, hkeep]
      rw [hstep, ih]
      simp [htier, hkeep]
    · have hstep : filterStep s allowed r (kept, dropped) e = (kept, dropped ++ [e.1]) := by
        simp [filterStep, htier, hkeep]
      rw [hstep, ih]
      simp [htier, hkeep]

theorem lookup_filterAttributes (s : Schema) (allowed : Finset String) (r : Int) (attrs : AttrMap)
    (k : String) :
    (filterAttributes s allowed r attrs).1.lookup k =
      (attrs.lookup k).filter (fun v => decide (k ≠ tierAttrKey) && keepAttribute s allowed r k v) := by
  unfold filterAttributes
  rw [foldl_filterStep,
    GoMap.lookup_foldl_insert_if (fun k v => decide (k ≠ tierAttrKey) && keepAttribute s allowed r k v)
      attrs.entries attrs.nodupKeys ∅ k]
  simp [AList.lookup]

theorem filterAttributes_dropped (s : Schema) (allowed : Finset String) (r : Int) (attrs : AttrMap) :
    (filterAttributes s allowed r attrs).2 =
      (attrs.entries.filter (fun e =>
        decide (e.1 ≠ tierAttrKey) && !keepAttribute s allowed r e.1 e.2)).map Sigma.fst := by
  unfold filterAttributes
  rw [foldl_filterStep]
  simp

variable {allowed : Finset String} {r : Int} {attrs : AttrMap}

theorem filterAttributes_kept_iff {v : AttrValue} :
    (filterAttributes s allowed r attrs).1.lookup k = some v ↔
      k ≠ tierAttrKey ∧ attrs.lookup k = some v ∧ keepAttribute s allowed r k v = true := by
  rw [lookup_filterAttributes, Option.filter_eq_some_iff]
  simp
  tauto

theorem filterAttributes_dropped_iff :
    k ∈ (filterAttributes s allowed r attrs).2 ↔
      k ≠ tierAttrKey ∧ ∃ v, attrs.lookup k = some v ∧ keepAttribute s allowed r k v = false := by
  rw [filterAttributes_dropped]
  constructor
  · intro hmem
    obtain ⟨⟨a, v⟩, he, rfl⟩ := List.mem_map.mp hmem
    obtain ⟨hentry, hp⟩ := List.mem_filter.mp he
    simp only [Bool.and_eq_true, decide_eq_true_eq, Bool.not_eq_true'] at hp
    exact ⟨hp.1, v, AList.mem_lookup_iff.mpr hentry, hp.2⟩
  · rintro ⟨htier, v, hlookup, hkeep⟩
    refine List.mem_map.mpr ⟨⟨k, v⟩, List.mem_filter.mpr ⟨AList.mem_lookup_iff.mp hlookup, ?_⟩, rfl⟩
    simp [htier, hkeep]

theorem filterAttributes_dropped_nodup (s : Schema) (allowed : Finset String) (r : Int) (attrs : AttrMap) :
    (filterAttributes s allowed r attrs).2.Nodup := by
  rw [filterAttributes_dropped]
  exact (List.filter_sublist.map Sigma.fst).nodup attrs.nodupKeys

/-- Visiting the same attributes in another order keeps the same map and drops
the same keys. -/
theorem filterAttributes_same {attrs attrs' : AttrMap} (hsame : GoMap.Same attrs attrs') :
    GoMap.Same (filterAttributes s allowed r attrs).1 (filterAttributes s allowed r attrs').1 ∧
      (filterAttributes s allowed r attrs).2.Perm (filterAttributes s allowed r attrs').2 := by
  refine ⟨GoMap.same_of_lookup fun k => ?_, ?_⟩
  · rw [lookup_filterAttributes, lookup_filterAttributes, hsame.lookup_eq]
  · rw [filterAttributes_dropped, filterAttributes_dropped]
    exact (List.Perm.filter _ hsame).map Sigma.fst

end argvio.consent
