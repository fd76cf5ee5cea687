import Argvio.Delimited
import Argvio.Storage.Dims

open gostrings List

namespace argvio.storage

/-- A key or value that neither separator of a tuple occurs in. -/
def DimClean (s : String) : Prop := delimited.Clean ';' '=' s.toList

theorem dimClean_of_isIdentifier {s : String} (h : isIdentifier s = true) : DimClean s := by
  have hnot (c : Char) (hc : c = ';' ∨ c = '=') : c ∉ s.toList := by
    intro hmem
    unfold isIdentifier at h
    cases hs : s.toList with
    | nil => simp [hs] at hmem
    | cons d rest =>
      rw [hs] at h hmem
      simp only [Bool.and_eq_true, all_eq_true] at h
      rcases mem_cons.mp hmem with rfl | hrest
      · rcases hc with rfl | rfl <;> exact absurd h.1 (by decide)
      · rcases hc with rfl | rfl <;> exact absurd (h.2 _ hrest) (by decide)
  exact ⟨hnot ';' (.inl rfl), hnot '=' (.inr rfl)⟩

/-- Dimensions whose keys and values the separators do not occur in. -/
def CleanDims (dims : GoMap String String) : Prop := ∀ k v, dims.lookup k = some v → DimClean k ∧ DimClean v

/-- Dimensions that can be read back from a tuple; a value may hold `=`. -/
def ReadableDims (dims : GoMap String String) : Prop :=
  ∀ k v, dims.lookup k = some v → DimClean k ∧ ';' ∉ v.toList

theorem CleanDims.readable {dims : GoMap String String} (h : CleanDims dims) : ReadableDims dims :=
  fun k v hlookup => ⟨(h k v hlookup).1, (h k v hlookup).2.1⟩

section Tuple

variable {dims : GoMap String String}

/-- The keys of a tuple in the order in which they are written. -/
def tupleKeys (dims : GoMap String String) : List String := dims.keys.insertionSort (· ≤ ·)

def dimOf (dims : GoMap String String) (k : String) : String := (dims.lookup k).getD ""

def tupleFields (dims : GoMap String String) : List (List Char × List Char) :=
  (tupleKeys dims).map (fun k => (k.toList, (dimOf dims k).toList))

theorem mem_tupleKeys {k : String} : k ∈ tupleKeys dims ↔ dims.lookup k = some (dimOf dims k) := by
  unfold tupleKeys dimOf
  rw [mem_insertionSort, ← AList.mem_keys, ← AList.lookup_isSome]
  cases dims.lookup k <;> simp

theorem tupleKeys_ne_nil (hne : dims.keys ≠ []) : tupleKeys dims ≠ [] := by
  intro hnil
  apply hne
  have hperm := perm_insertionSort (· ≤ ·) dims.keys
  unfold tupleKeys at hnil
  rw [hnil] at hperm
  exact hperm.nil_eq.symm

theorem toList_formatDims (dims : GoMap String String) :
    (formatDims dims).toList = delimited.encode ';' '=' (tupleFields dims) := by
  simp [formatDims, delimited.encode, tupleFields, tupleKeys, dimOf, delimited.field, String.toList_intercalate,
    Function.comp_def]

theorem cleanFields_tupleFields (hclean : CleanDims dims) : delimited.CleanFields ';' '=' (tupleFields dims) := by
  intro f hf
  obtain ⟨k, hk, rfl⟩ := mem_map.mp hf
  exact hclean k _ (mem_tupleKeys.mp hk)

theorem cutChar_field {k v : String} (hk : DimClean k) :
    cutChar (String.ofList (delimited.field '=' (k.toList, v.toList))) '=' = some (k, v) := by
  unfold cutChar
  rw [String.toList_ofList, delimited.span_field hk.2]
  simp

/-- A tuple holds `=` as soon as there is a dimension. -/
theorem containsChar_formatDims (hne : dims.keys ≠ []) : containsChar (formatDims dims) '=' = true := by
  have hfields : tupleFields dims ≠ [] := by simpa [tupleFields] using tupleKeys_ne_nil hne
  simp [containsChar, toList_formatDims, delimited.eq_mem_encode hfields]

theorem formatDims_ne_empty (hne : dims.keys ≠ []) : formatDims dims ≠ "" := by
  intro heq
  have hmem := containsChar_formatDims hne
  rw [heq] at hmem
  cases hmem

/-- The pairs a tuple is read back into, in the order in which they are written. -/
theorem pairs_formatDims (hreadable : ReadableDims dims) (hne : dims.keys ≠ []) :
    (splitChar (formatDims dims) ';').filterMap (fun pair => cutChar pair '=') =
      (tupleKeys dims).map (fun k => (k, dimOf dims k)) := by
  have hfields : tupleFields dims ≠ [] := by simpa [tupleFields] using tupleKeys_ne_nil hne
  have hfree : ∀ f ∈ tupleFields dims, ';' ∉ f.1 ∧ ';' ∉ f.2 := by
    intro f hf
    obtain ⟨k, hk, rfl⟩ := mem_map.mp hf
    obtain ⟨hkey, hvalue⟩ := hreadable k _ (mem_tupleKeys.mp hk)
    exact ⟨hkey.1, hvalue⟩
  unfold splitChar
  rw [toList_formatDims, delimited.splitOn_encode (by decide) hfree hfields, tupleFields, map_map, map_map,
    filterMap_map, ← filterMap_eq_map]
  refine filterMap_congr (fun k hk => ?_)
  simp only [Function.comp_apply]
  exact cutChar_field (hreadable k _ (mem_tupleKeys.mp hk)).1

/-- Reading a tuple back gives the dimensions it was made from. -/
theorem lookup_parseDims_formatDims (hreadable : ReadableDims dims) (hne : dims.keys ≠ []) (k : String) :
    (parseDims (formatDims dims)).lookup k = dims.lookup k := by
  unfold parseDims
  rw [if_neg (formatDims_ne_empty hne), if_pos (containsChar_formatDims hne), pairs_formatDims hreadable hne,
    GoMap.lookup_putAll_map]
  by_cases hk : k ∈ tupleKeys dims
  · rw [if_pos hk, mem_tupleKeys.mp hk]
  rw [if_neg hk]
  cases hlookup : dims.lookup k with
  | none => rfl
  | some v => exact absurd (mem_tupleKeys.mpr (by simp [dimOf, hlookup])) hk

end Tuple

/-- What a tuple is read back into can be written as a tuple again. -/
theorem readableDims_parseDims {label : String} (htuple : containsChar label '=' = true) :
    ReadableDims (parseDims label) := by
  intro k v hlookup
  have hne : label ≠ "" := by
    rintro rfl
    cases htuple
  unfold parseDims at hlookup
  rw [if_neg hne, if_pos htuple] at hlookup
  obtain ⟨pair, hpair, hcut⟩ := mem_filterMap.mp (GoMap.mem_of_lookup_putAll hlookup)
  obtain ⟨piece, hpiece, rfl⟩ := mem_map.mp hpair
  have hsep := delimited.sep_notMem_of_mem_splitOn hpiece
  unfold cutChar at hcut
  rw [String.toList_ofList, span_eq_takeWhile_dropWhile] at hcut
  have hsplit := takeWhile_append_dropWhile (p := fun c => decide (c ≠ '=')) (l := piece)
  cases hdrop : piece.dropWhile (fun c => decide (c ≠ '=')) with
  | nil =>
    rw [hdrop] at hcut
    cases hcut
  | cons c after =>
    rw [hdrop] at hcut hsplit
    obtain ⟨rfl, rfl⟩ := Prod.mk.inj (Option.some.inj hcut)
    rw [← hsplit] at hsep
    simp only [mem_append, mem_cons, not_or] at hsep
    refine ⟨⟨?_, ?_⟩, ?_⟩
    · simpa using hsep.1
    · rw [String.toList_ofList]
      intro hmem
      simpa using (all_eq_true.mp all_takeWhile) _ hmem
    · simpa using hsep.2.2

theorem lookup_parseDims_plain {label : String} (hne : label ≠ "") (hclean : DimClean label) (k : String) :
    (parseDims label).lookup k = if k = dimLabelKey then some label else none := by
  have hplain : containsChar label '=' = false := by simpa [containsChar] using hclean.2
  unfold parseDims
  rw [if_neg hne, hplain, if_neg (by decide)]
  by_cases hk : k = dimLabelKey
  · subst hk
    rw [if_pos rfl]
    exact AList.mem_lookup_iff.mpr (by simp [AList.singleton])
  · rw [if_neg hk, AList.lookup_eq_none, AList.mem_keys]
    simpa [AList.singleton, AList.keys, keys] using hk

end argvio.storage
