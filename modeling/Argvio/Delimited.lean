import Mathlib.Data.List.Basic
import Mathlib.Data.List.TakeDrop

open List

namespace delimited

variable {α : Type} {sep eq : α}

/-- Free of both delimiters. -/
def Clean (sep eq : α) (l : List α) : Prop := sep ∉ l ∧ eq ∉ l

/-- A key and a value with `eq` between them. -/
def field (eq : α) (f : List α × List α) : List α := f.1 ++ eq :: f.2

/-- Fields joined with `sep`. -/
def encode (sep eq : α) (fields : List (List α × List α)) : List α := [sep].intercalate (fields.map (field eq))

/-- Fields that come after another one. -/
def more (sep eq : α) (fields : List (List α × List α)) : List α := fields.flatMap (fun f => sep :: field eq f)

/-- Every key and every value is free of the delimiters. -/
def CleanFields (sep eq : α) (fields : List (List α × List α)) : Prop :=
  ∀ f ∈ fields, Clean sep eq f.1 ∧ Clean sep eq f.2

theorem sep_notMem_field {f : List α × List α} (hne : sep ≠ eq) (hf : sep ∉ f.1 ∧ sep ∉ f.2) : sep ∉ field eq f := by
  simp [field, hf.1, hf.2, hne]

theorem eq_mem_encode {fields : List (List α × List α)} (hfields : fields ≠ []) : eq ∈ encode sep eq fields := by
  cases fields with
  | nil => exact absurd rfl hfields
  | cons f rest => cases rest <;> simp [encode, field, intercalate]

/-- Every field but the first comes after a `sep`. -/
theorem encode_cons (f : List α × List α) (rest : List (List α × List α)) :
    encode sep eq (f :: rest) = field eq f ++ more sep eq rest := by
  unfold encode more
  induction rest generalizing f with
  | nil => simp [intercalate]
  | cons g rest ih =>
    have hstep := ih g
    rw [map_cons] at hstep
    rw [map_cons, map_cons, intercalate_cons_cons, hstep]
    simp

/-- The text before the first `eq` is determined. -/
theorem append_cons_eq_iff {x y u v : List α} (hx : eq ∉ x) (hy : eq ∉ y) :
    x ++ eq :: u = y ++ eq :: v ↔ x = y ∧ u = v := by
  induction x generalizing y with
  | nil =>
    cases y with
    | nil => simp
    | cons b y =>
      have hb : eq ≠ b := fun heq => hy (heq ▸ mem_cons_self)
      simp [hb]
  | cons a x ih =>
    cases y with
    | nil =>
      have ha : a ≠ eq := fun heq => hx (heq ▸ mem_cons_self)
      simp [ha]
    | cons b y =>
      have hrest := ih (fun h => hx (mem_cons_of_mem a h)) (fun h => hy (mem_cons_of_mem b h))
      rw [cons_append, cons_append, cons.injEq, cons.injEq, hrest, and_assoc]

variable [DecidableEq α]

/-- A value ends where the text does or at the next `sep`. -/
theorem takeWhile_value {value : List α} (hvalue : sep ∉ value) (rest : List (List α × List α)) :
    (value ++ more sep eq rest).takeWhile (· ≠ sep) = value := by
  have hpass : ∀ a ∈ value, decide (a ≠ sep) = true := by
    intro a ha
    have hne : a ≠ sep := by
      rintro rfl
      exact hvalue ha
    simpa using hne
  rw [takeWhile_append_of_pos hpass]
  cases rest <;> simp [more]

/-- Splitting at `sep` gives the fields back. -/
theorem splitOn_encode (hne : sep ≠ eq) {fields : List (List α × List α)} (hfree : ∀ f ∈ fields, sep ∉ f.1 ∧ sep ∉ f.2)
    (hfields : fields ≠ []) : (encode sep eq fields).splitOn sep = fields.map (field eq) := by
  apply splitOn_intercalate
  · intro l hl
    obtain ⟨f, hf, rfl⟩ := mem_map.mp hl
    exact sep_notMem_field hne (hfree f hf)
  · simpa using hfields

theorem sep_notMem_of_mem_splitOn {l piece : List α} (h : piece ∈ l.splitOn sep) : sep ∉ piece := by
  unfold splitOn at h
  induction l generalizing piece with
  | nil => simp_all
  | cons a l ih =>
    rw [splitOnP_cons_eq_if_modifyHead] at h
    by_cases ha : a = sep
    · rw [if_pos (by simpa using ha)] at h
      rcases mem_cons.mp h with rfl | h
      · exact not_mem_nil
      · exact ih h
    rw [if_neg (by simpa using ha)] at h
    cases hpieces : l.splitOnP (· == sep) with
    | nil => simp [hpieces] at h
    | cons first rest =>
      rw [hpieces] at h ih
      rcases mem_cons.mp h with rfl | h
      · have hfirst := ih mem_cons_self
        simpa [Ne.symm ha] using hfirst
      · exact ih (mem_cons_of_mem _ h)

/-- Cutting a field at the first `eq` gives its key and value back. -/
theorem span_field {key : List α} (hkey : eq ∉ key) (value : List α) :
    (field eq (key, value)).span (· ≠ eq) = (key, eq :: value) := by
  have hpass : ∀ a ∈ key, decide (a ≠ eq) = true := by
    intro a ha
    have hne : a ≠ eq := by
      rintro rfl
      exact hkey ha
    simpa using hne
  unfold field
  rw [span_eq_takeWhile_dropWhile, takeWhile_append_of_pos hpass, dropWhile_append_of_pos hpass]
  simp

end delimited
