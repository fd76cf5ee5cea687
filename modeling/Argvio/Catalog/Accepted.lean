import Argvio.Catalog.WellFormed

open gostrings

namespace argvio.catalog

/-- An operand whose series exists: a built-in one, or that of a metric of the file
which is no ratio. -/
def File.Resolves (f : File) (o : Operand) : Prop :=
  (o.metric = "" ∧ o.builtin ∈ builtins) ∨
    (o.builtin = "" ∧ o.metric ≠ "" ∧ ∃ ref ∈ f.metrics, ref.name = o.metric ∧ ref.kind ≠ kindRatio)

/-- A ratio of the file: a positive scale and two operands whose series exist. -/
def File.Computes (f : File) (m : Metric) : Prop :=
  (∃ q : ℚ, 0 < q ∧ m.scale = .finite q) ∧
    ∃ n d, m.numerator = some n ∧ m.denominator = some d ∧ f.Resolves n ∧ f.Resolves d

/-- What the rest of the server relies on in an accepted file. -/
structure File.Accepted (f : File) : Prop where
  service : isServiceName f.service = true
  nodup : (f.metrics.map Metric.name).Nodup
  names : ∀ m ∈ f.metrics, isShortIdentifier m.name = true
  kinds : ∀ m ∈ f.metrics, m.kind ∈ kinds
  finite : ∀ m ∈ f.metrics, m.scale.isFinite = true
  ratios : ∀ m ∈ f.metrics, m.kind = kindRatio → f.Computes m

theorem isShortIdentifier_ne_empty {s : String} (h : isShortIdentifier s = true) : s ≠ "" := by
  rintro rfl
  cases h

theorem isServiceName_ne_empty {s : String} (h : isServiceName s = true) : s ≠ "" := by
  rintro rfl
  cases h

theorem File.resolves_of_operates {f : File} {o : Operand} (h : f.Operates o) : f.Resolves o := by
  rcases h with hbuiltin | ⟨hmetric, ref, href, hsuits⟩
  · exact .inl ⟨hbuiltin.metric, hbuiltin.builtin⟩
  · exact .inr ⟨hmetric.builtin, hmetric.metric, ref, href, hsuits.name, hsuits.kind⟩

/-- A file that validation accepts has a catalog the server can use. -/
theorem File.accepted_of_validate {isPrint : Char → Bool} {f : File} (h : f.validate isPrint = .ok ()) :
    f.Accepted := by
  have hwell : f.WellFormed := by
    rw [← @File.problems_eq_nil_iff isPrint f (fun _ _ => .inOrder), ← List.length_eq_zero_iff]
    by_contra hfound
    unfold File.validate File.validateIn at h
    simp only [List.length_insertionSort] at h
    rw [if_pos (Nat.pos_of_ne_zero hfound)] at h
    cases h
  refine ⟨hwell.service, hwell.nodup, hwell.names, fun m hm => (hwell.described m hm).kind, fun m hm => ?_,
    fun m hm hkind => ?_⟩
  · by_cases hkind : m.kind = kindRatio
    · obtain ⟨q, _, hscale⟩ := (hwell.ratio m hm hkind).scale
      rw [hscale]
      rfl
    · rw [(hwell.plain m hm hkind).scale]
      rfl
  · obtain ⟨n, d, hn, hd, hn', hd'⟩ := (hwell.ratio m hm hkind).operands
    exact ⟨(hwell.ratio m hm hkind).scale, n, d, hn, hd, resolves_of_operates hn', resolves_of_operates hd'⟩

end argvio.catalog
