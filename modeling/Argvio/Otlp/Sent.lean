import Argvio.Otlp.Metrics
import Argvio.Otlp.TierScope

open argvio.allowlist argvio.consent List

namespace argvio.otlp

section Extraction

variable {m : AttrList} {maxCount maxKeyLen maxValLen : Int} {kept : AttrMap} {dropped : List String} {k : String}
  {v : Value}

private theorem mem_dropped_foldl (hv : (k, v) ∈ m ∧ extractAttr maxKeyLen maxValLen k v = none ∨ k ∈ dropped) :
    k ∈ (m.foldl (extractStep maxKeyLen maxValLen) (kept, dropped)).2 := by
  induction m generalizing kept dropped with
  | nil => simpa using hv
  | cons kv rest ih =>
    rw [foldl_cons]
    cases hextract : extractAttr maxKeyLen maxValLen kv.1 kv.2 with
    | none =>
      have hstep : extractStep maxKeyLen maxValLen (kept, dropped) kv = (kept, dropped ++ [kv.1]) := by
        simp [extractStep, hextract]
      rw [hstep]
      apply ih
      rcases hv with ⟨hmem, hnone⟩ | hdropped
      · rcases mem_cons.mp hmem with heq | hrest
        · subst heq
          exact .inr (by simp)
        · exact .inl ⟨hrest, hnone⟩
      · exact .inr (by simp [hdropped])
    | some a =>
      have hstep : extractStep maxKeyLen maxValLen (kept, dropped) kv = (kept.insert kv.1 a, dropped) := by
        simp [extractStep, hextract]
      rw [hstep]
      apply ih
      rcases hv with ⟨hmem, hnone⟩ | hdropped
      · rcases mem_cons.mp hmem with heq | hrest
        · subst heq
          rw [hnone] at hextract
          cases hextract
        · exact .inl ⟨hrest, hnone⟩
      · exact .inr hdropped

section Extracted

variable (h : extractAttrs m maxCount maxKeyLen maxValLen = some (kept, dropped))

include h

/-- A sent attribute that does not survive extraction is among the dropped keys. -/
theorem mem_dropped_of_extractAttr (hmem : (k, v) ∈ m) (hnone : extractAttr maxKeyLen maxValLen k v = none) :
    k ∈ dropped := by
  unfold extractAttrs at h
  split at h
  · cases h
  have heq := Option.some.inj h
  have hdropped : dropped = (m.foldl (extractStep maxKeyLen maxValLen) (∅, [])).2 := by rw [heq]
  rw [hdropped]
  exact mem_dropped_foldl (.inl ⟨hmem, hnone⟩)

/-- A sent attribute whose key is not dropped is extracted. -/
theorem mem_extractAttrs (hmem : (k, v) ∈ m) (hdropped : k ∉ dropped) : k ∈ kept := by
  cases hextract : extractAttr maxKeyLen maxValLen k v with
  | none => exact absurd (mem_dropped_of_extractAttr h hmem hextract) hdropped
  | some a =>
    have ha : a ∈ survivors maxKeyLen maxValLen m k := mem_survivors_iff.mpr ⟨v, hmem, hextract⟩
    rw [← AList.lookup_isSome, lookup_extractAttrs h, getLast?_isSome]
    exact ne_nil_of_mem ha

/-- With unique keys there is one value to extract. -/
theorem lookup_extractAttrs_of_nodup (hnodup : (m.map Prod.fst).Nodup) (k : String) :
    kept.lookup k = (m.lookup k).bind (extractAttr maxKeyLen maxValLen k) := by
  rw [lookup_extractAttrs h]
  clear h
  induction m with
  | nil => rfl
  | cons kv rest ih =>
    obtain ⟨a, w⟩ := kv
    rw [map_cons, nodup_cons] at hnodup
    by_cases hk : k = a
    · subst hk
      have hrest : survivors maxKeyLen maxValLen rest k = [] := by
        rw [eq_nil_iff_forall_not_mem]
        intro b hb
        obtain ⟨u, hu, _⟩ := mem_survivors_iff.mp hb
        exact hnodup.1 (mem_map.mpr ⟨_, hu, rfl⟩)
      have hfilter : survivors maxKeyLen maxValLen ((k, w) :: rest) k =
          (extractAttr maxKeyLen maxValLen k w).toList ++ survivors maxKeyLen maxValLen rest k := by
        cases hextract : extractAttr maxKeyLen maxValLen k w <;> simp [survivors, hextract]
      rw [hfilter, hrest, append_nil]
      cases hextract : extractAttr maxKeyLen maxValLen k w <;> simp [hextract]
    · have hfilter : survivors maxKeyLen maxValLen ((a, w) :: rest) k = survivors maxKeyLen maxValLen rest k := by
        simp [survivors, Ne.symm hk]
      have hne : (k == a) = false := by simpa using hk
      have hlookup : lookup k ((a, w) :: rest) = rest.lookup k := by
        simp [lookup_cons, hne]
      rw [hfilter, hlookup]
      exact ih hnodup.2

end Extracted

end Extraction

/-- The value a record has under a key, over that of its resource. -/
def sentValue (resource record : AttrList) (k : String) : Option Value := (record.lookup k).or (resource.lookup k)

section Kept

variable {p : Pipeline} {d : EventDef} {resource record : AttrList} {acc : Acceptance} {structDropped : List String}
  {k : String}

theorem resolveAndEvaluate_eq_ok (h : p.resolveAndEvaluate resource record d = .ok (acc, structDropped)) :
    ∃ declared, p.resolve resource record = .ok declared ∧ structDropped = declared.structDropped ∧
      evaluateEvent p.schema d declared.tier p.tenant.config.tierCeiling p.tenant.config.tierEnforcementMode
        declared.merged = .ok acc := by
  unfold Pipeline.resolveAndEvaluate at h
  rw [Except.bind_eq_ok_iff] at h
  obtain ⟨declared, hresolve, hevaluate⟩ := h
  unfold Pipeline.evaluate at hevaluate
  split at hevaluate
  · cases hevaluate
  · rename_i acc' hacc
    cases hevaluate
    exact ⟨declared, hresolve, rfl, hacc⟩

/-- An accepted event is on the allowlist, so its attributes are defined. -/
theorem defines_metricEventDef {compile : RegexpCompiler} {file : SchemaFile}
    (hschema : finalize compile file = .ok p.schema) (metric : String) :
    p.schema.Defines (p.metricEventDef metric).allowedAttributes := by
  unfold Pipeline.metricEventDef Pipeline.metricDef
  cases hm : p.schema.metricByName metric with
  | none => simp [Schema.Defines, zeroMetricDef]
  | some m => exact finalize_metric_defines hschema hm

/-- What is kept was sent in one of the two scopes. -/
theorem sent_of_mem_kept (hvalid : p.schema.Valid) (hkeys : p.schema.Defines d.allowedAttributes)
    (h : p.resolveAndEvaluate resource record d = .ok (acc, structDropped)) (hkept : k ∈ acc.keptAttributes) :
    ∃ v, (k, v) ∈ record ∨ (k, v) ∈ resource := by
  obtain ⟨declared, hresolve, rfl, hacc⟩ := resolveAndEvaluate_eq_ok h
  obtain ⟨resourceAttrs, recordAttrs, _, _, hresource, hrecord, _, hmerged, _⟩ := resolve_eq_ok hresolve
  obtain ⟨_, _, hexact⟩ := exact_of_evaluateEvent hvalid hkeys hacc
  have hmem : k ∈ declared.merged := (hexact.covers k).mpr (.inl hkept)
  rw [← AList.lookup_isSome, hmerged, lookup_mergeAttrs, lookup_extractAttrs hrecord, lookup_extractAttrs hresource,
    Option.isSome_or, Bool.or_eq_true, getLast?_isSome, getLast?_isSome] at hmem
  rcases hmem with hne | hne
  · obtain ⟨a, ha⟩ := exists_mem_of_ne_nil _ hne
    obtain ⟨v, hv, _⟩ := mem_survivors_iff.mp ha
    exact ⟨v, .inl hv⟩
  · obtain ⟨a, ha⟩ := exists_mem_of_ne_nil _ hne
    obtain ⟨v, hv, _⟩ := mem_survivors_iff.mp ha
    exact ⟨v, .inr hv⟩

variable (hvalid : p.schema.Valid) (hkeys : p.schema.Defines d.allowedAttributes)
  (h : p.resolveAndEvaluate resource record d = .ok (acc, structDropped)) (htier : k ≠ tierAttrKey)
  (hdropped : k ∉ structDropped ++ acc.droppedKeys)

include hvalid hkeys h htier hdropped

/-- What is nowhere among the dropped keys is kept as it was merged. -/
theorem lookup_kept_eq_merged : ∃ resourceAttrs recordAttrs dropped dropped',
    extractAttrs resource p.bounds.maxAttributeCount p.bounds.maxAttributeKeyLength
      p.bounds.maxAttributeStringValueLength = some (resourceAttrs, dropped) ∧
    extractAttrs record p.bounds.maxAttributeCount p.bounds.maxAttributeKeyLength
      p.bounds.maxAttributeStringValueLength = some (recordAttrs, dropped') ∧
    k ∉ dropped ∧ k ∉ dropped' ∧
    acc.keptAttributes.lookup k = (recordAttrs.lookup k).or (resourceAttrs.lookup k) := by
  obtain ⟨declared, hresolve, rfl, hacc⟩ := resolveAndEvaluate_eq_ok h
  obtain ⟨resourceAttrs, recordAttrs, dropped, dropped', hresource, hrecord, _, hmerged, hstruct⟩ :=
    resolve_eq_ok hresolve
  obtain ⟨_, _, hexact⟩ := exact_of_evaluateEvent hvalid hkeys hacc
  rw [hstruct, mem_append, mem_append, not_or, not_or] at hdropped
  obtain ⟨⟨hfirst, hsecond⟩, hevaluated⟩ := hdropped
  refine ⟨resourceAttrs, recordAttrs, dropped, dropped', hresource, hrecord, hfirst, hsecond, ?_⟩
  rw [← lookup_mergeAttrs, ← hmerged]
  cases hkept : acc.keptAttributes.lookup k with
  | some v => exact ((hexact.kept_iff k v htier).mp hkept).1.symm
  | none =>
    by_contra hne
    obtain ⟨v, hv⟩ := Option.ne_none_iff_exists'.mp (Ne.symm hne)
    have hmem : k ∈ declared.merged := AList.lookup_isSome.mp (by simp [hv])
    rcases (hexact.covers k).mp hmem with hin | hdrop | ⟨heq, _⟩
    · exact AList.lookup_eq_none.mp hkept hin
    · exact hevaluated hdrop
    · exact htier heq

/-- An attribute that was sent in either scope and whose key is nowhere among the
dropped ones is kept. -/
theorem mem_kept_of_sent {v : Value} (hsent : (k, v) ∈ record ∨ (k, v) ∈ resource) : k ∈ acc.keptAttributes := by
  obtain ⟨resourceAttrs, recordAttrs, dropped, dropped', hresource, hrecord, hfirst, hsecond, hlookup⟩ :=
    lookup_kept_eq_merged hvalid hkeys h htier hdropped
  rw [← AList.lookup_isSome, hlookup, Option.isSome_or, Bool.or_eq_true]
  rcases hsent with hsent | hsent
  · exact .inl (AList.lookup_isSome.mpr (mem_extractAttrs hrecord hsent hsecond))
  · exact .inr (AList.lookup_isSome.mpr (mem_extractAttrs hresource hsent hfirst))

/-- With unique keys a kept attribute has the value that was sent. -/
theorem lookup_kept_of_sent (hresourceKeys : (resource.map Prod.fst).Nodup)
    (hrecordKeys : (record.map Prod.fst).Nodup) :
    acc.keptAttributes.lookup k = (sentValue resource record k).bind
      (extractAttr p.bounds.maxAttributeKeyLength p.bounds.maxAttributeStringValueLength k) := by
  obtain ⟨resourceAttrs, recordAttrs, dropped, dropped', hresource, hrecord, _, hsecond, hlookup⟩ :=
    lookup_kept_eq_merged hvalid hkeys h htier hdropped
  rw [hlookup, lookup_extractAttrs_of_nodup hrecord hrecordKeys, lookup_extractAttrs_of_nodup hresource hresourceKeys]
  unfold sentValue
  cases hv : record.lookup k with
  | none => rfl
  | some v =>
    -- The record's value survives, or its key would be dropped.
    obtain ⟨l₁, l₂, hsplit, _⟩ := lookup_eq_some_iff.mp hv
    have hmem : (k, v) ∈ record := by simp [hsplit]
    cases hextract : extractAttr p.bounds.maxAttributeKeyLength p.bounds.maxAttributeStringValueLength k v with
    | none => exact absurd (mem_dropped_of_extractAttr hrecord hmem hextract) hsecond
    | some a => simp [hextract]

end Kept

end argvio.otlp
