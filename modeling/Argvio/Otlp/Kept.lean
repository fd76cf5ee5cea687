import Argvio.Otlp.Traces

open argvio.allowlist argvio.consent

namespace argvio.otlp

/-- A pop that returned the same value and left the same map. -/
def PopSame {α : Type} (r r' : α × AttrMap) : Prop := r.1 = r'.1 ∧ GoMap.Same r.2 r'.2

variable (p : Pipeline) {m m' : AttrMap}

theorem popAs_same {α : Type} (read : AttrValue → Option α) (hsame : GoMap.Same m m') (k : String) :
    PopSame (popAs read m k) (popAs read m' k) := by
  unfold popAs
  rw [hsame.lookup_eq]
  cases (m'.lookup k).bind read with
  | none => exact ⟨rfl, hsame⟩
  | some a => exact ⟨rfl, AList.perm_erase hsame⟩

section Popped

variable (hsame : GoMap.Same m m')

include hsame

theorem popBounded_same (k : String) (lo hi : Int) : PopSame (popBounded m k lo hi) (popBounded m' k lo hi) := by
  unfold popBounded
  rw [hsame.lookup_eq]
  split
  · exact ⟨rfl, hsame⟩
  · exact ⟨rfl, AList.perm_erase hsame⟩
  · exact ⟨rfl, AList.perm_erase hsame⟩

theorem popPromoted_same : PopSame (popPromoted m) (popPromoted m') := by
  obtain ⟨hversion, hsame⟩ : PopSame (popStr m _) (popStr m' _) := popAs_same _ hsame "cli.version"
  obtain ⟨hos, hsame⟩ : PopSame (popStr _ _) (popStr _ _) := popAs_same _ hsame "cli.os"
  obtain ⟨harch, hsame⟩ : PopSame (popStr _ _) (popStr _ _) := popAs_same _ hsame "cli.arch"
  obtain ⟨hname, hsame⟩ : PopSame (popStr _ _) (popStr _ _) := popAs_same _ hsame "cli.command.name"
  obtain ⟨hcode, hsame⟩ : PopSame (popInt32 _ _) (popInt32 _ _) := popAs_same _ hsame "cli.command.exit_code"
  obtain ⟨hci, hsame⟩ : PopSame (popBool _ _) (popBool _ _) := popAs_same _ hsame "cli.is_ci"
  have hvalue : (popPromoted m).1 = (popPromoted m').1 := by
    simp only [popPromoted, hversion, hos, harch, hname, hcode, hci]
  have hrest : GoMap.Same (popPromoted m).2 (popPromoted m').2 := by
    simpa only [popPromoted] using hsame
  exact ⟨hvalue, hrest⟩

theorem popUsage_same : PopSame (popUsage m) (popUsage m') := by
  obtain ⟨hrss, hsame⟩ := popBounded_same hsame "cli.process.peak_rss_bytes" 1 (2 ^ 40)
  obtain ⟨hcpu, hsame⟩ :=
    popBounded_same hsame "cli.process.cpu_time_ms" 1 (31 * 24 * 3600 * 1000 * 1024)
  refine ⟨?_, hsame⟩
  simp only [popUsage, hrss, hcpu]

theorem popSessionFootprint_same : PopSame (popSessionFootprint m) (popSessionFootprint m') := by
  obtain ⟨hsize, hsame⟩ := popBounded_same hsame "cli.binary.size_bytes" 1 (4 * 2 ^ 30)
  obtain ⟨hstartup, hsame⟩ := popBounded_same hsame "cli.startup.duration_ms" 0 (3600 * 1000)
  refine ⟨?_, hsame⟩
  simp only [popSessionFootprint, hsize, hstartup]

theorem splitRemainingAttrs_same : p.splitRemainingAttrs m = p.splitRemainingAttrs m' := by
  have hkeep : ∀ q : String → AttrValue → Bool, (GoMap.keep q m).toFinmap = (GoMap.keep q m').toFinmap := by
    intro q
    apply GoMap.toFinmap_eq_of_lookup
    intro k
    rw [GoMap.lookup_keep, GoMap.lookup_keep, hsame.lookup_eq]
  simp only [Pipeline.splitRemainingAttrs, hkeep]

end Popped

theorem errorFingerprint_same (eventName : String) (hsame : GoMap.Same m m') :
    errorFingerprint eventName m = errorFingerprint eventName m' := by
  simp only [errorFingerprint, strOrEmpty, hsame.lookup_eq]

/-- A log row is a function of the kept map, of the body the tier lets through
and of the record's other fields; it reads nothing of the raw attributes. -/
theorem buildLogRow_same (rec : LogRecord) (body : Value) (attributes : AttrList) (scope : InstrumentationScope)
    {acc acc' : Acceptance} (htier : acc.effectiveTier = acc'.effectiveTier)
    (hkept : GoMap.Same acc.keptAttributes acc'.keptAttributes)
    (hbody : p.logBody rec acc.effectiveTier =
      p.logBody { rec with body := body, attributes := attributes } acc.effectiveTier) :
    p.buildLogRow rec scope acc =
      p.buildLogRow { rec with body := body, attributes := attributes } scope acc' := by
  obtain ⟨hpromo, hkept⟩ := popPromoted_same hkept
  obtain ⟨hfoot, hkept⟩ := popSessionFootprint_same hkept
  have hfingerprint := errorFingerprint_same rec.eventName hkept
  have hsplit := splitRemainingAttrs_same p hkept
  rw [htier] at hbody
  simp only [Pipeline.buildLogRow, hpromo, hfoot, hfingerprint, hsplit, htier, hbody]

/-- A trace row is a function of the kept map and of the span's other fields. -/
theorem buildTraceRow_same (span : Span) (attributes : AttrList) (scope : InstrumentationScope)
    {acc acc' : Acceptance} (htier : acc.effectiveTier = acc'.effectiveTier)
    (hkept : GoMap.Same acc.keptAttributes acc'.keptAttributes) :
    p.buildTraceRow span scope acc = p.buildTraceRow { span with attributes := attributes } scope acc' := by
  obtain ⟨hpromo, hkept⟩ := popPromoted_same hkept
  obtain ⟨husage, hkept⟩ := popUsage_same hkept
  have hsplit := splitRemainingAttrs_same p hkept
  simp only [Pipeline.buildTraceRow, hpromo, husage, hsplit, htier]

end argvio.otlp
