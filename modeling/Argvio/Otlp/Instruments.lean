import Argvio.Otlp.Dims
import Argvio.Storage.Admit
import Argvio.Storage.ErrorReasons

open argvio.storage

namespace argvio.otlp

/-- A row once the names and labels of its batch are decided. -/
def VendorInstrument.rewrite (inst : VendorInstrument) (adm : CounterAdmission) (r : MetricRow) : MetricRow :=
  if r.metricName ≠ inst.metric then r
  else
    let a := r.datapointAttributes
    let k := vendorKey a inst
    if k.name ∉ adm.names then
      { r with datapointAttributes := (a.insert inst.nameAttr (.str counterOther)).erase inst.labelAttr }
    else if k.name = counterOther then { r with datapointAttributes := a.erase inst.labelAttr }
    else if k.label ≠ "" ∧ k.label ≠ counterOther ∧ k ∉ adm.labels then
      { r with datapointAttributes := a.insert inst.labelAttr (.str counterOther) }
    else r

/-- The cap shared by the vendor instruments. Dimension values come first, so
that the label cap counts the tuples as they will be stored. -/
def Pipeline.capVendorInstrument (p : Pipeline) (rows : List MetricRow) (inst : VendorInstrument)
    (v : Vocabulary) : List MetricRow × Vocabulary :=
  let dimmed := p.capDimValues rows inst v
  let counts := GoMap.tally (inst.keys dimmed.1)
  if counts.keys = [] then dimmed
  else
    let admitted := admitVocabulary dimmed.2.tables
      { counts, nameLimit := inst.nameLimit, labelLimit := inst.labelLimit, now := p.now }
    (dimmed.1.map (inst.rewrite admitted.1), { dimmed.2 with tables := admitted.2 })

def Pipeline.counterInstrument (p : Pipeline) : VendorInstrument where
  metric := "cli.counter"
  nameAttr := "cli.counter.name"
  labelAttr := "cli.counter.label"
  nameLimit := p.metricCaps.counterNames
  labelLimit := p.metricCaps.counterLabels
  attrs_ne := by decide

def Pipeline.measureInstrument (p : Pipeline) : VendorInstrument where
  metric := "cli.measure"
  nameAttr := "cli.measure.name"
  labelAttr := "cli.measure.label"
  nameLimit := p.metricCaps.measureNames
  labelLimit := p.metricCaps.measureLabels
  attrs_ne := by decide

def Pipeline.valueInstrument (p : Pipeline) : VendorInstrument where
  metric := "cli.value"
  nameAttr := "cli.value.name"
  labelAttr := "cli.value.label"
  nameLimit := p.metricCaps.valueNames
  labelLimit := p.metricCaps.valueLabels
  attrs_ne := by decide

def Pipeline.capCounters (p : Pipeline) (rows : List MetricRow) (v : Vocabulary) : List MetricRow × Vocabulary :=
  p.capVendorInstrument rows p.counterInstrument v

def Pipeline.capMeasures (p : Pipeline) (rows : List MetricRow) (v : Vocabulary) : List MetricRow × Vocabulary :=
  p.capVendorInstrument rows p.measureInstrument v

def Pipeline.capValues (p : Pipeline) (rows : List MetricRow) (v : Vocabulary) : List MetricRow × Vocabulary :=
  p.capVendorInstrument rows p.valueInstrument v

def attrErrorReason : String := "cli.error.reason"

def defaultMaxErrorReasons : Int := 100

/-- The error reason a record carries, when it is a string. -/
def errorReason (a : Attrs) : Option String :=
  match a.lookup attrErrorReason with
  | some (.str r) => some r
  | _ => none

/-- Stores a record's error reason as `other` unless it is admitted. -/
def foldErrorReason (adm : ReasonAdmission) (a : Attrs) : Attrs :=
  match errorReason a with
  | some r => if r ∈ adm.reasons then a else a.insert attrErrorReason (.str errorReasonOther)
  | none => a

/-- How the records' attributes are rewritten in place, and the vocabulary after. -/
def Pipeline.capErrorReasons (p : Pipeline) (attrs : List Attrs) (t : ErrorReasons) :
    (Attrs → Attrs) × ErrorReasons :=
  let counts := GoMap.tally (attrs.filterMap errorReason)
  if counts.keys = [] then (id, t)
  else
    let limit := p.bounds.maxErrorReasonsPerTenant
    let admitted := admitErrorReasons t
      { counts, limit := if limit ≤ 0 then defaultMaxErrorReasons else limit, now := p.now }
    (foldErrorReason admitted.1, admitted.2)

theorem lookup_foldErrorReason {k : String} (hk : k ≠ attrErrorReason) (adm : ReasonAdmission) (a : Attrs) :
    (foldErrorReason adm a).lookup k = a.lookup k := by
  unfold foldErrorReason
  split
  · split
    · rfl
    · exact Finmap.lookup_insert_of_ne a hk
  · rfl

theorem lookup_capErrorReasons {k : String} (hk : k ≠ attrErrorReason) (p : Pipeline) (attrs : List Attrs)
    (t : ErrorReasons) (a : Attrs) : ((p.capErrorReasons attrs t).1 a).lookup k = a.lookup k := by
  unfold Pipeline.capErrorReasons
  dsimp only
  split
  · rfl
  · exact lookup_foldErrorReason hk _ a

/-- One tenant's vocabularies. -/
structure Vocabularies where
  reasons : ErrorReasons
  counters : Vocabulary
  measures : Vocabulary
  values : Vocabulary

def Vocabularies.empty : Vocabularies where
  reasons := { reasons := .empty }
  counters := .empty
  measures := .empty
  values := .empty

/-- What `ProcessMetrics` does with its accepted rows before it inserts them. -/
def Pipeline.capMetrics (p : Pipeline) (rows : List MetricRow) (s : Vocabularies) : List MetricRow × Vocabularies :=
  let reasons := p.capErrorReasons (rows.map MetricRow.datapointAttributes) s.reasons
  let rows := rows.map (fun r => { r with datapointAttributes := reasons.1 r.datapointAttributes })
  let counters := p.capCounters rows s.counters
  let measures := p.capMeasures counters.1 s.measures
  let values := p.capValues measures.1 s.values
  (values.1, { reasons := reasons.2, counters := counters.2, measures := measures.2, values := values.2 })

end argvio.otlp
