import Argvio.Otlp.Caps
import Argvio.Storage.Dims

open gostrings
open argvio.allowlist argvio.storage

namespace argvio.otlp

/-- What every dimension attribute starts with. -/
def attrDimPrefix : String := "cli.dim."

/-- The label attribute of the metrics that take dimensions, "" for any other. -/
def vendorLabelAttr (metric : String) : String :=
  if metric = "cli.counter" then "cli.counter.label"
  else if metric = "cli.measure" then "cli.measure.label"
  else if metric = "cli.value" then "cli.value.label"
  else ""

/-- Why a data point's dimensions cannot be stored. -/
inductive DimReason where
  | invalid (key : String)
  | sameDimension (labelAttr : String)
  | tooMany (n limit : Int)
  deriving DecidableEq

def DimReason.text : DimReason → String
  | .invalid k => "dimension " ++ k ++ " is invalid"
  | .sameDimension labelAttr => attrDimPrefix ++ dimLabelKey ++ " and " ++ labelAttr ++ " are the same dimension"
  | .tooMany n limit => toString n ++ " dimensions exceed max_metric_dims " ++ toString limit

/-- The dimension key an attribute key stands for. -/
def dimKey (k : String) : Option String := cutPrefix k attrDimPrefix

/-- The dimensions among a point's attributes. -/
def sentDims (kept : AttrMap) : GoMap String String :=
  GoMap.putAll ∅ (kept.entries.filterMap (fun e =>
    (dimKey e.1).map (fun key => (key, match e.2 with | .str s => s | _ => ""))))

/-- The point's attributes with `dims` as its label and no dimension attribute. -/
def Pipeline.storeDims (p : Pipeline) (labelAttr : String) (kept : AttrMap) (dims : GoMap String String) :
    Except DimReason AttrMap :=
  if dims.keys.length > p.metricCaps.dims then .error (.tooMany dims.keys.length p.metricCaps.dims)
  else .ok ((GoMap.keep (fun k _ => (dimKey k).isNone) kept).insert labelAttr (.str (formatDims dims)))

/-- Turns the dimension attributes of a vendor data point into its label. A point
that would lose a dimension is rejected, for it would merge into another series. -/
def Pipeline.foldDims (p : Pipeline) (metric : String) (kept : AttrMap) (dropped : List String) :
    Except DimReason AttrMap :=
  let labelAttr := vendorLabelAttr metric
  if labelAttr = "" then .ok kept
  else
    match dropped.find? (fun k => (dimKey k).isSome) with
    | some k => .error (.invalid k)
    | none =>
      let dims := sentDims kept
      if dims.keys = [] then .ok kept
      else
        match kept.lookup labelAttr with
        | some (.str label) =>
          if label = "" then p.storeDims labelAttr kept dims
          else if (dims.lookup dimLabelKey).isSome then .error (.sameDimension labelAttr)
          else p.storeDims labelAttr kept (dims.insert dimLabelKey label)
        | _ => p.storeDims labelAttr kept dims

/-- Whether a stored label is a tuple of dimensions rather than a plain label. -/
def isTuple (label : String) : Bool := containsChar label '='

/-- The dimension values a series carries; a plain label carries none. -/
def dimValueKeys (k : CounterKey) : List DimValueKey :=
  if isTuple k.label then (parseDims k.label).entries.map (fun e => ⟨k.name, e.1, e.2⟩) else []

/-- A row with its values past the cap stored as `other`, and whether any was. -/
def VendorInstrument.foldDimValues (inst : VendorInstrument) (adm : DimAdmission) (r : MetricRow) :
    MetricRow × Bool :=
  if r.metricName ≠ inst.metric then (r, false)
  else
    let k := vendorKey r.datapointAttributes inst
    if isTuple k.label then
      let dims := parseDims k.label
      let past := dims.entries.filter (fun e => ⟨k.name, e.1, e.2⟩ ∉ adm.values)
      if past = [] then (r, false)
      else
        let folded := past.foldl (fun dims e => dims.insert e.1 counterOther) dims
        ({ r with datapointAttributes := r.datapointAttributes.insert inst.labelAttr (.str (formatDims folded)) }, true)
    else (r, false)

/-- Stores as `other` every dimension value its name and key have no room for. -/
def Pipeline.capDimValues (p : Pipeline) (rows : List MetricRow) (inst : VendorInstrument) (v : Vocabulary) :
    List MetricRow × Vocabulary :=
  let counts := GoMap.tally ((inst.keys rows).flatMap dimValueKeys)
  if counts.keys = [] then (rows, v)
  else
    let admitted := admitDims v.dims { counts, limit := p.metricCaps.dimValues, now := p.now }
    if admitted.1.folded = 0 then (rows, { v with dims := admitted.2 })
    else
      let folded := rows.map (inst.foldDimValues admitted.1)
      (folded.map Prod.fst, { v with dims := admitted.2 }.recordFoldedDims (folded.countP Prod.snd) p.now)

end argvio.otlp
