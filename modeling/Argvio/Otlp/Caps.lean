import Argvio.Otlp.Pipeline
import Argvio.Storage.Vocabulary

open argvio.storage

namespace argvio.otlp

/-- The vendor-metric caps in force for a tenant. -/
structure MetricCaps where
  counterNames : Int
  counterLabels : Int
  measureNames : Int
  measureLabels : Int
  valueNames : Int
  valueLabels : Int
  dims : Int
  dimValues : Int

def pickCap (override : Option Int) (global fallback : Int) : Int :=
  match override with
  | some n => if n > 0 then n else if global > 0 then global else fallback
  | none => if global > 0 then global else fallback

theorem pickCap_pos (override : Option Int) (global : Int) {fallback : Int} (h : 0 < fallback) :
    0 < pickCap override global fallback := by
  have hglobal : 0 < if global > 0 then global else fallback := by
    split
    · assumption
    · exact h
  cases override with
  | none => exact hglobal
  | some n =>
    simp only [pickCap]
    split
    · assumption
    · exact hglobal

/-- Each cap from the tenant's override, else from the server's configuration,
else the built-in default. -/
def Pipeline.metricCaps (p : Pipeline) : MetricCaps :=
  let o := p.tenant.config.metricCaps
  { counterNames := pickCap o.maxCounterNames p.bounds.maxCounterNamesPerTenant 200
    counterLabels := pickCap o.maxCounterLabelsPerName p.bounds.maxCounterLabelsPerName 50
    measureNames := pickCap o.maxMeasureNames p.bounds.maxMeasureNamesPerTenant 100
    measureLabels := pickCap o.maxMeasureLabelsPerName p.bounds.maxMeasureLabelsPerName 50
    valueNames := pickCap o.maxValueNames p.bounds.maxValueNamesPerTenant 100
    valueLabels := pickCap o.maxValueLabelsPerName p.bounds.maxValueLabelsPerName 50
    dims := pickCap o.maxMetricDims p.bounds.maxMetricDims 3
    dimValues := pickCap o.maxDimValuesPerKey p.bounds.maxDimValuesPerKey 50 }

/-- One generic vendor metric whose name and label attributes are capped. -/
structure VendorInstrument where
  metric : String
  nameAttr : String
  labelAttr : String
  nameLimit : Int
  labelLimit : Int
  attrs_ne : nameAttr ≠ labelAttr

/-- A vendor row's name and label. -/
def vendorKey (a : Attrs) (inst : VendorInstrument) : CounterKey := ⟨a.str inst.nameAttr, a.str inst.labelAttr⟩

/-- The name and label of each row of an instrument, in order. -/
def VendorInstrument.keys (inst : VendorInstrument) (rows : List MetricRow) : List CounterKey :=
  (rows.filter (fun r => r.metricName = inst.metric)).map (fun r => vendorKey r.datapointAttributes inst)

end argvio.otlp
