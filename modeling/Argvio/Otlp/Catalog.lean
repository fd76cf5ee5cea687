import Argvio.Otlp.Dims
import Argvio.Otlp.Logs
import Argvio.Storage.MetricDefinitions

open gostrings
open argvio.allowlist argvio.storage

namespace argvio.otlp

/-- The rules of one tenant. -/
abbrev Catalog := GoMap CatalogKey CatalogRule

/-- A vendor metric that the catalog governs. -/
structure VendorMetric where
  kind : String
  nameAttr : String
  labelAttr : String

def vendorMetrics (metric : String) : Option VendorMetric :=
  if metric = "cli.counter" then some ⟨"counter", "cli.counter.name", "cli.counter.label"⟩
  else if metric = "cli.measure" then some ⟨"duration", "cli.measure.name", "cli.measure.label"⟩
  else if metric = "cli.value" then some ⟨"value", "cli.value.name", "cli.value.label"⟩
  else none

/-- The resource attribute naming the sending CLI. -/
def attrServiceName : String := "service.name"

/-- The rules of a request, from what the catalog cache answers. Without a cache
there are none. -/
def loadCatalog : Option (Except String Catalog) → Except String Catalog
  | none => .ok ∅
  | some (.ok rules) => .ok rules
  | some (.error err) => .error ("otlp: load metric catalog: " ++ err)

/-- Why the catalog rejects a data point. -/
inductive CatalogReason where
  | undeclared (metric name service : String)
  | otherKind (name kind metric : String)
  | belowTier (name minTier tier : String)
  deriving DecidableEq

def CatalogReason.text (isPrint : Char → Bool) : CatalogReason → String
  | .undeclared metric name service =>
    metric ++ " " ++ quote isPrint name ++ " is not declared in the catalog of " ++ quote isPrint service ++
      " (strict_metrics)"
  | .otherKind name kind metric => quote isPrint name ++ " is declared as a " ++ kind ++ ", sent as " ++ metric
  | .belowTier name minTier tier =>
    quote isPrint name ++ " is declared for tier " ++ minTier ++ " and above, sent at " ++ tier

/-- Whether a rule asks for a tier above the one a point was sent at. An unknown
tier asks for nothing. -/
def Pipeline.belowMinTier (p : Pipeline) (rule : CatalogRule) (tier : String) : Bool :=
  if rule.minTier = "" then false
  else
    match p.schema.tierRank rule.minTier, p.schema.tierRank tier with
    | some want, some got => got < want
    | _, _ => false

/-- The attributes without the dimensions a rule does not declare; a plain label
is the dimension `label`. -/
def stripUndeclared (rule : CatalogRule) (labelAttr : String) (kept : AttrMap) : AttrMap :=
  let kept := GoMap.keep (fun k _ => (dimKey k).all (fun key => key ∈ rule.dims)) kept
  if dimLabelKey ∈ rule.dims then kept else kept.erase labelAttr

/-- Applies the sending CLI's catalog to one vendor data point, before its
dimensions are folded. -/
def Pipeline.checkCatalog (p : Pipeline) (catalog : Catalog) (metric : String) (kept : AttrMap) (tier : String) :
    Except CatalogReason AttrMap :=
  match vendorMetrics metric with
  | none => .ok kept
  | some vm =>
    let name := strOrEmpty kept vm.nameAttr
    let service := strOrEmpty kept attrServiceName
    match catalog.lookup ⟨service, name⟩ with
    | none => if p.tenant.config.strictMetrics then .error (.undeclared metric name service) else .ok kept
    | some rule =>
      if rule.kind ≠ vm.kind then .error (.otherKind name rule.kind metric)
      else if p.belowMinTier rule tier then .error (.belowTier name rule.minTier tier)
      else .ok (stripUndeclared rule vm.labelAttr kept)

end argvio.otlp
