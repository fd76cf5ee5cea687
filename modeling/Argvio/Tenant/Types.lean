import Argvio.Consent.Tier

open argvio.consent

namespace argvio

/-- The 16 bytes of a `uuid.UUID`. -/
abbrev UUID := BitVec 128

namespace tenant

inductive Status where
  | active
  | suspended
  deriving DecidableEq

structure Tenant where
  id : UUID
  slug : String
  name : String
  status : Status
  deriving DecidableEq

/-- A tenant's overrides of the vendor-metric caps; an unset one falls back to
the public server's configuration. -/
structure MetricCaps where
  maxCounterNames : Option Int := none
  maxCounterLabelsPerName : Option Int := none
  maxMeasureNames : Option Int := none
  maxMeasureLabelsPerName : Option Int := none
  maxMetricDims : Option Int := none
  maxDimValuesPerKey : Option Int := none
  maxValueNames : Option Int := none
  maxValueLabelsPerName : Option Int := none
  deriving DecidableEq

structure Config where
  tierCeiling : String
  tierEnforcementMode : EnforcementMode
  rateLimitRequestsPerSec : Option GoFloat := none
  rateLimitBytesPerSec : Option GoFloat := none
  rateLimitBurst : Option Int := none
  metricCaps : MetricCaps := {}
  strictMetrics : Bool := false
  deriving DecidableEq

inductive Scope where
  | publicIngest
  | metricsQuery
  | metricsAdmin
  deriving DecidableEq

structure APIKey where
  id : UUID
  tenantID : UUID
  keyHash : List UInt8
  scope : Scope
  revokedAt : Option Int
  deriving DecidableEq

set_option linter.dupNamespace false in
structure Resolved where
  tenant : Tenant
  config : Config
  apiKey : Option APIKey
  deriving DecidableEq

/-- An OIDC identity's access to a tenant. -/
structure Member where
  tenantID : UUID
  issuer : String
  subject : String
  role : String
  deriving DecidableEq

set_option linter.dupNamespace false in
/-- One tenant an identity may use, with its role there. -/
structure Membership where
  tenant : Tenant
  role : String
  deriving DecidableEq

end tenant

end argvio
