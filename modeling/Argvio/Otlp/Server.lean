import Argvio.Authn.Isolation
import Argvio.Otlp.Export

open gostrings
open argvio.allowlist argvio.authn argvio.tenant

namespace argvio.otlp

abbrev Bytes := List UInt8

/-- Why a caller is turned away. Whatever is none of the package's own errors is
passed on as it came. -/
inductive IngestError where
  | unauthenticated
  | rateLimited
  | tenantSuspended
  | forbidden
  | unavailable
  | internal (err : String)
  deriving DecidableEq

def IngestError.text : IngestError → String
  | .unauthenticated => "otlp: invalid or missing credential"
  | .rateLimited => "otlp: rate limit exceeded"
  | .tenantSuspended => "otlp: tenant suspended"
  | .forbidden => "otlp: forbidden"
  | .unavailable => "otlp: identity provider unavailable"
  | .internal err => err

def IngestError.ofAuth : AuthError → IngestError
  | .tenantSuspended => .tenantSuspended
  | .noTenantAccess => .forbidden
  | .tenantRequired => .forbidden
  | .insufficientScope _ => .forbidden
  | .providerUnavailable _ => .unavailable
  | .unauthenticated _ => .unauthenticated
  | .resolver err => .internal err

/-- A caller that may ingest: a user with its tenant. -/
structure Caller where
  id : Identity
  tenant : Resolved
  resolved : id.resolved = some tenant
  notAdmin : id.admin = false

/-- What the handlers of both transports share. `allow` is what the rate limiter says
in its present state, and `now` the time of the request. -/
structure Core where
  verifier : Verifier
  allow : Identity → Nat → Bool
  schema : Schema
  bounds : Bounds
  now : Int
  ext : Externals

variable {v : Verifier} {id id' : Identity} {hint : String}

/-- Whichever way a user gets its tenant, it is resolved last. -/
theorem exists_resolveTenant (h : v.selectTenant id hint = .ok id') :
    ∃ tenantID role, v.resolveTenant id tenantID role = .ok id' := by
  have hmembership {claim : Option UUID} (h : v.selectMembership id claim hint = .ok id') :
      ∃ tenantID role, v.resolveTenant id tenantID role = .ok id' := by
    unfold Verifier.selectMembership at h
    split at h
    · cases h
    split at h
    · cases h
    split at h
    · cases h
    · split at h
      · cases h
      · exact ⟨_, _, h⟩
  unfold Verifier.selectTenant at h
  split at h
  · cases h
  · split at h
    · split at h
      · cases h
      · exact ⟨_, _, h⟩
    · exact hmembership h
  · exact hmembership h

theorem isSome_resolved_of_selectAdminTenant (h : v.selectAdminTenant id hint = .ok id') :
    id'.resolved.isSome = true := by
  unfold Verifier.selectAdminTenant at h
  split at h
  · cases h
  split at h
  · cases h
  · cases h
  · split at h
    · cases h
    · cases h
      rfl

/-- An authenticated caller has a tenant. -/
theorem isSome_resolved {raw hint : String} {id : Identity} (h : v.authenticateForTenant raw hint = .ok id) :
    id.resolved.isSome = true := by
  unfold Verifier.authenticateForTenant at h
  split at h
  · cases h
  split at h
  · exact isSome_resolved_of_selectAdminTenant h
  split at h
  · rename_i resolved hresolved
    split at h
    · cases h
    · cases h
      rw [hresolved]
      rfl
  · obtain ⟨_, _, hresolve⟩ := exists_resolveTenant h
    obtain ⟨resolved, rfl, _⟩ := Verifier.resolveTenant_ok hresolve
    rfl

def Core.authenticate (c : Core) (token : String) (nBytes : Nat) : Except IngestError Caller :=
  match h : c.verifier.authenticateForTenant token "" with
  | .error err => .error (.ofAuth err)
  | .ok id =>
    if hadmin : id.admin = true then .error .forbidden
    else if c.allow id nBytes = false then .error .rateLimited
    else .ok ⟨id, id.resolved.get (isSome_resolved h), (Option.some_get _).symm, by simpa using hadmin⟩

def Core.newPipeline (c : Core) (caller : Caller) : Pipeline where
  schema := c.schema
  tenant := caller.tenant
  bounds := c.bounds
  now := c.now
  ext := c.ext

/-- The gRPC status codes the server uses. -/
inductive Code where
  | invalidArgument
  | permissionDenied
  | resourceExhausted
  | internal
  | unavailable
  | unauthenticated
  deriving DecidableEq

/-- A `google.rpc.Status`. -/
structure RpcStatus where
  code : Code
  message : String
  deriving DecidableEq

/-- An export response: how many items were rejected and a reason, if any were. -/
structure ExportResponse where
  partialSuccess : Option (Int × String) := none
  deriving DecidableEq

/-- The wire format of one signal. Bodies are protobuf or JSON; `protoSize` is the
length of the encoded request, zero when it cannot be encoded. -/
structure Wire (α : Type) where
  unmarshal : Bool → Bytes → Except String α
  marshalResponse : Bool → ExportResponse → Option Bytes
  protoSize : α → Nat

/-- What the server takes from the OTLP and protobuf packages and from `fmt`. -/
structure Codec where
  metrics : Wire (Payload Metric)
  logs : Wire (Payload LogRecord)
  traces : Wire (Payload Span)
  marshalStatus : Bool → RpcStatus → Option Bytes
  isPrint : Char → Bool
  showFloats : List GoFloat → String

/-- The server when a request arrives, and what the database will answer. -/
structure Server where
  core : Core
  codec : Codec
  db : Answers
  store : Store

/-- What processing returns to a handler. -/
structure Processed where
  rejected : Int
  sample : String
  err : Option ProcessError

def Exported.processed {ε : Type} (text : ε → String) (out : Exported ε) : Processed where
  rejected := out.rejected
  sample := (out.rejectionSample.map text).getD ""
  err := out.err

section Process

variable (s : Server)

def Server.processMetrics (p : Pipeline) (md : Payload Metric) : Processed × Store :=
  let out := p.processMetrics s.db md s.store
  (out.1.processed (MetricReason.text s.codec.isPrint s.codec.showFloats), out.2)

def Server.processLogs (p : Pipeline) (ld : Payload LogRecord) : Processed × Store :=
  let out := p.processLogs s.db ld s.store
  (out.1.processed (Reason.text s.codec.isPrint), out.2)

def Server.processTraces (p : Pipeline) (td : Payload Span) : Processed × Store :=
  let out := p.processTraces s.db td s.store
  (out.1.processed (Reason.text s.codec.isPrint), out.2)

end Process

def Processed.response (out : Processed) : ExportResponse :=
  if out.rejected > 0 then { partialSuccess := some (out.rejected, out.sample) } else {}

def credentialHeader : String := "x-argvio-api-key"

/-- A request: `Header.Get` and the body. -/
structure HTTPRequest where
  header : String → String
  body : Bytes

/-- A response. The content type is unset when it is not written before the status
line. -/
structure HTTPResponse where
  status : Nat
  contentType : Option String
  body : Bytes
  deriving DecidableEq

def maxHTTPBodyBytes : Nat := 32 * 2 ^ 20

def contentTypeProtobuf : String := "application/x-protobuf"

def contentTypeJSON : String := "application/json"

def extractHTTPCredential (r : HTTPRequest) : String :=
  if r.header credentialHeader ≠ "" then r.header credentialHeader
  else (cutPrefix (r.header "Authorization") "Bearer ").getD ""

def httpStatusForAuthError : IngestError → Nat
  | .unauthenticated => 401
  | .tenantSuspended => 403
  | .forbidden => 403
  | .unavailable => 503
  | .rateLimited => 429
  | .internal _ => 500

def httpStatusForProcessError : ProcessError → Nat
  | .batchTooLarge _ _ _ => 400
  | .unknownSignalType => 400
  | .storage _ => 500

/-- `writeHTTPError`, which sets the content type only after the status line. -/
def Codec.httpError (codec : Codec) (wantProtobuf : Bool) (httpCode : Nat) (code : Code) (message : String) :
    HTTPResponse where
  status := httpCode
  contentType := none
  body := (codec.marshalStatus wantProtobuf ⟨code, message⟩).getD []

def negotiateProtobuf (r : HTTPRequest) : Option Bool :=
  let ct := r.header "Content-Type"
  if (cutPrefix ct contentTypeProtobuf).isSome then some true
  else if (cutPrefix ct contentTypeJSON).isSome then some false
  else none

/-- The body, unless it is longer than a body may be. -/
def readBody (r : HTTPRequest) : Option Bytes := if r.body.length ≤ maxHTTPBodyBytes then some r.body else none

def writeExportResponse (wantProtobuf : Bool) (body : Option Bytes) : HTTPResponse :=
  let contentType := if wantProtobuf then contentTypeProtobuf else contentTypeJSON
  match body with
  | none => { status := 500, contentType := some contentType, body := [] }
  | some b => { status := 200, contentType := some contentType, body := b }

/-- The handlers of the three signals, which differ in what they parse and process. -/
def Server.handleHTTP {α : Type} (s : Server) (name : String) (wire : Wire α)
    (process : Pipeline → α → Processed × Store) (r : HTTPRequest) : HTTPResponse × Store :=
  match negotiateProtobuf r with
  | none =>
    (s.codec.httpError false 415 .invalidArgument "Content-Type must be application/x-protobuf or application/json",
      s.store)
  | some wantProtobuf =>
    match readBody r with
    | none => (s.codec.httpError false 413 .invalidArgument "request body exceeds maximum allowed size", s.store)
    | some body =>
      match wire.unmarshal wantProtobuf body with
      | .error err =>
        (s.codec.httpError wantProtobuf 400 .invalidArgument ("malformed OTLP " ++ name ++ " payload: " ++ err), s.store)
      | .ok req =>
        match s.core.authenticate (extractHTTPCredential r) body.length with
        | .error err =>
          (s.codec.httpError wantProtobuf (httpStatusForAuthError err) .unauthenticated err.text, s.store)
        | .ok caller =>
          let out := process (s.core.newPipeline caller) req
          match out.1.err with
          | some err =>
            (s.codec.httpError wantProtobuf (httpStatusForProcessError err) .invalidArgument err.text, out.2)
          | none => (writeExportResponse wantProtobuf (wire.marshalResponse wantProtobuf out.1.response), out.2)

def Server.handleMetricsHTTP (s : Server) : HTTPRequest → HTTPResponse × Store :=
  s.handleHTTP "metrics" s.codec.metrics s.processMetrics

def Server.handleLogsHTTP (s : Server) : HTTPRequest → HTTPResponse × Store :=
  s.handleHTTP "logs" s.codec.logs s.processLogs

def Server.handleTracesHTTP (s : Server) : HTTPRequest → HTTPResponse × Store :=
  s.handleHTTP "traces" s.codec.traces s.processTraces

/-- The signals a request can be for. -/
inductive Route where
  | metrics
  | logs
  | traces
  deriving DecidableEq

def Route.name : Route → String
  | .metrics => "metrics"
  | .logs => "logs"
  | .traces => "traces"

/-- `HTTPHandler`, for the routes of the three signals. -/
def Server.serveHTTP (s : Server) : Route → HTTPRequest → HTTPResponse × Store
  | .metrics => s.handleMetricsHTTP
  | .logs => s.handleLogsHTTP
  | .traces => s.handleTracesHTTP

/-- The metadata of a call: the values under each key. -/
abbrev Metadata := String → List String

def grpcCredential (md : Metadata) : String :=
  match md credentialHeader with
  | key :: _ => key
  | [] =>
    match md "authorization" with
    | auth :: _ => (cutPrefix auth "Bearer ").getD ""
    | [] => ""

def grpcAuthError : IngestError → RpcStatus
  | .unauthenticated => ⟨.unauthenticated, "invalid or missing credential"⟩
  | .tenantSuspended => ⟨.permissionDenied, "tenant suspended"⟩
  | .forbidden => ⟨.permissionDenied, "forbidden"⟩
  | .unavailable => ⟨.unavailable, "identity provider unavailable"⟩
  | .rateLimited => ⟨.resourceExhausted, "rate limit exceeded"⟩
  | .internal _ => ⟨.internal, "internal error"⟩

def grpcProcessError (err : ProcessError) : RpcStatus :=
  match err with
  | .batchTooLarge _ _ _ => ⟨.invalidArgument, err.text⟩
  | .unknownSignalType => ⟨.invalidArgument, err.text⟩
  | .storage _ => ⟨.internal, "internal error"⟩

/-- The `Export` methods of the three services. -/
def Server.exportGRPC {α : Type} (s : Server) (wire : Wire α) (process : Pipeline → α → Processed × Store)
    (md : Metadata) (req : α) : Except RpcStatus ExportResponse × Store :=
  match s.core.authenticate (grpcCredential md) (wire.protoSize req) with
  | .error err => (.error (grpcAuthError err), s.store)
  | .ok caller =>
    let out := process (s.core.newPipeline caller) req
    match out.1.err with
    | some err => (.error (grpcProcessError err), out.2)
    | none => (.ok out.1.response, out.2)

def Server.exportMetrics (s : Server) : Metadata → Payload Metric → Except RpcStatus ExportResponse × Store :=
  s.exportGRPC s.codec.metrics s.processMetrics

def Server.exportLogs (s : Server) : Metadata → Payload LogRecord → Except RpcStatus ExportResponse × Store :=
  s.exportGRPC s.codec.logs s.processLogs

def Server.exportTraces (s : Server) : Metadata → Payload Span → Except RpcStatus ExportResponse × Store :=
  s.exportGRPC s.codec.traces s.processTraces

/-- A decoded request to one of the three services. -/
inductive ExportRequest where
  | metrics (md : Payload Metric)
  | logs (ld : Payload LogRecord)
  | traces (td : Payload Span)

def Server.serveGRPC (s : Server) (md : Metadata) : ExportRequest → Except RpcStatus ExportResponse × Store
  | .metrics req => s.exportMetrics md req
  | .logs req => s.exportLogs md req
  | .traces req => s.exportTraces md req

end argvio.otlp
