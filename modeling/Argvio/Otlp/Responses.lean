import Argvio.Otlp.LogRuns
import Argvio.Otlp.Server

open argvio.authn

namespace argvio.otlp

/-- What `proto` documents: a status can be encoded, and its encoding determines it. -/
structure Codec.Faithful (codec : Codec) : Prop where
  encodes : ∀ wantProtobuf st, (codec.marshalStatus wantProtobuf st).isSome = true
  injective : ∀ wantProtobuf, Function.Injective (codec.marshalStatus wantProtobuf)

theorem Codec.Faithful.httpError_inj {codec : Codec} (h : codec.Faithful) {wantProtobuf : Bool} {status status' : Nat}
    {code code' : Code} {message message' : String} :
    codec.httpError wantProtobuf status code message = codec.httpError wantProtobuf status' code' message' ↔
      status = status' ∧ code = code' ∧ message = message' := by
  refine ⟨fun heq => ⟨congrArg HTTPResponse.status heq, ?_⟩, ?_⟩
  swap
  · rintro ⟨rfl, rfl, rfl⟩
    rfl
  obtain ⟨body, hbody⟩ := Option.isSome_iff_exists.mp (h.encodes wantProtobuf ⟨code, message⟩)
  obtain ⟨body', hbody'⟩ := Option.isSome_iff_exists.mp (h.encodes wantProtobuf ⟨code', message'⟩)
  have hsame : body = body' := by
    have hbodies := congrArg HTTPResponse.body heq
    simpa only [Codec.httpError, hbody, hbody', Option.getD_some] using hbodies
  exact RpcStatus.mk.inj (h.injective wantProtobuf (hbody.trans (hsame ▸ hbody'.symm)))

section Unauthenticated

variable {α : Type} {s : Server} {wantProtobuf : Bool}

/-- Why a body does not parse, if it does not. -/
def Wire.parseError (wire : Wire α) (wantProtobuf : Bool) (body : Bytes) : Option String :=
  match wire.unmarshal wantProtobuf body with
  | .error err => some err
  | .ok _ => none

def Server.parseError (s : Server) : Route → Bool → Bytes → Option String
  | .metrics => s.codec.metrics.parseError
  | .logs => s.codec.logs.parseError
  | .traces => s.codec.traces.parseError

variable {err : IngestError} {r : HTTPRequest}

theorem handleHTTP_of_unauthenticated (name : String) (wire : Wire α) (process : Pipeline → α → Processed × Store)
    (hcontent : negotiateProtobuf r = some wantProtobuf) (hsize : r.body.length ≤ maxHTTPBodyBytes)
    (hauth : s.core.authenticate (extractHTTPCredential r) r.body.length = .error err) :
    (s.handleHTTP name wire process r).1 =
      match wire.parseError wantProtobuf r.body with
      | some text => s.codec.httpError wantProtobuf 400 .invalidArgument ("malformed OTLP " ++ name ++ " payload: " ++ text)
      | none => s.codec.httpError wantProtobuf (httpStatusForAuthError err) .unauthenticated err.text := by
  have hbody : readBody r = some r.body := if_pos hsize
  unfold Server.handleHTTP Wire.parseError
  rw [hcontent, hbody]
  dsimp only
  cases wire.unmarshal wantProtobuf r.body with
  | error text => rfl
  | ok req =>
    dsimp only
    rw [hauth]

theorem serveHTTP_of_unauthenticated (route : Route) (hcontent : negotiateProtobuf r = some wantProtobuf)
    (hsize : r.body.length ≤ maxHTTPBodyBytes)
    (hauth : s.core.authenticate (extractHTTPCredential r) r.body.length = .error err) :
    (s.serveHTTP route r).1 =
      match s.parseError route wantProtobuf r.body with
      | some text =>
        s.codec.httpError wantProtobuf 400 .invalidArgument ("malformed OTLP " ++ route.name ++ " payload: " ++ text)
      | none => s.codec.httpError wantProtobuf (httpStatusForAuthError err) .unauthenticated err.text := by
  cases route with
  | metrics => exact handleHTTP_of_unauthenticated "metrics" s.codec.metrics _ hcontent hsize hauth
  | logs => exact handleHTTP_of_unauthenticated "logs" s.codec.logs _ hcontent hsize hauth
  | traces => exact handleHTTP_of_unauthenticated "traces" s.codec.traces _ hcontent hsize hauth

theorem httpStatusForAuthError_ne (err : IngestError) : httpStatusForAuthError err ≠ 400 := by
  cases err <;> simp [httpStatusForAuthError]

/-- Two requests that fail authentication in the same way get the same answer exactly when both payloads parse or
both fail to with the same error. -/
theorem unauthenticated_response_iff {route : Route} {r₁ r₂ : HTTPRequest} {err : IngestError}
    (hcodec : s.codec.Faithful)
    (hcontent₁ : negotiateProtobuf r₁ = some wantProtobuf) (hcontent₂ : negotiateProtobuf r₂ = some wantProtobuf)
    (hsize₁ : r₁.body.length ≤ maxHTTPBodyBytes) (hsize₂ : r₂.body.length ≤ maxHTTPBodyBytes)
    (hauth₁ : s.core.authenticate (extractHTTPCredential r₁) r₁.body.length = .error err)
    (hauth₂ : s.core.authenticate (extractHTTPCredential r₂) r₂.body.length = .error err) :
    (s.serveHTTP route r₁).1 = (s.serveHTTP route r₂).1 ↔
      s.parseError route wantProtobuf r₁.body = s.parseError route wantProtobuf r₂.body := by
  have hstatus := httpStatusForAuthError_ne err
  rw [serveHTTP_of_unauthenticated route hcontent₁ hsize₁ hauth₁,
    serveHTTP_of_unauthenticated route hcontent₂ hsize₂ hauth₂]
  cases s.parseError route wantProtobuf r₁.body with
  | none =>
    cases s.parseError route wantProtobuf r₂.body with
    | none => exact iff_of_true rfl rfl
    | some err₂ => exact iff_of_false (fun heq => hstatus (congrArg HTTPResponse.status heq)) (by simp)
  | some err₁ =>
    cases s.parseError route wantProtobuf r₂.body with
    | none => exact iff_of_false (fun heq => hstatus (congrArg HTTPResponse.status heq).symm) (by simp)
    | some err₂ => simp [hcodec.httpError_inj]

end Unauthenticated

/-- A wire format in which the empty JSON object is the empty request and nothing
else parses. -/
def sampleWire (α : Type) : Wire (Payload α) where
  unmarshal := fun _ body => if body = [0x7b, 0x7d] then .ok [] else .error "unexpected end of JSON input"
  marshalResponse := fun _ _ => some []
  protoSize := fun _ => 0

/-- The number of a status code. -/
def Code.number : Code → UInt8
  | .invalidArgument => 3
  | .permissionDenied => 7
  | .resourceExhausted => 8
  | .internal => 13
  | .unavailable => 14
  | .unauthenticated => 16

theorem Code.number_injective : Function.Injective Code.number := by
  intro a b hab
  cases a <;> cases b <;> first | rfl | simp [Code.number] at hab

/-- Statuses are encoded as their code and the bytes of their text. -/
def sampleCodec : Codec where
  metrics := sampleWire Metric
  logs := sampleWire LogRecord
  traces := sampleWire Span
  marshalStatus := fun _ st => some (st.code.number :: st.message.toByteArray.data.toList)
  isPrint := fun _ => true
  showFloats := fun _ => ""

theorem faithful_sampleCodec : sampleCodec.Faithful where
  encodes := fun _ _ => rfl
  injective := by
    intro _ st st' heq
    have hlist := Option.some.inj heq
    obtain ⟨hcode, hmessage⟩ := List.cons.inj hlist
    have hbytes : st.message.toByteArray = st'.message.toByteArray := ByteArray.ext (Array.ext' hmessage)
    obtain ⟨code, message⟩ := st
    obtain ⟨code', message'⟩ := st'
    rw [RpcStatus.mk.injEq]
    exact ⟨Code.number_injective hcode, String.toByteArray_inj.mp hbytes⟩

def sampleServer : Server where
  core :=
    { verifier := Verifier.sampleVerifier
      allow := fun _ _ => true
      schema := samplePipeline.schema
      bounds := samplePipeline.bounds
      now := 0
      ext := samplePipeline.ext }
  codec := sampleCodec
  db := {}
  store :=
    { vocabularies := .empty
      metrics := []
      logs := []
      traces := []
      installs := ⟨fun _ => none, []⟩
      discoveries := ∅ }

/-- A JSON request without a credential. -/
def anonymousRequest (body : Bytes) : HTTPRequest where
  header := fun name => if name = "Content-Type" then "application/json" else ""
  body := body

theorem authenticate_anonymousRequest (body : Bytes) :
    sampleServer.core.authenticate (extractHTTPCredential (anonymousRequest body)) body.length =
      .error .unauthenticated := rfl

theorem unauthenticated_response_iff_both_malformed :
    (sampleServer.serveHTTP .metrics (anonymousRequest [])).1 =
      (sampleServer.serveHTTP .metrics (anonymousRequest [0x7b])).1 :=
  (unauthenticated_response_iff faithful_sampleCodec rfl rfl (by decide) (by decide) (authenticate_anonymousRequest _)
    (authenticate_anonymousRequest _)).mpr rfl

/-- Without a credential, a payload that parses is answered 401, and one that does not
is answered 400 with what is wrong with it. -/
theorem malformed_payload_told_to_stranger :
    let authenticate (body : Bytes) :=
      sampleServer.core.authenticate (extractHTTPCredential (anonymousRequest body)) body.length
    authenticate [0x7b, 0x7d] = .error .unauthenticated ∧ authenticate [0x7b] = .error .unauthenticated ∧
      (sampleServer.serveHTTP .metrics (anonymousRequest [0x7b, 0x7d])).1 =
        sampleServer.codec.httpError false 401 .unauthenticated "otlp: invalid or missing credential" ∧
      (sampleServer.serveHTTP .metrics (anonymousRequest [0x7b])).1 =
        sampleServer.codec.httpError false 400 .invalidArgument
          "malformed OTLP metrics payload: unexpected end of JSON input" ∧
      (sampleServer.serveHTTP .metrics (anonymousRequest [0x7b, 0x7d])).1 ≠
        (sampleServer.serveHTTP .metrics (anonymousRequest [0x7b])).1 := by
  refine ⟨rfl, rfl, rfl, rfl, fun heq => ?_⟩
  have hstatus := congrArg HTTPResponse.status heq
  cases hstatus

/-- Where a request can fail for reasons of the server. -/
inductive Stage where
  | authentication
  | processing
  deriving DecidableEq

/-- The code in the body of an HTTP answer to an error at a stage. -/
def Stage.httpCode : Stage → Code
  | .authentication => .unauthenticated
  | .processing => .invalidArgument

section Internal

variable {α : Type} {s s₁ s₂ : Server} {stage : Stage} {err err₁ err₂ : String}

/-- The internal error a decoded request runs into, and where. -/
def Server.raised (s : Server) (process : Pipeline → α → Processed × Store) (token : String) (nBytes : Nat) (req : α) :
    Option (Stage × String) :=
  match s.core.authenticate token nBytes with
  | .error (.internal err) => some (.authentication, err)
  | .error _ => none
  | .ok caller =>
    match (process (s.core.newPipeline caller) req).1.err with
    | some (.storage err) => some (.processing, err)
    | _ => none

/-- The internal error a request runs into on its way through a handler. -/
def Server.raisedHandling (s : Server) (wire : Wire α) (process : Pipeline → α → Processed × Store) (r : HTTPRequest) :
    Option (Stage × String) :=
  match negotiateProtobuf r, readBody r with
  | some wantProtobuf, some body =>
    match wire.unmarshal wantProtobuf body with
    | .ok req => s.raised process (extractHTTPCredential r) body.length req
    | .error _ => none
  | _, _ => none

def Server.raisedHTTP (s : Server) : Route → HTTPRequest → Option (Stage × String)
  | .metrics => s.raisedHandling s.codec.metrics s.processMetrics
  | .logs => s.raisedHandling s.codec.logs s.processLogs
  | .traces => s.raisedHandling s.codec.traces s.processTraces

def Server.raisedGRPC (s : Server) (md : Metadata) : ExportRequest → Option (Stage × String)
  | .metrics req => s.raised s.processMetrics (grpcCredential md) (s.codec.metrics.protoSize req) req
  | .logs req => s.raised s.processLogs (grpcCredential md) (s.codec.logs.protoSize req) req
  | .traces req => s.raised s.processTraces (grpcCredential md) (s.codec.traces.protoSize req) req

variable {process : Pipeline → α → Processed × Store}

variable {r : HTTPRequest} {wire : Wire α} {md : Metadata} {req : α}

/-- The two places an internal error can come from. -/
theorem raised_cases {token : String} {nBytes : Nat} (h : s.raised process token nBytes req = some (stage, err)) :
    (stage = .authentication ∧ s.core.authenticate token nBytes = .error (.internal err)) ∨
      (stage = .processing ∧ ∃ caller, s.core.authenticate token nBytes = .ok caller ∧
        (process (s.core.newPipeline caller) req).1.err = some (.storage err)) := by
  unfold Server.raised at h
  split at h
  · rename_i err' hauth
    cases h
    exact .inl ⟨rfl, hauth⟩
  · cases h
  · rename_i caller hauth
    split at h
    · rename_i err' herr
      cases h
      exact .inr ⟨rfl, caller, hauth, herr⟩
    · cases h

/-- The HTTP handlers answer 500 with the error's text. -/
theorem handleHTTP_of_raised {name : String} (h : s.raisedHandling wire process r = some (stage, err)) :
    ∃ wantProtobuf, negotiateProtobuf r = some wantProtobuf ∧
      (s.handleHTTP name wire process r).1 = s.codec.httpError wantProtobuf 500 stage.httpCode err := by
  unfold Server.raisedHandling at h
  split at h
  · rename_i wantProtobuf body hcontent hbody
    split at h
    · rename_i req hreq
      refine ⟨wantProtobuf, hcontent, ?_⟩
      unfold Server.handleHTTP
      rw [hcontent, hbody]
      dsimp only
      rw [hreq]
      rcases raised_cases h with ⟨rfl, hauth⟩ | ⟨rfl, caller, hauth, herr⟩
      · dsimp only
        rw [hauth]
        rfl
      · dsimp only
        rw [hauth]
        dsimp only
        rw [herr]
        rfl
    · cases h
  · cases h

theorem serveHTTP_of_raised {route : Route} (h : s.raisedHTTP route r = some (stage, err)) :
    ∃ wantProtobuf, negotiateProtobuf r = some wantProtobuf ∧
      (s.serveHTTP route r).1 = s.codec.httpError wantProtobuf 500 stage.httpCode err := by
  cases route <;> exact handleHTTP_of_raised h

/-- The gRPC services say that something went wrong and nothing else. -/
theorem exportGRPC_of_raised (h : s.raised process (grpcCredential md) (wire.protoSize req) req = some (stage, err)) :
    (s.exportGRPC wire process md req).1 = .error ⟨.internal, "internal error"⟩ := by
  unfold Server.exportGRPC
  rcases raised_cases h with ⟨_, hauth⟩ | ⟨_, caller, hauth, herr⟩
  · rw [hauth]
    rfl
  · rw [hauth]
    dsimp only
    rw [herr]
    rfl

theorem serveGRPC_of_raised {req : ExportRequest} (h : s.raisedGRPC md req = some (stage, err)) :
    (s.serveGRPC md req).1 = .error ⟨.internal, "internal error"⟩ := by
  cases req <;> exact exportGRPC_of_raised h

/-- Two internal errors at the same stage of a request cannot be told apart by a gRPC client, and by an HTTP client
exactly when they have the same text. -/
theorem internal_errors_hidden_iff (hcodec : s₁.codec = s₂.codec) (hfaithful : s₁.codec.Faithful) :
    (∀ route r, s₁.raisedHTTP route r = some (stage, err₁) → s₂.raisedHTTP route r = some (stage, err₂) →
      ((s₁.serveHTTP route r).1 = (s₂.serveHTTP route r).1 ∧ (s₁.serveHTTP route r).1.status = 500 ↔ err₁ = err₂)) ∧
    (∀ md req, s₁.raisedGRPC md req = some (stage, err₁) → s₂.raisedGRPC md req = some (stage, err₂) →
      (s₁.serveGRPC md req).1 = (s₂.serveGRPC md req).1 ∧
        ∃ message, (s₁.serveGRPC md req).1 = .error ⟨.internal, message⟩) := by
  constructor
  · intro route r h₁ h₂
    obtain ⟨wantProtobuf, hcontent, hanswer₁⟩ := serveHTTP_of_raised h₁
    obtain ⟨wantProtobuf', hcontent', hanswer₂⟩ := serveHTTP_of_raised h₂
    obtain rfl : wantProtobuf = wantProtobuf' := Option.some.inj (hcontent.symm.trans hcontent')
    rw [hanswer₁, hanswer₂, ← hcodec, hfaithful.httpError_inj]
    simp [Codec.httpError]
  · intro md req h₁ h₂
    rw [serveGRPC_of_raised h₁, serveGRPC_of_raised h₂]
    exact ⟨rfl, _, rfl⟩

end Internal

/-- The sample server while its database answers every lookup with an error. -/
def faultyServer (err : String) : Server :=
  { sampleServer with
    core := { sampleServer.core with
      verifier := { Verifier.sampleVerifier with
        resolver := { Verifier.sampleVerifier.resolver with fault := fun _ => some err } } } }

/-- A JSON request with a user's token. -/
def userRequest : HTTPRequest where
  header := fun name =>
    if name = "Content-Type" then "application/json"
    else if name = "Authorization" then "Bearer eyJhbGciOiJSUzI1NiJ9.e30.c2ln"
    else ""
  body := [0x7b, 0x7d]

def userMetadata : Metadata := fun key =>
  if key = "authorization" then ["Bearer eyJhbGciOiJSUzI1NiJ9.e30.c2ln"] else []

theorem internal_errors_hidden_iff_grpc :
    (faultyServer "connection refused").raisedGRPC userMetadata (.logs []) =
        some (.authentication, "connection refused") ∧
      (faultyServer "disk full").raisedGRPC userMetadata (.logs []) = some (.authentication, "disk full") ∧
      ((faultyServer "connection refused").serveGRPC userMetadata (.logs [])).1 =
        ((faultyServer "disk full").serveGRPC userMetadata (.logs [])).1 :=
  ⟨rfl, rfl, ((internal_errors_hidden_iff rfl faithful_sampleCodec).2 userMetadata (.logs []) rfl rfl).1⟩

/-- Over HTTP, the text of the database's error is in the answer. -/
theorem internal_error_told_over_http :
    (faultyServer "connection refused").raisedHTTP .logs userRequest = some (.authentication, "connection refused") ∧
      (faultyServer "disk full").raisedHTTP .logs userRequest = some (.authentication, "disk full") ∧
      ((faultyServer "connection refused").serveHTTP .logs userRequest).1 =
        sampleServer.codec.httpError false 500 .unauthenticated "connection refused" ∧
      ((faultyServer "connection refused").serveHTTP .logs userRequest).1 ≠
        ((faultyServer "disk full").serveHTTP .logs userRequest).1 := by
  refine ⟨rfl, rfl, rfl, fun heq => ?_⟩
  have hlength := congrArg (fun r => r.body.length) heq
  cases hlength

end argvio.otlp
