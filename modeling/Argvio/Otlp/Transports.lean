import Argvio.Otlp.Responses

open gostrings

namespace argvio.otlp

/-- The credential headers a caller sends, each of which may be absent. -/
structure CredentialHeaders where
  apiKey : Option String
  authorization : Option String

namespace CredentialHeaders

/-- Over HTTP, an absent header reads like an empty one. -/
def InRequest (h : CredentialHeaders) (r : HTTPRequest) : Prop :=
  r.header credentialHeader = h.apiKey.getD "" ∧ r.header "Authorization" = h.authorization.getD ""

/-- The metadata of a call tells the two apart. -/
def InMetadata (h : CredentialHeaders) (md : Metadata) : Prop :=
  md credentialHeader = h.apiKey.toList ∧ md "authorization" = h.authorization.toList

/-- An empty key is sent beside a token. -/
def EmptyKeyBesideToken (h : CredentialHeaders) : Prop :=
  h.apiKey = some "" ∧ ∃ token, token ≠ "" ∧ h.authorization = some ("Bearer " ++ token)

end CredentialHeaders

section Transports

variable {h : CredentialHeaders} {r : HTTPRequest} {md : Metadata}

/-- The token of an authorization header, empty without one. -/
def bearer (authorization : Option String) : String :=
  (cutPrefix (authorization.getD "") "Bearer ").getD ""

theorem bearer_ne_empty_iff {authorization : Option String} :
    bearer authorization ≠ "" ↔ ∃ token, token ≠ "" ∧ authorization = some ("Bearer " ++ token) := by
  unfold bearer
  constructor
  · intro hne
    cases hcut : cutPrefix (authorization.getD "") "Bearer " with
    | none => simp [hcut] at hne
    | some token =>
      rw [hcut, Option.getD_some] at hne
      refine ⟨token, hne, ?_⟩
      have heq := cutPrefix_eq_some_iff.mp hcut
      cases authorization with
      | none =>
        have hlength := congrArg (fun s => s.toList.length) heq
        simp at hlength
      | some value => exact congrArg some heq
  · rintro ⟨token, hne, rfl⟩
    rw [Option.getD_some, cutPrefix_eq_some_iff.mpr rfl]
    exact hne

theorem extractHTTPCredential_eq (hr : h.InRequest r) :
    extractHTTPCredential r =
      match h.apiKey with
      | none => bearer h.authorization
      | some key => if key = "" then bearer h.authorization else key := by
  unfold extractHTTPCredential bearer
  rw [hr.1, hr.2]
  cases h.apiKey with
  | none => rfl
  | some key => by_cases hkey : key = "" <;> simp [hkey]

theorem grpcCredential_eq (hmd : h.InMetadata md) : grpcCredential md = h.apiKey.getD (bearer h.authorization) := by
  unfold grpcCredential bearer
  rw [hmd.1, hmd.2]
  cases h.apiKey with
  | some key => rfl
  | none =>
    cases h.authorization <;> rfl

/-- The two front ends find the same credential unless an empty key hides a token. -/
theorem extractHTTPCredential_eq_grpcCredential_iff (hr : h.InRequest r) (hmd : h.InMetadata md) :
    extractHTTPCredential r = grpcCredential md ↔ ¬ h.EmptyKeyBesideToken := by
  unfold CredentialHeaders.EmptyKeyBesideToken
  rw [extractHTTPCredential_eq hr, grpcCredential_eq hmd, ← bearer_ne_empty_iff]
  cases h.apiKey with
  | none => simp
  | some key => by_cases hkey : key = "" <;> simp [hkey]

/-- The only error whose gRPC code is the one that HTTP bodies carry. -/
theorem grpcAuthError_code_eq_iff {err : IngestError} :
    (grpcAuthError err).code = .unauthenticated ↔ err = .unauthenticated := by
  cases err <;> simp [grpcAuthError]

variable {s : Server} {wantProtobuf : Bool}

theorem serveHTTP_body_of_unauthenticated {route : Route} {err : IngestError} (hcodec : s.codec.Faithful)
    (hcontent : negotiateProtobuf r = some wantProtobuf) (hsize : r.body.length ≤ maxHTTPBodyBytes)
    (hparse : s.parseError route wantProtobuf r.body = none)
    (hauth : s.core.authenticate (extractHTTPCredential r) r.body.length = .error err) :
    s.codec.marshalStatus wantProtobuf ⟨.unauthenticated, err.text⟩ = some (s.serveHTTP route r).1.body := by
  obtain ⟨body, hbody⟩ := Option.isSome_iff_exists.mp (hcodec.encodes wantProtobuf ⟨.unauthenticated, err.text⟩)
  rw [serveHTTP_of_unauthenticated route hcontent hsize hauth, hparse]
  unfold Codec.httpError
  rw [hbody]
  rfl

/-- The front ends treat a caller alike, finding one credential and giving its rejection one
code, exactly when no empty key is sent beside a token and the rejection is for the credential. -/
theorem transports_alike_iff {route : Route} {err : IngestError} (hcodec : s.codec.Faithful) (hr : h.InRequest r)
    (hmd : h.InMetadata md) (hcontent : negotiateProtobuf r = some wantProtobuf)
    (hsize : r.body.length ≤ maxHTTPBodyBytes) (hparse : s.parseError route wantProtobuf r.body = none)
    (hauth : s.core.authenticate (extractHTTPCredential r) r.body.length = .error err) :
    (extractHTTPCredential r = grpcCredential md ∧
        ∃ message, s.codec.marshalStatus wantProtobuf ⟨(grpcAuthError err).code, message⟩ =
          some (s.serveHTTP route r).1.body) ↔
      ¬ h.EmptyKeyBesideToken ∧ err = .unauthenticated := by
  rw [extractHTTPCredential_eq_grpcCredential_iff hr hmd, ← serveHTTP_body_of_unauthenticated hcodec hcontent hsize
    hparse hauth, ← @grpcAuthError_code_eq_iff err]
  refine and_congr_right (fun _ => ?_)
  constructor
  · rintro ⟨message, hmessage⟩
    exact congrArg RpcStatus.code (hcodec.injective wantProtobuf hmessage)
  · intro hcode
    exact ⟨err.text, by rw [hcode]⟩

end Transports

/-- The sample server with a rate limiter that lets callers through or not. -/
def limitedServer (allows : Bool) : Server :=
  { sampleServer with core := { sampleServer.core with allow := fun _ _ => allows } }

theorem transports_alike_iff_anonymous :
    extractHTTPCredential (anonymousRequest [0x7b, 0x7d]) = grpcCredential (fun _ => []) ∧
      ∃ message, (limitedServer true).codec.marshalStatus false ⟨(grpcAuthError .unauthenticated).code, message⟩ =
        some ((limitedServer true).serveHTTP .metrics (anonymousRequest [0x7b, 0x7d])).1.body :=
  (@transports_alike_iff ⟨none, none⟩ _ _ _ _ .metrics _ faithful_sampleCodec ⟨rfl, rfl⟩ ⟨rfl, rfl⟩ rfl
    (by decide) rfl rfl).mpr ⟨fun hempty => Option.some_ne_none _ hempty.1.symm, rfl⟩

/-- A token beside an empty key is read over HTTP and not over gRPC, and a caller over its rate is
told `UNAUTHENTICATED` in the body of a 429 and `RESOURCE_EXHAUSTED` over gRPC. -/
theorem transports_differ :
    (∃ r md, CredentialHeaders.InRequest ⟨some "", some "Bearer t"⟩ r ∧
        CredentialHeaders.InMetadata ⟨some "", some "Bearer t"⟩ md ∧
        extractHTTPCredential r = "t" ∧ grpcCredential md = "") ∧
      (limitedServer false).core.authenticate (extractHTTPCredential userRequest) userRequest.body.length =
        .error .rateLimited ∧
      ((limitedServer false).serveHTTP .logs userRequest).1 =
        (limitedServer false).codec.httpError false 429 .unauthenticated "otlp: rate limit exceeded" ∧
      ((limitedServer false).serveGRPC userMetadata (.logs [])).1 =
        .error ⟨.resourceExhausted, "rate limit exceeded"⟩ := by
  refine ⟨⟨⟨fun name => if name = "Authorization" then "Bearer t" else "", []⟩,
    fun key => if key = "authorization" then ["Bearer t"] else [""], ⟨rfl, rfl⟩, ⟨rfl, rfl⟩, ?_, rfl⟩, rfl, rfl, rfl⟩
  decide

end argvio.otlp
