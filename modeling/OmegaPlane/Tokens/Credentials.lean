import OmegaPlane.Data.Base64
import OmegaPlane.Tokens.Claims
import OmegaPlane.Tokens.Replay

/-!
# Single-use credentials

DPoP proofs and JWT-SVID client assertions.  Each is checked on its own and
then looked up in its replay cache, at one reading of the clock.
-/

namespace OmegaPlane.Tokens

/-! ## DPoP proofs -/

def dpopProofWindow : Int := Clock.minute
def dpopMaxJTI : Nat := 256

/-- Lower case, as far as it can make a text equal to an ASCII one: only the
dotted capital I and the Kelvin sign have ASCII letters as lower case. -/
def toLower : Bytes → Bytes
  | [] => []
  | 0xC4 :: 0xB0 :: rest => 105 :: toLower rest
  | 0xE2 :: 0x84 :: 0xAA :: rest => 107 :: toLower rest
  | byte :: rest => (if 65 ≤ byte ∧ byte ≤ 90 then byte + 32 else byte) :: toLower rest

/-- A media type in the form types are compared in. -/
def normTyp (typ : Bytes) : Bytes :=
  let typ := toLower (Text.trimSpace typ)
  if Text.hasPrefix typ (ascii "application/") then typ.drop (ascii "application/").length else typ

/-- Compare media types regardless of case and of the `application/` prefix. -/
def typMatches (got want : Bytes) : Bool :=
  got ≠ [] ∧ normTyp got = normTyp want

/-- The claims of a proof; `iat` is absent unless it is a number. -/
structure ProofClaims where
  jti : Bytes
  htm : Bytes
  htu : Bytes
  iat : Option Rat

/-- The key in the header of a proof. -/
structure ProofKey where
  usable : Bool
  thumbprint : Except Bytes Bytes

/-- A proof as the JOSE library parses it.  The payload is absent when the
signature does not verify under the proof's own key, and it may not decode. -/
structure Proof where
  signatures : Nat
  typ : Bytes
  jwk : Option ProofKey
  payload : Option (Option ProofClaims)

inductive ProofError where
  | headers (count : Nat)
  | parse
  | signatures
  | typ (got : Bytes)
  | key
  | verify
  | decode
  | method (htm : Bytes)
  | target (htu : Bytes)
  | noIat
  | window
  | jti
  | thumbprint (message : Bytes)
  | replay (err : ReplayError)
  | used
  | noIssuerURL
  deriving DecidableEq

/-- What a checked proof shows: the thumbprint of its key, its id and when it
was issued. -/
structure ProofUse where
  jkt : Bytes
  jti : Bytes
  iat : Int
  deriving DecidableEq

/-- The library functions a proof is read with. -/
structure ProofReader where
  parse : Bytes → Option Proof
  sameTargetURI : Bytes → Bytes → Bool

/-- The checks on a parsed proof. -/
def Proof.check (reader : ProofReader) (proof : Proof) (method htu : Bytes) (now : Int) :
    Except ProofError ProofUse :=
  if proof.signatures ≠ 1 then .error .signatures
  else if ¬ typMatches proof.typ (ascii "dpop+jwt") then .error (.typ proof.typ)
  else
    match proof.jwk with
    | none => .error .key
    | some key =>
      if ¬ key.usable then .error .key
      else
        match proof.payload with
        | none => .error .verify
        | some none => .error .decode
        | some (some claims) =>
          if claims.htm ≠ method then .error (.method claims.htm)
          else if ¬ reader.sameTargetURI claims.htu htu then .error (.target claims.htu)
          else
            match claims.iat with
            | none => .error .noIat
            | some iat =>
              let issued := Clock.unix (Clock.int64OfFloat iat)
              if dpopProofWindow < Clock.sub now issued ∨
                  Clock.sub now issued < -dpopProofWindow then .error .window
              else if claims.jti = [] ∨ dpopMaxJTI < claims.jti.length then .error .jti
              else
                match key.thumbprint with
                | .error message => .error (.thumbprint message)
                | .ok sum =>
                  .ok { jkt := Base64.rawURLEncodeToString sum, jti := claims.jti,
                        iat := issued }

/-- The checks on the DPoP header of a request. -/
def checkProof (reader : ProofReader) (headers : List Bytes) (method htu : Bytes) (now : Int) :
    Except ProofError ProofUse :=
  match headers with
  | [header] =>
    match reader.parse header with
    | none => .error .parse
    | some proof => proof.check reader method htu now
  | _ => .error (.headers headers.length)

/-- The key of a proof in the replay cache. -/
def ProofUse.key (use : ProofUse) : Bytes :=
  use.jkt ++ ascii "|" ++ use.jti

/-- Verify the DPoP header of a request and return the thumbprint of the proof
key. -/
def verifyDPoPProof (sha256 : Bytes → Bytes) (reader : ProofReader) (cache : ReplayCache)
    (headers : List Bytes) (method htu : Bytes) (now : Int) :
    Except ProofError Bytes × ReplayCache :=
  match checkProof reader headers method htu now with
  | .error err => (.error err, cache)
  | .ok use =>
    match cache.firstUse sha256 use.key now with
    | (.error err, cache) => (.error (.replay err), cache)
    | (.ok false, cache) => (.error .used, cache)
    | (.ok true, cache) => (.ok use.jkt, cache)

variable {now : Int} {reader : ProofReader} {method htu : Bytes} {use : ProofUse}

inductive AuthMethod where
  | spiffeX509
  | spiffeJWT
  deriving DecidableEq

/-- Client authentication at the token endpoint: the form parameters (empty
when absent) and the SPIFFE ID of a verified client certificate, if one was
presented. -/
structure ClientRequest where
  clientAssertionType : Bytes
  clientAssertion : Bytes
  clientID : Bytes
  certificate : Option (Except Bytes Bytes)

/-- The settings of client authentication. -/
structure ClientPolicy where
  authority : Authority
  jwtEnabled : Bool
  maxAssertionTTL : Int

inductive ClientError where
  | twoMethods
  | notEnabled
  | assertionType
  | assertionRequired
  | parse (err : ParseError)
  | dates
  | jti
  | lifetime
  | audience
  | delegated
  | bound
  | quota (client : SpiffeId)
  | full
  | used
  | certificate (message : Bytes)
  | certificateID
  | required
  | trustDomain (client : SpiffeId)
  | clientID (client : SpiffeId)
  deriving DecidableEq

/-- What a checked assertion shows. -/
structure AssertionUse where
  client : SpiffeId
  jti : Bytes
  iat : Int
  exp : Int
  deriving DecidableEq

def clientAssertionTypeSPIFFE : Bytes :=
  ascii "urn:ietf:params:oauth:client-assertion-type:jwt-spiffe"

/-- The checks on the claims of an assertion. -/
def checkAssertionClaims (policy : ClientPolicy) (issuer : Bytes) (client : SpiffeId)
    (claims : ClaimSet) : Except ClientError AssertionUse :=
  match claimExpiry claims, claimNumericDate claims (ascii "iat") with
  | some exp, some iat =>
    let jti := textClaim claims (ascii "jti")
    if jti = [] ∨ dpopMaxJTI < jti.length then .error .jti
    else if policy.maxAssertionTTL < Clock.sub exp iat then .error .lifetime
    else if audienceValues (claims.lookup (ascii "aud")) ≠ [issuer] then .error .audience
    else if (claims.lookup (ascii "act")).isSome then .error .delegated
    else if (claims.lookup (ascii "cnf")).isSome then .error .bound
    else .ok { client, jti, iat, exp }
  | _, _ => .error .dates

/-- The checks on a client assertion before it is looked up. -/
def checkAssertion (policy : ClientPolicy) (openToken : Bytes → Opened) (request : ClientRequest)
    (issuer : Bytes) (now : Int) : Except ClientError AssertionUse :=
  if request.certificate.isSome then .error .twoMethods
  else if ¬ policy.jwtEnabled then .error .notEnabled
  else if request.clientAssertionType ≠ clientAssertionTypeSPIFFE then .error .assertionType
  else if request.clientAssertion = [] then .error .assertionRequired
  else
    match policy.authority.parseJWTSVIDClaims (openToken request.clientAssertion) now with
    | .error err => .error (.parse err)
    | .ok (client, claims) => checkAssertionClaims policy issuer client claims

/-- The last checks on an authenticated client. -/
def admitClient (policy : ClientPolicy) (request : ClientRequest) (client : SpiffeId)
    (method : AuthMethod) : Except ClientError (SpiffeId × AuthMethod) :=
  if client.trustDomain ≠ policy.authority.trustDomain then .error (.trustDomain client)
  else if request.clientID ≠ [] ∧ request.clientID ≠ client.string then .error (.clientID client)
  else .ok (client, method)

/-- Authenticate the client of the token endpoint by exactly one method. -/
def authenticateSPIFFEClient (sha256 : Bytes → Bytes) (policy : ClientPolicy)
    (openToken : Bytes → Opened) (cache : ReplayCache) (request : ClientRequest) (issuer : Bytes)
    (now : Int) : Except ClientError (SpiffeId × AuthMethod) × ReplayCache :=
  if request.clientAssertionType ≠ [] ∨ request.clientAssertion ≠ [] then
    match checkAssertion policy openToken request issuer now with
    | .error err => (.error err, cache)
    | .ok use =>
      match cache.firstUseBy sha256 use.client.string use.jti now with
      | (.error .ownerQuota, cache) => (.error (.quota use.client), cache)
      | (.error .full, cache) => (.error .full, cache)
      | (.ok false, cache) => (.error .used, cache)
      | (.ok true, cache) => (admitClient policy request use.client .spiffeJWT, cache)
  else
    match request.certificate with
    | some (.error message) => (.error (.certificate message), cache)
    | some (.ok text) =>
      match SpiffeId.fromString text with
      | none => (.error .certificateID, cache)
      | some client => (admitClient policy request client .spiffeX509, cache)
    | none => (.error .required, cache)

end OmegaPlane.Tokens
