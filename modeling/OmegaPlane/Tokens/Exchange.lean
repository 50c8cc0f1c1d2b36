import OmegaPlane.Tokens.Idp
import OmegaPlane.Tokens.SingleUse

/-!
# The endpoints that issue JWT-SVIDs

`POST /v1/svid/jwt`, `POST /v1/token/exchange`, `POST /oauth2/token` and
`POST /v1/oidc/exchange`, from the decoded request to the token they answer
with.  What a request reads from outside (the tokens it opens, the policy
engine, whether its audit row was written) comes with it.
-/

namespace OmegaPlane.Tokens

open Decision (Value Entity EvalRequest)

/-! ## The server -/

structure TokenServer where
  authority : Authority
  requireAuth : Bool
  enforceExchangePolicy : Bool
  oidc : Option Registry
  idJAG : Option Registry
  idJAGJWT : Bool
  idJAGMaxAssertionTTL : Int

/-- What a request reads from outside. -/
structure Environment where
  openToken : Bytes → Opened
  proofs : ProofReader
  idTokens : IDTokenReader
  evaluate : EvalRequest → Except Bytes (Bool × List Bytes)

/-- The readings of the clock in the handling of a request, in their order and
after the epoch. -/
structure Readings where
  first : Int
  second : Int
  proof : Int
  remaining : Int
  stamped : Int
  epoch : 0 ≤ first
  second_le : first ≤ second
  proof_le : second ≤ proof
  remaining_le : proof ≤ remaining
  stamped_le : remaining ≤ stamped

/-- The duration of a number of seconds in a request. -/
def requestedTTL (ttlSeconds : Int) : Int :=
  Clock.wrap64 (ttlSeconds * Clock.second)

/-- A requested lifetime cut to what remains until an expiry; none when nothing
remains. -/
def capTTL (ttl expiry now : Int) : Option Int :=
  let remaining := Clock.sub expiry now
  if remaining ≤ 0 then none
  else some (if ttl ≤ 0 ∨ remaining < ttl then remaining else ttl)

/-- Whole seconds of a duration. -/
def wholeSeconds (ttl : Int) : Int :=
  ttl.tdiv Clock.second

inductive Kind where
  | human
  | ai
  | service
  deriving DecidableEq

def Kind.text : Kind → Bytes
  | .human => ascii "human"
  | .ai => ascii "ai"
  | .service => ascii "service"

def inferKind (id : SpiffeId) : Kind :=
  if Text.hasPrefix id.path (ascii "/humans/") then .human
  else if Text.hasPrefix id.path (ascii "/agents/") then .ai
  else .service

def textList (texts : List Bytes) : Value :=
  .arr (texts.map .str)

/-! ## Direct issuance -/

structure IssueRequest where
  caller : Bytes
  spiffeID : Bytes
  audience : List Bytes
  ttlSeconds : Int
  bindCertThumbprint : Bytes := []

inductive IssuanceError where
  | spiffeID
  | unauthenticated
  | otherIdentity
  | audienceRequired
  | issue (err : IssueError)
  deriving DecidableEq

/-- Under `--require-auth` a caller may only issue for itself. -/
def TokenServer.authorizeIssuance (server : TokenServer) (caller requested : Bytes) :
    Except IssuanceError Unit :=
  if ¬ server.requireAuth then .ok ()
  else if caller = [] then .error .unauthenticated
  else if caller ≠ requested then .error .otherIdentity
  else .ok ()

def bindingClaims (thumbprint : Bytes) : ClaimSet :=
  if thumbprint = [] then []
  else [(ascii "cnf", .obj [(ascii "x5t#S256", .str thumbprint)])]

def TokenServer.issueJWTSVID (server : TokenServer) (request : IssueRequest) (clock : Readings) :
    Except IssuanceError JWTSVID :=
  match SpiffeId.fromString request.spiffeID with
  | none => .error .spiffeID
  | some id =>
    match server.authorizeIssuance request.caller id.string with
    | .error err => .error err
    | .ok () =>
      if request.audience = [] then .error .audienceRequired
      else
        match server.authority.issueJWTSVID id request.audience
            (requestedTTL request.ttlSeconds) (bindingClaims request.bindCertThumbprint)
            clock.stamped with
        | .error err => .error (.issue err)
        | .ok svid => .ok svid

theorem TokenServer.issueJWTSVID_signs {server : TokenServer} {request : IssueRequest}
    {clock : Readings} {svid : JWTSVID} (answered : server.issueJWTSVID request clock = .ok svid) :
    ∃ id, svid = server.authority.stamp id request.audience
      (tokenLifetime (requestedTTL request.ttlSeconds))
      (bindingClaims request.bindCertThumbprint) clock.stamped := by
  unfold issueJWTSVID at answered
  split at answered
  case h_1 => cases answered
  case h_2 id _ =>
    split at answered
    case h_1 => cases answered
    case h_2 =>
      obtain ⟨-, answered⟩ := ite_error_eq_ok.mp answered
      split at answered
      case h_1 => cases answered
      case h_2 issued =>
        cases answered
        exact ⟨id, Authority.issueJWTSVID_eq_ok issued⟩

/-! ## Proof of possession -/

/-- A proof verified at most once in a request, with the cache it is looked up
in. -/
structure ProofOnce where
  result : Option (Except ProofError Bytes)
  cache : ReplayCache

def ProofOnce.get (verify : ReplayCache → Except ProofError Bytes × ReplayCache)
    (once : ProofOnce) : Except ProofError Bytes × ProofOnce :=
  match once.result with
  | some result => (result, once)
  | none =>
    let (result, cache) := verify once.cache
    (result, { result := some result, cache })

inductive BindingError where
  | malformed
  | proof (err : ProofError)
  | otherKey
  | certificate
  | unsupported
  deriving DecidableEq

/-- The transport of a request: its DPoP headers, its method and the thumbprint
of its verified client certificate. -/
structure Transport where
  dpop : List Bytes
  method : Bytes
  leaf : Option Bytes

/-- Enforce the confirmation claim of a presented token. -/
def checkPresentedBinding (verify : ReplayCache → Except ProofError Bytes × ReplayCache)
    (transport : Transport) (claims : ClaimSet) (once : ProofOnce) :
    Except BindingError Unit × ProofOnce :=
  match claims.lookup (ascii "cnf") with
  | none => (.ok (), once)
  | some (.obj cnf) =>
    if cnf.length ≠ 1 then (.error .malformed, once)
    else if textClaim cnf (ascii "jkt") ≠ [] then
      match once.get verify with
      | (.error err, once) => (.error (.proof err), once)
      | (.ok jkt, once) =>
        (if jkt ≠ textClaim cnf (ascii "jkt") then .error .otherKey else .ok (), once)
    else if textClaim cnf (ascii "x5t#S256") ≠ [] then
      (if transport.leaf ≠ some (textClaim cnf (ascii "x5t#S256")) then .error .certificate
        else .ok (), once)
    else (.error .unsupported, once)
  | some _ => (.error .malformed, once)

/-- The key an assertion is bound to, empty when it is not bound. -/
def confirmationJKT (claims : ClaimSet) : Option Bytes :=
  match claims.lookup (ascii "cnf") with
  | none => some []
  | some (.obj cnf) =>
    if textClaim cnf (ascii "jkt") = [] ∨ cnf.length ≠ 1 then none
    else some (textClaim cnf (ascii "jkt"))
  | some _ => none

/-! ## Token exchange -/

mutual

/-- Subjects of a nested `act` claim, the most recent actor first. -/
def actSubjects : Value → List Bytes
  | .obj fields =>
    (if textClaim fields (ascii "sub") = [] then [] else [textClaim fields (ascii "sub")]) ++
      priorSubjects fields
  | _ => []

/-- Subjects of the `act` claim among the fields. -/
def priorSubjects : ClaimSet → List Bytes
  | [] => []
  | (name, value) :: rest => if name = ascii "act" then actSubjects value else priorSubjects rest

end

/-- Subjects of a delegation, the root principal first. -/
def flattenActChain (act : Value) : List Bytes :=
  (actSubjects act).reverse

def grantTypeTokenExchange : Bytes :=
  ascii "urn:ietf:params:oauth:grant-type:token-exchange"

def tokenTypeJWT : Bytes :=
  ascii "urn:ietf:params:oauth:token-type:jwt"

structure TokenExchangeRequest where
  transport : Transport
  grantType : Bytes
  subjectToken : Bytes
  subjectTokenType : Bytes
  actorToken : Bytes
  actorTokenType : Bytes
  requestedSPIFFEID : Bytes
  audience : List Bytes
  scope : Bytes := []
  ttlSeconds : Int := 0

inductive ExchangeError where
  | grantType
  | subjectToken
  | actorToken
  | requestedID
  | audience
  | parseSubject (err : ParseError)
  | parseActor (err : ParseError)
  | bindSubject (err : BindingError)
  | bindActor (err : BindingError)
  | requestedInvalid
  | requestedTrustDomain
  | notActor
  | policy (message : Bytes)
  | denied (reasons : List Bytes)
  | expired
  | issue (err : IssueError)
  deriving DecidableEq

/-- The tokens of an exchange after they were read. -/
structure ExchangeTokens where
  subjectID : SpiffeId
  subjectClaims : ClaimSet
  actorID : SpiffeId
  actorClaims : ClaimSet

inductive TokenType where
  | bearer
  | dpop
  deriving DecidableEq

structure TokenExchangeResponse where
  svid : JWTSVID
  tokenType : TokenType
  expiresIn : Int
  scope : Bytes
  delegationChain : List Bytes

/-- Check the request and read its tokens. -/
def TokenServer.readExchange (server : TokenServer) (env : Environment)
    (request : TokenExchangeRequest) (clock : Readings) : Except ExchangeError ExchangeTokens :=
  if request.grantType ≠ grantTypeTokenExchange then .error .grantType
  else if request.subjectToken = [] ∨ request.subjectTokenType ≠ tokenTypeJWT then
    .error .subjectToken
  else if request.actorToken = [] ∨ request.actorTokenType ≠ tokenTypeJWT then .error .actorToken
  else if request.requestedSPIFFEID = [] then .error .requestedID
  else if request.audience = [] then .error .audience
  else
    match server.authority.parseJWTSVIDClaims (env.openToken request.subjectToken) clock.first with
    | .error err => .error (.parseSubject err)
    | .ok (subjectID, subjectClaims) =>
      match server.authority.parseJWTSVIDClaims (env.openToken request.actorToken) clock.second with
      | .error err => .error (.parseActor err)
      | .ok (actorID, actorClaims) =>
        .ok { subjectID, subjectClaims, actorID, actorClaims }

/-- Verify the proof of an exchange; it needs an issuer URL to name its
target. -/
def TokenServer.exchangeProof (server : TokenServer) (sha256 : Bytes → Bytes) (env : Environment)
    (request : TokenExchangeRequest) (now : Int) (cache : ReplayCache) :
    Except ProofError Bytes × ReplayCache :=
  if server.authority.issuerURL = [] then (.error .noIssuerURL, cache)
  else
    verifyDPoPProof sha256 env.proofs cache request.transport.dpop request.transport.method
      (server.authority.issuerURL ++ ascii "/v1/token/exchange") now

/-- Both tokens need their proof of possession; they may share one. -/
def TokenServer.bindExchange (server : TokenServer) (sha256 : Bytes → Bytes) (env : Environment)
    (request : TokenExchangeRequest) (tokens : ExchangeTokens) (now : Int) (cache : ReplayCache) :
    Except ExchangeError Unit × ReplayCache :=
  let verify := server.exchangeProof sha256 env request now
  match checkPresentedBinding verify request.transport tokens.subjectClaims
      { result := none, cache } with
  | (.error err, once) => (.error (.bindSubject err), once.cache)
  | (.ok (), once) =>
    match checkPresentedBinding verify request.transport tokens.actorClaims once with
    | (.error err, once) => (.error (.bindActor err), once.cache)
    | (.ok (), once) => (.ok (), once.cache)

/-- The `act` claim of the new token: the subject token's principal, with its
own `act` below it. -/
def newAct (tokens : ExchangeTokens) : Value :=
  .obj ((ascii "sub", .str tokens.subjectID.string) ::
    match tokens.subjectClaims.lookup (ascii "act") with
    | some (.obj act) => [(ascii "act", .obj act)]
    | _ => [])

/-- What the policy engine is asked about an exchange. -/
def exchangeQuestion (request : TokenExchangeRequest) (requested : SpiffeId)
    (chain : List Bytes) : EvalRequest where
  subject :=
    { type := ascii "Spiffe"
      id := requested.string
      attrs :=
        [(ascii "kind", .str (inferKind requested).text),
          (ascii "acting_for", .str (chain.headD [])),
          (ascii "delegation_chain", textList chain), (ascii "scope", .str request.scope)] }
  actionName := ascii "token.exchange"
  resource := { type := ascii "Spiffe", id := requested.string }
  context :=
    [(ascii "delegation_depth", .number (chain.length - 1 : Int)),
      (ascii "requested_audience", textList request.audience)]

/-- The policy gate of the exchange, off unless it is enforced. -/
def TokenServer.gateExchange (server : TokenServer) (env : Environment) (question : EvalRequest) :
    Except ExchangeError Unit :=
  if ¬ server.enforceExchangePolicy then .ok ()
  else
    match env.evaluate question with
    | .error message => .error (.policy message)
    | .ok (true, _) => .ok ()
    | .ok (false, reasons) => .error (.denied reasons)

/-- The lifetime of the exchanged token, cut to what remains of the subject
token's when that has an expiry. -/
def exchangeTTL (request : TokenExchangeRequest) (tokens : ExchangeTokens) (now : Int) :
    Option Int :=
  match claimExpiry tokens.subjectClaims with
  | some expiry => capTTL (requestedTTL request.ttlSeconds) expiry now
  | none => some (requestedTTL request.ttlSeconds)

/-- The confirmation the new token keeps: the actor's, or the subject's when
both are one principal. -/
def keptBinding (tokens : ExchangeTokens) : Option Value :=
  match tokens.actorClaims.lookup (ascii "cnf") with
  | some cnf => some cnf
  | none =>
    if tokens.actorID.string = tokens.subjectID.string then
      tokens.subjectClaims.lookup (ascii "cnf")
    else none

def scopeClaim (scope : Bytes) : ClaimSet :=
  if scope = [] then [] else [(ascii "scope", .str scope)]

/-- The claims an exchange adds to the registered ones. -/
def exchangeClaims (request : TokenExchangeRequest) (tokens : ExchangeTokens) : ClaimSet :=
  (ascii "act", newAct tokens) :: scopeClaim request.scope ++
    (keptBinding tokens).toList.map fun cnf => (ascii "cnf", cnf)

/-- A kept confirmation that names a key makes the token a DPoP token. -/
def boundType : Option Value → TokenType
  | some (.obj cnf) =>
    match cnf.lookup (ascii "jkt") with
    | none | some .null => .bearer
    | some _ => .dpop
  | _ => .bearer

/-- Decide an exchange whose tokens were read, and issue its token. -/
def TokenServer.grantExchange (server : TokenServer) (env : Environment)
    (request : TokenExchangeRequest) (tokens : ExchangeTokens) (clock : Readings) :
    Except ExchangeError TokenExchangeResponse :=
  match SpiffeId.fromString request.requestedSPIFFEID with
  | none => .error .requestedInvalid
  | some requested =>
    if requested.trustDomain ≠ server.authority.trustDomain then .error .requestedTrustDomain
    else if requested.string ≠ tokens.actorID.string then .error .notActor
    else
      let chain := flattenActChain (newAct tokens) ++ [requested.string]
      match server.gateExchange env (exchangeQuestion request requested chain) with
      | .error err => .error err
      | .ok () =>
        match exchangeTTL request tokens clock.remaining with
        | none => .error .expired
        | some ttl =>
          match server.authority.issueJWTSVID requested request.audience ttl
              (exchangeClaims request tokens) clock.stamped with
          | .error err => .error (.issue err)
          | .ok svid =>
            .ok { svid, tokenType := boundType (keptBinding tokens),
                  expiresIn := wholeSeconds ttl, scope := request.scope,
                  delegationChain := chain }

def TokenServer.tokenExchange (server : TokenServer) (sha256 : Bytes → Bytes) (env : Environment)
    (cache : ReplayCache) (request : TokenExchangeRequest) (clock : Readings) :
    Except ExchangeError TokenExchangeResponse × ReplayCache :=
  match server.readExchange env request clock with
  | .error err => (.error err, cache)
  | .ok tokens =>
    match server.bindExchange sha256 env request tokens clock.proof cache with
    | (.error err, cache) => (.error err, cache)
    | (.ok (), cache) => (server.grantExchange env request tokens clock, cache)

variable {server : TokenServer} {env : Environment} {request : TokenExchangeRequest}
  {clock : Readings} {tokens : ExchangeTokens}

theorem TokenServer.readExchange_parses
    (read : server.readExchange env request clock = .ok tokens) :
    server.authority.parseJWTSVIDClaims (env.openToken request.subjectToken) clock.first =
        .ok (tokens.subjectID, tokens.subjectClaims) ∧
      server.authority.parseJWTSVIDClaims (env.openToken request.actorToken) clock.second =
        .ok (tokens.actorID, tokens.actorClaims) := by
  unfold readExchange at read
  simp only [ite_error_eq_ok] at read
  obtain ⟨-, -, -, -, -, read⟩ := read
  split at read
  case h_1 => cases read
  case h_2 subject =>
    split at read
    case h_1 => cases read
    case h_2 actor =>
      cases read
      exact ⟨subject, actor⟩

theorem TokenServer.readExchange_eq_ok (read : server.readExchange env request clock = .ok tokens) :
    env.openToken request.subjectToken = .verified tokens.subjectClaims :=
  (Authority.parse_eq_ok_iff.mp (readExchange_parses read).1).1

variable {response : TokenExchangeResponse} {sha256 : Bytes → Bytes} {cache : ReplayCache}

/-- What an exchange that is granted went through. -/
theorem TokenServer.grantExchange_eq_ok
    (granted : server.grantExchange env request tokens clock = .ok response) :
    ∃ requested ttl, SpiffeId.fromString request.requestedSPIFFEID = some requested ∧
      requested.trustDomain = server.authority.trustDomain ∧
      requested.string = tokens.actorID.string ∧
      response.delegationChain = flattenActChain (newAct tokens) ++ [requested.string] ∧
      server.gateExchange env (exchangeQuestion request requested response.delegationChain) =
        .ok () ∧
      exchangeTTL request tokens clock.remaining = some ttl ∧
      server.authority.issueJWTSVID requested request.audience ttl (exchangeClaims request tokens)
        clock.stamped = .ok response.svid := by
  unfold grantExchange at granted
  split at granted
  case h_1 => cases granted
  case h_2 requested read =>
    simp only [ite_error_eq_ok] at granted
    obtain ⟨member, isActor, granted⟩ := granted
    split at granted
    case h_1 => cases granted
    case h_2 passed =>
      split at granted
      case h_1 => cases granted
      case h_2 ttl capped =>
        split at granted
        case h_1 => cases granted
        case h_2 issued =>
          cases granted
          exact ⟨requested, ttl, read, not_not.mp member, not_not.mp isActor, rfl, passed,
            capped, issued⟩

theorem TokenServer.tokenExchange_eq_ok
    (answered : (server.tokenExchange sha256 env cache request clock).1 = .ok response) :
    ∃ tokens, server.readExchange env request clock = .ok tokens ∧
      (server.bindExchange sha256 env request tokens clock.proof cache).1 = .ok () ∧
      server.grantExchange env request tokens clock = .ok response := by
  unfold tokenExchange at answered
  split at answered
  case h_1 => cases answered
  case h_2 tokens read =>
    split at answered
    case h_1 => cases answered
    case h_2 bound => exact ⟨tokens, read, congrArg Prod.fst bound, answered⟩

theorem TokenServer.tokenExchange_signs
    (answered : (server.tokenExchange sha256 env cache request clock).1 = .ok response) :
    ∃ tokens requested ttl, server.readExchange env request clock = .ok tokens ∧
      exchangeTTL request tokens clock.remaining = some ttl ∧
      response.svid = server.authority.stamp requested request.audience (tokenLifetime ttl)
        (exchangeClaims request tokens) clock.stamped := by
  obtain ⟨tokens, read, -, granted⟩ := tokenExchange_eq_ok answered
  obtain ⟨requested, ttl, -, -, -, -, -, capped, issued⟩ := grantExchange_eq_ok granted
  exact ⟨tokens, requested, ttl, read, capped, Authority.issueJWTSVID_eq_ok issued⟩

/-! ## The ID-JAG grant -/

def grantTypeJWTBearer : Bytes :=
  ascii "urn:ietf:params:oauth:grant-type:jwt-bearer"

/-- The form of the token endpoint, parameters empty when absent, and whether
the row of a grant can be written. -/
structure OAuthRequest where
  transport : Transport
  client : ClientRequest
  grantType : Bytes
  assertion : Bytes
  resource : List Bytes := []
  scope : Bytes := []
  recorded : Bool := true

inductive OAuthError where
  | notConfigured
  | noIssuerURL
  | grantType
  | client (err : ClientError)
  | assertionRequired
  | validate (err : IDPError)
  | noSubject
  | noJTI
  | dates
  | lifetime
  | clientID
  | cnf
  | proofRequired
  | proof (err : ProofError)
  | otherKey
  | noResource
  | resource (name : Bytes)
  | scope (name : Bytes)
  | lookup (err : IDPError)
  | render (err : RenderError)
  | renderedInvalid
  | renderedTrustDomain
  | policy (message : Bytes)
  | denied
  | expired
  | issue (err : IssueError)
  | notRecorded
  deriving DecidableEq

structure OAuthTokenResponse where
  svid : JWTSVID
  tokenType : TokenType
  expiresIn : Int
  scope : Bytes
  delegationChain : List Bytes

/-- The rules of the profile the registry does not check. -/
def TokenServer.checkIDJAGClaims (server : TokenServer) (claims : IDClaims) (client : SpiffeId) :
    Except OAuthError Unit :=
  if claims.subject = [] then .error .noSubject
  else if textClaim claims.raw (ascii "jti") = [] then .error .noJTI
  else if claims.issuedAt = Clock.zeroInstant ∨ claims.expiresAt = Clock.zeroInstant then
    .error .dates
  else if server.idJAGMaxAssertionTTL < Clock.sub claims.expiresAt claims.issuedAt then
    .error .lifetime
  else if textClaim claims.raw (ascii "client_id") ≠ client.string then .error .clientID
  else .ok ()

/-- The requested resources, or all that are granted. -/
def grantedResources (raw : ClaimSet) (requested : List Bytes) : Except OAuthError (List Bytes) :=
  let granted := audienceValues (raw.lookup (ascii "resource"))
  if granted = [] then .error .noResource
  else
    match requested.find? fun name => ¬ granted.contains name with
    | some name => .error (.resource name)
    | none => .ok (if requested = [] then granted else requested)

/-- The requested scope, or all that is granted. -/
def grantedScope (raw : ClaimSet) (requested : Bytes) : Except OAuthError Bytes :=
  let granted := textClaim raw (ascii "scope")
  if requested = [] then .ok granted
  else
    match (Text.fields requested).find? fun name => ¬ (Text.fields granted).contains name with
    | some name => .error (.scope name)
    | none => .ok ((ascii " ").intercalate (Text.fields requested))

/-- The identity of the asserted user. -/
def renderUserID (template : Bytes) (claims : IDClaims) (trustDomain : Bytes) :
    Except OAuthError SpiffeId :=
  match renderSPIFFEID template claims with
  | .error err => .error (.render err)
  | .ok text =>
    match SpiffeId.fromString text with
    | none => .error .renderedInvalid
    | some id => if id.trustDomain ≠ trustDomain then .error .renderedTrustDomain else .ok id

/-- The thumbprint of the proof key, empty without a proof; an assertion bound
to a key needs a proof for it. -/
def TokenServer.oauthProof (server : TokenServer) (sha256 : Bytes → Bytes) (env : Environment)
    (request : OAuthRequest) (boundJKT : Bytes) (now : Int) (cache : ReplayCache) :
    Except OAuthError Bytes × ReplayCache :=
  if boundJKT = [] ∧ request.transport.dpop = [] then (.ok [], cache)
  else if request.transport.dpop = [] then (.error .proofRequired, cache)
  else
    match verifyDPoPProof sha256 env.proofs cache request.transport.dpop request.transport.method
        (server.authority.issuerURL ++ ascii "/oauth2/token") now with
    | (.error err, cache) => (.error (.proof err), cache)
    | (.ok jkt, cache) =>
      (if boundJKT ≠ [] ∧ jkt ≠ boundJKT then .error .otherKey else .ok jkt, cache)

/-- What the policy engine is asked about a grant. -/
def grantQuestion (client : SpiffeId) (user scope idp : Bytes) (resources : List Bytes) :
    EvalRequest where
  subject :=
    { type := ascii "Spiffe"
      id := client.string
      attrs :=
        [(ascii "kind", .str (inferKind client).text), (ascii "acting_for", .str user),
          (ascii "delegation_chain", textList [user, client.string]),
          (ascii "scope", .str scope)] }
  actionName := ascii "token.id_jag"
  resource := { type := ascii "Spiffe", id := client.string }
  context :=
    [(ascii "delegation_depth", .number 1), (ascii "requested_audience", textList resources),
      (ascii "idp", .str idp)]

/-- The `act` claim of a granted token names the asserted user. -/
def grantAct (user : SpiffeId) (claims : IDClaims) : Value :=
  .obj
    [(ascii "sub", .str user.string), (ascii "kind", .str (ascii "id-jag")),
      (ascii "idp", .str claims.idpName), (ascii "upstream_iss", .str claims.issuer),
      (ascii "upstream_sub", .str claims.subject),
      (ascii "jti", .str (textClaim claims.raw (ascii "jti")))]

def grantClaims (user : SpiffeId) (claims : IDClaims) (scope proofJKT : Bytes) : ClaimSet :=
  (ascii "act", grantAct user claims) :: scopeClaim scope ++
    if proofJKT = [] then [] else [(ascii "cnf", .obj [(ascii "jkt", .str proofJKT)])]

/-- Decide a grant whose assertion was validated, and issue its token. -/
def TokenServer.grantIDJAG (server : TokenServer) (env : Environment) (registry : Registry)
    (request : OAuthRequest) (client : SpiffeId) (claims : IDClaims) (proofJKT : Bytes)
    (clock : Readings) : Except OAuthError OAuthTokenResponse :=
  match grantedResources claims.raw request.resource with
  | .error err => .error err
  | .ok resources =>
    match grantedScope claims.raw request.scope with
    | .error err => .error err
    | .ok scope =>
      match registry.lookup claims.idpName with
      | .error err => .error (.lookup err)
      | .ok config =>
        match renderUserID config.spiffeIDTemplate claims server.authority.trustDomain with
        | .error err => .error err
        | .ok user =>
          match env.evaluate (grantQuestion client user.string scope claims.idpName resources) with
          | .error message => .error (.policy message)
          | .ok (false, _) => .error .denied
          | .ok (true, _) =>
            let ttl := Clock.sub claims.expiresAt clock.remaining
            if ttl ≤ 0 then .error .expired
            else
              match server.authority.issueJWTSVID client resources ttl
                  (grantClaims user claims scope proofJKT) clock.stamped with
              | .error err => .error (.issue err)
              | .ok svid =>
                if ¬ request.recorded then .error .notRecorded
                else
                  .ok { svid
                        tokenType := if proofJKT = [] then .bearer else .dpop
                        expiresIn := wholeSeconds ttl
                        scope
                        delegationChain := [user.string, client.string] }

/-- Validate the assertion of an authenticated client. -/
def TokenServer.readAssertion (server : TokenServer) (env : Environment) (registry : Registry)
    (request : OAuthRequest) (client : SpiffeId) (clock : Readings) :
    Except OAuthError (IDClaims × Bytes) :=
  if request.assertion = [] then .error .assertionRequired
  else
    match registry.validateByIssuer env.idTokens request.assertion clock.second with
    | .error err => .error (.validate err)
    | .ok claims =>
      match server.checkIDJAGClaims claims client with
      | .error err => .error err
      | .ok () =>
        match confirmationJKT claims.raw with
        | none => .error .cnf
        | some boundJKT => .ok (claims, boundJKT)

/-- The client authentication of the token endpoint. -/
def TokenServer.clientPolicy (server : TokenServer) : ClientPolicy where
  authority := server.authority
  jwtEnabled := server.idJAGJWT
  maxAssertionTTL := server.idJAGMaxAssertionTTL

def TokenServer.oauthToken (server : TokenServer) (sha256 : Bytes → Bytes) (env : Environment)
    (caches : Caches) (request : OAuthRequest) (clock : Readings) :
    Except OAuthError OAuthTokenResponse × Caches :=
  match server.idJAG with
  | none => (.error .notConfigured, caches)
  | some registry =>
    if server.authority.issuerURL = [] then (.error .noIssuerURL, caches)
    else if request.grantType ≠ grantTypeJWTBearer then (.error .grantType, caches)
    else
      match authenticateSPIFFEClient sha256 server.clientPolicy env.openToken caches.assertions
          request.client server.authority.issuerURL clock.first with
      | (.error err, assertions) => (.error (.client err), { caches with assertions })
      | (.ok (client, _), assertions) =>
        match server.readAssertion env registry request client clock with
        | .error err => (.error err, { caches with assertions })
        | .ok (claims, boundJKT) =>
          match server.oauthProof sha256 env request boundJKT clock.proof caches.dpop with
          | (.error err, dpop) => (.error err, { dpop, assertions })
          | (.ok proofJKT, dpop) =>
            (server.grantIDJAG env registry request client claims proofJKT clock,
              { dpop, assertions })

variable {claims : IDClaims} {registry : Registry} {client : SpiffeId}

theorem TokenServer.grantIDJAG_signs {request : OAuthRequest} {proofJKT : Bytes}
    {response : OAuthTokenResponse}
    (granted : server.grantIDJAG env registry request client claims proofJKT clock = .ok response) :
    0 < Clock.sub claims.expiresAt clock.remaining ∧
      ∃ user resources scope, grantedResources claims.raw request.resource = .ok resources ∧
        grantedScope claims.raw request.scope = .ok scope ∧
        response.svid = server.authority.stamp client resources
          (tokenLifetime (Clock.sub claims.expiresAt clock.remaining))
          (grantClaims user claims scope proofJKT) clock.stamped := by
  unfold grantIDJAG at granted
  split at granted
  case h_1 => cases granted
  case h_2 resources allowed =>
    split at granted
    case h_1 => cases granted
    case h_2 scope narrowed =>
      split at granted
      case h_1 => cases granted
      case h_2 config _ =>
        split at granted
        case h_1 => cases granted
        case h_2 user _ =>
          split at granted
          case h_1 | h_2 => cases granted
          case h_3 =>
            obtain ⟨remains, granted⟩ := ite_error_eq_ok.mp granted
            split at granted
            case h_1 => cases granted
            case h_2 issued =>
              obtain ⟨-, granted⟩ := ite_error_eq_ok.mp granted
              cases granted
              exact ⟨not_le.mp remains, user, resources, scope, allowed, narrowed,
                Authority.issueJWTSVID_eq_ok issued⟩

theorem TokenServer.readAssertion_eq_ok {request : OAuthRequest} {boundJKT : Bytes}
    (read : server.readAssertion env registry request client clock = .ok (claims, boundJKT)) :
    registry.validateByIssuer env.idTokens request.assertion clock.second = .ok claims ∧
      server.checkIDJAGClaims claims client = .ok () := by
  unfold readAssertion at read
  obtain ⟨-, read⟩ := ite_error_eq_ok.mp read
  split at read
  case h_1 => cases read
  case h_2 validated =>
    split at read
    case h_1 => cases read
    case h_2 checked =>
      split at read
      case h_1 => cases read
      case h_2 =>
        cases read
        exact ⟨validated, checked⟩

theorem TokenServer.oauthToken_signs {caches : Caches} {request : OAuthRequest}
    {response : OAuthTokenResponse}
    (answered : (server.oauthToken sha256 env caches request clock).1 = .ok response) :
    ∃ registry client claims, server.idJAG = some registry ∧
      registry.validateByIssuer env.idTokens request.assertion clock.second = .ok claims ∧
      server.checkIDJAGClaims claims client = .ok () ∧
      0 < Clock.sub claims.expiresAt clock.remaining ∧
      ∃ user resources scope proofJKT,
        grantedResources claims.raw request.resource = .ok resources ∧
        grantedScope claims.raw request.scope = .ok scope ∧
        response.svid = server.authority.stamp client resources
          (tokenLifetime (Clock.sub claims.expiresAt clock.remaining))
          (grantClaims user claims scope proofJKT) clock.stamped := by
  unfold oauthToken at answered
  split at answered
  case h_1 => cases answered
  case h_2 registry configured =>
    split at answered
    case isTrue => cases answered
    split at answered
    case isTrue => cases answered
    split at answered
    case h_1 => cases answered
    case h_2 client _ _ _ =>
      split at answered
      case h_1 => cases answered
      case h_2 claims boundJKT read =>
        split at answered
        case h_1 => cases answered
        case h_2 proofJKT _ _ =>
          obtain ⟨validated, checked⟩ := readAssertion_eq_ok read
          obtain ⟨remains, user, resources, scope, granted⟩ := grantIDJAG_signs answered
          exact ⟨registry, client, claims, configured, validated, checked, remains, user,
            resources, scope, proofJKT, granted⟩

/-! ## OIDC exchange -/

structure OIDCExchangeRequest where
  idp : Bytes
  idToken : Bytes
  audience : List Bytes
  ttlSeconds : Int := 0

inductive OIDCError where
  | notConfigured
  | idpRequired
  | idTokenRequired
  | audienceRequired
  | validate (err : IDPError)
  | lookup (err : IDPError)
  | render (err : RenderError)
  | renderedInvalid
  | renderedTrustDomain
  | expired
  | issue (err : IssueError)
  deriving DecidableEq

structure OIDCExchangeResponse where
  svid : JWTSVID
  expiresIn : Int
  idp : Bytes

/-- The lifetime of the exchanged token, cut to what remains of the ID token's
when that has an expiry. -/
def oidcTTL (request : OIDCExchangeRequest) (claims : IDClaims) (now : Int) : Option Int :=
  if claims.expiresAt = Clock.zeroInstant then some (requestedTTL request.ttlSeconds)
  else capTTL (requestedTTL request.ttlSeconds) claims.expiresAt now

/-- The `act` claim of a user token names the provider that signed the person
in. -/
def signInAct (claims : IDClaims) : Value :=
  .obj
    [(ascii "sub", .str claims.subject), (ascii "iss", .str claims.issuer),
      (ascii "idp", .str claims.idpName), (ascii "kind", .str (ascii "oidc-idp"))]

/-- Issue the token of a person whose ID token was validated. -/
def TokenServer.signIn (server : TokenServer) (request : OIDCExchangeRequest) (config : IDPConfig)
    (claims : IDClaims) (clock : Readings) : Except OIDCError OIDCExchangeResponse :=
  match renderSPIFFEID config.spiffeIDTemplate claims with
  | .error err => .error (.render err)
  | .ok text =>
    match SpiffeId.fromString text with
    | none => .error .renderedInvalid
    | some id =>
      if id.trustDomain ≠ server.authority.trustDomain then .error .renderedTrustDomain
      else
        match oidcTTL request claims clock.remaining with
        | none => .error .expired
        | some ttl =>
          match server.authority.issueJWTSVID id request.audience ttl
              [(ascii "act", signInAct claims)] clock.stamped with
          | .error err => .error (.issue err)
          | .ok svid =>
            .ok { svid, expiresIn := wholeSeconds ttl, idp := claims.idpName }

def TokenServer.exchangeOIDC (server : TokenServer) (env : Environment)
    (request : OIDCExchangeRequest) (clock : Readings) : Except OIDCError OIDCExchangeResponse :=
  match server.oidc with
  | none => .error .notConfigured
  | some registry =>
    if request.idp = [] then .error .idpRequired
    else if request.idToken = [] then .error .idTokenRequired
    else if request.audience = [] then .error .audienceRequired
    else
      match registry.validate env.idTokens request.idp request.idToken clock.first with
      | .error err => .error (.validate err)
      | .ok claims =>
        match registry.lookup request.idp with
        | .error err => .error (.lookup err)
        | .ok config => server.signIn request config claims clock

theorem TokenServer.signIn_signs {request : OIDCExchangeRequest} {config : IDPConfig}
    {response : OIDCExchangeResponse}
    (signedIn : server.signIn request config claims clock = .ok response) :
    ∃ text id ttl, renderSPIFFEID config.spiffeIDTemplate claims = .ok text ∧
      SpiffeId.fromString text = some id ∧ oidcTTL request claims clock.remaining = some ttl ∧
      response.svid = server.authority.stamp id request.audience (tokenLifetime ttl)
        [(ascii "act", signInAct claims)] clock.stamped := by
  unfold signIn at signedIn
  split at signedIn
  case h_1 => cases signedIn
  case h_2 text rendered =>
    split at signedIn
    case h_1 => cases signedIn
    case h_2 id read =>
      obtain ⟨-, signedIn⟩ := ite_error_eq_ok.mp signedIn
      split at signedIn
      case h_1 => cases signedIn
      case h_2 ttl capped =>
        split at signedIn
        case h_1 => cases signedIn
        case h_2 issued =>
          cases signedIn
          exact ⟨text, id, ttl, rendered, read, capped, Authority.issueJWTSVID_eq_ok issued⟩

theorem TokenServer.exchangeOIDC_signs {request : OIDCExchangeRequest}
    {response : OIDCExchangeResponse}
    (answered : server.exchangeOIDC env request clock = .ok response) :
    ∃ registry config claims, server.oidc = some registry ∧
      registry.validate env.idTokens request.idp request.idToken clock.first = .ok claims ∧
      registry.lookup request.idp = .ok config ∧
      server.signIn request config claims clock = .ok response := by
  unfold exchangeOIDC at answered
  split at answered
  case h_1 => cases answered
  case h_2 registry configured =>
    simp only [ite_error_eq_ok] at answered
    obtain ⟨-, -, -, answered⟩ := answered
    split at answered
    case h_1 => cases answered
    case h_2 claims validated =>
      split at answered
      case h_1 => cases answered
      case h_2 config found =>
        exact ⟨registry, config, claims, configured, validated, found, answered⟩

end OmegaPlane.Tokens
