import OmegaPlane.Tokens.Lifetime

/-!
# Delegation chains

An exchanged token belongs to the actor and carries the principal of the subject token in
its `act` claim, with the `act` claim of that token below it.  Read from the inside, the
nested claims and the token's own subject are the history of the delegation, and each
exchange appends its actor.
-/

namespace OmegaPlane.Tokens

open Decision (Value EvalRequest)

/-! ## The audit row of an exchange -/

inductive PolicyDecision where
  | skipped
  | allow
  | deny
  deriving DecidableEq

/-- A row of kind `token.exchange`; a refused exchange has no token to tell of. -/
structure ExchangeRow where
  actor : Bytes
  subject : Bytes
  allowed : Bool
  chain : List Bytes
  requestedAudience : List Bytes
  scope : Bytes
  ttlSeconds : Option Int
  kid : Option Bytes
  actorTokenID : Bytes
  policy : PolicyDecision
  reasons : List Bytes

/-- What the policy engine decided, if it was asked. -/
def TokenServer.exchangeDecision (server : TokenServer) (env : Environment)
    (question : EvalRequest) : Except Bytes (PolicyDecision × List Bytes) :=
  if ¬ server.enforceExchangePolicy then .ok (.skipped, [])
  else
    match env.evaluate question with
    | .error message => .error message
    | .ok (true, reasons) => .ok (.allow, reasons)
    | .ok (false, reasons) => .ok (.deny, reasons)

/-- The rows an exchange writes whose tokens were read and whose proofs were verified. -/
def TokenServer.grantRows (server : TokenServer) (env : Environment)
    (request : TokenExchangeRequest) (tokens : ExchangeTokens) (clock : Readings) :
    List ExchangeRow :=
  match SpiffeId.fromString request.requestedSPIFFEID with
  | none => []
  | some requested =>
    if requested.trustDomain ≠ server.authority.trustDomain then []
    else if requested.string ≠ tokens.actorID.string then []
    else
      let chain := flattenActChain (newAct tokens) ++ [requested.string]
      let row : ExchangeRow :=
        { actor := requested.string, subject := chain.headD [], allowed := false, chain
          requestedAudience := request.audience, scope := request.scope, ttlSeconds := none
          kid := none, actorTokenID := tokens.actorID.string, policy := .deny, reasons := [] }
      match server.exchangeDecision env (exchangeQuestion request requested chain) with
      | .error _ => []
      | .ok (.deny, reasons) => [{ row with reasons }]
      | .ok (policy, reasons) =>
        match exchangeTTL request tokens clock.remaining with
        | none => []
        | some ttl =>
          match server.authority.issueJWTSVID requested request.audience ttl
              (exchangeClaims request tokens) clock.stamped with
          | .error _ => []
          | .ok svid =>
            [{ row with
                allowed := true
                requestedAudience := svid.audience
                ttlSeconds := some (wholeSeconds ttl)
                kid := some svid.keyID
                policy
                reasons }]

def TokenServer.exchangeRows (server : TokenServer) (sha256 : Bytes → Bytes) (env : Environment)
    (cache : ReplayCache) (request : TokenExchangeRequest) (clock : Readings) : List ExchangeRow :=
  match server.readExchange env request clock with
  | .error _ => []
  | .ok tokens =>
    match (server.bindExchange sha256 env request tokens clock.proof cache).1 with
    | .error _ => []
    | .ok () => server.grantRows env request tokens clock

/-! ## One exchange -/

/-- An exchange that was answered with a token. -/
structure Exchanged (sha256 : Bytes → Bytes) where
  server : TokenServer
  env : Environment
  cache : ReplayCache
  request : TokenExchangeRequest
  clock : Readings
  response : TokenExchangeResponse
  answered : (server.tokenExchange sha256 env cache request clock).1 = .ok response

variable {sha256 : Bytes → Bytes} {tokens : ExchangeTokens}

namespace Exchanged

/-- The claims of the new token. -/
def claims (hop : Exchanged sha256) : ClaimSet :=
  hop.response.svid.claims

/-- Whom the actor token belongs to. -/
def actor (hop : Exchanged sha256) : Bytes :=
  match hop.server.authority.parseJWTSVIDClaims (hop.env.openToken hop.request.actorToken)
      hop.clock.second with
  | .ok (id, _) => id.string
  | .error _ => []

def rows (hop : Exchanged sha256) : List ExchangeRow :=
  hop.server.exchangeRows sha256 hop.env hop.cache hop.request hop.clock

end Exchanged

/-- What an answered exchange went through. -/
structure Exchanged.Steps (hop : Exchanged sha256) (tokens : ExchangeTokens) (requested : SpiffeId)
    (ttl : Int) : Prop where
  read : hop.server.readExchange hop.env hop.request hop.clock = .ok tokens
  bound : (hop.server.bindExchange sha256 hop.env hop.request tokens hop.clock.proof
    hop.cache).1 = .ok ()
  isActor : requested.string = tokens.actorID.string
  signed : hop.claims = (hop.server.authority.stamp requested hop.request.audience
    (tokenLifetime ttl) (exchangeClaims hop.request tokens) hop.clock.stamped).claims
  chain : hop.response.delegationChain = flattenActChain (newAct tokens) ++ [requested.string]
  row : ∃ row, hop.rows = [row] ∧ row.chain = hop.response.delegationChain

/-- An exchange that is granted writes one row, with the chain it answers. -/
theorem TokenServer.grantExchange_steps {server : TokenServer} {env : Environment}
    {request : TokenExchangeRequest} {clock : Readings} {response : TokenExchangeResponse}
    (granted : server.grantExchange env request tokens clock = .ok response) :
    ∃ requested ttl, requested.string = tokens.actorID.string ∧
      response.svid = server.authority.stamp requested request.audience (tokenLifetime ttl)
        (exchangeClaims request tokens) clock.stamped ∧
      response.delegationChain = flattenActChain (newAct tokens) ++ [requested.string] ∧
      ∃ row, server.grantRows env request tokens clock = [row] ∧
        row.chain = response.delegationChain := by
  obtain ⟨requested, ttl, read, member, isActor, told, passed, capped, issued⟩ :=
    grantExchange_eq_ok granted
  refine ⟨requested, ttl, isActor, Authority.issueJWTSVID_eq_ok issued, told, ?_⟩
  rw [told] at passed
  unfold grantRows exchangeDecision
  unfold gateExchange at passed
  rw [read]
  dsimp only
  rw [if_neg (not_not.mpr member), if_neg (not_not.mpr isActor)]
  split at passed
  · rename_i off
    rw [if_pos off]
    simp [capped, issued, told]
  · rename_i on
    rw [if_neg on]
    split at passed
    · cases passed
    · rename_i reasons allowed
      simp [allowed, capped, issued, told]
    · cases passed

theorem Exchanged.steps (hop : Exchanged sha256) :
    ∃ tokens requested ttl, hop.Steps tokens requested ttl := by
  obtain ⟨tokens, read, bound, granted⟩ := TokenServer.tokenExchange_eq_ok hop.answered
  obtain ⟨requested, ttl, isActor, signed, chain, row⟩ := TokenServer.grantExchange_steps granted
  refine ⟨tokens, requested, ttl, read, bound, isActor, ?_, chain, ?_⟩
  · rw [claims, signed]
  unfold rows TokenServer.exchangeRows
  rw [read]
  dsimp only
  rw [bound]
  exact row

theorem Exchanged.Steps.actor_eq {hop : Exchanged sha256} {requested : SpiffeId} {ttl : Int}
    (steps : hop.Steps tokens requested ttl) :
    hop.actor = requested.string := by
  rw [actor, (TokenServer.readExchange_parses steps.read).2]
  exact steps.isActor.symm

/-! ## Histories -/

/-- The delegation a token carries, the root principal first and its own subject last. -/
def history (claims : ClaimSet) : List Bytes :=
  (match claims.lookup (ascii "act") with
    | some act => flattenActChain act
    | none => []) ++ [textClaim claims (ascii "sub")]

/-- The subjects of the new `act` claim are those of the subject token. -/
theorem flattenActChain_newAct
    (named : tokens.subjectClaims.lookup (ascii "sub") = some (.str tokens.subjectID.string)) :
    flattenActChain (newAct tokens) = history tokens.subjectClaims := by
  have isText : textClaim tokens.subjectClaims (ascii "sub") = tokens.subjectID.string := by
    rw [textClaim, named]
  have subNe : (ascii "sub" = ascii "act") = False := by decide
  rw [history, isText, newAct]
  cases found : tokens.subjectClaims.lookup (ascii "act") with
  | none =>
    simp [flattenActChain, actSubjects, priorSubjects, textClaim, subNe,
      tokens.subjectID.string_ne_nil]
  | some act =>
    cases act <;> simp [flattenActChain, actSubjects, priorSubjects, textClaim, subNe,
      tokens.subjectID.string_ne_nil]

/-- A token that was read names its principal. -/
theorem Authority.lookup_sub_of_parse {authority : Authority} {opened : Opened} {now : Int}
    {id : SpiffeId} {claims : ClaimSet}
    (parsed : authority.parseJWTSVIDClaims opened now = .ok (id, claims)) :
    claims.lookup (ascii "sub") = some (.str id.string) := by
  obtain ⟨-, std, decoded, -, read, -⟩ := Authority.parse_eq_ok_iff.mp parsed
  have subjectEq := SpiffeId.string_of_fromString read
  rw [subjectEq]
  exact lookup_sub_of_standardClaims decoded (subjectEq ▸ id.string_ne_nil)

namespace Exchanged.Steps

variable {hop : Exchanged sha256} {tokens : ExchangeTokens} {requested : SpiffeId} {ttl : Int}

section

variable (steps : hop.Steps tokens requested ttl)
include steps

theorem lookup_sub : hop.claims.lookup (ascii "sub") = some (.str requested.string) := by
  rw [steps.signed]
  exact lookup_sub_stamp (lookup_eq_none_of_added (added_exchangeClaims _ _) (by decide))

theorem lookup_act : hop.claims.lookup (ascii "act") = some (newAct tokens) := by
  rw [steps.signed]
  simp [Authority.stamp, exchangeClaims]

/-- An exchange appends its actor to the history of the subject token. -/
theorem history_eq : history hop.claims = history tokens.subjectClaims ++ [hop.actor] := by
  have named := Authority.lookup_sub_of_parse (TokenServer.readExchange_parses steps.read).1
  rw [history, steps.lookup_act, textClaim, steps.lookup_sub]
  dsimp only
  rw [flattenActChain_newAct named, steps.actor_eq]

/-- The chain of the response is the history of the new token. -/
theorem chain_eq : hop.response.delegationChain = history hop.claims := by
  rw [steps.chain, history, steps.lookup_act, textClaim, steps.lookup_sub]

end

end Exchanged.Steps

/-- Each exchange takes the token of the one before as its subject token. -/
def Follows (first : ClaimSet) : List (Exchanged sha256) → Prop
  | [] => True
  | hop :: rest =>
    hop.env.openToken hop.request.subjectToken = .verified first ∧ Follows hop.claims rest

/-- The token of each exchange belongs to its actor, and the history it carries is that of
the first token followed by the actors so far; the response and the audit row tell that
history. -/
theorem delegation_history (first : ClaimSet) (hops : List (Exchanged sha256))
    (follows : Follows first hops) (before : List (Exchanged sha256)) (hop : Exchanged sha256)
    (later : List (Exchanged sha256)) (split : hops = before ++ hop :: later) :
    textClaim hop.claims (ascii "sub") = hop.actor ∧
      history hop.claims = history first ++ (before ++ [hop]).map Exchanged.actor ∧
      hop.response.delegationChain = history hop.claims ∧
      ∃ row, hop.rows = [row] ∧ row.chain = history hop.claims := by
  induction before generalizing first hops with
  | nil =>
    subst split
    obtain ⟨tokens, requested, ttl, steps⟩ := hop.steps
    have opened := TokenServer.readExchange_eq_ok steps.read
    have subject : tokens.subjectClaims = first := by
      rw [follows.1] at opened
      cases opened
      rfl
    obtain ⟨row, written, rowChain⟩ := steps.row
    refine ⟨?_, ?_, steps.chain_eq, row, written, rowChain.trans steps.chain_eq⟩
    · rw [textClaim, steps.lookup_sub, steps.actor_eq]
    · rw [steps.history_eq, subject]
      rfl
  | cons earlier before ih =>
    subst split
    obtain ⟨opened, rest⟩ := follows
    obtain ⟨isActor, whole, told⟩ := ih earlier.claims _ rest rfl
    refine ⟨isActor, ?_, told⟩
    obtain ⟨tokens, requested, ttl, steps⟩ := earlier.steps
    have subject : tokens.subjectClaims = first := by
      have read := TokenServer.readExchange_eq_ok steps.read
      rw [opened] at read
      cases read
      rfl
    rw [whole, steps.history_eq, subject]
    simp

/-! ## Two exchanges -/

/-- What a request reads that presents a subject token and an actor token. -/
def twoTokens (subject actor : ClaimSet) : Environment where
  openToken := fun token =>
    if token = ascii "subject" then .verified subject
    else if token = ascii "actor" then .verified actor
    else .malformed
  proofs := { parse := fun _ => none, sameTargetURI := fun _ _ => false }
  idTokens := { openToken := fun _ _ => .error [], peekIssuer := fun _ => none }
  evaluate := fun _ => .ok (false, [])

/-- A token without an `act` claim. -/
def plainToken (id : Bytes) : ClaimSet :=
  [(ascii "sub", .str id), (ascii "aud", .arr [.str (ascii "omega")]), (ascii "exp", .number 600)]

def exchangeFor (id : Bytes) : TokenExchangeRequest where
  transport := { dpop := [], method := ascii "POST", leaf := none }
  grantType := grantTypeTokenExchange
  subjectToken := ascii "subject"
  subjectTokenType := tokenTypeJWT
  actorToken := ascii "actor"
  actorTokenType := tokenTypeJWT
  requestedSPIFFEID := id
  audience := [ascii "tool"]

/-- The exchange of a request that is answered. -/
def Exchanged.ofIsSome (server : TokenServer) (env : Environment) (cache : ReplayCache)
    (request : TokenExchangeRequest) (clock : Readings)
    (answered : (server.tokenExchange sha256 env cache request clock).1.toOption.isSome) :
    Exchanged sha256 where
  server := server
  env := env
  cache := cache
  request := request
  clock := clock
  response := (server.tokenExchange sha256 env cache request clock).1.toOption.get answered
  answered := toOption_eq_some.mp (Option.some_get answered).symm

def aliceID : Bytes := ascii "spiffe://omega.local/humans/alice"
def coderID : Bytes := ascii "spiffe://omega.local/agents/coder"
def helperID : Bytes := ascii "spiffe://omega.local/agents/helper"

def toCoder : Exchanged Crypto.Sha256.sum :=
  .ofIsSome sampleServer (twoTokens (plainToken aliceID) (plainToken coderID))
    (Caches.start 0).dpop (exchangeFor coderID) sampleReadings (by decide +kernel)

def toHelper : Exchanged Crypto.Sha256.sum :=
  .ofIsSome sampleServer (twoTokens toCoder.claims (plainToken helperID)) (Caches.start 0).dpop
    (exchangeFor helperID) sampleReadings (by decide +kernel)

theorem delegation_history_helper :
    history toHelper.claims = [aliceID, coderID, helperID] ∧
      toHelper.response.delegationChain = [aliceID, coderID, helperID] := by
  have follows : Follows (plainToken aliceID) [toCoder, toHelper] := ⟨rfl, rfl, trivial⟩
  obtain ⟨-, whole, told, -⟩ :=
    delegation_history (plainToken aliceID) _ follows [toCoder] toHelper [] rfl
  have actors : history (plainToken aliceID) ++ ([toCoder] ++ [toHelper]).map Exchanged.actor =
      [aliceID, coderID, helperID] := by
    decide +kernel
  rw [told, whole, actors]
  exact ⟨rfl, rfl⟩

end OmegaPlane.Tokens
