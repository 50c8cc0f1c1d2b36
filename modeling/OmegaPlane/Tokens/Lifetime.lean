import OmegaPlane.Tokens.Exchange

/-!
# Issued tokens and their lifetimes

Everything a server has issued, and the rule that a delegated token does not
outlive the credential it was issued for.
-/

namespace OmegaPlane.Tokens

/-! ## Issuances -/

/-- A request to an endpoint that issues JWT-SVIDs. -/
inductive IssuanceRequest where
  | direct (request : IssueRequest)
  | exchange (request : TokenExchangeRequest)
  | idJAG (request : OAuthRequest)
  | signIn (request : OIDCExchangeRequest)

variable (sha256 : Bytes → Bytes)

/-- The token a request is answered with. -/
def TokenServer.issue (server : TokenServer) (env : Environment) (caches : Caches)
    (clock : Readings) : IssuanceRequest → Option JWTSVID
  | .direct request => (server.issueJWTSVID request clock).toOption
  | .exchange request =>
    (server.tokenExchange sha256 env caches.dpop request clock).1.toOption.map (·.svid)
  | .idJAG request => (server.oauthToken sha256 env caches request clock).1.toOption.map (·.svid)
  | .signIn request => (server.exchangeOIDC env request clock).toOption.map (·.svid)

/-- The expiry of the credential a delegated token is issued for: the subject
token, the assertion or the ID token. -/
def TokenServer.inputExpiry (server : TokenServer) (env : Environment) (clock : Readings) :
    IssuanceRequest → Option Int
  | .direct _ => none
  | .exchange request =>
    match env.openToken request.subjectToken with
    | .verified claims => claimExpiry claims
    | _ => none
  | .idJAG request => do
    let registry ← server.idJAG
    let claims ← (registry.validateByIssuer env.idTokens request.assertion clock.second).toOption
    claimExpiry claims.raw
  | .signIn request => do
    let registry ← server.oidc
    let claims ← (registry.validate env.idTokens request.idp request.idToken clock.first).toOption
    claimExpiry claims.raw

/-- A request that was answered with a token, with the server and what it read
at the time. -/
structure Issuance where
  server : TokenServer
  env : Environment
  caches : Caches
  clock : Readings
  request : IssuanceRequest
  svid : JWTSVID
  issued : server.issue sha256 env caches clock request = some svid

variable {sha256}

def Issuance.inputExpiry (issuance : Issuance sha256) : Option Int :=
  issuance.server.inputExpiry issuance.env issuance.clock issuance.request

/-- Only issued tokens verify. -/
def Unforgeable (openToken : Bytes → Opened) (ledger : List (Issuance sha256)) : Prop :=
  ∀ token claims, openToken token = .verified claims →
    ∃ issuance ∈ ledger, issuance.svid.claims = claims

/-! ## What is signed -/

variable {authority : Authority} {id : SpiffeId} {audience : List Bytes} {lifetime now : Int}
  {extra : ClaimSet}

variable {name : Bytes} {expiry ttl : Int}

/-- A claim that is not laid over is the registered one. -/
theorem lookup_stamp (free : extra.lookup name = none) :
    (authority.stamp id audience lifetime extra now).claims.lookup name =
      (authority.stamp id audience lifetime [] now).claims.lookup name := by
  simp only [Authority.stamp, List.append_assoc, List.lookup_append, free, Option.none_or,
    List.nil_append]

theorem lookup_sub_stamp (free : extra.lookup (ascii "sub") = none) :
    (authority.stamp id audience lifetime extra now).claims.lookup (ascii "sub") =
      some (.str id.string) := by
  rw [lookup_stamp free]
  rfl

/-- The expiry a stamped token carries. -/
theorem claimExpiry_stamp (free : extra.lookup (ascii "exp") = none) :
    claimExpiry (authority.stamp id audience lifetime extra now).claims =
      some (Clock.unix (Clock.int64OfFloat (Clock.unixSeconds (now + lifetime)))) := by
  rw [claimExpiry, claimNumericDate, lookup_stamp free]
  rfl

/-- The names of the claims the endpoints add. -/
def AddedClaim (name : Bytes) : Prop :=
  name = ascii "act" ∨ name = ascii "scope" ∨ name = ascii "cnf"

instance (name : Bytes) : Decidable (AddedClaim name) :=
  inferInstanceAs (Decidable (_ ∨ _))

/-- Added claims leave the other names free. -/
theorem lookup_eq_none_of_added (added : ∀ claim ∈ extra, AddedClaim claim.1)
    (other : ¬ AddedClaim name) : extra.lookup name = none := by
  rw [List.lookup_eq_none_iff]
  intro claim member
  rw [bne_iff_ne]
  rintro rfl
  exact other (added claim member)

/-- An added claim is the one laid over. -/
theorem lookup_stamp_of_added (added : AddedClaim name) :
    (authority.stamp id audience lifetime extra now).claims.lookup name = extra.lookup name := by
  have unregistered : (authority.stamp id audience lifetime [] now).claims.lookup name = none := by
    unfold Authority.stamp
    rcases added with rfl | rfl | rfl <;> split <;> rfl
  simp only [Authority.stamp, List.append_assoc, List.nil_append] at unregistered ⊢
  rw [List.lookup_append, unregistered, Option.or_none]

theorem added_bindingClaims (thumbprint : Bytes) :
    ∀ claim ∈ bindingClaims thumbprint, AddedClaim claim.1 := by
  simp [bindingClaims, AddedClaim]

theorem added_scopeClaim (scope : Bytes) : ∀ claim ∈ scopeClaim scope, AddedClaim claim.1 := by
  simp [scopeClaim, AddedClaim]

theorem added_exchangeClaims (request : TokenExchangeRequest) (tokens : ExchangeTokens) :
    ∀ claim ∈ exchangeClaims request tokens, AddedClaim claim.1 := by
  intro claim member
  rw [exchangeClaims, List.cons_append, List.mem_cons, List.mem_append, List.mem_map] at member
  rcases member with rfl | member | ⟨cnf, -, rfl⟩
  · exact Or.inl rfl
  · exact added_scopeClaim request.scope claim member
  · exact Or.inr (Or.inr rfl)

theorem added_grantClaims (user : SpiffeId) (claims : IDClaims) (scope proofJKT : Bytes) :
    ∀ claim ∈ grantClaims user claims scope proofJKT, AddedClaim claim.1 := by
  intro claim member
  rw [grantClaims, List.cons_append, List.mem_cons, List.mem_append] at member
  rcases member with rfl | member | member
  · exact Or.inl rfl
  · exact added_scopeClaim scope claim member
  split at member
  · cases member
  · obtain rfl := List.mem_singleton.mp member
    exact Or.inr (Or.inr rfl)

/-! ## Lifetimes -/

/-- The lifetime of a token fits in what remains until an expiry. -/
def Fits (ttl expiry now : Int) : Prop :=
  0 < ttl ∧ ttl ≤ expiry - now

theorem fits_sub (remains : 0 < Clock.sub expiry now) : Fits (Clock.sub expiry now) expiry now := by
  refine ⟨remains, ?_⟩
  simp only [Clock.sub, Clock.minDuration, Clock.maxDuration] at *
  omega

theorem fits_of_capTTL {capped : Int} (cut : capTTL ttl expiry now = some capped) :
    Fits capped expiry now := by
  unfold capTTL at cut
  dsimp only at cut
  split at cut
  case isTrue => cases cut
  case isFalse remains =>
    have whole := fits_sub (not_le.mp remains)
    obtain rfl := Option.some.inj cut
    split
    case isTrue => exact whole
    case isFalse longer =>
      rw [not_or, not_le, not_lt] at longer
      exact ⟨longer.1, longer.2.trans whole.2⟩

/-- An expiry read from claims is a Unix date. -/
theorem exists_unix_of_claimExpiry {claims : ClaimSet} (found : claimExpiry claims = some expiry) :
    ∃ seconds, expiry = Clock.unix seconds := by
  unfold claimExpiry claimNumericDate at found
  split at found
  · exact ⟨_, (Option.some.inj found).symm⟩
  · cases found

theorem TokenServer.exists_unix_of_inputExpiry {server : TokenServer} {env : Environment}
    {clock : Readings} {request : IssuanceRequest}
    (found : server.inputExpiry env clock request = some expiry) :
    ∃ seconds, expiry = Clock.unix seconds := by
  cases request with
  | direct => cases found
  | exchange =>
    rw [inputExpiry] at found
    split at found
    · exact exists_unix_of_claimExpiry found
    · cases found
  | idJAG | signIn =>
    simp only [inputExpiry, Option.bind_eq_bind, Option.bind_eq_some_iff] at found
    obtain ⟨_, -, _, -, found⟩ := found
    exact exists_unix_of_claimExpiry found

/-- A token whose lifetime fits at one reading of the clock and that is stamped
less than a second later does not outlive the expiry, in whole seconds. -/
theorem stamped_le_of_fits {seconds remaining stamped : Int} (epoch : 0 ≤ remaining)
    (le : remaining ≤ stamped) (prompt : stamped < remaining + Clock.second)
    (fits : Fits ttl (Clock.unix seconds) remaining) :
    Clock.unix (Clock.int64OfFloat (Clock.unixSeconds (stamped + tokenLifetime ttl))) ≤
      Clock.unix seconds := by
  obtain ⟨positive, within⟩ := fits
  have short : 0 < tokenLifetime ttl ∧ tokenLifetime ttl ≤ ttl := by
    rw [tokenLifetime, if_neg (by omega)]
    simp only [maxJWTTTL, Clock.hour, Clock.minute, Clock.second]
    omega
  -- the expiry bounds the stamped date, which therefore does not wrap
  obtain ⟨whole, expiryEq, high⟩ := Clock.exists_unix_eq seconds
  rw [expiryEq] at within ⊢
  have early : Clock.unixSeconds (stamped + tokenLifetime ttl) ≤ whole := by
    apply Clock.unixSeconds_le_of_lt
    rw [add_mul, one_mul]
    omega
  have late : 0 ≤ Clock.unixSeconds (stamped + tokenLifetime ttl) :=
    Clock.unixSeconds_nonneg (by omega)
  simp only [Clock.epochSeconds, Clock.maxDuration] at high
  rw [Clock.int64OfFloat_intCast, Clock.unix_of_fits]
  · exact Int.mul_le_mul_of_nonneg_right early (by decide)
  all_goals
    simp only [Clock.epochSeconds, Clock.minDuration, Clock.maxDuration]
    omega

/-- Every token is stamped with claims that are laid over none of the
registered ones, for a time that fits in what remains of its credential. -/
theorem Issuance.stamped (issuance : Issuance sha256) :
    ∃ id audience ttl extra, (∀ claim ∈ extra, AddedClaim claim.1) ∧
      issuance.svid = issuance.server.authority.stamp id audience (tokenLifetime ttl) extra
        issuance.clock.stamped ∧
      ∀ expiry, issuance.inputExpiry = some expiry → Fits ttl expiry issuance.clock.remaining := by
  obtain ⟨server, env, caches, clock, request, svid, issued⟩ := issuance
  cases request with
  | direct =>
    obtain ⟨id, signed⟩ := TokenServer.issueJWTSVID_signs (toOption_eq_some.mp issued)
    refine ⟨id, _, _, _, added_bindingClaims _, signed, ?_⟩
    intro expiry found
    cases found
  | exchange request =>
    obtain ⟨response, answered, rfl⟩ := Option.map_eq_some_iff.mp issued
    obtain ⟨tokens, requested, ttl, read, capped, signed⟩ :=
      TokenServer.tokenExchange_signs (toOption_eq_some.mp answered)
    refine ⟨requested, _, ttl, _, added_exchangeClaims request tokens, signed, ?_⟩
    intro expiry found
    have subject : claimExpiry tokens.subjectClaims = some expiry := by
      rw [← found, Issuance.inputExpiry, TokenServer.inputExpiry,
        TokenServer.readExchange_eq_ok read]
    rw [exchangeTTL, subject] at capped
    exact fits_of_capTTL capped
  | idJAG =>
    obtain ⟨response, answered, rfl⟩ := Option.map_eq_some_iff.mp issued
    obtain ⟨registry, client, claims, configured, validated, checked, remains, user, resources,
      scope, proofJKT, -, -, signed⟩ := TokenServer.oauthToken_signs (toOption_eq_some.mp answered)
    refine ⟨client, resources, _, _, added_grantClaims user claims scope proofJKT, signed, ?_⟩
    intro expiry found
    have assertion : claimExpiry claims.raw = some expiry := by
      rw [← found, Issuance.inputExpiry, TokenServer.inputExpiry, configured, Option.bind_eq_bind,
        Option.bind_some, validated]
      rfl
    obtain ⟨config, valid⟩ := Registry.exists_of_validateByIssuer validated
    have expiryEq := (IDPConfig.expiresAt_of_validate valid).1
    rw [assertion, Option.getD_some] at expiryEq
    rw [expiryEq] at remains ⊢
    exact fits_sub remains
  | signIn =>
    obtain ⟨response, answered, rfl⟩ := Option.map_eq_some_iff.mp issued
    obtain ⟨registry, config, claims, configured, validated, -, signedIn⟩ :=
      TokenServer.exchangeOIDC_signs (toOption_eq_some.mp answered)
    obtain ⟨text, id, ttl, -, -, capped, signed⟩ := TokenServer.signIn_signs signedIn
    refine ⟨id, _, ttl, _, by simp [AddedClaim], signed, ?_⟩
    intro expiry found
    have idToken : claimExpiry claims.raw = some expiry := by
      rw [← found, Issuance.inputExpiry, TokenServer.inputExpiry, configured, Option.bind_eq_bind,
        Option.bind_some, validated]
      rfl
    obtain ⟨_, valid⟩ := Registry.exists_of_validate validated
    obtain ⟨expiryEq, unexpired⟩ := IDPConfig.expiresAt_of_validate valid
    rw [idToken, Option.getD_some] at expiryEq
    -- an unexpired date after the epoch is not the zero instant
    have present : claims.expiresAt ≠ Clock.zeroInstant := by
      have late := unexpired expiry idToken
      have epoch := clock.epoch
      simp only [leeway, Clock.zeroInstant, Clock.epochSeconds, Clock.second] at *
      omega
    rw [oidcTTL, if_neg present, expiryEq] at capped
    exact fits_of_capTTL capped

/-- Every issued token carries an expiry. -/
theorem Issuance.exists_claimExpiry (issuance : Issuance sha256) :
    ∃ expiry, claimExpiry issuance.svid.claims = some expiry := by
  obtain ⟨id, audience, ttl, extra, added, signed, -⟩ := issuance.stamped
  rw [signed]
  exact ⟨_, claimExpiry_stamp (lookup_eq_none_of_added added (by decide))⟩

/-! ## Delegated authority -/

/-- The endpoints that turn another credential into a token. -/
def IssuanceRequest.delegates : IssuanceRequest → Bool
  | .direct _ => false
  | _ => true

/-- The credential carries an expiry and the issued token's is not later. -/
def Issuance.WithinCredential (issuance : Issuance sha256) : Prop :=
  ∃ expiry issued, issuance.inputExpiry = some expiry ∧
    claimExpiry issuance.svid.claims = some issued ∧ issued ≤ expiry

/-- A token of the exchange is issued for one that was issued before, and an
assertion is only taken with an expiry. -/
theorem Issuance.inputExpiry_ne_none (issuance : Issuance sha256)
    {ledger : List (Issuance sha256)}
    (unforgeable : Unforgeable issuance.env.openToken ledger)
    (delegated : issuance.request.delegates = true)
    (other : ∀ request, issuance.request ≠ .signIn request) : issuance.inputExpiry ≠ none := by
  obtain ⟨server, env, caches, clock, request, svid, issued⟩ := issuance
  cases request with
  | direct => cases delegated
  | signIn request => exact absurd rfl (other request)
  | exchange =>
    obtain ⟨response, answered, rfl⟩ := Option.map_eq_some_iff.mp issued
    obtain ⟨tokens, requested, ttl, read, -, -⟩ :=
      TokenServer.tokenExchange_signs (toOption_eq_some.mp answered)
    have opened := TokenServer.readExchange_eq_ok read
    obtain ⟨earlier, -, same⟩ := unforgeable _ _ opened
    obtain ⟨expiry, found⟩ := earlier.exists_claimExpiry
    rw [same] at found
    rw [Issuance.inputExpiry, TokenServer.inputExpiry, opened]
    simp only [found, ne_eq, reduceCtorEq, not_false_eq_true]
  | idJAG =>
    obtain ⟨response, answered, rfl⟩ := Option.map_eq_some_iff.mp issued
    obtain ⟨registry, client, claims, configured, validated, checked, -⟩ :=
      TokenServer.oauthToken_signs (toOption_eq_some.mp answered)
    intro missing
    have absent : claimExpiry claims.raw = none := by
      rw [← missing, Issuance.inputExpiry, TokenServer.inputExpiry, configured,
        Option.bind_eq_bind, Option.bind_some, validated]
      rfl
    obtain ⟨config, valid⟩ := Registry.exists_of_validateByIssuer validated
    have expiryEq := (IDPConfig.expiresAt_of_validate valid).1
    rw [absent, Option.getD_none] at expiryEq
    unfold TokenServer.checkIDJAGClaims at checked
    simp only [ite_error_eq_ok] at checked
    exact checked.2.2.1 (Or.inr expiryEq)

/-- A delegated token does not outlive the credential it was issued for, exactly
when that is not an ID token without an expiry. -/
theorem Issuance.withinCredential_iff (issuance : Issuance sha256)
    {ledger : List (Issuance sha256)}
    (unforgeable : Unforgeable issuance.env.openToken ledger)
    (delegated : issuance.request.delegates = true)
    (prompt : issuance.clock.stamped < issuance.clock.remaining + Clock.second) :
    issuance.WithinCredential ↔
      ∀ request, issuance.request = .signIn request → issuance.inputExpiry ≠ none := by
  constructor
  · rintro ⟨expiry, issued, found, -, -⟩ request -
    rw [found]
    exact Option.some_ne_none expiry
  · intro carries
    have present : issuance.inputExpiry ≠ none := by
      by_cases signIn : ∃ request, issuance.request = .signIn request
      · obtain ⟨request, same⟩ := signIn
        exact carries request same
      · exact issuance.inputExpiry_ne_none unforgeable delegated fun request same =>
          signIn ⟨request, same⟩
    obtain ⟨expiry, found⟩ := Option.ne_none_iff_exists'.mp present
    obtain ⟨seconds, rfl⟩ := TokenServer.exists_unix_of_inputExpiry found
    obtain ⟨id, audience, ttl, extra, added, signed, fits⟩ := issuance.stamped
    have epoch : 0 ≤ issuance.clock.remaining :=
      issuance.clock.epoch.trans (issuance.clock.second_le.trans
        (issuance.clock.proof_le.trans issuance.clock.remaining_le))
    refine ⟨Clock.unix seconds, _, found, ?_,
      stamped_le_of_fits epoch issuance.clock.stamped_le prompt (fits _ found)⟩
    rw [signed]
    exact claimExpiry_stamp (lookup_eq_none_of_added added (by decide))

/-! ## An ID token without an expiry -/

def sampleIDP : IDPConfig where
  name := ascii "corp"
  issuer := ascii "https://idp"
  audiences := [ascii "omega"]
  spiffeIDTemplate := ascii "spiffe://omega.local/humans/\x7bsub\x7d"

/-- A server with one provider. -/
def sampleServer : TokenServer where
  authority := sampleAuthority
  requireAuth := true
  enforceExchangePolicy := false
  oidc := some { rows := [sampleIDP], distinct := List.nodup_singleton _ }
  idJAG := none
  idJAGJWT := false
  idJAGMaxAssertionTTL := defaultIDJAGMaxAssertionTTL

/-- An ID token of the provider with further claims. -/
def sampleIDToken (further : ClaimSet) : ClaimSet :=
  [(ascii "iss", .str (ascii "https://idp")), (ascii "sub", .str (ascii "alice")),
    (ascii "aud", .str (ascii "omega"))] ++ further

/-- What a request reads that presents the ID token. -/
def sampleEnvironment (further : ClaimSet) : Environment where
  openToken := fun _ => .malformed
  proofs := { parse := fun _ => none, sameTargetURI := fun _ _ => false }
  idTokens :=
    { openToken := fun _ _ => .ok { typs := [[]], verified := some (sampleIDToken further) }
      peekIssuer := fun _ => none }
  evaluate := fun _ => .ok (false, [])

def sampleReadings : Readings where
  first := 90 * Clock.second
  second := 90 * Clock.second
  proof := 90 * Clock.second
  remaining := 90 * Clock.second
  stamped := 90 * Clock.second
  epoch := by decide
  second_le := le_rfl
  proof_le := le_rfl
  remaining_le := le_rfl
  stamped_le := le_rfl

/-- A sign-in that asks for a token of a day. -/
def sampleSignIn : OIDCExchangeRequest where
  idp := ascii "corp"
  idToken := ascii "jwt"
  audience := [ascii "omega-ui"]
  ttlSeconds := 86400

/-- The issuance of a request that is answered. -/
def Issuance.ofIsSome (server : TokenServer) (env : Environment) (caches : Caches)
    (clock : Readings) (request : IssuanceRequest)
    (answered : (server.issue sha256 env caches clock request).isSome) : Issuance sha256 where
  server := server
  env := env
  caches := caches
  clock := clock
  request := request
  svid := (server.issue sha256 env caches clock request).get answered
  issued := (Option.some_get answered).symm

/-- The ID token expires two minutes after the epoch. -/
def expiringSignIn : Issuance Crypto.Sha256.sum :=
  .ofIsSome sampleServer (sampleEnvironment [(ascii "exp", .number 120)]) (Caches.start 0)
    sampleReadings (.signIn sampleSignIn) (by decide +kernel)

theorem withinCredential_iff_expiringSignIn : expiringSignIn.WithinCredential := by
  have unforgeable : Unforgeable expiringSignIn.env.openToken
      ([] : List (Issuance Crypto.Sha256.sum)) := by
    intro token claims opened
    cases opened
  apply (expiringSignIn.withinCredential_iff unforgeable rfl (by decide)).mpr
  intro request _
  decide

/-- The ID token has no expiry. -/
def unendingSignIn : Issuance Crypto.Sha256.sum :=
  .ofIsSome sampleServer (sampleEnvironment []) (Caches.start 0) sampleReadings
    (.signIn sampleSignIn) (by decide +kernel)

/-- An ID token without an expiry is exchanged for a token that is valid for a
day. -/
theorem unending_id_token_exchanged :
    unendingSignIn.inputExpiry = none ∧ ¬ unendingSignIn.WithinCredential ∧
      claimExpiry unendingSignIn.svid.claims = some (86490 * Clock.second) := by
  have missing : unendingSignIn.inputExpiry = none := by decide
  refine ⟨missing, ?_, by decide⟩
  rintro ⟨expiry, _, found, -⟩
  rw [missing] at found
  cases found

end OmegaPlane.Tokens
