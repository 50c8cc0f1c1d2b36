import OmegaPlane.Tokens.Lifetime

/-!
# User tokens

The token a UI proxy presents for a person.  Whatever was issued before and
however tokens were chained, only a sign-in makes one.
-/

namespace OmegaPlane.Tokens

open Decision (Value)

/-- The settings of user tokens. -/
structure UIProxy where
  audience : Bytes
  maxTokenTTL : Int

/-- Which check a user token failed. -/
inductive UserTokenError where
  | malformed
  | expired
  | signature
  | unverified
  | audience
  | times
  | lifetime
  | cnf
  | act
  | actChain
  deriving DecidableEq

/-- The `act` claim of a person signed in through a provider, and of nobody
else. -/
def checkSignIn (claims : ClaimSet) : Except UserTokenError Unit :=
  match claims.lookup (ascii "act") with
  | some (.obj act) =>
    match act.lookup (ascii "kind") with
    | some (.str kind) =>
      if kind ≠ ascii "oidc-idp" then .error .act
      else if (act.lookup (ascii "act")).isSome then .error .actChain
      else .ok ()
    | _ => .error .act
  | _ => .error .act

/-- The checks on the claims of a user token. -/
def UIProxy.checkClaims (proxy : UIProxy) (claims : ClaimSet) (now : Int) :
    Except UserTokenError Unit :=
  if audienceValues (claims.lookup (ascii "aud")) ≠ [proxy.audience] then .error .audience
  else
    match claimExpiry claims, claimNumericDate claims (ascii "iat") with
    | some exp, some iat =>
      if exp ≤ now then .error .expired
      else if proxy.maxTokenTTL < Clock.sub exp iat then .error .lifetime
      else if (claims.lookup (ascii "cnf")).isSome then .error .cnf
      else checkSignIn claims
    | _, _ => .error .times

/-- Check a user token and return its subject. -/
def verifyUserToken (authority : Authority) (proxy : UIProxy) (opened : Opened)
    (parsed now : Int) : Except UserTokenError Bytes :=
  match authority.parseJWTSVIDClaims opened parsed with
  | .error .malformed => .error .malformed
  | .error (.invalid .expired) => .error .expired
  | .error .badSignature => .error .signature
  | .error _ => .error .unverified
  | .ok (id, claims) =>
    match proxy.checkClaims claims now with
    | .error err => .error err
    | .ok () => .ok id.string

variable {claims : ClaimSet} {proxy : UIProxy} {now : Int} {subject : Bytes}
  {sha256 : Bytes → Bytes}

theorem checkSignIn_of_checkClaims (checked : proxy.checkClaims claims now = .ok ()) :
    checkSignIn claims = .ok () := by
  unfold UIProxy.checkClaims at checked
  obtain ⟨-, checked⟩ := ite_error_eq_ok.mp checked
  split at checked
  · simp only [ite_error_eq_ok] at checked
    exact checked.2.2.2
  · cases checked

/-- What an accepted user token carries. -/
theorem verifyUserToken_eq_ok {authority : Authority} {opened : Opened} {parsed : Int}
    (accepted : verifyUserToken authority proxy opened parsed now = .ok subject) :
    ∃ claims, opened = .verified claims ∧ checkSignIn claims = .ok () ∧
      claims.lookup (ascii "sub") = some (.str subject) := by
  unfold verifyUserToken at accepted
  split at accepted
  case h_5 id claims read =>
    split at accepted
    case h_1 => cases accepted
    case h_2 checked =>
      cases accepted
      obtain ⟨opened, std, decoded, -, named, -⟩ := Authority.parse_eq_ok_iff.mp read
      have subject : id.string = std.subject := SpiffeId.string_of_fromString named
      refine ⟨claims, opened, checkSignIn_of_checkClaims checked, ?_⟩
      rw [subject]
      exact lookup_sub_of_standardClaims decoded (subject ▸ id.string_ne_nil)
  all_goals cases accepted

/-! ## The endpoints other than the sign-in -/

theorem checkSignIn_of_none (absent : claims.lookup (ascii "act") = none) :
    checkSignIn claims = .error .act := by
  rw [checkSignIn, absent]

/-- An exchange nests what it was given below an `act` claim without a kind. -/
theorem checkSignIn_of_newAct {tokens : ExchangeTokens}
    (carried : claims.lookup (ascii "act") = some (newAct tokens)) :
    checkSignIn claims = .error .act := by
  have noKind : ∀ prior : ClaimSet, prior = [] ∨ (∃ act, prior = [(ascii "act", .obj act)]) →
      ((ascii "sub", .str tokens.subjectID.string) :: prior).lookup (ascii "kind") = none := by
    rintro prior (rfl | ⟨act, rfl⟩) <;> rfl
  rw [checkSignIn, carried, newAct]
  dsimp only
  rw [noKind]
  split
  · exact Or.inr ⟨_, rfl⟩
  · exact Or.inl rfl

/-- A granted token's `act` claim has a kind of its own. -/
theorem checkSignIn_of_grantAct {user : SpiffeId} {asserted : IDClaims}
    (carried : claims.lookup (ascii "act") = some (grantAct user asserted)) :
    checkSignIn claims = .error .act := by
  rw [checkSignIn, carried]
  rfl

/-- The person a sign-in was for: the provider's claims and the identity
rendered from them. -/
def Issuance.SignsIn (issuance : Issuance sha256) (subject : Bytes) : Prop :=
  ∃ request registry config claims, issuance.request = .signIn request ∧
    issuance.server.oidc = some registry ∧
    registry.validate issuance.env.idTokens request.idp request.idToken issuance.clock.first =
      .ok claims ∧
    registry.lookup request.idp = .ok config ∧
    renderSPIFFEID config.spiffeIDTemplate claims = .ok subject

/-- A token that passes for one of a signed-in person was issued by a sign-in,
for the person it names. -/
theorem Issuance.signsIn_of_checkSignIn (issuance : Issuance sha256)
    (checked : checkSignIn issuance.svid.claims = .ok ())
    (named : issuance.svid.claims.lookup (ascii "sub") = some (.str subject)) :
    issuance.SignsIn subject := by
  obtain ⟨server, env, caches, clock, request, svid, issued⟩ := issuance
  dsimp only at checked named
  cases request with
  | direct =>
    obtain ⟨id, rfl⟩ := TokenServer.issueJWTSVID_signs (toOption_eq_some.mp issued)
    rw [checkSignIn_of_none] at checked
    · cases checked
    · rw [lookup_stamp_of_added (.inl rfl), bindingClaims]
      split <;> rfl
  | exchange =>
    obtain ⟨response, answered, rfl⟩ := Option.map_eq_some_iff.mp issued
    obtain ⟨tokens, requested, ttl, -, -, signed⟩ :=
      TokenServer.tokenExchange_signs (toOption_eq_some.mp answered)
    rw [signed, checkSignIn_of_newAct] at checked
    · cases checked
    · rw [lookup_stamp_of_added (.inl rfl)]
      rfl
  | idJAG =>
    obtain ⟨response, answered, rfl⟩ := Option.map_eq_some_iff.mp issued
    obtain ⟨registry, client, claims, -, -, -, -, user, resources, scope, proofJKT, -, -, signed⟩ :=
      TokenServer.oauthToken_signs (toOption_eq_some.mp answered)
    rw [signed, checkSignIn_of_grantAct] at checked
    · cases checked
    · rw [lookup_stamp_of_added (.inl rfl)]
      rfl
  | signIn request =>
    obtain ⟨response, answered, rfl⟩ := Option.map_eq_some_iff.mp issued
    obtain ⟨registry, config, claims, configured, validated, found, signedIn⟩ :=
      TokenServer.exchangeOIDC_signs (toOption_eq_some.mp answered)
    obtain ⟨text, id, ttl, rendered, read, -, signed⟩ := TokenServer.signIn_signs signedIn
    refine ⟨request, registry, config, claims, rfl, configured, validated, found, ?_⟩
    rw [signed, lookup_sub_stamp rfl, SpiffeId.string_of_fromString read] at named
    cases named
    exact rendered

/-- Every token accepted as a user token was issued by a sign-in, and its subject
is the identity rendered for the person, whatever else was issued before. -/
theorem signsIn_of_verifyUserToken {ledger : List (Issuance sha256)}
    {openToken : Bytes → Opened} (unforgeable : Unforgeable openToken ledger)
    {authority : Authority} {proxy : UIProxy} {token : Bytes} {parsed now : Int} {subject : Bytes}
    (accepted : verifyUserToken authority proxy (openToken token) parsed now = .ok subject) :
    ∃ issuance ∈ ledger, openToken token = .verified issuance.svid.claims ∧
      issuance.SignsIn subject := by
  obtain ⟨claims, opened, checked, named⟩ := verifyUserToken_eq_ok accepted
  obtain ⟨issuance, member, rfl⟩ := unforgeable token claims opened
  exact ⟨issuance, member, opened, issuance.signsIn_of_checkSignIn checked named⟩

/-- The tokens that open when one person has signed in. -/
def openSignedIn (token : Bytes) : Opened :=
  if token = ascii "t" then .verified expiringSignIn.svid.claims else .malformed

theorem signsIn_of_verifyUserToken_alice :
    ∃ issuance ∈ [expiringSignIn], openSignedIn (ascii "t") = .verified issuance.svid.claims ∧
      issuance.SignsIn (ascii "spiffe://omega.local/humans/alice") := by
  have unforgeable : Unforgeable openSignedIn [expiringSignIn] := by
    intro token claims opened
    unfold openSignedIn at opened
    split at opened
    · cases opened
      exact ⟨expiringSignIn, List.mem_singleton_self _, rfl⟩
    · cases opened
  have accepted : verifyUserToken sampleAuthority
      { audience := ascii "omega-ui", maxTokenTTL := Clock.hour } (openSignedIn (ascii "t"))
      (100 * Clock.second) (100 * Clock.second) =
        .ok (ascii "spiffe://omega.local/humans/alice") := by
    decide +kernel
  exact signsIn_of_verifyUserToken unforgeable accepted

end OmegaPlane.Tokens
