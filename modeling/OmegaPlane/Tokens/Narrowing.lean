import OmegaPlane.Tokens.Delegation

/-!
# What an ID-JAG grants

The token endpoint narrows the resources and the scope of an assertion.  An
exchange signs the audience and the scope of its request, whatever its subject
token grants.
-/

namespace OmegaPlane.Tokens

/-- The audience and the scope are granted by the claims of an assertion. -/
def Grants (raw : ClaimSet) (audience : List Bytes) (scope : Bytes) : Prop :=
  audience ⊆ audienceValues (raw.lookup (ascii "resource")) ∧
    Text.fields scope ⊆ Text.fields (textClaim raw (ascii "scope"))

/-- A token is within the assertion. -/
def Within (raw claims : ClaimSet) : Prop :=
  Grants raw ((decodeAudience claims).getD []) (textClaim claims (ascii "scope"))

variable {raw : ClaimSet} {sha256 : Bytes → Bytes} {authority : Authority} {id : SpiffeId}
  {audience : List Bytes} {lifetime now : Int} {scope : Bytes} {further : ClaimSet}

/-- The token signed for an audience and a scope is within what grants them. -/
theorem within_stamp_iff {extra : ClaimSet} (added : ∀ claim ∈ extra, AddedClaim claim.1)
    (carries : textClaim extra (ascii "scope") = scope) :
    Within raw (authority.stamp id audience lifetime extra now).claims ↔
      Grants raw audience scope := by
  have texts (read : Decision.Value → Option Bytes) (reads : ∀ text, read (.str text) = some text)
      (list : List Bytes) : (list.map Decision.Value.str).mapM read = some list := by
    induction list with
    | nil => rfl
    | cons text list ih => simp [reads, ih]
  have signedAudience : decodeAudience (authority.stamp id audience lifetime extra now).claims =
      some audience := by
    rw [decodeAudience, lookup_stamp (lookup_eq_none_of_added added (by decide))]
    exact texts _ (fun _ => rfl) audience
  rw [Within, signedAudience, textClaim, lookup_stamp_of_added (by decide), ← textClaim, carries,
    Option.getD_some]

/-- The scope an endpoint adds after the `act` claim. -/
theorem textClaim_scopeClaim (act : Decision.Value) (scope : Bytes)
    (bound : further.lookup (ascii "scope") = none) :
    textClaim ((ascii "act", act) :: scopeClaim scope ++ further) (ascii "scope") = scope := by
  have notAct : (ascii "scope" == ascii "act") = false := by decide
  by_cases unscoped : scope = [] <;>
    simp [textClaim, scopeClaim, unscoped, List.lookup_cons, notAct, bound]

theorem grants_of_granted {requested resources : List Bytes} {wanted : Bytes}
    (allowed : grantedResources raw requested = .ok resources)
    (narrowed : grantedScope raw wanted = .ok scope) : Grants raw resources scope := by
  constructor
  · unfold grantedResources at allowed
    obtain ⟨-, allowed⟩ := ite_error_eq_ok.mp allowed
    split at allowed
    · cases allowed
    rename_i every
    cases allowed
    split
    · exact List.Subset.refl _
    · intro name member
      have := List.find?_eq_none.mp every name member
      simpa using this
  · unfold grantedScope at narrowed
    dsimp only at narrowed
    split at narrowed
    · cases narrowed
      exact List.Subset.refl _
    split at narrowed
    · cases narrowed
    rename_i every
    cases narrowed
    rw [Text.fields_intercalate_fields]
    intro name member
    have := List.find?_eq_none.mp every name member
    simpa using this

theorem Exchanged.within_iff (hop : Exchanged sha256) :
    Within raw hop.claims ↔ Grants raw hop.request.audience hop.request.scope := by
  obtain ⟨tokens, requested, ttl, steps⟩ := hop.steps
  rw [steps.signed]
  refine within_stamp_iff (added_exchangeClaims _ tokens) (textClaim_scopeClaim _ _ ?_)
  cases keptBinding tokens <;> rfl

/-- A token from the token endpoint is within its assertion; those derived from
it by exchanges are exactly when the exchanges asked for no more. -/
theorem id_jag_narrows_iff {server : TokenServer} {env : Environment} {caches : Caches}
    {request : OAuthRequest} {clock : Readings} {response : OAuthTokenResponse}
    (answered : (server.oauthToken sha256 env caches request clock).1 = .ok response)
    {registry : Registry} (configured : server.idJAG = some registry) {assertion : IDClaims}
    (validated : registry.validateByIssuer env.idTokens request.assertion clock.second =
      .ok assertion) :
    Within assertion.raw response.svid.claims ∧
      ∀ hops : List (Exchanged sha256), Follows response.svid.claims hops →
        ((∀ hop ∈ hops, Within assertion.raw hop.claims) ↔
          ∀ hop ∈ hops, Grants assertion.raw hop.request.audience hop.request.scope) := by
  obtain ⟨registry', client, claims, isRegistry, isClaims, -, -, user, resources, scope, proofJKT,
    allowed, narrowed, signed⟩ := TokenServer.oauthToken_signs answered
  obtain rfl := Option.some.inj (configured.symm.trans isRegistry)
  obtain rfl := Except.ok.inj (validated.symm.trans isClaims)
  constructor
  · rw [signed]
    refine (within_stamp_iff (added_grantClaims user _ scope proofJKT)
      (textClaim_scopeClaim _ _ ?_)).mpr (grants_of_granted allowed narrowed)
    split <;> rfl
  · intro hops _
    exact forall₂_congr fun hop _ => hop.within_iff

/-! ## A wider exchange -/

/-- The assertion a client presents: one resource and one scope. -/
def coderAssertion : ClaimSet :=
  sampleIDToken [(ascii "exp", .number 120), (ascii "iat", .number 60),
    (ascii "jti", .str (ascii "j1")), (ascii "client_id", .str coderID),
    (ascii "resource", .str (ascii "tool")), (ascii "scope", .str (ascii "read"))]

theorem nodup_sampleIDP : ([sampleIDP].map IDPConfig.name).Nodup :=
  List.nodup_singleton _

def grantRegistry : Registry where
  rows := [sampleIDP]
  distinct := nodup_sampleIDP

def grantServer : TokenServer :=
  { sampleServer with idJAG := some grantRegistry }

def grantEnvironment : Environment where
  openToken := fun _ => .malformed
  proofs := { parse := fun _ => none, sameTargetURI := fun _ _ => false }
  idTokens :=
    { openToken := fun _ _ => .ok { typs := [[]], verified := some coderAssertion }
      peekIssuer := fun _ => some (ascii "https://idp") }
  evaluate := fun _ => .ok (true, [])

def grantRequest : OAuthRequest where
  transport := { dpop := [], method := ascii "POST", leaf := none }
  client :=
    { clientAssertionType := [], clientAssertion := [], clientID := []
      certificate := some (.ok coderID) }
  grantType := grantTypeJWTBearer
  assertion := ascii "jwt"

/-- What the token endpoint answers. -/
def coderGrant : OAuthTokenResponse :=
  (grantServer.oauthToken Crypto.Sha256.sum grantEnvironment (Caches.start 0) grantRequest
    sampleReadings).1.toOption.get (by decide +kernel)

theorem oauthToken_coderGrant : (grantServer.oauthToken Crypto.Sha256.sum grantEnvironment
    (Caches.start 0) grantRequest sampleReadings).1 = .ok coderGrant :=
  toOption_eq_some.mp (Option.some_get _).symm

/-- The client exchanges its token for one of the resource. -/
def toTool : Exchanged Crypto.Sha256.sum :=
  .ofIsSome sampleServer (twoTokens coderGrant.svid.claims (plainToken coderID))
    (Caches.start 0).dpop { exchangeFor coderID with scope := ascii "read" } sampleReadings
    (by decide +kernel)

/-- The client exchanges its token for one of another resource. -/
def toOther : Exchanged Crypto.Sha256.sum :=
  .ofIsSome sampleServer (twoTokens coderGrant.svid.claims (plainToken coderID))
    (Caches.start 0).dpop { exchangeFor coderID with audience := [ascii "other"] } sampleReadings
    (by decide +kernel)

theorem id_jag_narrows_iff_toTool :
    Within coderAssertion coderGrant.svid.claims ∧ Within coderAssertion toTool.claims := by
  have validated : ∃ claims, grantRegistry.validateByIssuer grantEnvironment.idTokens
      grantRequest.assertion sampleReadings.second = .ok claims ∧ claims.raw = coderAssertion :=
    ⟨_, rfl, rfl⟩
  obtain ⟨claims, validated, raw⟩ := validated
  obtain ⟨granted, derived⟩ := id_jag_narrows_iff oauthToken_coderGrant rfl validated
  rw [raw] at granted derived
  refine ⟨granted, (derived [toTool] ⟨rfl, trivial⟩).mpr ?_ toTool List.mem_cons_self⟩
  rintro hop member
  obtain rfl := List.mem_singleton.mp member
  exact ⟨by decide +kernel, by decide +kernel⟩

/-- A token of the client is exchanged for one of a resource the assertion does
not name. -/
theorem exchange_widens_id_jag :
    (grantServer.oauthToken Crypto.Sha256.sum grantEnvironment (Caches.start 0) grantRequest
        sampleReadings).1 = .ok coderGrant ∧
      Follows coderGrant.svid.claims [toOther] ∧ ¬ Within coderAssertion toOther.claims := by
  refine ⟨oauthToken_coderGrant, ⟨rfl, trivial⟩, fun inside => ?_⟩
  have granted := (toOther.within_iff.mp inside).1
  exact absurd (granted (List.mem_singleton.mpr rfl)) (by decide +kernel)

end OmegaPlane.Tokens
