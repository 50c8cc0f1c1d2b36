import OmegaPlane.Tokens.Claims
import OmegaPlane.Tokens.KeySet

/-!
# Validating a JWT-SVID at the agent and at the control plane

An agent validates tokens against the JWKS its control plane publishes, and the
control plane against the keys it published them from.  Both select the key by
the token's key id and check the same dates and audience; the control plane also
looks at the subject, and asks an upstream's token for an expiry.
-/

namespace OmegaPlane.Tokens

/-- A parsed compact JWS: the key ids of its headers, the keys its signature
verifies under, and its payload when that is a JSON object. -/
structure Jws (κ : Type) where
  headers : List Bytes
  verifies : κ → Bool
  payload : Option ClaimSet

/-- The claims of a token whose signature verifies. -/
def Jws.claims {κ : Type} (jws : Jws κ) (pub : κ) : Option (StandardClaims × ClaimSet) :=
  if jws.verifies pub then
    jws.payload.bind fun raw => (standardClaims raw).map fun std => (std, raw)
  else none

/-- The libraries both sides share. -/
structure Jose (κ δ : Type) where
  curve : Curve κ
  codec : JwksCodec δ
  sha256 : Bytes → Bytes
  sha256_ne_nil : ∀ bytes, sha256 bytes ≠ []
  /-- Parse a token signed with ES256. -/
  parseSigned : Bytes → Option (Jws κ)
  /-- Whether claims have a protobuf form. -/
  newStruct : ClaimSet → Bool

inductive Refusal where
  | audienceRequired
  | svidRequired
  | jwks (err : JwkError)
  | notConfigured
  | parse
  | noHeader
  | noKid
  | unknownKid
  | verify
  | noExpiry
  | invalid (err : ValidationError)
  | subject
  | trustDomain
  | claims
  deriving DecidableEq

section

variable {κ δ : Type} (jose : Jose κ δ)

/-! ## The agent -/

/-- Check a token against the keys of a JWKS. -/
def validateAgainstJWKS (keySet : List (Bytes × κ)) (token audience : Bytes) (now : Int) :
    Except Refusal (Bytes × ClaimSet) :=
  match jose.parseSigned token with
  | none => .error .parse
  | some jws =>
    match jws.headers with
    | [] => .error .noHeader
    | kid :: _ =>
      match keySet.lookup kid with
      | none => .error .unknownKid
      | some pub =>
        match jws.claims pub with
        | none => .error .verify
        | some (std, raw) =>
          match std.validate [audience] now with
          | .error err => .error (.invalid err)
          | .ok () => .ok (std.subject, raw)

/-- The agent's answer to a workload: the subject and the claims. -/
def agentValidateJWTSVID (jwks : δ) (svid audience : Bytes) (now : Int) :
    Except Refusal (Bytes × ClaimSet) :=
  if audience = [] then .error .audienceRequired
  else if svid = [] then .error .svidRequired
  else
    match parseJWKS jose.curve jose.codec jwks with
    | .error err => .error (.jwks err)
    | .ok keySet =>
      match validateAgainstJWKS jose keySet svid audience now with
      | .error err => .error err
      | .ok (id, claims) =>
        if jose.newStruct claims then .ok (id, claims) else .error .claims

/-! ## The control plane -/

/-- The checks on verified claims: dates and audience, then the subject. -/
def checkedID (trustDomain : Bytes) (std : StandardClaims) (audience : Bytes) (now : Int) :
    Except Refusal SpiffeId :=
  match std.validate [audience] now with
  | .error err => .error (.invalid err)
  | .ok () =>
    match SpiffeId.fromString std.subject with
    | none => .error .subject
    | some id => if id.trustDomain = trustDomain then .ok id else .error .trustDomain

/-- The CAs of a control plane that issues its own identities: the key of the
active one, and of the prepared and previous ones. -/
structure OwnCAs (κ : Type) where
  trustDomain : Bytes
  active : Option κ
  others : List (Option κ)

def OwnCAs.trusted (cas : OwnCAs κ) : List (Option κ) :=
  cas.active :: cas.others

/-- The key of a CA that a token with this key id is checked with. -/
def selected (kid : Bytes) (isActive : Bool) (ca : Option κ) : Option κ := do
  let id ← keyIDOf jose.curve jose.sha256 ca
  if kid = [] ∧ isActive ∨ kid = id then ca else none

/-- The trusted CA key a token names, or the active one when it names none. -/
def OwnCAs.verificationKey (cas : OwnCAs κ) (jws : Jws κ) : Option κ :=
  let kid := jws.headers.head?.getD []
  (selected jose kid true cas.active).or (cas.others.findSome? (selected jose kid false))

def OwnCAs.validateJWTSVID (cas : OwnCAs κ) (token audience : Bytes) (now : Int) :
    Except Refusal SpiffeId :=
  match jose.parseSigned token with
  | none => .error .parse
  | some jws =>
    match cas.verificationKey jose jws with
    | none => .error .unknownKid
    | some pub =>
      match jws.claims pub with
      | none => .error .verify
      | some (std, _) => checkedID cas.trustDomain std audience now

/-- The trust in an upstream: its keys, as read from the JWKS it supplied. -/
structure Upstream where
  trustDomain : Bytes
  supplied : Option δ
  trust : UpstreamTrust κ δ
  parsed : parseUpstreamJWKS jose.curve jose.codec supplied = .ok trust

def Upstream.validateJWTSVID {jose : Jose κ δ} (upstream : Upstream jose)
    (token audience : Bytes) (now : Int) : Except Refusal SpiffeId :=
  if upstream.trust.jwtKeys = [] then .error .notConfigured
  else
    match jose.parseSigned token with
    | none => .error .parse
    | some jws =>
      match jws.headers with
      | [] => .error .noHeader
      | kid :: _ =>
        if kid = [] then .error .noKid
        else
          match upstream.trust.jwtKeys.lookup kid with
          | none => .error .unknownKid
          | some pub =>
            match jws.claims pub with
            | none => .error .verify
            | some (std, _) =>
              if std.expiry = none then .error .noExpiry
              else checkedID upstream.trustDomain std audience now

/-- Where a control plane takes its identities from. -/
inductive Source where
  | own (cas : OwnCAs κ)
  | upstream (remote : Upstream jose)

variable {jose}

def Source.trustDomain : Source jose → Bytes
  | .own cas => cas.trustDomain
  | .upstream remote => remote.trustDomain

/-- The JWKS the control plane serves. -/
def Source.jwtBundle : Source jose → Option δ
  | .own cas => ownJWKS jose.curve jose.codec jose.sha256 cas.trusted
  | .upstream remote => some remote.trust.jwtBundle

def Source.validateJWTSVID (source : Source jose) (token audience : Bytes) (now : Int) :
    Except Refusal SpiffeId :=
  match source with
  | .own cas => cas.validateJWTSVID jose token audience now
  | .upstream remote => remote.validateJWTSVID token audience now

/-- No two trusted CA keys share a key id. -/
def Source.DistinctKeyIDs : Source jose → Prop
  | .own cas => ∀ a ∈ cas.trusted, ∀ b ∈ cas.trusted,
      (keyIDOf jose.curve jose.sha256 a).isSome →
        keyIDOf jose.curve jose.sha256 a = keyIDOf jose.curve jose.sha256 b → a = b
  | .upstream _ => True

/-- The control plane reads an expiry from the token or does not ask for one. -/
def Source.Dated : Source jose → ClaimSet → Prop
  | .own _, _ => True
  | .upstream _, claims => (claimExpiry claims).isSome

/-- Claims with a subject in the trust domain, and with an expiry if they are an
upstream's. -/
def Source.Admits (source : Source jose) (claims : ClaimSet) : Prop :=
  (∃ id, SpiffeId.fromString (textClaim claims (ascii "sub")) = some id ∧
    id.trustDomain = source.trustDomain) ∧ source.Dated claims

/-- The payload of a token. -/
def payloadOf (jose : Jose κ δ) (token : Bytes) : Option ClaimSet :=
  (jose.parseSigned token).bind (·.payload)

/-! ## What each side accepts -/

variable {audience : Bytes} {std : StandardClaims} {now : Int}

theorem checkedID_eq_ok_iff {trustDomain : Bytes} {id : SpiffeId} :
    checkedID trustDomain std audience now = .ok id ↔
      std.validate [audience] now = .ok () ∧ SpiffeId.fromString std.subject = some id ∧
        id.trustDomain = trustDomain := by
  unfold checkedID
  cases std.validate [audience] now with
  | error => simp
  | ok =>
  cases SpiffeId.fromString std.subject with
  | none => simp
  | some =>
  simp only [ite_else_error_eq_ok, Except.ok.injEq, Option.some.injEq, true_and]
  constructor
  · rintro ⟨member, rfl⟩
    exact ⟨rfl, member⟩
  · rintro ⟨rfl, member⟩
    exact ⟨member, rfl⟩

/-- What an agent found in a token it accepted. -/
structure AgentAccepts (jose : Jose κ δ) (keySet : List (Bytes × κ)) (token audience : Bytes)
    (now : Int) (id : Bytes) (claims : ClaimSet) where
  jws : Jws κ
  kid : Bytes
  otherHeaders : List Bytes
  pub : κ
  std : StandardClaims
  parsed : jose.parseSigned token = some jws
  headers : jws.headers = kid :: otherHeaders
  key : keySet.lookup kid = some pub
  verified : jws.claims pub = some (std, claims)
  valid : std.validate [audience] now = .ok ()
  subject : id = std.subject

variable {token id kid : Bytes} {claims : ClaimSet} {keySet : List (Bytes × κ)} {pub : κ}
  {jws : Jws κ} {ca : Option κ}

/-- The key is one of those the agent had. -/
theorem AgentAccepts.key_mem (found : AgentAccepts jose keySet token audience now id claims) :
    (found.kid, found.pub) ∈ keySet := by
  obtain ⟨before, after, whole, -⟩ := List.lookup_eq_some_iff.mp found.key
  simp [show keySet = _ from whole]

theorem AgentAccepts.of_validateAgainstJWKS
    (accepted : validateAgainstJWKS jose keySet token audience now = .ok (id, claims)) :
    Nonempty (AgentAccepts jose keySet token audience now id claims) := by
  unfold validateAgainstJWKS at accepted
  split at accepted
  case h_1 => cases accepted
  case h_2 jws parsed =>
    split at accepted
    case h_1 => cases accepted
    case h_2 kid others headers =>
      split at accepted
      case h_1 => cases accepted
      case h_2 pub key =>
        split at accepted
        case h_1 => cases accepted
        case h_2 std raw verified =>
          split at accepted
          case h_1 => cases accepted
          case h_2 valid =>
            cases accepted
            exact ⟨⟨jws, kid, others, pub, std, parsed, headers, key, verified, valid, rfl⟩⟩

/-- What an agent found in the token of an answer, and the keys it had. -/
theorem agentValidateJWTSVID_eq_ok {doc : δ}
    (accepted : agentValidateJWTSVID jose doc token audience now = .ok (id, claims)) :
    ∃ keySet, parseJWKS jose.curve jose.codec doc = .ok keySet ∧
      Nonempty (AgentAccepts jose keySet token audience now id claims) := by
  unfold agentValidateJWTSVID at accepted
  simp only [ite_error_eq_ok] at accepted
  obtain ⟨-, -, accepted⟩ := accepted
  split at accepted
  case h_1 => cases accepted
  case h_2 keySet parsed =>
    split at accepted
    case h_1 => cases accepted
    case h_2 checked =>
      obtain ⟨-, same⟩ := ite_else_error_eq_ok.mp accepted
      cases same
      exact ⟨keySet, parsed, AgentAccepts.of_validateAgainstJWKS checked⟩

/-- Verified claims are the payload, and decode. -/
theorem Jws.claims_eq_some {raw : ClaimSet} (verified : jws.claims pub = some (std, raw)) :
    jws.payload = some raw ∧ standardClaims raw = some std := by
  unfold Jws.claims at verified
  split at verified
  case isFalse => cases verified
  case isTrue =>
    obtain ⟨payload, carried, decoded⟩ := Option.bind_eq_some_iff.mp verified
    obtain ⟨_, read, same⟩ := Option.map_eq_some_iff.mp decoded
    cases same
    exact ⟨carried, read⟩

/-- The subject of decoded claims is the text of the claim. -/
theorem textClaim_sub (decoded : standardClaims claims = some std) :
    textClaim claims (ascii "sub") = std.subject := by
  simp only [standardClaims, Option.bind_eq_bind, Option.bind_eq_some_iff, Option.pure_def,
    Option.some.injEq] at decoded
  obtain ⟨_, -, subject, subjectDecoded, _, -, _, -, _, -, _, -, rfl⟩ := decoded
  unfold decodeText at subjectDecoded
  unfold textClaim
  cases found : claims.lookup (ascii "sub") with
  | none =>
    rw [found] at subjectDecoded
    cases subjectDecoded
    rfl
  | some value =>
    rw [found] at subjectDecoded
    cases value <;> cases subjectDecoded <;> rfl

/-! ## The key a control plane selects -/

theorem keyIDOf_ne_nil (named : keyIDOf jose.curve jose.sha256 ca = some kid) : kid ≠ [] := by
  obtain ⟨point, -, rfl⟩ := Option.map_eq_some_iff.mp named
  apply Base64.rawURLEncodeToString_ne_nil
  simp [jose.sha256_ne_nil point]

/-- A key is selected for a nonempty key id only under that id. -/
theorem selected_eq_some_iff (nonempty : kid ≠ []) {isActive : Bool} :
    selected jose kid isActive ca = some pub ↔
      ca = some pub ∧ keyIDOf jose.curve jose.sha256 ca = some kid := by
  unfold selected
  cases named : keyIDOf jose.curve jose.sha256 ca with
  | none => simp
  | some => simp [nonempty, and_comm, eq_comm]

/-- With distinct key ids the control plane selects the trusted key of that id. -/
theorem OwnCAs.verificationKey_of_mem {cas : OwnCAs κ} {others : List Bytes}
    (distinct : @Source.DistinctKeyIDs κ δ jose (.own cas)) (headers : jws.headers = kid :: others)
    (member : some pub ∈ cas.trusted) (named : keyIDOf jose.curve jose.sha256 (some pub) = some kid)
 :
    cas.verificationKey jose jws = some pub := by
  have nonempty := keyIDOf_ne_nil named
  have only : ∀ ca ∈ cas.trusted, ∀ isActive found,
      selected jose kid isActive ca = some found → found = pub := by
    intro ca trusted isActive found picked
    obtain ⟨rfl, id⟩ := (selected_eq_some_iff nonempty).mp picked
    have same := distinct _ trusted _ member (by simp [id]) (id.trans named.symm)
    exact Option.some.inj same
  simp only [OwnCAs.verificationKey, headers, List.head?_cons, Option.getD_some]
  cases first : selected jose kid true cas.active with
  | some found =>
    rw [only cas.active (by simp [OwnCAs.trusted]) true found first]
    rfl
  | none =>
  -- The active key is not the one named, so it is among the others.
  have later : some pub ∈ cas.others := by
    rcases List.mem_cons.mp member with active | later
    · rw [← active, (selected_eq_some_iff nonempty).mpr ⟨rfl, named⟩] at first
      cases first
    · exact later
  rw [Option.none_or]
  cases rest : cas.others.findSome? (selected jose kid false) with
  | none =>
    have missed := List.findSome?_eq_none_iff.mp rest _ later
    rw [(selected_eq_some_iff nonempty).mpr ⟨rfl, named⟩] at missed
    cases missed
  | some found =>
    obtain ⟨ca, among, picked⟩ := List.exists_of_findSome?_eq_some rest
    rw [only ca (by simp [OwnCAs.trusted, among]) false found picked]

/-! ## Agreement -/

/-- A token an agent accepts reaches the control plane's last checks, unless it
is an upstream's without an expiry. -/
theorem Source.validateJWTSVID_of_agent {source : Source jose} {doc : δ}
    {keySet : List (Bytes × κ)} {token audience id : Bytes} {now : Int} {claims : ClaimSet}
    (published : source.jwtBundle = some doc) (distinct : source.DistinctKeyIDs)
    (keys : parseJWKS jose.curve jose.codec doc = .ok keySet)
    (found : AgentAccepts jose keySet token audience now id claims) {spiffeID : SpiffeId} :
    source.validateJWTSVID token audience now = .ok spiffeID ↔
      source.Dated claims ∧ checkedID source.trustDomain found.std audience now = .ok spiffeID := by
  cases source with
  | own =>
    obtain ⟨own, ownKeys, origin⟩ := parseJWKS_own published
    rw [keys] at ownKeys
    cases ownKeys
    obtain ⟨member, named⟩ := origin _ found.key_mem
    have key := OwnCAs.verificationKey_of_mem distinct found.headers member named
    simp [Source.validateJWTSVID, OwnCAs.validateJWTSVID, found.parsed, key, found.verified,
      Source.Dated, Source.trustDomain]
  | upstream remote =>
    cases published
    obtain ⟨upstreamKeys, named⟩ := parseJWKS_upstream remote.parsed
    rw [keys] at upstreamKeys
    cases upstreamKeys
    have configured : remote.trust.jwtKeys ≠ [] := List.ne_nil_of_mem found.key_mem
    have expiry := (standardClaims_dates (Jws.claims_eq_some found.verified).2).1
    simp only [Source.validateJWTSVID, Upstream.validateJWTSVID, if_neg configured, found.parsed,
      found.headers, if_neg (named _ found.key_mem), found.key, found.verified, ite_error_eq_ok,
      Source.Dated, Source.trustDomain, expiry, Option.isSome_iff_ne_none, ne_eq]

/-- For a token an agent accepts: the control plane accepts it with the same
SPIFFE ID exactly when its subject is in the trust domain and, in upstream mode,
it has an expiry. -/
theorem Source.accepts_iff_admits {source : Source jose} {doc : δ} {token audience id : Bytes}
    {now : Int} {claims returned : ClaimSet} (published : source.jwtBundle = some doc)
    (distinct : source.DistinctKeyIDs) (carried : payloadOf jose token = some claims)
    (accepted : agentValidateJWTSVID jose doc token audience now = .ok (id, returned)) :
    (∃ spiffeID, source.validateJWTSVID token audience now = .ok spiffeID ∧
      spiffeID.string = id) ↔ source.Admits claims := by
  obtain ⟨keySet, keys, ⟨found⟩⟩ := agentValidateJWTSVID_eq_ok accepted
  obtain ⟨payload, decoded⟩ := Jws.claims_eq_some found.verified
  have same : returned = claims := by
    simpa [payloadOf, found.parsed, payload] using carried
  subst same
  have reaches := @Source.validateJWTSVID_of_agent κ δ jose source doc keySet token audience id now
    returned published distinct keys found
  unfold Source.Admits
  rw [textClaim_sub decoded]
  constructor
  · rintro ⟨spiffeID, valid, -⟩
    obtain ⟨dated, checked⟩ := reaches.mp valid
    obtain ⟨-, read, member⟩ := checkedID_eq_ok_iff.mp checked
    exact ⟨⟨spiffeID, read, member⟩, dated⟩
  · rintro ⟨⟨spiffeID, read, member⟩, dated⟩
    refine ⟨spiffeID, reaches.mpr ⟨dated, ?_⟩, ?_⟩
    · exact checkedID_eq_ok_iff.mpr ⟨found.valid, read, member⟩
    · exact (SpiffeId.string_of_fromString read).trans found.subject.symm

end

/-! ## Tokens that only the agent accepts -/

namespace Source

def plainCurve : Curve Unit where
  ecPointBytes _ := some (4 :: List.replicate 64 0)
  parseUncompressedPublicKey point :=
    if point = 4 :: List.replicate 64 0 then some () else none
  parse_point := by
    rintro ⟨⟩ point ofKey
    cases ofKey
    decide

def plainCodec : JwksCodec (List Jwk) where
  marshal := id
  unmarshal keys := if ∀ key ∈ keys, key.WellFormed then some keys else none
  wellFormed_of_unmarshal := by
    intro doc keys decoded
    split at decoded
    case isTrue wellFormed =>
      cases decoded
      exact wellFormed
    case isFalse => cases decoded
  unmarshal_marshal := by
    intro keys wellFormed
    exact if_pos wellFormed

/-- Every token is signed under the one key and carries these claims. -/
def joseOf (kid : Bytes) (claims : ClaimSet) : Jose Unit (List Jwk) where
  curve := plainCurve
  codec := plainCodec
  sha256 _ := [1, 2, 3, 4, 5, 6, 7, 8]
  sha256_ne_nil := by simp
  parseSigned _ := some { headers := [kid], verifies := fun _ => true, payload := some claims }
  newStruct _ := true

def upstreamJWKS : List Jwk :=
  [canonicalJWK (ascii "k") (Base64.rawURLEncodeToString (List.replicate 32 0))
    (Base64.rawURLEncodeToString (List.replicate 32 0))]

def upstreamOf (claims : ClaimSet) : Upstream (joseOf (ascii "k") claims) where
  trustDomain := ascii "up.example"
  supplied := some upstreamJWKS
  trust := ⟨[(ascii "k", ())], upstreamJWKS⟩
  parsed := rfl

def ownKid : Bytes := Base64.rawURLEncodeToString [1, 2, 3, 4, 5, 6, 7, 8]

def ownOf : OwnCAs Unit where
  trustDomain := ascii "own.example"
  active := some ()
  others := []

def undated : ClaimSet :=
  [(ascii "sub", .str (ascii "spiffe://up.example/db")), (ascii "aud", .str (ascii "api"))]

def unnamed : ClaimSet :=
  [(ascii "sub", .str (ascii "admin")), (ascii "aud", .str (ascii "api")),
    (ascii "exp", .number 3600)]

def dated : ClaimSet :=
  [(ascii "sub", .str (ascii "spiffe://up.example/db")), (ascii "aud", .str (ascii "api")),
    (ascii "exp", .number 3600)]

/-- An agent accepts an upstream's token that never expires, and a subject that
is no SPIFFE ID; the control plane refuses both. -/
theorem agent_accepts_more :
    agentValidateJWTSVID (joseOf (ascii "k") undated) upstreamJWKS (ascii "t") (ascii "api") 0 =
        .ok (ascii "spiffe://up.example/db", undated) ∧
      (Source.upstream (upstreamOf undated)).validateJWTSVID (ascii "t") (ascii "api") 0 =
        .error .noExpiry ∧
      (∃ jwks, (Source.own ownOf : Source (joseOf ownKid unnamed)).jwtBundle = some jwks ∧
        agentValidateJWTSVID (joseOf ownKid unnamed) jwks (ascii "t") (ascii "api") 0 =
          .ok (ascii "admin", unnamed)) ∧
      (Source.own ownOf : Source (joseOf ownKid unnamed)).validateJWTSVID (ascii "t")
        (ascii "api") 0 = .error .subject :=
  ⟨rfl, rfl, ⟨_, rfl, rfl⟩, rfl⟩

theorem accepts_iff_admits_dated :
    (∃ spiffeID, (Source.upstream (upstreamOf dated)).validateJWTSVID (ascii "t") (ascii "api") 0 =
        .ok spiffeID ∧ spiffeID.string = ascii "spiffe://up.example/db") ↔
      (Source.upstream (upstreamOf dated)).Admits dated :=
  accepts_iff_admits rfl trivial rfl rfl

end Source

end OmegaPlane.Tokens
