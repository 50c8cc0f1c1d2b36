import OmegaPlane.Data.Checks
import OmegaPlane.Data.Clock
import OmegaPlane.Data.SpiffeId
import OmegaPlane.Decision.Batch

/-!
# JWT-SVIDs

Claims as they are read from a token and the authority that issues and reads
JWT-SVIDs.  Parsing and the signature check belong to the JOSE library: a token
opens to the claims it carries, or to the reason it does not.
-/

namespace OmegaPlane.Tokens

open Decision (Value)

/-! ## Claims -/

/-- The claims of a token by name. -/
abbrev ClaimSet := List (Bytes × Value)

/-- The instant a numeric claim stands for. -/
def claimNumericDate (claims : ClaimSet) (name : Bytes) : Option Int :=
  match claims.lookup name with
  | some (.number value) => some (Clock.unix (Clock.int64OfFloat value))
  | _ => none

def claimExpiry (claims : ClaimSet) : Option Int :=
  claimNumericDate claims (ascii "exp")

/-- A text claim; the empty text when there is none. -/
def textClaim (claims : ClaimSet) (name : Bytes) : Bytes :=
  match claims.lookup name with
  | some (.str text) => text
  | _ => []

/-- The texts of a claim that is a text or a list. -/
def audienceValues : Option Value → List Bytes
  | some (.str text) => if text = [] then [] else [text]
  | some (.arr items) =>
    items.filterMap fun
      | .str text => if text = [] then none else some text
      | _ => none
  | _ => []

/-! ## Registered claims -/

/-- The registered claims, as the JOSE library decodes them. -/
structure StandardClaims where
  issuer : Bytes
  subject : Bytes
  audience : List Bytes
  expiry : Option Int
  notBefore : Option Int
  issuedAt : Option Int
  deriving DecidableEq

/-- A registered text claim; a claim of another type does not decode. -/
def decodeText (claims : ClaimSet) (name : Bytes) : Option Bytes :=
  match claims.lookup name with
  | none | some .null => some []
  | some (.str text) => some text
  | _ => none

def decodeDate (claims : ClaimSet) (name : Bytes) : Option (Option Int) :=
  match claims.lookup name with
  | none | some .null => some none
  | some (.number value) => some (some (Clock.unix (Clock.int64OfFloat value)))
  | _ => none

def decodeAudience (claims : ClaimSet) : Option (List Bytes) :=
  match claims.lookup (ascii "aud") with
  | none => some []
  | some (.str text) => some [text]
  | some (.arr items) => items.mapM fun
      | .str text => some text
      | _ => none
  | _ => none

def standardClaims (claims : ClaimSet) : Option StandardClaims := do
  let issuer ← decodeText claims (ascii "iss")
  let subject ← decodeText claims (ascii "sub")
  let audience ← decodeAudience claims
  let expiry ← decodeDate claims (ascii "exp")
  let notBefore ← decodeDate claims (ascii "nbf")
  let issuedAt ← decodeDate claims (ascii "iat")
  return { issuer, subject, audience, expiry, notBefore, issuedAt }

inductive ValidationError where
  | audience
  | notValidYet
  | expired
  | issuedInTheFuture
  deriving DecidableEq

/-- The clock tolerance for the dates of a token. -/
def leeway : Int := 30 * Clock.second

/-- The checks on the registered claims; absent dates are not checked, and the
audience only when some are expected. -/
def StandardClaims.validate (claims : StandardClaims) (anyAudience : List Bytes) (now : Int) :
    Except ValidationError Unit :=
  if anyAudience ≠ [] ∧ ¬ anyAudience.any claims.audience.contains then .error .audience
  else if claims.notBefore.any (now + leeway < ·) then .error .notValidYet
  else if claims.expiry.any (· < now - leeway) then .error .expired
  else if claims.issuedAt.any (now + leeway < ·) then .error .issuedInTheFuture
  else .ok ()

variable {now : Int}

/-- Valid claims are within their dates, up to the tolerance. -/
theorem StandardClaims.within_of_validate {claims : StandardClaims} {anyAudience : List Bytes}
    (valid : claims.validate anyAudience now = .ok ()) :
    (∀ expiry, claims.expiry = some expiry → now - leeway ≤ expiry) ∧
      ∀ issuedAt, claims.issuedAt = some issuedAt → issuedAt ≤ now + leeway := by
  unfold validate at valid
  simp only [ite_error_eq_ok] at valid
  obtain ⟨-, -, unexpired, issued, -⟩ := valid
  constructor
  · intro expiry present
    simpa [present] using unexpired
  · intro issuedAt present
    simpa [present] using issued

/-! ## The authority -/

/-- The signing authority: its trust domain, the issuer URL (empty when none is
configured) and the id of its active key. -/
structure Authority where
  trustDomain : Bytes
  issuerURL : Bytes
  keyID : Bytes

/-- What a token opens to under the authority's trusted keys. -/
inductive Opened where
  | malformed
  | untrustedKey
  | badSignature
  | verified (claims : ClaimSet)

inductive ParseError where
  | malformed
  | untrustedKey
  | badSignature
  | claims
  | invalid (err : ValidationError)
  | subject
  | trustDomain
  deriving DecidableEq

/-- Read a JWT-SVID of this authority, for any audience. -/
def Authority.parseJWTSVIDClaims (authority : Authority) (opened : Opened) (now : Int) :
    Except ParseError (SpiffeId × ClaimSet) :=
  match opened with
  | .malformed => .error .malformed
  | .untrustedKey => .error .untrustedKey
  | .badSignature => .error .badSignature
  | .verified raw =>
    match standardClaims raw with
    | none => .error .claims
    | some std =>
      match std.validate [] now with
      | .error err => .error (.invalid err)
      | .ok () =>
        match SpiffeId.fromString std.subject with
        | none => .error .subject
        | some id =>
          if id.trustDomain = authority.trustDomain then .ok (id, raw)
          else .error .trustDomain

variable {claims : ClaimSet} {authority : Authority} {id : SpiffeId} {std : StandardClaims}

/-- When a token is read, and what it then carries. -/
theorem Authority.parse_eq_ok_iff {opened : Opened} :
    authority.parseJWTSVIDClaims opened now = .ok (id, claims) ↔
      opened = .verified claims ∧
        ∃ std, standardClaims claims = some std ∧ std.validate [] now = .ok () ∧
          SpiffeId.fromString std.subject = some id ∧
          id.trustDomain = authority.trustDomain := by
  constructor
  · intro parsed
    unfold parseJWTSVIDClaims at parsed
    split at parsed
    case h_4 raw =>
      split at parsed
      case h_1 => cases parsed
      case h_2 std decoded =>
        split at parsed
        case h_1 => cases parsed
        case h_2 valid =>
          split at parsed
          case h_1 => cases parsed
          case h_2 read =>
            obtain ⟨member, same⟩ := ite_else_error_eq_ok.mp parsed
            cases same
            exact ⟨rfl, std, decoded, valid, read, member⟩
    all_goals cases parsed
  · rintro ⟨rfl, std, decoded, valid, read, member⟩
    simp [parseJWTSVIDClaims, decoded, valid, read, member]

/-- A date that decoded is the one read from the claims by name. -/
theorem claimNumericDate_of_decodeDate {name : Bytes} {date : Option Int}
    (decoded : decodeDate claims name = some date) : claimNumericDate claims name = date := by
  unfold decodeDate at decoded
  unfold claimNumericDate
  cases found : claims.lookup name with
  | none =>
    rw [found] at decoded
    cases decoded
    rfl
  | some value =>
    rw [found] at decoded
    cases value <;> cases decoded <;> rfl

theorem standardClaims_dates (decoded : standardClaims claims = some std) :
    claimExpiry claims = std.expiry ∧ claimNumericDate claims (ascii "iat") = std.issuedAt := by
  simp only [standardClaims, Option.bind_eq_bind, Option.bind_eq_some_iff, Option.pure_def,
    Option.some.injEq] at decoded
  obtain ⟨_, -, _, -, _, -, expiry, expiryDecoded, _, -, issuedAt, issuedDecoded, rfl⟩ := decoded
  exact ⟨claimNumericDate_of_decodeDate expiryDecoded, claimNumericDate_of_decodeDate issuedDecoded⟩

/-- A subject that decoded to a text is that claim. -/
theorem lookup_sub_of_standardClaims (decoded : standardClaims claims = some std)
    (named : std.subject ≠ []) :
    claims.lookup (ascii "sub") = some (.str std.subject) := by
  simp only [standardClaims, Option.bind_eq_bind, Option.bind_eq_some_iff, Option.pure_def,
    Option.some.injEq] at decoded
  obtain ⟨_, -, subject, subjectDecoded, _, -, _, -, _, -, _, -, rfl⟩ := decoded
  unfold decodeText at subjectDecoded
  cases found : claims.lookup (ascii "sub") with
  | none =>
    rw [found] at subjectDecoded
    cases subjectDecoded
    exact absurd rfl named
  | some value =>
    rw [found] at subjectDecoded
    cases value <;> cases subjectDecoded
    · exact absurd rfl named
    · rfl

/-! ## Issuance -/

def defaultJWTTTL : Int := 5 * Clock.minute
def maxJWTTTL : Int := 24 * Clock.hour

/-- The lifetime given to a token that asks for `ttl`. -/
def tokenLifetime (ttl : Int) : Int :=
  min maxJWTTTL (if ttl ≤ 0 then defaultJWTTTL else ttl)

inductive IssueError where
  | trustDomain
  | audienceRequired
  | audienceEmpty
  deriving DecidableEq

/-- A JWT-SVID: the claims it signs and what its issuer returns about it. -/
structure JWTSVID where
  claims : ClaimSet
  spiffeID : Bytes
  audience : List Bytes
  issuedAt : Int
  expiresAt : Int
  keyID : Bytes

def numericDate (instant : Int) : Value :=
  .number (Clock.unixSeconds instant)

/-- The token signed for an identity; the extra claims are laid over the
registered ones. -/
def Authority.stamp (authority : Authority) (id : SpiffeId) (audience : List Bytes)
    (lifetime : Int) (extra : ClaimSet) (now : Int) : JWTSVID where
  claims := extra ++
    [(ascii "sub", .str id.string), (ascii "aud", .arr (audience.map .str)),
      (ascii "iat", numericDate now), (ascii "exp", numericDate (now + lifetime)),
      (ascii "jti", .str (decimal now))] ++
    if authority.issuerURL = [] then [] else [(ascii "iss", .str authority.issuerURL)]
  spiffeID := id.string
  audience := audience
  issuedAt := now
  expiresAt := now + lifetime
  keyID := authority.keyID

/-- Issue a JWT-SVID. -/
def Authority.issueJWTSVID (authority : Authority) (id : SpiffeId) (audience : List Bytes)
    (ttl : Int) (extra : ClaimSet) (now : Int) : Except IssueError JWTSVID :=
  if id.trustDomain ≠ authority.trustDomain then .error .trustDomain
  else if audience = [] then .error .audienceRequired
  else if audience.any (· = []) then .error .audienceEmpty
  else .ok (authority.stamp id audience (tokenLifetime ttl) extra now)

theorem Authority.issueJWTSVID_eq_ok {audience : List Bytes} {ttl : Int} {extra : ClaimSet}
    {svid : JWTSVID} (issued : authority.issueJWTSVID id audience ttl extra now = .ok svid) :
    svid = authority.stamp id audience (tokenLifetime ttl) extra now := by
  unfold issueJWTSVID at issued
  simp only [ite_error_eq_ok, Except.ok.injEq] at issued
  exact issued.2.2.2.symm

end OmegaPlane.Tokens
