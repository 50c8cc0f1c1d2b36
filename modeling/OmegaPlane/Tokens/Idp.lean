import OmegaPlane.Data.Table
import OmegaPlane.Tokens.Credentials

/-!
# Upstream identity providers

Tokens of external providers: their validation against the registry and the
SPIFFE ID rendered for the person they name.  Discovery, key lookup and the
signature check are the provider client's: a token opens under the provider's
keys, or does not.
-/

namespace OmegaPlane.Tokens

/-! ## The registry -/

structure IDPConfig where
  name : Bytes
  issuer : Bytes
  audiences : List Bytes
  spiffeIDTemplate : Bytes
  requiredTyp : Bytes := []
  exactAudience : Bool := false
  deriving DecidableEq

/-- A parsed provider token: the media type in each header, empty when absent,
and the claims when the signature verifies. -/
structure IDToken where
  typs : List Bytes
  verified : Option ClaimSet

/-- What provider tokens open to: under the keys of the provider of a name, and
the issuer a token claims before it is verified. -/
structure IDTokenReader where
  openToken : Bytes → Bytes → Except Bytes IDToken
  peekIssuer : Bytes → Option Bytes

/-- The validated claims of a provider token; absent dates are the zero
instant. -/
structure IDClaims where
  issuer : Bytes
  subject : Bytes
  audience : List Bytes
  email : Bytes
  preferredUN : Bytes
  name : Bytes
  raw : ClaimSet
  issuedAt : Int
  expiresAt : Int
  idpName : Bytes

inductive IDPError where
  | unknownIDP
  | emptyToken
  | fetch (message : Bytes)
  | typ
  | verify
  | issuer
  | invalid (err : ValidationError)
  | audienceCount (count : Nat)
  | parse
  | noIssuer
  | ambiguousIssuer
  deriving DecidableEq

/-- Every header carries the wanted media type. -/
def checkTyp (typs : List Bytes) (want : Bytes) : Bool :=
  typs ≠ [] ∧ typs.all (typMatches · want)

/-- The claims handed on for a token whose registered claims are `std`. -/
def IDPConfig.project (config : IDPConfig) (raw : ClaimSet) (std : StandardClaims) : IDClaims where
  issuer := std.issuer
  subject := std.subject
  audience := std.audience
  email := textClaim raw (ascii "email")
  preferredUN := textClaim raw (ascii "preferred_username")
  name := textClaim raw (ascii "name")
  raw := raw
  issuedAt := std.issuedAt.getD Clock.zeroInstant
  expiresAt := std.expiry.getD Clock.zeroInstant
  idpName := config.name

/-- Validate a token against one provider. -/
def IDPConfig.validate (config : IDPConfig) (reader : IDTokenReader) (token : Bytes) (now : Int) :
    Except IDPError IDClaims :=
  if Text.trimSpace token = [] then .error .emptyToken
  else
    match reader.openToken config.name token with
    | .error message => .error (.fetch message)
    | .ok parsed =>
      if config.requiredTyp ≠ [] ∧ ¬ checkTyp parsed.typs config.requiredTyp then .error .typ
      else
        match parsed.verified with
        | none => .error .verify
        | some raw =>
          match standardClaims raw with
          | none => .error .verify
          | some std =>
            if std.issuer ≠ config.issuer then .error .issuer
            else
              match std.validate config.audiences now with
              | .error err => .error (.invalid err)
              | .ok () =>
                if config.exactAudience ∧ std.audience.length ≠ 1 then
                  .error (.audienceCount std.audience.length)
                else .ok (config.project raw std)

/-- The configured providers, with distinct names. -/
abbrev Registry := Table IDPConfig.name

def Registry.lookup (registry : Registry) (name : Bytes) : Except IDPError IDPConfig :=
  match Table.lookup registry name with
  | none => .error .unknownIDP
  | some config => .ok config

def Registry.validate (registry : Registry) (reader : IDTokenReader) (name token : Bytes)
    (now : Int) : Except IDPError IDClaims :=
  match Table.lookup registry name with
  | none => .error .unknownIDP
  | some config => config.validate reader token now

/-- Validate a token against the one provider of the issuer it claims. -/
def Registry.validateByIssuer (registry : Registry) (reader : IDTokenReader) (token : Bytes)
    (now : Int) : Except IDPError IDClaims :=
  match reader.peekIssuer token with
  | none => .error .parse
  | some issuer =>
    if issuer = [] then .error .noIssuer
    else
      match registry.rows.filter (·.issuer = issuer) with
      | [] => .error .unknownIDP
      | [config] => config.validate reader token now
      | _ => .error .ambiguousIssuer

variable {reader : IDTokenReader} {token : Bytes} {now : Int} {claims : IDClaims}
  {registry : Registry} {config : IDPConfig}

theorem Registry.exists_of_validate {name : Bytes}
    (valid : registry.validate reader name token now = .ok claims) :
    ∃ config : IDPConfig, config.validate reader token now = .ok claims := by
  unfold validate at valid
  split at valid
  case h_1 => cases valid
  case h_2 config _ => exact ⟨config, valid⟩

theorem Registry.exists_of_validateByIssuer
    (valid : registry.validateByIssuer reader token now = .ok claims) :
    ∃ config : IDPConfig, config.validate reader token now = .ok claims := by
  unfold validateByIssuer at valid
  split at valid
  case h_1 => cases valid
  case h_2 =>
    obtain ⟨-, valid⟩ := ite_error_eq_ok.mp valid
    split at valid
    case h_1 | h_3 => cases valid
    case h_2 config _ => exact ⟨config, valid⟩

/-- The claims of a valid token are those it opened to, with its dates. -/
theorem IDPConfig.validate_eq_ok (valid : config.validate reader token now = .ok claims) :
    ∃ parsed std, reader.openToken config.name token = .ok parsed ∧
      parsed.verified = some claims.raw ∧ standardClaims claims.raw = some std ∧
      std.validate config.audiences now = .ok () ∧ claims = config.project claims.raw std := by
  unfold validate at valid
  obtain ⟨-, valid⟩ := ite_error_eq_ok.mp valid
  split at valid
  case h_1 => cases valid
  case h_2 parsed opened =>
    obtain ⟨-, valid⟩ := ite_error_eq_ok.mp valid
    split at valid
    case h_1 => cases valid
    case h_2 raw verified =>
      split at valid
      case h_1 => cases valid
      case h_2 std decoded =>
        obtain ⟨-, valid⟩ := ite_error_eq_ok.mp valid
        split at valid
        case h_1 => cases valid
        case h_2 checked =>
          obtain ⟨-, same⟩ := ite_error_eq_ok.mp valid
          cases same
          exact ⟨parsed, std, opened, verified, decoded, checked, rfl⟩

/-- The expiry of a valid token is the one its claims carry; a token that
carries none has the zero instant. -/
theorem IDPConfig.expiresAt_of_validate (valid : config.validate reader token now = .ok claims) :
    claims.expiresAt = (claimExpiry claims.raw).getD Clock.zeroInstant ∧
      ∀ expiry, claimExpiry claims.raw = some expiry → now - leeway ≤ expiry := by
  obtain ⟨parsed, std, -, -, decoded, checked, projected⟩ := validate_eq_ok valid
  rw [(standardClaims_dates decoded).1]
  exact ⟨by rw [projected]; rfl, (StandardClaims.within_of_validate checked).1⟩

/-! ## Rendering -/

inductive RenderError where
  | emptyClaim (placeholder : Bytes)
  | slash (placeholder : Bytes)
  | control (placeholder : Bytes)
  deriving DecidableEq

/-- A claim value must not add structure to a path. -/
def checkSPIFFEPathSegment (placeholder value : Bytes) : Except RenderError Unit :=
  if value.contains 47 then .error (.slash placeholder)
  else if value.any fun byte => byte < 0x20 ∨ byte = 0x7F then .error (.control placeholder)
  else .ok ()

/-- The placeholders of a template with their values. -/
def placeholders (claims : IDClaims) : List (Bytes × Bytes) :=
  [(ascii "\x7bsub\x7d", claims.subject), (ascii "\x7bidp\x7d", claims.idpName),
    (ascii "\x7bemail\x7d", claims.email),
    (ascii "\x7bpreferred_username\x7d", claims.preferredUN), (ascii "\x7bname\x7d", claims.name)]

/-- The checks on the values a template uses. -/
def checkPlaceholders (template : Bytes) : List (Bytes × Bytes) → Except RenderError Unit
  | [] => .ok ()
  | (placeholder, value) :: rest =>
    if (Text.cut placeholder template).isNone then checkPlaceholders template rest
    else if value = [] then .error (.emptyClaim placeholder)
    else
      match checkSPIFFEPathSegment placeholder value with
      | .error err => .error err
      | .ok () => checkPlaceholders template rest

/-- Fill a template with the values of the claims. -/
def renderSPIFFEID (template : Bytes) (claims : IDClaims) : Except RenderError Bytes :=
  match checkPlaceholders template (placeholders claims) with
  | .error err => .error err
  | .ok () => .ok (Text.replace (placeholders claims) template)

end OmegaPlane.Tokens
