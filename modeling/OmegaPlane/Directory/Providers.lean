import OmegaPlane.Data.Checks
import OmegaPlane.Data.Template
import OmegaPlane.Directory.Store
import OmegaPlane.Tokens.Idp

/-!
# Identity providers and the identities they give

The providers that provision users over SCIM, and those that assert them in
ID-JAGs, are configured by flags.  A template of the provider maps a user to a
SPIFFE ID.  Two users get the same ID unless the templates keep them apart.
-/

namespace OmegaPlane.Directory

/-! ## Placeholders -/

def externalIdHole : Bytes :=
  ascii "\x7bexternalId\x7d"

def userNameHole : Bytes :=
  ascii "\x7buserName\x7d"

/-- `strings.Contains`. -/
def contains (text part : Bytes) : Bool :=
  (Text.cut part text).isSome

/-- `strings.Index`. -/
def index (text part : Bytes) : Option Nat :=
  (Text.cut part text).map fun around => around.1.length

/-! ## SCIM providers -/

inductive FlagError where
  | entry (spec : Bytes)
  | unknownKey (key spec : Bytes)
  | name (name : Bytes)
  | repeated (name : Bytes)
  | domain (name : Bytes)
  | noTokenFile (name : Bytes)
  | readToken (name : Bytes)
  | shortToken (name : Bytes)
  | oneIdentity (name : Bytes)
  | outside (template : Bytes)
  | firstSegment (template : Bytes)
  | order (template hole : Bytes)
  | noIdp (name : Bytes)
  deriving DecidableEq

/-- What one `--scim-idp` value says. -/
structure SCIMFlags where
  name : Bytes := []
  domain : Bytes := []
  tokenFile : Bytes := []
  template : Bytes := []

/-- One `key=value` pair. -/
def SCIMFlags.set (spec : Bytes) (flags : SCIMFlags) (pair : Bytes) : Except FlagError SCIMFlags :=
  match Text.cut [61] pair with
  | none => .error (.entry spec)
  | some (word, value) =>
    let value := Text.trimSpace value
    let key := Text.trimSpace word
    if key = ascii "name" then .ok { flags with name := value }
    else if key = ascii "domain" then .ok { flags with domain := value }
    else if key = ascii "token-file" then .ok { flags with tokenFile := value }
    else if key = ascii "template" then .ok { flags with template := value }
    else .error (.unknownKey word spec)

section Flags

variable (readFile : Bytes → Option Bytes) (sha256 : Bytes → Bytes)

end Flags

/-! ## The identity of a user -/

section Segments

open Template

/-- The path segments of a template, and what comes before the path. -/
def segments (keys : List Bytes) (template : Bytes) : List (List Token) :=
  (scan keys template).splitOn (.byte 47)

/-- The text a template gives with values that stay in their segments. -/
structure Renders (keys : List Bytes) (template : Bytes) (value : Bytes → Bytes) (id : Bytes) :
    Prop where
  filled : id = fill value (scan keys template)
  clean : ∀ key, .hole key ∈ scan keys template → 47 ∉ value key

variable {keys : List Bytes} {template name id : Bytes} {value : Bytes → Bytes}

theorem Renders.splitOn (renders : Renders keys template value id) :
    id.splitOn 47 = (segments keys template).map (fill value) := by
  rw [renders.filled, splitOn_fill renders.clean, segments]

end Segments

/-! ## Users of SCIM providers -/

/-- A segment that shows one of the two attributes of a user. -/
def Shows (segment : List Template.Token) : Prop :=
  (.hole externalIdHole ∈ segment ∧ .hole userNameHole ∉ segment) ∨
    (.hole userNameHole ∈ segment ∧ .hole externalIdHole ∉ segment)

section Accepted

variable {readFile : Bytes → Option Bytes} {sha256 : Bytes → Bytes} {trustDomain : Bytes}

end Accepted

/-! ## Users of ID-JAG providers -/

end OmegaPlane.Directory
