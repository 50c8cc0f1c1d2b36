import OmegaPlane.Data.Text

/-!
# SPIFFE IDs

An ID is a trust domain and a path.  Both are kept apart; the text is the
scheme, the trust domain and the path, in this order.
-/

namespace OmegaPlane

structure SpiffeId where
  trustDomain : Bytes
  path : Bytes
  deriving DecidableEq

namespace SpiffeId

def scheme : Bytes := ascii "spiffe://"

def string (id : SpiffeId) : Bytes :=
  scheme ++ id.trustDomain ++ id.path

/-- The bytes of a trust domain name. -/
def trustDomainByte (byte : UInt8) : Bool :=
  (97 ≤ byte.toNat && byte.toNat ≤ 122) || (48 ≤ byte.toNat && byte.toNat ≤ 57) ||
    byte = 45 || byte = 46 || byte = 95

/-- The bytes of a path segment. -/
def segmentByte (byte : UInt8) : Bool :=
  trustDomainByte byte || (65 ≤ byte.toNat && byte.toNat ≤ 90)

/-- A segment is not empty and is neither `.` nor `..`. -/
def validSegment (segment : Bytes) : Bool :=
  segment ≠ [] && segment ≠ ascii "." && segment ≠ ascii ".." && segment.all segmentByte

/-- A path is empty or is made of segments that each follow a slash. -/
def validPath : Bytes → Bool
  | [] => true
  | byte :: rest => byte = 47 && (rest.splitOn 47).all validSegment

/-- Read an ID from its text. -/
def fromString (text : Bytes) : Option SpiffeId :=
  if Text.hasPrefix text scheme then
    let rest := text.drop scheme.length
    let trustDomain := rest.takeWhile (· ≠ 47)
    let path := rest.dropWhile (· ≠ 47)
    if trustDomain ≠ [] ∧ trustDomain.all trustDomainByte ∧ validPath path then
      some { trustDomain, path }
    else none
  else none

/-- Read a trust domain from its name or from an ID. -/
def trustDomainFromString (idOrName : Bytes) : Option Bytes :=
  if idOrName = [] then
    none
  else if (Text.cut (ascii ":/") idOrName).isSome then
    (fromString idOrName).map trustDomain
  else if idOrName.all trustDomainByte then
    some idOrName
  else
    none

/-- The text an ID was read from is its text. -/
theorem string_of_fromString {text : Bytes} {id : SpiffeId} (read : fromString text = some id) :
    id.string = text := by
  unfold fromString at read
  split at read
  case isFalse => cases read
  case isTrue schemed =>
    dsimp only at read
    split at read
    case isFalse => cases read
    case isTrue =>
      obtain ⟨rest, rfl⟩ := List.isPrefixOf_iff_prefix.mp schemed
      cases read
      simp only [string, List.append_assoc, List.drop_left, List.takeWhile_append_dropWhile]

theorem string_ne_nil (id : SpiffeId) : id.string ≠ [] := by
  simp [string, scheme, ascii]

example : fromString (ascii "spiffe://omega.local/humans/alice") =
    some { trustDomain := ascii "omega.local", path := ascii "/humans/alice" } := by
  decide +kernel

end SpiffeId

end OmegaPlane
