import OmegaPlane.Agent.ControlPlane
import OmegaPlane.Agent.Freshness
import OmegaPlane.Decision.Authorize

/-!
# The size of one decision

A decision is shipped as the text `encoding/json` writes for it, the request and the response
included.  A request is bounded when it is read, and a response is not: it lists the policies
that decided twice, with ids of any length.
-/

namespace OmegaPlane.Agent

open Decision

/-- An array of encoded items. -/
def array (items : List Bytes) : Bytes :=
  ascii "[" ++ joinRaw items ++ ascii "]"

/-- An object of encoded members. -/
def object (members : List (Bytes × Bytes)) : Bytes :=
  [123] ++ joinRaw (members.map fun member => Json.quote member.1 ++ ascii ":" ++ member.2) ++ [125]

/-- A member that is left out when it has nothing. -/
def omitEmpty {α : Type} (name : String) (items : List α) (text : Bytes) : List (Bytes × Bytes) :=
  if items.isEmpty then [] else [(ascii name, text)]

section Encode

-- the texts of a float and of a time
variable (number : Rat → Bytes) (time : Int → Bytes)

mutual

def encodeValue : Value → Bytes
  | .null => ascii "null"
  | .bool true => ascii "true"
  | .bool false => ascii "false"
  | .number value => number value
  | .str text => Json.quote text
  | .arr items => array (encodeValues items)
  | .obj members => object (sortOn Prod.fst (encodeMembers members))

def encodeValues : List Value → List Bytes
  | [] => []
  | item :: rest => encodeValue item :: encodeValues rest

def encodeMembers : List (Bytes × Value) → List (Bytes × Bytes)
  | [] => []
  | (name, value) :: rest => (name, encodeValue value) :: encodeMembers rest

end

end Encode

/-! ## Reasons -/

end OmegaPlane.Agent
