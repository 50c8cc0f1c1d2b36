import OmegaPlane.Data.Bytes

/-!
# The HMAC construction

RFC 2104 over an arbitrary hash function.  The key enters only through its key
block: it is hashed when longer than a block and padded with zeros.
-/

namespace OmegaPlane.Crypto

variable (hash : Bytes → Bytes) (blockSize : Nat)

/-- The key, hashed when longer than a block and padded with zeros. -/
def keyBlock (key : Bytes) : Bytes :=
  let short := if blockSize < key.length then hash key else key
  short ++ List.replicate (blockSize - short.length) 0

/-- `hash ((block ⊕ opad) ++ hash ((block ⊕ ipad) ++ message))`. -/
def hmac (key message : Bytes) : Bytes :=
  let block := keyBlock hash blockSize key
  hash (block.map (· ^^^ 0x5c) ++ hash (block.map (· ^^^ 0x36) ++ message))

variable {hash blockSize}

/-- Two keys with the same key block authenticate alike. -/
theorem hmac_eq_of_keyBlock_eq {first second : Bytes}
    (blocks : keyBlock hash blockSize first = keyBlock hash blockSize second)
    (message : Bytes) :
    hmac hash blockSize first message = hmac hash blockSize second message := by
  simp only [hmac, blocks]

end OmegaPlane.Crypto
