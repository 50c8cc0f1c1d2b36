import OmegaPlane.Data.Bytes

/-!
# SHA-256

The FIPS 180-4 function on byte strings, over natural numbers reduced modulo
`2 ^ 32`.  The audit model takes its hash as a parameter; this is the function
the program links.
-/

namespace OmegaPlane.Crypto.Sha256

/-- Round constants. -/
def roundConstants : List Nat :=
  [0x428a2f98, 0x71374491, 0xb5c0fbcf, 0xe9b5dba5, 0x3956c25b, 0x59f111f1, 0x923f82a4, 0xab1c5ed5,
   0xd807aa98, 0x12835b01, 0x243185be, 0x550c7dc3, 0x72be5d74, 0x80deb1fe, 0x9bdc06a7, 0xc19bf174,
   0xe49b69c1, 0xefbe4786, 0x0fc19dc6, 0x240ca1cc, 0x2de92c6f, 0x4a7484aa, 0x5cb0a9dc, 0x76f988da,
   0x983e5152, 0xa831c66d, 0xb00327c8, 0xbf597fc7, 0xc6e00bf3, 0xd5a79147, 0x06ca6351, 0x14292967,
   0x27b70a85, 0x2e1b2138, 0x4d2c6dfc, 0x53380d13, 0x650a7354, 0x766a0abb, 0x81c2c92e, 0x92722c85,
   0xa2bfe8a1, 0xa81a664b, 0xc24b8b70, 0xc76c51a3, 0xd192e819, 0xd6990624, 0xf40e3585, 0x106aa070,
   0x19a4c116, 0x1e376c08, 0x2748774c, 0x34b0bcb5, 0x391c0cb3, 0x4ed8aa4a, 0x5b9cca4f, 0x682e6ff3,
   0x748f82ee, 0x78a5636f, 0x84c87814, 0x8cc70208, 0x90befffa, 0xa4506ceb, 0xbef9a3f7, 0xc67178f2]

/-- Initial hash value. -/
def initial : List Nat :=
  [0x6a09e667, 0xbb67ae85, 0x3c6ef372, 0xa54ff53a, 0x510e527f, 0x9b05688c, 0x1f83d9ab, 0x5be0cd19]

/-- Addition modulo `2 ^ 32`. -/
def add (first second : Nat) : Nat :=
  (first + second) % 4294967296

/-- Rotation of a 32-bit word to the right. -/
def rotr (word count : Nat) : Nat :=
  (word >>> count) ||| ((word <<< (32 - count)) % 4294967296)

def smallSigma0 (x : Nat) : Nat := rotr x 7 ^^^ rotr x 18 ^^^ (x >>> 3)

def smallSigma1 (x : Nat) : Nat := rotr x 17 ^^^ rotr x 19 ^^^ (x >>> 10)

def bigSigma0 (x : Nat) : Nat := rotr x 2 ^^^ rotr x 13 ^^^ rotr x 22

def bigSigma1 (x : Nat) : Nat := rotr x 6 ^^^ rotr x 11 ^^^ rotr x 25

def choose (x y z : Nat) : Nat := (x &&& y) ^^^ ((4294967295 ^^^ x) &&& z)

def majority (x y z : Nat) : Nat := (x &&& y) ^^^ (x &&& z) ^^^ (y &&& z)

/-- The rounds of one block, over the constants and the message schedule. -/
def rounds (a b c d e f g h : Nat) : List Nat → List Nat → List Nat
  | constant :: constants, word :: words =>
    let t₁ := add h (add (bigSigma1 e) (add (choose e f g) (add constant word)))
    let t₂ := add (bigSigma0 a) (majority a b c)
    rounds (add t₁ t₂) a b c (add d t₁) e f g constants words
  | _, _ => [a, b, c, d, e, f, g, h]

/-- Extend sixteen message words by `count` scheduled words. -/
def schedule : Nat → List Nat → List Nat
  | 0, words => words
  | count + 1, words =>
    match words with
    | [] => []
    | first :: rest =>
      let next := add (smallSigma1 (rest.getD 13 0)) (add (rest.getD 8 0)
        (add (smallSigma0 (rest.getD 0 0)) first))
      first :: schedule count (rest ++ [next])

/-- Big-endian 32-bit words. -/
def words : List Nat → List Nat
  | a :: b :: c :: d :: rest => (((a * 256 + b) * 256 + c) * 256 + d) :: words rest
  | _ => []

/-- Process one 64-byte block. -/
def compress (state block : List Nat) : List Nat :=
  match state with
  | [a, b, c, d, e, f, g, h] =>
    List.zipWith add state (rounds a b c d e f g h roundConstants (schedule 48 (words block)))
  | _ => state

/-- Process `count` blocks. -/
def compressAll : Nat → List Nat → List Nat → List Nat
  | 0, state, _ => state
  | count + 1, state, message =>
    compressAll count (compress state (message.take 64)) (message.drop 64)

/-- The `width` big-endian bytes of a number. -/
def bigEndian (width n : Nat) : List Nat :=
  (List.range width).map fun i => (n >>> (8 * (width - 1 - i))) % 256

/-- A one bit, zeros and the bit length, up to whole blocks. -/
def pad (message : List Nat) : List Nat :=
  message ++ [128] ++ List.replicate ((119 - message.length % 64) % 64) 0 ++
    bigEndian 8 (8 * message.length)

/-- The 32-byte digest. -/
@[irreducible]
def sum (message : Bytes) : Bytes :=
  let padded := pad (message.map UInt8.toNat)
  (compressAll (padded.length / 64) initial padded).flatMap fun word =>
    (bigEndian 4 word).map UInt8.ofNat

theorem length_rounds (a b c d e f g h : Nat) (constants words : List Nat) :
    (rounds a b c d e f g h constants words).length = 8 := by
  induction constants generalizing a b c d e f g h words with
  | nil => rfl
  | cons constant constants ih =>
    cases words with
    | nil => rfl
    | cons => exact ih _ _ _ _ _ _ _ _ _

variable {state : List Nat}

theorem length_compress (block : List Nat) (size : state.length = 8) :
    (compress state block).length = 8 := by
  unfold compress
  split
  · rw [List.length_zipWith, length_rounds]
    rfl
  · exact size

theorem length_compressAll (count : Nat) (message : List Nat) (size : state.length = 8) :
    (compressAll count state message).length = 8 := by
  induction count generalizing state message with
  | zero => exact size
  | succ count ih => exact ih _ (length_compress _ size)

/-- A digest has 32 bytes. -/
theorem length_sum (message : Bytes) : (sum message).length = 32 := by
  unfold sum
  rw [List.length_flatMap]
  simp only [List.length_map, bigEndian, List.length_range]
  rw [List.map_const', List.sum_replicate, length_compressAll _ _ rfl]
  rfl

example : (sum (ascii "abc")).take 4 = [0xba, 0x78, 0x16, 0xbf] := by decide +kernel

end OmegaPlane.Crypto.Sha256
