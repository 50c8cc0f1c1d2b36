import OmegaPlane.Data.Base64
import OmegaPlane.Data.Checks
import OmegaPlane.Data.Utf8

/-!
# Published signing keys

The JWKS a control plane serves: built from its own CAs, or from the JWKS of the
upstream it consumes, and read again by the agents.  The curve and the JSON
encoding belong to the standard library and are given by their laws.
-/

namespace OmegaPlane.Tokens

/-- An entry of a JWKS; an absent member is empty. -/
structure Jwk where
  kty : Bytes
  crv : Bytes
  kid : Bytes
  use : Bytes
  alg : Bytes
  keyOps : List Bytes
  x : Bytes
  y : Bytes
  deriving DecidableEq

/-- Every text of the entry is well-formed UTF-8. -/
def Jwk.WellFormed (key : Jwk) : Prop :=
  ∀ text ∈ key.kty :: key.crv :: key.kid :: key.use :: key.alg :: key.x :: key.y :: key.keyOps,
    Utf8.valid text = true

instance (key : Jwk) : Decidable key.WellFormed :=
  inferInstanceAs (Decidable (∀ text ∈ _ :: _, Utf8.valid text = true))

/-- The encoding of a JWKS as a document: what is decoded is well formed, and
well-formed entries are decoded as they were encoded. -/
structure JwksCodec (δ : Type) where
  marshal : List Jwk → δ
  unmarshal : δ → Option (List Jwk)
  wellFormed_of_unmarshal : ∀ {doc keys}, unmarshal doc = some keys → ∀ key ∈ keys, key.WellFormed
  unmarshal_marshal : ∀ {keys}, (∀ key ∈ keys, Jwk.WellFormed key) →
    unmarshal (marshal keys) = some keys

/-- Public keys of ECDSA: the uncompressed point of a P-256 key, and the key
read from a point. -/
structure Curve (κ : Type) where
  ecPointBytes : κ → Option Bytes
  parseUncompressedPublicKey : Bytes → Option κ
  parse_point : ∀ {key point}, ecPointBytes key = some point →
    point.length = 65 ∧ point.head? = some 4 ∧ parseUncompressedPublicKey point = some key

inductive JwkError where
  | json
  | x
  | y
  | coordinates (x y : Nat)
  | offCurve
  | noKid
  | duplicateKid
  | noKeys
  deriving DecidableEq

section

variable {κ δ : Type} (curve : Curve κ) (codec : JwksCodec δ)

/-- The key of a pair of base64url coordinates. -/
def ecPublicKeyFromXY (x y : Bytes) : Except JwkError κ :=
  match Base64.rawURLDecodeString x with
  | none => .error .x
  | some xb =>
    match Base64.rawURLDecodeString y with
    | none => .error .y
    | some yb =>
      if xb.length ≠ 32 ∨ yb.length ≠ 32 then .error (.coordinates xb.length yb.length)
      else
        match curve.parseUncompressedPublicKey (4 :: (xb ++ yb)) with
        | none => .error .offCurve
        | some key => .ok key

/-! ## The agent's reading -/

/-- One entry of the loop of `parseJWKS`; a later entry shadows an earlier one. -/
def parseJWK (out : List (Bytes × κ)) (key : Jwk) : Except JwkError (List (Bytes × κ)) :=
  if key.kty ≠ ascii "EC" ∨ key.crv ≠ ascii "P-256" then .ok out
  else
    match ecPublicKeyFromXY curve key.x key.y with
    | .error err => .error err
    | .ok pub => .ok ((key.kid, pub) :: out)

/-- The keys an agent takes from a JWKS. -/
def parseJWKS (doc : δ) : Except JwkError (List (Bytes × κ)) :=
  match codec.unmarshal doc with
  | none => .error .json
  | some keys => keys.foldlM (parseJWK curve) []

/-! ## The upstream's keys -/

/-- The entry under which a signing key is published. -/
def canonicalJWK (kid x y : Bytes) : Jwk where
  kty := ascii "EC"
  crv := ascii "P-256"
  kid := kid
  use := ascii "sig"
  alg := ascii "ES256"
  keyOps := []
  x := x
  y := y

/-- An entry that is not a P-256 signing key. -/
def Jwk.skipped (key : Jwk) : Bool :=
  key.kty ≠ ascii "EC" || key.crv ≠ ascii "P-256" ||
    (key.use ≠ [] && key.use ≠ ascii "sig") ||
    (key.alg ≠ [] && key.alg ≠ ascii "ES256") ||
    (key.keyOps ≠ [] && !key.keyOps.contains (ascii "verify"))

/-- The keys read so far, and the entries to publish for them. -/
abbrev UpstreamKeys (κ : Type) := List (Bytes × κ) × List Jwk

/-- One entry of the loop of `parseUpstreamJWKS`. -/
def parseUpstreamJWK (read : UpstreamKeys κ) (key : Jwk) : Except JwkError (UpstreamKeys κ) :=
  if key.skipped then .ok read
  else if key.kid = [] then .error .noKid
  else if (read.1.lookup key.kid).isSome then .error .duplicateKid
  else
    match ecPublicKeyFromXY curve key.x key.y with
    | .error err => .error err
    | .ok pub =>
      .ok ((key.kid, pub) :: read.1, read.2 ++ [canonicalJWK key.kid key.x key.y])

/-- The signing keys of the upstream and the JWKS served for them. -/
structure UpstreamTrust (κ δ : Type) where
  jwtKeys : List (Bytes × κ)
  jwtBundle : δ

/-- Read the upstream's JWKS; without one there are no keys. -/
def parseUpstreamJWKS : Option δ → Except JwkError (UpstreamTrust κ δ)
  | none => .ok ⟨[], codec.marshal []⟩
  | some doc =>
    match codec.unmarshal doc with
    | none => .error .json
    | some keys =>
      match keys.foldlM (parseUpstreamJWK curve) ([], []) with
      | .error err => .error err
      | .ok (jwtKeys, canonical) =>
        if jwtKeys = [] then .error .noKeys else .ok ⟨jwtKeys, codec.marshal canonical⟩

/-! ## The control plane's own keys -/

/-- The key id of a CA key: the start of a digest of its point. -/
def keyIDOf (sha256 : Bytes → Bytes) (key : Option κ) : Option Bytes :=
  (key.bind curve.ecPointBytes).map fun point =>
    Base64.rawURLEncodeToString ((sha256 point).take 8)

/-- The entry of a CA key; a key of another kind has none. -/
def caJWK (sha256 : Bytes → Bytes) (key : Option κ) : Option Jwk := do
  let kid ← keyIDOf curve sha256 key
  let point ← key.bind curve.ecPointBytes
  return canonicalJWK kid (Base64.rawURLEncodeToString ((point.drop 1).take 32))
    (Base64.rawURLEncodeToString ((point.drop 33).take 32))

/-- The JWKS of the trusted CAs; none when one of them has no entry. -/
def ownJWKS (sha256 : Bytes → Bytes) (trusted : List (Option κ)) : Option δ :=
  (trusted.mapM (caJWK curve sha256)).map codec.marshal

end

/-! ## What an agent reads back -/

section

variable {κ δ : Type} {curve : Curve κ} {codec : JwksCodec δ} {kid x y : Bytes}

theorem parseJWK_canonical {out : List (Bytes × κ)} {pub : κ}
    (read : ecPublicKeyFromXY curve x y = .ok pub) :
    parseJWK curve out (canonicalJWK kid x y) = .ok ((kid, pub) :: out) := by
  simp [parseJWK, canonicalJWK, read]

/-- A canonical entry is well formed when its own texts are. -/
theorem wellFormed_canonicalJWK (kidValid : Utf8.valid kid = true) (xValid : Utf8.valid x = true)
    (yValid : Utf8.valid y = true) :
    (canonicalJWK kid x y).WellFormed := by
  intro text member
  simp only [canonicalJWK, List.mem_cons, List.not_mem_nil, or_false] at member
  rcases member with rfl | rfl | rfl | rfl | rfl | rfl | rfl
  · decide
  · decide
  · exact kidValid
  · decide
  · decide
  · exact xValid
  · exact yValid

/-- What the loop over the upstream's entries keeps: the agent reads the
published entries as the keys read so far, all of them named. -/
structure Published (curve : Curve κ) (read : UpstreamKeys κ) : Prop where
  agent : read.2.foldlM (parseJWK curve) [] = .ok read.1
  named : ∀ entry ∈ read.1, entry.1 ≠ []
  wellFormed : ∀ key ∈ read.2, key.WellFormed

variable {read next : UpstreamKeys κ} {sha256 : Bytes → Bytes} {trusted : List (Option κ)}

theorem Published.parseUpstreamJWK {key : Jwk} (published : Published curve read)
    (wellFormed : key.WellFormed) (parsed : parseUpstreamJWK curve read key = .ok next) :
    Published curve next := by
  unfold Tokens.parseUpstreamJWK at parsed
  split at parsed
  case isTrue =>
    cases parsed
    exact published
  case isFalse =>
    simp only [ite_error_eq_ok] at parsed
    obtain ⟨named, -, parsed⟩ := parsed
    split at parsed
    case h_1 => cases parsed
    case h_2 pub decoded =>
      cases parsed
      refine ⟨?_, ?_, ?_⟩
      · rw [List.foldlM_append, published.agent]
        exact bind_eq_ok.mpr ⟨_, rfl, bind_eq_ok.mpr ⟨_, parseJWK_canonical decoded, rfl⟩⟩
      · intro entry member
        rcases List.mem_cons.mp member with rfl | old
        · exact named
        · exact published.named entry old
      · intro other member
        rcases List.mem_append.mp member with old | new
        · exact published.wellFormed other old
        · rw [List.mem_singleton.mp new]
          exact wellFormed_canonicalJWK (wellFormed _ (by simp)) (wellFormed _ (by simp))
            (wellFormed _ (by simp))

theorem Published.foldlM {keys : List Jwk} (published : Published curve read)
    (wellFormed : ∀ key ∈ keys, key.WellFormed)
    (parsed : keys.foldlM (Tokens.parseUpstreamJWK curve) read = .ok next) :
    Published curve next := by
  induction keys generalizing read with
  | nil =>
    cases parsed
    exact published
  | cons key rest ih =>
    obtain ⟨middle, first, remaining⟩ := bind_eq_ok.mp parsed
    exact ih (published.parseUpstreamJWK (wellFormed key (by simp)) first)
      (fun other member => wellFormed other (by simp [member])) remaining

/-- An agent reads the upstream's keys as the control plane does. -/
theorem parseJWKS_upstream {doc : Option δ} {trust : UpstreamTrust κ δ}
    (parsed : parseUpstreamJWKS curve codec doc = .ok trust) :
    parseJWKS curve codec trust.jwtBundle = .ok trust.jwtKeys ∧
      ∀ entry ∈ trust.jwtKeys, entry.1 ≠ [] := by
  have empty : Published curve (([], []) : UpstreamKeys κ) := ⟨rfl, by simp, by simp⟩
  cases doc with
  | none =>
    cases parsed
    simp [parseJWKS, codec.unmarshal_marshal empty.wellFormed, pure, Except.pure]
  | some doc =>
  simp only [parseUpstreamJWKS] at parsed
  split at parsed
  case h_1 => cases parsed
  case h_2 keys decoded =>
    split at parsed
    case h_1 => cases parsed
    case h_2 jwtKeys canonical folded =>
      obtain ⟨-, same⟩ := ite_error_eq_ok.mp parsed
      cases same
      have published := empty.foldlM (codec.wellFormed_of_unmarshal decoded) folded
      refine ⟨?_, published.named⟩
      simp only [parseJWKS, codec.unmarshal_marshal published.wellFormed]
      exact published.agent

/-- The coordinates of a point give its key back. -/
theorem ecPublicKeyFromXY_point {key : κ} {point : Bytes}
    (ofKey : curve.ecPointBytes key = some point) :
    ecPublicKeyFromXY curve (Base64.rawURLEncodeToString ((point.drop 1).take 32))
      (Base64.rawURLEncodeToString ((point.drop 33).take 32)) = .ok key := by
  obtain ⟨length, tag, parsed⟩ := curve.parse_point ofKey
  have whole : 4 :: ((point.drop 1).take 32 ++ (point.drop 33).take 32) = point := by
    cases point with
    | nil => cases tag
    | cons head rest =>
    cases tag
    have short : rest.length = 64 := by simpa using length
    have rear : (rest.drop 32).take 32 = rest.drop 32 :=
      List.take_of_length_le (by simp [short])
    simp only [List.drop_succ_cons, List.drop_zero, rear, List.take_append_drop]
  have xLength : ((point.drop 1).take 32).length = 32 := by simp [length]
  have yLength : ((point.drop 33).take 32).length = 32 := by simp [length]
  simp only [ecPublicKeyFromXY, Base64.rawURLDecodeString_encode, xLength, yLength, whole, parsed,
    ne_eq, not_true_eq_false, or_self, if_false]

theorem valid_rawURLEncodeToString (bytes : Bytes) :
    Utf8.valid (Base64.rawURLEncodeToString bytes) = true :=
  Utf8.validFrom_of_ascii fun _ => Base64.rawURLEncodeToString_ascii

/-- The entry of a CA key names it by its key id and carries it. -/
theorem caJWK_eq_some {key : Option κ} {entry : Jwk} (made : caJWK curve sha256 key = some entry) :
    ∃ pub kid, key = some pub ∧ keyIDOf curve sha256 key = some kid ∧ entry.WellFormed ∧
      ∀ out, parseJWK curve out entry = .ok ((kid, pub) :: out) := by
  simp only [caJWK, Option.bind_eq_bind, Option.bind_eq_some_iff, Option.pure_def,
    Option.some.injEq] at made
  obtain ⟨kid, named, point, ⟨pub, rfl, ofKey⟩, rfl⟩ := made
  refine ⟨pub, kid, rfl, named, ?_, ?_⟩
  · refine wellFormed_canonicalJWK ?_ (valid_rawURLEncodeToString _) (valid_rawURLEncodeToString _)
    obtain ⟨_, -, rfl⟩ := Option.map_eq_some_iff.mp named
    exact valid_rawURLEncodeToString _
  · intro out
    exact parseJWK_canonical (ecPublicKeyFromXY_point ofKey)

/-- The entries of the CAs are well formed, and the keys an agent has read are
those of the CAs whose entries it went through. -/
theorem foldlM_parseJWK_own {entries : List Jwk}
    (made : trusted.mapM (caJWK curve sha256) = some entries) (out : List (Bytes × κ)) :
    (∀ entry ∈ entries, entry.WellFormed) ∧ ∃ keys, entries.foldlM (parseJWK curve) out = .ok keys ∧
      ∀ entry ∈ keys, entry ∈ out ∨
        some entry.2 ∈ trusted ∧ keyIDOf curve sha256 (some entry.2) = some entry.1 := by
  induction trusted generalizing entries out with
  | nil =>
    cases made
    exact ⟨by simp, out, rfl, fun entry member => .inl member⟩
  | cons key rest ih =>
  simp only [List.mapM_cons, Option.bind_eq_bind, Option.bind_eq_some_iff, Option.pure_def,
    Option.some.injEq] at made
  obtain ⟨first, firstMade, others, othersMade, rfl⟩ := made
  obtain ⟨pub, kid, rfl, named, firstWell, read⟩ := caJWK_eq_some firstMade
  obtain ⟨othersWell, keys, folded, origin⟩ := ih othersMade ((kid, pub) :: out)
  refine ⟨List.forall_mem_cons.mpr ⟨firstWell, othersWell⟩, keys, bind_eq_ok.mpr ⟨_, read out, folded⟩, ?_⟩
  intro entry member
  rcases origin entry member with old | ⟨later, laterNamed⟩
  · rcases List.mem_cons.mp old with rfl | earlier
    · exact .inr ⟨by simp, named⟩
    · exact .inl earlier
  · exact .inr ⟨by simp [later], laterNamed⟩

/-- An agent finds under a key id only a trusted CA key with that id. -/
theorem parseJWKS_own {doc : δ} (published : ownJWKS curve codec sha256 trusted = some doc) :
    ∃ keys, parseJWKS curve codec doc = .ok keys ∧
      ∀ entry ∈ keys, some entry.2 ∈ trusted ∧
        keyIDOf curve sha256 (some entry.2) = some entry.1 := by
  obtain ⟨entries, made, rfl⟩ := Option.map_eq_some_iff.mp published
  obtain ⟨wellFormed, keys, folded, origin⟩ := foldlM_parseJWK_own made []
  refine ⟨keys, ?_, ?_⟩
  · simp only [parseJWKS, codec.unmarshal_marshal wellFormed]
    exact folded
  · intro entry member
    exact (origin entry member).resolve_left (by simp)

end

end OmegaPlane.Tokens
