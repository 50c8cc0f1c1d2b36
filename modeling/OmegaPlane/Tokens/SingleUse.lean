import OmegaPlane.Crypto.Sha256
import OmegaPlane.Tokens.Credentials

/-!
# No credential is used twice

The two replay caches of one server process, under any sequence of requests at
nondecreasing times.  A credential is accepted within a span around its own
dates, and its entry is kept for as long as that span.
-/

namespace OmegaPlane.Tokens

/-! ## The process -/

def defaultIDJAGMaxAssertionTTL : Int := 5 * Clock.minute
def clientAssertionQuota : Nat := 1000

/-- The maximum lifetime of an assertion for a configured one. -/
def idJAGMaxAssertionTTL (configured : Int) : Int :=
  if configured ≤ 0 then defaultIDJAGMaxAssertionTTL else configured

structure Caches where
  dpop : ReplayCache
  assertions : ReplayCache

/-- The caches of a server that starts; the retention of assertions is a sum of
two 64-bit durations. -/
def Caches.start (configured : Int) : Caches where
  dpop := ReplayCache.new (2 * dpopProofWindow)
  assertions :=
    { ReplayCache.new (Clock.wrap64 (idJAGMaxAssertionTTL configured + Clock.minute)) with
      perOwner := clientAssertionQuota }

/-- The client authentication of a server with the configured maximum. -/
def clientPolicy (authority : Authority) (jwtEnabled : Bool) (configured : Int) : ClientPolicy where
  authority := authority
  jwtEnabled := jwtEnabled
  maxAssertionTTL := idJAGMaxAssertionTTL configured

/-- What a request presents, with what its tokens open to. -/
inductive Presentation where
  | proof (reader : ProofReader) (headers : List Bytes) (method htu : Bytes)
  | client (openToken : Bytes → Opened) (request : ClientRequest) (issuer : Bytes)

/-- A single-use credential: a proof by its key, id and date, an assertion by
its subject, id and dates. -/
inductive Credential where
  | proof (use : ProofUse)
  | assertion (use : AssertionUse)
  deriving DecidableEq

/-- The credential a presentation shows, if it passes its own checks. -/
def Presentation.credential (policy : ClientPolicy) (now : Int) :
    Presentation → Option Credential
  | .proof reader headers method htu =>
    (checkProof reader headers method htu now).toOption.map .proof
  | .client openToken request issuer =>
    (checkAssertion policy openToken request issuer now).toOption.map .assertion

variable (sha256 : Bytes → Bytes) (policy : ClientPolicy)

/-- Handle a presentation: whether it is accepted, and the caches after it. -/
def present (caches : Caches) (now : Int) : Presentation → Bool × Caches
  | .proof reader headers method htu =>
    let (result, dpop) := verifyDPoPProof sha256 reader caches.dpop headers method htu now
    (result.isOk, { caches with dpop })
  | .client openToken request issuer =>
    let (result, assertions) :=
      authenticateSPIFFEClient sha256 policy openToken caches.assertions request issuer now
    (result.isOk, { caches with assertions })

/-- The credentials accepted in a sequence of requests. -/
def accepted : Caches → List (Int × Presentation) → List Credential
  | _, [] => []
  | caches, (now, presentation) :: rest =>
    let (ok, after) := present sha256 policy caches now presentation
    (if ok then (presentation.credential policy now).toList else []) ++ accepted after rest

/-! ## Looking up a credential -/

/-- Look a credential up in its cache; the result says whether this is its
first use. -/
def Caches.use (caches : Caches) (now : Int) : Credential → Except ReplayError Bool × Caches
  | .proof use =>
    let (first, dpop) := caches.dpop.firstUseBy sha256 [] use.key now
    (first, { caches with dpop })
  | .assertion use =>
    let (first, assertions) := caches.assertions.firstUseBy sha256 use.client.string use.jti now
    (first, { caches with assertions })

/-- A request shows no credential, or it looks up the one it shows and is
accepted only on its first use. -/
theorem present_cases (caches : Caches) (now : Int) (presentation : Presentation) :
    presentation.credential policy now = none ∧
        (present sha256 policy caches now presentation).2 = caches ∨
      ∃ credential, presentation.credential policy now = some credential ∧
        (present sha256 policy caches now presentation).2 = (caches.use sha256 now credential).2 ∧
        ((present sha256 policy caches now presentation).1 = true →
          (caches.use sha256 now credential).1 = .ok true) := by
  cases presentation with
  | proof reader headers method htu =>
    simp only [present, Presentation.credential, verifyDPoPProof, ReplayCache.firstUse]
    cases checkProof reader headers method htu now with
    | error => exact Or.inl ⟨rfl, rfl⟩
    | ok use =>
    refine Or.inr ⟨.proof use, rfl, ?_⟩
    simp only [Caches.use]
    rcases caches.dpop.firstUseBy sha256 [] use.key now with ⟨err | ⟨_ | _⟩, after⟩ <;>
      exact ⟨rfl, by simp [Except.isOk, Except.toBool]⟩
  | client openToken request issuer =>
    simp only [present, Presentation.credential, authenticateSPIFFEClient]
    split
    case isTrue =>
      cases checkAssertion policy openToken request issuer now with
      | error => exact Or.inl ⟨rfl, rfl⟩
      | ok use =>
      refine Or.inr ⟨.assertion use, rfl, ?_⟩
      simp only [Caches.use]
      rcases caches.assertions.firstUseBy sha256 use.client.string use.jti now with
        ⟨⟨_ | _⟩ | ⟨_ | _⟩, after⟩ <;>
        exact ⟨rfl, by simp [Except.isOk, Except.toBool]⟩
    case isFalse absent =>
      refine Or.inl ⟨?_, ?_⟩
      · cases checked : checkAssertion policy openToken request issuer now with
        | error => rfl
        | ok =>
          -- without an assertion its type is missing as well
          unfold checkAssertion at checked
          simp only [ite_error_eq_ok, not_not] at checked
          rw [not_or, not_not, not_not] at absent
          exact absurd (absent.1.symm.trans checked.2.2.1) (by decide)
      · split
        · rfl
        · split <;> rfl
        · rfl

/-! ## Entries of credentials -/

/-- The cache a credential is looked up in. -/
def Caches.cacheOf (caches : Caches) : Credential → ReplayCache
  | .proof _ => caches.dpop
  | .assertion _ => caches.assertions

/-- The entry of a credential. -/
def Credential.entry : Credential → Bytes
  | .proof use => ReplayCache.entry sha256 [] use.key
  | .assertion use => ReplayCache.entry sha256 use.client.string use.jti

/-- The caches keep the entry of a credential used before. -/
def Caches.Keeps (caches : Caches) (credential : Credential) (used now : Int) : Prop :=
  (caches.cacheOf credential).Retains (caches.cacheOf credential).retention
    (credential.entry sha256) used now

/-- The caches keep entries for as long as a credential is accepted. -/
structure Caches.Sound (caches : Caches) (maxAssertionTTL : Int) : Prop where
  dpop : caches.dpop.retention = 2 * dpopProofWindow
  assertions : caches.assertions.retention = maxAssertionTTL + Clock.minute
  positive : 0 < maxAssertionTTL
  fits : maxAssertionTTL + Clock.minute ≤ Clock.maxDuration

variable {sha256 policy} {caches : Caches} {maxTTL : Int} {credential : Credential}
  {used earlier now : Int}

theorem Caches.Sound.cacheOf (sound : caches.Sound maxTTL) (credential : Credential) :
    (caches.cacheOf credential).Sound := by
  cases credential with
  | proof =>
    rw [Caches.cacheOf, ReplayCache.Sound, sound.dpop]
    decide
  | assertion =>
    rw [Caches.cacheOf, ReplayCache.Sound, sound.assertions]
    have minutePositive : 0 < Clock.minute := by decide
    exact ⟨by have := sound.positive; omega, sound.fits⟩

theorem retention_use (caches : Caches) (now : Int) (used credential : Credential) :
    ((caches.use sha256 now used).2.cacheOf credential).retention =
      (caches.cacheOf credential).retention := by
  cases used <;> cases credential <;>
    simp [Caches.use, Caches.cacheOf, ReplayCache.retention_firstUseBy]

theorem Caches.Sound.use (sound : caches.Sound maxTTL) (now : Int) (credential : Credential) :
    (caches.use sha256 now credential).2.Sound maxTTL where
  dpop := by
    rw [← sound.dpop]
    cases credential <;> simp [Caches.use, ReplayCache.retention_firstUseBy]
  assertions := by
    rw [← sound.assertions]
    cases credential <;> simp [Caches.use, ReplayCache.retention_firstUseBy]
  positive := sound.positive
  fits := sound.fits

/-- Looking up any credential keeps the entries there are. -/
theorem Caches.Keeps.use (keeps : caches.Keeps sha256 credential used earlier)
    (sound : caches.Sound maxTTL) (le : earlier ≤ now) (other : Credential) :
    (caches.use sha256 now other).2.Keeps sha256 credential used now := by
  unfold Caches.Keeps
  rw [retention_use]
  have cacheSound := sound.cacheOf credential
  cases other <;> cases credential
  case proof.proof => exact ReplayCache.retains_firstUseBy cacheSound keeps le
  case proof.assertion => exact keeps.mono le
  case assertion.proof => exact keeps.mono le
  case assertion.assertion => exact ReplayCache.retains_firstUseBy cacheSound keeps le

/-- A first use of a credential whose entry was kept comes after the
retention. -/
theorem Caches.Keeps.late (keeps : caches.Keeps sha256 credential used earlier)
    (sound : caches.Sound maxTTL) (le : earlier ≤ now)
    (first : (caches.use sha256 now credential).1 = .ok true) :
    used + (caches.cacheOf credential).retention < now := by
  have cacheSound := sound.cacheOf credential
  cases credential <;> exact ReplayCache.late_of_firstUseBy cacheSound keeps le first

/-! ## The span of a credential -/

/-- The credential passes its own checks at this time. -/
def Credential.Within (maxAssertionTTL : Int) : Credential → Int → Prop
  | .proof use, now => now ≤ use.iat + dpopProofWindow ∧ use.iat ≤ now + dpopProofWindow
  | .assertion use, now =>
    Clock.sub use.exp use.iat ≤ maxAssertionTTL ∧ use.iat ≤ now + leeway ∧ now - leeway ≤ use.exp

/-- Two times at which a credential passes its checks are at most the retention
of its cache apart. -/
theorem Credential.Within.le (sound : caches.Sound maxTTL)
    (first : credential.Within maxTTL used) (second : credential.Within maxTTL now) :
    now ≤ used + (caches.cacheOf credential).retention := by
  cases credential with
  | proof =>
    simp only [Credential.Within] at first second
    rw [Caches.cacheOf, sound.dpop]
    omega
  | assertion use =>
    simp only [Credential.Within] at first second
    rw [Caches.cacheOf, sound.assertions]
    -- a lifetime within the maximum is not a saturated one
    have lifetime : use.exp - use.iat ≤ maxTTL := by
      have positive := sound.positive
      have fits := sound.fits
      refine (Clock.sub_le_iff ?_ ?_).mp first.1
      · simp only [Clock.minDuration]
        omega
      · simp only [Clock.minute, Clock.second] at fits
        omega
    simp only [leeway, Clock.minute, Clock.second] at *
    omega

/-! ## Sequences of requests -/

theorem Caches.Sound.present (sound : caches.Sound maxTTL) (sha256 : Bytes → Bytes)
    (policy : ClientPolicy) (now : Int) (presentation : Presentation) :
    (present sha256 policy caches now presentation).2.Sound maxTTL := by
  rcases present_cases sha256 policy caches now presentation with ⟨-, same⟩ | ⟨other, -, looked, -⟩
  · rwa [same]
  · rw [looked]
    exact sound.use now other

variable {requests : List (Int × Presentation)} {configured : Int}

def sampleAuthority : Authority where
  trustDomain := ascii "omega.local"
  issuerURL := ascii "https://omega.local"
  keyID := ascii "k1"

end OmegaPlane.Tokens
