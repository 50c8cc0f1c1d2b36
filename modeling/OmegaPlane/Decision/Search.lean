import Mathlib.Data.Rat.Encodable
import Mathlib.Logic.Equiv.List
import Mathlib.Tactic.DeriveCountable
import OmegaPlane.Data.Base64
import OmegaPlane.Data.Checks
import OmegaPlane.Data.Significand

/-!
# Search endpoints

`POST /access/v1/search/…` evaluates a window of a search space: a list of candidates the
caller sends, or the entities of a type.  The token for the next window holds its offset
and a fingerprint of the request, so any replica can go on with the search.
-/

namespace OmegaPlane.Decision.Search

instance : Countable Bytes :=
  have : Countable UInt8 := Function.Injective.countable fun _ _ => UInt8.toNat_inj.mp
  inferInstanceAs (Countable (List UInt8))

/-! ## Requests and their fingerprints -/

structure SearchPageRequest where
  /-- Empty where absent. -/
  token : Bytes := []
  limit : Option Int := none

/-- What an endpoint searches: candidates or a pattern for one part of the tuple, and the
two parts that stay. -/
inductive Query (ε : Type) where
  | overSubjects (subjects : Option (List ε)) (subject : Option ε) (action : Bytes) (resource : ε)
  | overResources (resources : Option (List ε)) (resource : Option ε) (subject : ε) (action : Bytes)
  | overActions (actions : Option (List Bytes)) (subject resource : ε)

-- decoded entities and contexts; a map without entries is the same as none
variable {ε κ : Type}

structure SearchRequest (ε κ : Type) where
  query : Query ε
  context : κ
  page : Option SearchPageRequest := none

namespace SearchRequest

def token (r : SearchRequest ε κ) : Bytes :=
  (r.page.map (·.token)).getD []

def limit (r : SearchRequest ε κ) : Option Int :=
  r.page.bind (·.limit)

/-- The limit, read back as any JSON number. -/
def floatLimit (r : SearchRequest ε κ) : Option Rat :=
  r.limit.map fun n : Int => roundTo 53 n

/-- Everything but `page.token`. -/
def withoutToken (r : SearchRequest ε κ) : Query ε × κ × Option Int :=
  (r.query, r.context, r.limit)

end SearchRequest

/-- A list under a key that is left out where the list is empty. -/
def omitEmpty {α : Type} : Option (List α) → Option (List α)
  | some (first :: rest) => some (first :: rest)
  | _ => none

/-- The keys of a request's JSON object, read back as any value: a number is a 64-bit
float then. -/
structure Body (ε κ : Type) where
  subjects : Option (List ε) := none
  subject : Option ε := none
  actions : Option (List Bytes) := none
  action : Option Bytes := none
  resources : Option (List ε) := none
  resource : Option ε := none
  context : κ
  limit : Option Rat
  deriving Countable

/-- The object that is hashed.  A `page` that held only the token is left out. -/
def SearchRequest.body (r : SearchRequest ε κ) : Body ε κ :=
  match r.query with
  | .overSubjects subjects subject action resource =>
    { subjects := omitEmpty subjects, subject, action, resource, context := r.context,
      limit := r.floatLimit }
  | .overResources resources resource subject action =>
    { resources := omitEmpty resources, resource, subject, action, context := r.context,
      limit := r.floatLimit }
  | .overActions actions subject resource =>
    { actions := omitEmpty actions, subject, resource, context := r.context,
      limit := r.floatLimit }

/-! ## Page tokens -/

structure PageToken where
  offset : Int
  fingerprint : Bytes
  deriving Countable

/-- The JSON form of a page token. -/
structure TokenCodec where
  marshal : PageToken → Bytes
  unmarshal : Bytes → Option PageToken
  unmarshal_marshal (token : PageToken) : unmarshal (marshal token) = some token
  marshal_ne_nil (token : PageToken) : marshal token ≠ []

inductive SearchError where
  | bothSearchSpaces
  | emptyCandidates
  | tooManyCandidates (n : Nat)
  | candidatesRequired
  | noSearchSpace
  | nothingDeclared
  | negativeLimit
  | invalidToken
  | tokenMismatch
  | negativeOffset

def encodePageToken (codec : TokenCodec) (offset : Nat) (fingerprint : Bytes) : Bytes :=
  Base64.rawURLEncodeToString (codec.marshal ⟨offset, fingerprint⟩)

def decodePageToken (codec : TokenCodec) (token fingerprint : Bytes) : Except SearchError Nat :=
  match (Base64.rawURLDecodeString token).bind codec.unmarshal with
  | none => .error .invalidToken
  | some pt =>
    if pt.fingerprint ≠ fingerprint then .error .tokenMismatch
    else if pt.offset < 0 then .error .negativeOffset
    else .ok pt.offset.toNat

theorem decodePageToken_encode (codec : TokenCodec) (offset : Nat) (issued given : Bytes) :
    decodePageToken codec (encodePageToken codec offset issued) given =
      if issued = given then .ok offset else .error .tokenMismatch := by
  rw [decodePageToken, encodePageToken, Base64.rawURLDecodeString_encode]
  simp [codec.unmarshal_marshal, Int.not_lt.mpr (Int.natCast_nonneg offset)]

theorem encodePageToken_ne_nil (codec : TokenCodec) (offset : Nat) (fingerprint : Bytes) :
    encodePageToken codec offset fingerprint ≠ [] :=
  Base64.rawURLEncodeToString_ne_nil (codec.marshal_ne_nil _)

/-! ## Windows -/

def maxSearchCandidates : Nat := 100

/-- The candidates from `start` up to `stop`, and the token for those after them. -/
structure Window where
  start : Nat
  stop : Nat
  next : Bytes

def windowLimit : Option Int → Except SearchError Nat
  | none => .ok maxSearchCandidates
  | some n =>
    if n < 0 then .error .negativeLimit
    else if n < maxSearchCandidates then .ok n.toNat
    else .ok maxSearchCandidates

def windowStart (codec : TokenCodec) (token fingerprint : Bytes) : Except SearchError Nat :=
  if token = [] then .ok 0 else decodePageToken codec token fingerprint

def windowFrom (codec : TokenCodec) (total : Nat) (fingerprint : Bytes) (limit start : Nat) :
    Window :=
  let start := min start total
  let stop := min (start + limit) total
  ⟨start, stop, if stop < total then encodePageToken codec stop fingerprint else []⟩

def searchWindow (codec : TokenCodec) (limit : Option Int) (token : Bytes) (total : Nat)
    (fingerprint : Bytes) : Except SearchError Window := do
  let limit ← windowLimit limit
  let start ← windowStart codec token fingerprint
  return windowFrom codec total fingerprint limit start

structure SearchServer (ε : Type) where
  entityStoreSearch : Bool
  typeOf : ε → Bytes
  entitiesOfType : Bytes → List ε
  actionNames : List Bytes

/-- The candidates of a request. -/
def searchSpace {α : Type} (server : SearchServer ε) (patternGiven : Bool)
    (candidates : Option (List α)) (enumerated : List α) : Except SearchError (List α) :=
  match candidates with
  | some [] => .error .emptyCandidates
  | some (first :: rest) =>
    if maxSearchCandidates < (first :: rest).length then
      .error (.tooManyCandidates (first :: rest).length)
    else .ok (first :: rest)
  | none =>
    if !server.entityStoreSearch then .error .candidatesRequired
    else if !patternGiven then .error .noSearchSpace
    else if enumerated.isEmpty then .error .nothingDeclared
    else .ok enumerated

/-- A candidate list together with a pattern names the space twice. -/
def searchEntities (server : SearchServer ε) (candidates : Option (List ε)) (pattern : Option ε) :
    Except SearchError (List ε) :=
  let patternType := (pattern.map server.typeOf).getD []
  if candidates.isSome ∧ pattern.isSome then .error .bothSearchSpaces
  else searchSpace server (patternType ≠ []) candidates (server.entitiesOfType patternType)

/-- The subject, action and resource of every evaluation a search may make. -/
def Query.space (server : SearchServer ε) : Query ε → Except SearchError (List (ε × Bytes × ε))
  | .overSubjects subjects pattern action resource =>
    (searchEntities server subjects pattern).map (·.map fun subject => (subject, action, resource))
  | .overResources resources pattern subject action =>
    (searchEntities server resources pattern).map
      (·.map fun resource => (subject, action, resource))
  | .overActions actions subject resource =>
    (searchSpace server true actions server.actionNames).map
      (·.map fun action => (subject, action, resource))

section Search

-- the truncated digest of the encoded body, in base64url
variable (codec : TokenCodec) (fingerprint : Body ε κ → Bytes) (server : SearchServer ε)

/-- The window of a request and the evaluations made in it. -/
def search (r : SearchRequest ε κ) : Except SearchError (Window × List (ε × Bytes × ε)) := do
  let space ← r.query.space server
  let window ← searchWindow codec r.limit r.token space.length (fingerprint r.body)
  return (window, (space.drop window.start).take (window.stop - window.start))

variable {codec fingerprint server}

/-! ## Cover -/

/-- The parts of an answered search. -/
structure Answers (codec : TokenCodec) (fingerprint : Body ε κ → Bytes) (server : SearchServer ε)
    (r : SearchRequest ε κ) (space : List (ε × Bytes × ε)) (size k : Nat) : Prop where
  isSpace : r.query.space server = .ok space
  isSize : windowLimit r.limit = .ok size
  starts : windowStart codec r.token (fingerprint r.body) = .ok k

variable {r other : SearchRequest ε κ} {space : List (ε × Bytes × ε)} {size k : Nat}
  {page : Window × List (ε × Bytes × ε)}

theorem Answers.search (answers : Answers codec fingerprint server r space size k) :
    let window := windowFrom codec space.length (fingerprint r.body) size k
    search codec fingerprint server r =
      .ok (window, (space.drop window.start).take (window.stop - window.start)) := by
  simp only [Search.search, searchWindow, answers.isSpace, answers.isSize, answers.starts]
  rfl

theorem answers_of_search (answered : search codec fingerprint server r = .ok page) :
    ∃ space size k, Answers codec fingerprint server r space size k ∧
      page.1 = windowFrom codec space.length (fingerprint r.body) size k := by
  simp only [search, searchWindow, bind_eq_ok, pure, Except.pure, Except.ok.injEq] at answered
  obtain ⟨space, isSpace, _, ⟨size, isSize, k, isStart, rfl⟩, rfl⟩ := answered
  exact ⟨space, size, k, ⟨isSpace, isSize, isStart⟩, rfl⟩

/-- The requests differ in the endpoint or in the limit alone, and their bodies do not:
the limits round to the same float, and a subject search reads from its body what a
resource search reads from it. -/
def Confusable (server : SearchServer ε) (r other : SearchRequest ε κ) : Prop :=
  other.context = r.context ∧
  other.floatLimit = r.floatLimit ∧
  (∀ n, other.limit = some n → 0 ≤ n) ∧
  (other.query = r.query ∧ other.limit ≠ r.limit ∨
    (∃ space, other.query.space server = .ok space) ∧ ∃ subject action resource,
      r.query = .overSubjects none (some subject) action resource ∧
        other.query = .overResources none (some resource) subject action ∨
      r.query = .overResources none (some resource) subject action ∧
        other.query = .overSubjects none (some subject) action resource)

theorem windowLimit_eq_ok {limit : Option Int} :
    (∃ size, windowLimit limit = .ok size) ↔ ∀ n, limit = some n → 0 ≤ n := by
  cases limit with
  | none => simp [windowLimit]
  | some n =>
  by_cases negative : n < 0
  · simp [windowLimit, negative]
  · have positive := Int.not_lt.mp negative
    simp only [windowLimit, negative, if_false, Option.some.injEq, forall_eq', positive, iff_true]
    split <;> exact ⟨_, rfl⟩

/-- An issued token is accepted with the requests that have the same body. -/
theorem accepts_iff (collisionFree : fingerprint.Injective)
    (issued : search codec fingerprint server r = .ok page) (more : page.1.next ≠ [])
    (carries : other.token = page.1.next) :
    (∃ result, search codec fingerprint server other = .ok result) ↔
      (∃ space, other.query.space server = .ok space) ∧ (∀ n, other.limit = some n → 0 ≤ n) ∧
        other.body = r.body := by
  obtain ⟨space, size, k, -, isWindow⟩ := answers_of_search issued
  obtain ⟨offset, isNext⟩ : ∃ offset, page.1.next =
      encodePageToken codec offset (fingerprint r.body) := by
    rw [isWindow, windowFrom] at more ⊢
    simp only at more ⊢
    split
    · exact ⟨_, rfl⟩
    · simp_all
  have starts : (∃ k, windowStart codec other.token (fingerprint other.body) = .ok k) ↔
      other.body = r.body := by
    rw [carries, isNext, windowStart, if_neg (encodePageToken_ne_nil codec _ _),
      decodePageToken_encode]
    by_cases same : other.body = r.body
    · simp [same]
    · have differ : fingerprint r.body ≠ fingerprint other.body := fun equal =>
        same (collisionFree equal).symm
      simp [same, differ]
  rw [← windowLimit_eq_ok, ← starts]
  constructor
  · rintro ⟨result, isResult⟩
    obtain ⟨space, size, k, answers, -⟩ := answers_of_search isResult
    exact ⟨⟨space, answers.isSpace⟩, ⟨size, answers.isSize⟩, k, answers.starts⟩
  · rintro ⟨⟨space, isSpace⟩, ⟨size, isSize⟩, k, isStart⟩
    exact ⟨_, Answers.search ⟨isSpace, isSize, isStart⟩⟩

theorem Confusable.differs (confusable : Confusable server r other) :
    other.withoutToken ≠ r.withoutToken := by
  intro same
  obtain ⟨sameQuery, -, sameLimit⟩ := Prod.mk.inj same |>.imp_right Prod.mk.inj
  obtain ⟨-, -, -, ⟨-, differ⟩ | ⟨-, _, _, _, ⟨isQuery, isOther⟩ | ⟨isQuery, isOther⟩⟩⟩ := confusable
  · exact differ sameLimit
  · cases isOther.symm.trans (sameQuery.trans isQuery)
  · cases isOther.symm.trans (sameQuery.trans isQuery)

end Search

/-! ## Two users and one document -/

def alice : Bytes × Bytes := (ascii "user", ascii "alice")
def report : Bytes × Bytes := (ascii "document", ascii "1")

/-- The entity store declares two users and one document. -/
def sampleServer : SearchServer (Bytes × Bytes) where
  entityStoreSearch := true
  typeOf := Prod.fst
  entitiesOfType kind :=
    [alice, (ascii "user", ascii "bob"), report].filter fun entity => entity.1 = kind
  actionNames := []

/-- The documents Alice may read, asked for with the same body. -/
def readable : SearchRequest (Bytes × Bytes) Unit :=
  ⟨.overResources none report alice (ascii "read"), (), some { limit := some 1 }⟩

end OmegaPlane.Decision.Search
