import OmegaPlane.Tokens.Delegation

/-!
# Sender-constrained tokens

A token that names a key in its `cnf` claim is taken at the exchange only together with a
proof that its holder has the key: a fresh DPoP proof, or the client certificate of the
connection.  One proof serves both tokens of a request.  The new token keeps the actor's
key, or the subject's when both are one principal, so a principal all of whose tokens are
bound gets no other tokens by exchanging.
-/

namespace OmegaPlane.Tokens

open Decision (Value)

variable {sha256 : Bytes → Bytes}

/-! ## Proof of possession -/

namespace Exchanged

/-- The request has one DPoP proof, by this key and for this endpoint, that checks out now
and was not used before. -/
def ProvesKey (hop : Exchanged sha256) (jkt : Bytes) : Prop :=
  hop.server.authority.issuerURL ≠ [] ∧
    ∃ use, checkProof hop.env.proofs hop.request.transport.dpop hop.request.transport.method
        (hop.server.authority.issuerURL ++ ascii "/v1/token/exchange") hop.clock.proof = .ok use ∧
      use.jkt = jkt ∧ (hop.cache.firstUse sha256 use.key hop.clock.proof).1 = .ok true

/-- The request proves the one key that the confirmation claim names, if there is one. -/
def Proves (hop : Exchanged sha256) (claims : ClaimSet) : Prop :=
  match claims.lookup (ascii "cnf") with
  | none => True
  | some (.obj cnf) =>
    cnf.length = 1 ∧
      ((textClaim cnf (ascii "jkt") ≠ [] ∧ hop.ProvesKey (textClaim cnf (ascii "jkt"))) ∨
        (textClaim cnf (ascii "x5t#S256") ≠ [] ∧
          hop.request.transport.leaf = some (textClaim cnf (ascii "x5t#S256"))))
  | some _ => False

/-- How the request's proof is verified. -/
def verify (hop : Exchanged sha256) : ReplayCache → Except ProofError Bytes × ReplayCache :=
  hop.server.exchangeProof sha256 hop.env hop.request hop.clock.proof

theorem provesKey_of_verify {hop : Exchanged sha256} {jkt : Bytes}
    (verified : (hop.verify hop.cache).1 = .ok jkt) : hop.ProvesKey jkt := by
  unfold verify TokenServer.exchangeProof at verified
  split at verified
  case isTrue => cases verified
  case isFalse issuer =>
    refine ⟨issuer, ?_⟩
    unfold verifyDPoPProof at verified
    split at verified
    case h_1 => cases verified
    case h_2 use checked =>
      refine ⟨use, checked, ?_⟩
      split at verified
      case h_1 | h_2 => cases verified
      case h_3 cache first =>
        cases verified
        exact ⟨rfl, by rw [first]⟩

end Exchanged

/-- The proof was not looked at yet, or its result is known. -/
def ProofOnce.Of (verify : ReplayCache → Except ProofError Bytes × ReplayCache)
    (cache : ReplayCache) (once : ProofOnce) : Prop :=
  (once.result = none ∧ once.cache = cache) ∨ once.result = some (verify cache).1

variable {once : ProofOnce} {hop : Exchanged sha256}

/-- However often it is asked for, the result is that of the one verification. -/
theorem ProofOnce.Of.get {verify : ReplayCache → Except ProofError Bytes × ReplayCache}
    {cache : ReplayCache} (isOf : once.Of verify cache) :
    (once.get verify).1 = (verify cache).1 ∧ (once.get verify).2.Of verify cache := by
  unfold ProofOnce.get
  rcases isOf with ⟨fresh, same⟩ | known
  · rw [fresh, same]
    exact ⟨rfl, .inr rfl⟩
  · rw [known]
    exact ⟨rfl, .inr known⟩

variable {claims : ClaimSet} {tokens : ExchangeTokens} {requested : SpiffeId} {ttl : Int}

/-- A token passes only if the request proves its key. -/
theorem Exchanged.proves_of_check (isOf : once.Of hop.verify hop.cache)
    (passed : (checkPresentedBinding hop.verify hop.request.transport claims once).1 = .ok ()) :
    hop.Proves claims ∧
      (checkPresentedBinding hop.verify hop.request.transport claims once).2.Of hop.verify
        hop.cache := by
  obtain ⟨gets, staysOf⟩ := isOf.get
  revert passed
  unfold Exchanged.Proves checkPresentedBinding
  cases claims.lookup (ascii "cnf") with
  | none => exact fun _ => ⟨trivial, isOf⟩
  | some value =>
  cases value
  case obj cnf =>
    dsimp only
    split
    case isTrue => exact fun passed => absurd passed (by simp)
    case isFalse single =>
      rw [not_not] at single
      split
      case isTrue named =>
        split
        case h_1 => exact fun passed => absurd passed (by simp)
        case h_2 jkt after got =>
          intro passed
          rw [got] at gets staysOf
          have same := not_not.mp (ite_error_eq_ok.mp passed).1
          exact ⟨⟨single, .inl ⟨named, same ▸ provesKey_of_verify gets.symm⟩⟩, staysOf⟩
      case isFalse =>
        split
        case isTrue named =>
          intro passed
          have same := not_not.mp (ite_error_eq_ok.mp passed).1
          exact ⟨⟨single, .inr ⟨named, same⟩⟩, isOf⟩
        case isFalse => exact fun passed => absurd passed (by simp)
  all_goals exact fun passed => absurd passed (by simp)

/-- Both tokens of an answered exchange came with the proof of their keys. -/
theorem Exchanged.Steps.proves (steps : hop.Steps tokens requested ttl) :
    hop.Proves tokens.subjectClaims ∧ hop.Proves tokens.actorClaims := by
  have bound := steps.bound
  have start : ProofOnce.Of hop.verify hop.cache { result := none, cache := hop.cache } :=
    .inl ⟨rfl, rfl⟩
  unfold TokenServer.bindExchange at bound
  dsimp only at bound
  split at bound
  · cases bound
  rename_i once checked
  obtain ⟨subject, isOf⟩ := proves_of_check start (congrArg Prod.fst checked)
  rw [show (checkPresentedBinding hop.verify hop.request.transport tokens.subjectClaims
    { result := none, cache := hop.cache }) = (.ok (), once) from checked] at isOf
  split at bound
  · cases bound
  · rename_i checkedActor
    exact ⟨subject, (proves_of_check isOf (congrArg Prod.fst checkedActor)).1⟩

/-! ## The key of the new token -/

theorem Exchanged.Steps.lookup_cnf (steps : hop.Steps tokens requested ttl) :
    hop.claims.lookup (ascii "cnf") = keptBinding tokens := by
  have notAct : (ascii "cnf" == ascii "act") = false := by decide
  have notScope : (scopeClaim hop.request.scope).lookup (ascii "cnf") = none := by
    unfold scopeClaim
    split
    · rfl
    · rfl
  rw [steps.signed, lookup_stamp_of_added (by decide)]
  cases kept : keptBinding tokens <;>
    simp [exchangeClaims, kept, List.lookup_cons, notAct, List.lookup_append, notScope]

/-- The principal of a token. -/
def principal (claims : ClaimSet) : Bytes :=
  textClaim claims (ascii "sub")

/-- What can be had by exchanging tokens one has. -/
inductive Obtained (sha256 : Bytes → Bytes) (start : Set ClaimSet) : ClaimSet → Prop where
  | given {claims : ClaimSet} (member : claims ∈ start) : Obtained sha256 start claims
  | exchanged (hop : Exchanged sha256) {subject actor : ClaimSet}
      (opensSubject : hop.env.openToken hop.request.subjectToken = .verified subject)
      (opensActor : hop.env.openToken hop.request.actorToken = .verified actor)
      (hasSubject : Obtained sha256 start subject) (hasActor : Obtained sha256 start actor) :
      Obtained sha256 start hop.claims

/-- The tokens an exchange read are those it was given. -/
theorem Exchanged.steps_of_opens (hop : Exchanged sha256) {subject actor : ClaimSet}
    (opensSubject : hop.env.openToken hop.request.subjectToken = .verified subject)
    (opensActor : hop.env.openToken hop.request.actorToken = .verified actor) :
    ∃ tokens requested ttl, hop.Steps tokens requested ttl ∧ tokens.subjectClaims = subject ∧
      tokens.actorClaims = actor ∧ principal subject = tokens.subjectID.string ∧
      principal actor = tokens.actorID.string := by
  obtain ⟨tokens, requested, ttl, steps⟩ := hop.steps
  obtain ⟨readSubject, readActor⟩ := TokenServer.readExchange_parses steps.read
  have subjectOpened := (Authority.parse_eq_ok_iff.mp readSubject).1
  have actorOpened := (Authority.parse_eq_ok_iff.mp readActor).1
  rw [opensSubject] at subjectOpened
  rw [opensActor] at actorOpened
  cases subjectOpened
  cases actorOpened
  refine ⟨tokens, requested, ttl, steps, rfl, rfl, ?_, ?_⟩
  · rw [principal, textClaim, Authority.lookup_sub_of_parse readSubject]
  · rw [principal, textClaim, Authority.lookup_sub_of_parse readActor]

/-- The actor's key is kept. -/
theorem keptBinding_of_actor {cnf : Value}
    (bound : tokens.actorClaims.lookup (ascii "cnf") = some cnf) :
    keptBinding tokens = some cnf := by
  rw [keptBinding, bound]

/-- If one principal's tokens are exchanged and one of them is bound, a key of theirs is
kept. -/
theorem keptBinding_of_same (same : tokens.actorID.string = tokens.subjectID.string)
    (bound : (tokens.subjectClaims.lookup (ascii "cnf")).isSome ∨
      (tokens.actorClaims.lookup (ascii "cnf")).isSome) :
    ∃ cnf, keptBinding tokens = some cnf ∧
      (tokens.subjectClaims.lookup (ascii "cnf") = some cnf ∨
        tokens.actorClaims.lookup (ascii "cnf") = some cnf) := by
  unfold keptBinding
  cases actor : tokens.actorClaims.lookup (ascii "cnf") with
  | some cnf => exact ⟨cnf, rfl, .inr rfl⟩
  | none =>
    rw [actor] at bound
    obtain ⟨cnf, found⟩ := Option.isSome_iff_exists.mp (bound.resolve_right (by simp))
    exact ⟨cnf, by rw [if_pos same, found], .inl found⟩

/-- A principal all of whose tokens are bound obtains only tokens bound to one of their
keys. -/
theorem Obtained.bound {start : Set ClaimSet} {who : Bytes}
    (allBound : ∀ claims ∈ start, principal claims = who → (claims.lookup (ascii "cnf")).isSome)
    (obtained : Obtained sha256 start claims) (own : principal claims = who) :
    ∃ origin ∈ start, principal origin = who ∧
      claims.lookup (ascii "cnf") = origin.lookup (ascii "cnf") ∧
      (claims.lookup (ascii "cnf")).isSome := by
  induction obtained with
  | given member => exact ⟨_, member, own, rfl, allBound _ member own⟩
  | exchanged hop opensSubject opensActor _ _ _ ihActor =>
  obtain ⟨tokens, requested, ttl, steps, -, rfl, -, actorID⟩ :=
    hop.steps_of_opens opensSubject opensActor
  have isActor : principal tokens.actorClaims = who := by
    rw [actorID, ← steps.isActor, ← own, principal, textClaim, steps.lookup_sub]
  obtain ⟨origin, member, originOwn, same, bound⟩ := ihActor isActor
  obtain ⟨cnf, found⟩ := Option.isSome_iff_exists.mp bound
  refine ⟨origin, member, originOwn, ?_, ?_⟩
  · rw [steps.lookup_cnf, keptBinding_of_actor found, ← same, found]
  · rw [steps.lookup_cnf, keptBinding_of_actor found]
    rfl

/-- A token with a confirmation claim is taken as subject or actor token only when the
request proves the one key it names; an exchange of one principal's tokens keeps the key of
one that is bound; and so a principal all of whose tokens are bound obtains no other by
exchanging. -/
theorem bindings_cannot_be_shed (sha256 : Bytes → Bytes) :
    (∀ (hop : Exchanged sha256) (subject actor : ClaimSet),
      hop.env.openToken hop.request.subjectToken = .verified subject →
      hop.env.openToken hop.request.actorToken = .verified actor →
        hop.Proves subject ∧ hop.Proves actor ∧
          (principal subject = principal actor →
            (subject.lookup (ascii "cnf")).isSome ∨ (actor.lookup (ascii "cnf")).isSome →
            ∃ cnf, hop.claims.lookup (ascii "cnf") = some cnf ∧
              (subject.lookup (ascii "cnf") = some cnf ∨
                actor.lookup (ascii "cnf") = some cnf))) ∧
    ∀ (start : Set ClaimSet) (who : Bytes),
      (∀ claims ∈ start, principal claims = who → (claims.lookup (ascii "cnf")).isSome) →
      ∀ claims, Obtained sha256 start claims → principal claims = who →
        ∃ origin ∈ start, principal origin = who ∧
          claims.lookup (ascii "cnf") = origin.lookup (ascii "cnf") ∧
          (claims.lookup (ascii "cnf")).isSome := by
  refine ⟨?_, fun start who allBound claims obtained own => obtained.bound allBound own⟩
  intro hop subject actor opensSubject opensActor
  obtain ⟨tokens, requested, ttl, steps, rfl, rfl, subjectID, actorID⟩ :=
    hop.steps_of_opens opensSubject opensActor
  refine ⟨steps.proves.1, steps.proves.2, ?_⟩
  intro same bound
  have sameID : tokens.actorID.string = tokens.subjectID.string := by
    rw [← subjectID, ← actorID, same]
  rw [steps.lookup_cnf]
  exact keptBinding_of_same sameID bound

/-! ## A token exchanged with itself -/

/-- A token that is bound to a client certificate. -/
def boundToken (id thumbprint : Bytes) : ClaimSet :=
  bindingClaims thumbprint ++ plainToken id

/-- The holder exchanges the token with itself over a connection with the certificate. -/
def withItself : Exchanged Crypto.Sha256.sum :=
  .ofIsSome sampleServer (twoTokens (boundToken coderID (ascii "tp")) (boundToken coderID (ascii "tp")))
    (Caches.start 0).dpop
    { exchangeFor coderID with
      transport := { dpop := [], method := ascii "POST", leaf := some (ascii "tp") } }
    sampleReadings (by decide +kernel)

theorem bindings_kept_withItself :
    (withItself.claims.lookup (ascii "cnf")).isSome ∧
      withItself.claims.lookup (ascii "cnf") =
        (boundToken coderID (ascii "tp")).lookup (ascii "cnf") := by
  have obtained : Obtained Crypto.Sha256.sum {boundToken coderID (ascii "tp")} withItself.claims :=
    .exchanged withItself rfl rfl (.given rfl) (.given rfl)
  obtain ⟨origin, rfl, -, same, bound⟩ :=
    (bindings_cannot_be_shed Crypto.Sha256.sum).2 _ coderID
      (by rintro claims rfl -; decide) _ obtained (by decide +kernel)
  exact ⟨bound, same⟩

end OmegaPlane.Tokens
