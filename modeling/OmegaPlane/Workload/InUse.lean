import OmegaPlane.Crypto.Sha256
import OmegaPlane.Workload.Bundle

/-!
# The certificate in use

The streams and the JWT calls of one workload share the cached certificate.  The
lock of the cache is not held while a certificate is issued, so calls that miss
the cache together each install their own.
-/

namespace OmegaPlane.Workload

def certThumbprintS256 (sha256 : Bytes → Bytes) (certDER : Bytes) : Bytes :=
  Base64.rawURLEncodeToString (sha256 certDER)

/-- What a call does with its certificate: a stream sends it, and a JWT call gets
a token bound to it. -/
inductive Purpose where
  | stream
  | jwt

/-- A call that missed the cache, and one that `getOrRefresh` has returned to. -/
inductive Pending where
  | issuing (purpose : Purpose)
  | holding (purpose : Purpose) (entry : SvidEntry)

/-- A token returned, with the certificate sent last at that time. -/
structure Token where
  thumbprint : Bytes
  sent : Option SvidEntry
  time : Int

/-- What the agent has for one workload. -/
structure Session where
  spiffeID : Bytes
  clock : Int
  cached : Option SvidEntry := none
  pending : List Pending := []
  sent : Option SvidEntry := none
  returned : List Token := []

inductive Event where
  | wait (duration : Nat)
  | begin (purpose : Purpose)
  | issue (index : Nat) (call : SvidCall)
  | finish (index : Nat)
  | fail (index : Nat)

section

variable (parseCertificate : Bytes → Option (Int × Int)) (sha256 : Bytes → Bytes)

def Session.step (s : Session) : Event → Session
  | .wait duration => { s with clock := s.clock + duration }
  | .begin purpose =>
    match s.cached.filter fun entry => entry.spiffeID = s.spiffeID ∧ !entry.stale s.clock with
    | some entry => { s with pending := .holding purpose entry :: s.pending }
    | none => { s with pending := .issuing purpose :: s.pending }
  | .issue index call =>
    match s.pending[index]?, issueEntry parseCertificate call with
    | some (.issuing purpose), .ok entry =>
      { s with cached := some entry, pending := s.pending.set index (.holding purpose entry) }
    | some (.issuing _), .error _ => { s with pending := s.pending.eraseIdx index }
    | _, _ => s
  | .finish index =>
    match s.pending[index]? with
    | some (.holding .stream entry) =>
      { s with sent := some entry, pending := s.pending.eraseIdx index }
    | some (.holding .jwt entry) =>
      { s with
        returned := ⟨certThumbprintS256 sha256 entry.svidDER, s.sent, s.clock⟩ :: s.returned
        pending := s.pending.eraseIdx index }
    | _ => s
  | .fail index => { s with pending := s.pending.eraseIdx index }

/-- No certificate takes the place of one that is fresh, and a token is returned
before its certificate is to be refreshed. -/
def Session.Orderly (s : Session) : List Event → Prop
  | [] => True
  | event :: events =>
    (match event with
      | .issue _ _ => ∀ entry ∈ s.cached, entry.stale s.clock
      | .finish index => ∀ entry, s.pending[index]? = some (.holding .jwt entry) →
          ¬ entry.stale s.clock
      | _ => True) ∧ (s.step parseCertificate sha256 event).Orderly events

def Session.run (s : Session) (events : List Event) : Session :=
  events.foldl (step parseCertificate sha256) s

end

/-- The certificate the token was to be bound to. -/
def Token.Matches (sha256 : Bytes → Bytes) (token : Token) : Prop :=
  ∀ entry ∈ token.sent, ¬ entry.stale token.time →
    token.thumbprint = certThumbprintS256 sha256 entry.svidDER

/-- A certificate that was sent or is held, and is fresh, is the cached one. -/
structure Session.Current (sha256 : Bytes → Bytes) (s : Session) : Prop where
  sent : ∀ entry ∈ s.sent, ¬ entry.stale s.clock → s.cached = some entry
  held : ∀ purpose entry, .holding purpose entry ∈ s.pending → ¬ entry.stale s.clock →
    s.cached = some entry
  returned : ∀ token ∈ s.returned, token.Matches sha256

variable {parseCertificate : Bytes → Option (Int × Int)} {sha256 : Bytes → Bytes} {s : Session}

theorem SvidEntry.not_stale_of_later {entry : SvidEntry} {clock : Int} {duration : Nat}
    (fresh : ¬ entry.stale (clock + duration)) : ¬ entry.stale clock := by
  simp only [SvidEntry.stale, Bool.not_eq_true', decide_eq_false_iff_not, not_not] at fresh ⊢
  omega

theorem Session.Current.erase (current : s.Current sha256) (index : Nat) :
    ({ s with pending := s.pending.eraseIdx index } : Session).Current sha256 :=
  ⟨current.sent, fun purpose entry member =>
    current.held purpose entry (List.mem_of_mem_eraseIdx member), current.returned⟩

theorem Session.Current.step (current : s.Current sha256) {event : Event} {events : List Event}
    (orderly : s.Orderly parseCertificate sha256 (event :: events)) :
    (s.step parseCertificate sha256 event).Current sha256 := by
  cases event with
  | wait duration =>
    exact ⟨fun entry sent fresh => current.sent entry sent (entry.not_stale_of_later fresh),
      fun purpose entry held fresh =>
        current.held purpose entry held (entry.not_stale_of_later fresh), current.returned⟩
  | begin purpose =>
    rw [Session.step]
    split
    · rename_i entry hit
      refine ⟨current.sent, fun other held member fresh => ?_, current.returned⟩
      rcases List.mem_cons.mp member with same | old
      · cases same
        exact (Option.filter_eq_some_iff.mp hit).1
      · exact current.held other held old fresh
    · refine ⟨current.sent, fun other held member => ?_, current.returned⟩
      exact current.held other held ((List.mem_cons.mp member).resolve_left (by simp))
  | issue index call =>
    -- what was fresh would be the cached certificate, which is not
    have noneFresh {entry : SvidEntry} (cached : ¬ entry.stale s.clock → s.cached = some entry)
        (fresh : ¬ entry.stale s.clock) : False :=
      fresh (orderly.1 entry (cached fresh))
    rw [Session.step]
    split
    · rename_i entry _ _
      refine ⟨fun other sent fresh => (noneFresh (current.sent other sent) fresh).elim,
        fun purpose other member fresh => ?_, current.returned⟩
      rcases List.mem_or_eq_of_mem_set member with old | same
      · exact (noneFresh (current.held purpose other old) fresh).elim
      · cases same
        rfl
    · exact current.erase index
    · exact current
  | finish index =>
    rw [Session.step]
    split
    · rename_i entry found
      exact ⟨fun other sent => Option.some.inj sent ▸
        current.held .stream entry (List.mem_of_getElem? found),
        (current.erase index).held, current.returned⟩
    · rename_i entry found
      refine ⟨current.sent, (current.erase index).held, List.forall_mem_cons.mpr
        ⟨fun other sent fresh => ?_, current.returned⟩⟩
      have cached := current.held .jwt entry (List.mem_of_getElem? found) (orderly.1 entry found)
      rw [Option.some.inj (cached.symm.trans (current.sent other sent fresh))]
    · exact current
  | fail index => exact current.erase index

theorem Session.Current.run (current : s.Current sha256) {events : List Event}
    (orderly : s.Orderly parseCertificate sha256 events) :
    (s.run parseCertificate sha256 events).Current sha256 := by
  induction events generalizing s with
  | nil => exact current
  | cons event events ih => exact ih (current.step orderly) orderly.2

/-- In an orderly run every token is bound to the certificate sent last, while
that one is fresh. -/
theorem tokens_match_of_orderly (spiffeID : Bytes) (clock : Int) (events : List Event)
    (orderly : ({ spiffeID, clock } : Session).Orderly parseCertificate sha256 events) :
    ∀ token ∈ (({ spiffeID, clock } : Session).run parseCertificate sha256 events).returned,
      token.Matches sha256 :=
  (Session.Current.run ⟨by simp, by simp, by simp⟩ orderly).returned

/-- A certificate of the workload `web` is issued. -/
def issueWeb (cert : Certificate) : SvidCall where
  cacheKey := ascii "uid:1"
  spiffeID := ascii "spiffe://omega.local/web"
  now := 0
  answer := .ok
    ⟨Pem.encodeToMemory (certificateBlock cert), Pem.encodeToMemory (certificateBlock cert)⟩
  keyDER := some []

/-- What calls of that workload come to, with certificates valid up to 100. -/
def runWeb (events : List Event) : Session :=
  ({ spiffeID := ascii "spiffe://omega.local/web", clock := 0 } : Session).run
    (fun _ => some (0, 100)) Crypto.Sha256.sum events

/-- A stream, and then a JWT call. -/
def streamThenJWT : List Event :=
  [.begin .stream, .issue 0 (issueWeb activeCA), .finish 0, .begin .jwt, .finish 0]

theorem tokens_match_of_orderly_stream : ∃ token ∈ (runWeb streamThenJWT).returned,
    token.sent.isSome ∧ token.Matches Crypto.Sha256.sum := by
  have matched : ∀ token ∈ (runWeb streamThenJWT).returned, token.Matches Crypto.Sha256.sum := by
    refine tokens_match_of_orderly _ 0 _ ⟨trivial, ?_, ?_, trivial, ?_, trivial⟩
    · rintro entry ⟨⟩
    · rintro entry ⟨⟩
    · rintro entry ⟨⟩
      decide
  exact ⟨_, List.mem_cons_self, rfl, matched _ List.mem_cons_self⟩

/-- A stream and a JWT call miss the cache together: the token is bound to the
certificate that was issued last, not to the one that was sent. -/
theorem token_bound_to_unsent :
    ∃ token ∈ (runWeb [.begin .stream, .begin .jwt, .issue 1 (issueWeb activeCA), .finish 1,
      .issue 0 (issueWeb nextCA), .finish 0]).returned, ¬ token.Matches Crypto.Sha256.sum := by
  refine ⟨_, List.mem_cons_self, fun bound => ?_⟩
  exact absurd (bound _ rfl (by decide)) (by decide +kernel)

end OmegaPlane.Workload
