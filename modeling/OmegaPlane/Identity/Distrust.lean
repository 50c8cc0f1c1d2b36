import OmegaPlane.Identity.VaultPki

/-!
# Distrust while bundles are served

`BundlePEM`, `UseCAStore` and `DistrustCAs` of the Vault PKI authority may run at the same
time.  A call reads or writes the cached bundle under one lock and the overlap under
another, and `refreshMu` keeps the calls that change either apart.  Each section under a
lock is one step here, with what a call remembers between its sections in the holder of
`refreshMu`.
-/

namespace OmegaPlane.Identity.Upstream.VaultPki

open CaOverlap

variable {x : X509} {o : CaOverlap x} {bundle : Bytes} {a : VaultPki x} {now : Int}

/-! ## Steps -/

/-- Who holds `refreshMu`, by what that call does next. -/
inductive Holder where
  | free
  /-- `BundlePEM` looks at the cache again. -/
  | entered (stale : Bytes)
  /-- `BundlePEM` waits for Vault. -/
  | fetching (stale : Bytes)
  /-- The overlap has the new bundle and the cache has not. -/
  | updated (served : Bytes)
  /-- The refresh failed. -/
  | failed (stale : Bytes)
  /-- The last fetch is served again and is to be cached. -/
  | reserved (served : Bytes)
  /-- `BundlePEM` reads the cache it filled. -/
  | refreshed
  | attaching
  | attached
  | distrusting (fps : List Bytes)
  | distrusted (fps : List Bytes) (n : Nat)
  /-- `UseCAStore`, or `DistrustCAs` of a list, is about to cache what the overlap serves. -/
  | recaching (fps : Option (List Bytes)) (served : Option Bytes)

structure Shared (x : X509) where
  authority : VaultPki x
  holder : Holder
  /-- The calls of `BundlePEM` that wait for `refreshMu`, each with the bundle it saw. -/
  waiting : List Bytes
  clock : Int

/-- The authority when nobody has called it. -/
def Shared.start (a : VaultPki x) (now : Int) : Shared x :=
  ⟨a, .free, [], now⟩

def Shared.overlap (s : Shared x) : CaOverlap x :=
  s.authority.overlap

/-- What a step shows to callers. -/
inductive Event where
  | silent
  /-- `BundlePEM` returns. -/
  | answered (bundle : Bytes)
  /-- The list of distrusted CAs is replaced. -/
  | replaced
  /-- `DistrustCAs` returns. -/
  | returned (fps : List Bytes)

/-- `DistrustCAs` of a list returns, or `UseCAStore` does. -/
def Event.ofRecache : Option (List Bytes) → Event
  | none => .silent
  | some fps => .returned fps

inductive Step : Shared x → Event → Shared x → Prop where
  | tick {s : Shared x} (now : Int) (later : s.clock ≤ now) :
      Step s .silent { s with clock := now }
  | read {s : Shared x} (isCached : s.authority.cached s.clock = true) :
      Step s (.answered s.authority.bundle) s
  | wait {s : Shared x} (uncached : s.authority.cached s.clock = false) :
      Step s .silent { s with waiting := s.authority.bundle :: s.waiting }
  | enter {s : Shared x} (stale : Bytes) (free : s.holder = .free) (waits : stale ∈ s.waiting) :
      Step s .silent { s with holder := .entered stale, waiting := s.waiting.erase stale }
  | reread {s : Shared x} (stale : Bytes) (entered : s.holder = .entered stale)
      (isCached : s.authority.cached s.clock = true) :
      Step s (.answered s.authority.bundle) { s with holder := .free }
  | fetch {s : Shared x} (stale : Bytes) (entered : s.holder = .entered stale)
      (uncached : s.authority.cached s.clock = false) :
      Step s .silent { s with holder := .fetching stale }
  /-- Vault cannot be reached or its answer is no bundle. -/
  | fail {s : Shared x} (stale : Bytes) (fetching : s.holder = .fetching stale) :
      Step s .silent { s with holder := .failed stale }
  | update {s : Shared x} (stale : Bytes) (fetching : s.holder = .fetching stale) (body : Bytes)
      (stored : Option (List UpstreamCA)) (now : Int) (certs : List Certificate)
      (parses : parsePEMCerts x body = .ok certs) :
      Step s .silent
        { s with
          authority := { s.authority with overlap := s.overlap.install certs stored now }
          holder := .updated ((s.overlap.install certs stored now).served.getD []) }
  | cache {s : Shared x} (served : Bytes) (updated : s.holder = .updated served) :
      Step s .silent
        { s with
          authority := { s.authority with
            bundle := served, bundleExp := s.clock + s.authority.bundleTTL }
          holder := .refreshed }
  | answer {s : Shared x} (refreshed : s.holder = .refreshed) :
      Step s (.answered s.authority.bundle) { s with holder := .free }
  | serveAgain {s : Shared x} (stale : Bytes) (failed : s.holder = .failed stale) (now : Int) :
      Step s .silent
        { s with
          authority := { s.authority with overlap := (s.overlap.serve now).1 }
          holder := .reserved ((s.overlap.serve now).2.getD stale) }
  | backOff {s : Shared x} (served : Bytes) (reserved : s.holder = .reserved served) :
      Step s (.answered served)
        { s with
          authority :=
            if 0 < served.length then
              { s.authority with
                bundle := served
                bundleExp := s.clock + min s.authority.bundleTTL upstreamRefreshBackoff }
            else s.authority
          holder := .free }
  | useStore {s : Shared x} (free : s.holder = .free) :
      Step s .silent { s with holder := .attaching }
  | unread {s : Shared x} (attaching : s.holder = .attaching) :
      Step s .silent { s with holder := .free }
  | attach {s : Shared x} (attaching : s.holder = .attaching) (rows : List UpstreamCA) (now : Int) :
      Step s .silent
        { s with
          authority := { s.authority with overlap := s.overlap.attachStore (some rows) now }
          holder := .attached }
  | distrust {s : Shared x} (free : s.holder = .free) (fps : List Bytes) :
      Step s .silent { s with holder := .distrusting fps }
  | replace {s : Shared x} (fps : List Bytes) (distrusting : s.holder = .distrusting fps)
      (now : Int) :
      Step s .replaced
        { s with
          authority := { s.authority with overlap := (s.overlap.distrust fps now).1 }
          holder := .distrusted fps (s.overlap.distrust fps now).2 }
  | nothingKept {s : Shared x} (fps : List Bytes) (distrusted : s.holder = .distrusted fps 0) :
      Step s (.returned fps) { s with holder := .free }
  /-- What the overlap serves after the store or the list changed what it keeps. -/
  | reserve {s : Shared x} (fps : Option (List Bytes)) (now : Int)
      (changed : fps = none ∧ s.holder = .attached ∨
        ∃ list n, fps = some list ∧ s.holder = .distrusted list n ∧ 0 < n) :
      Step s .silent
        { s with
          authority := { s.authority with overlap := (s.overlap.serve now).1 }
          holder := .recaching fps (s.overlap.serve now).2 }
  | recache {s : Shared x} (fps : Option (List Bytes)) (served : Option Bytes)
      (recaching : s.holder = .recaching fps served) :
      Step s (.ofRecache fps)
        { s with
          authority := { s.authority with bundle := served.getD s.authority.bundle }
          holder := .free }

/-! ## What the cache shows -/

/-- Of the distrusted certificates the bundle has only those of the last fetch. -/
def Shows (o : CaOverlap x) (bundle : Bytes) : Prop :=
  ∀ block ∈ Pem.blocks bundle, x.sha256 block.bytes ∈ o.distrusted →
    ∃ cert ∈ o.fetched, Workload.certificateBlock cert.toCertificate = block

theorem Ready.shows (ready : Ready o) : Shows o (encode o.certificates) := by
  intro block member listed
  rw [blocks_encode] at member
  obtain ⟨cert, served, rfl⟩ := List.mem_map.mp member
  rcases List.mem_append.mp served with published | kept
  · exact ⟨cert, published, rfl⟩
  · obtain ⟨r, sorted, rfl⟩ := List.mem_map.mp kept
    exact absurd listed (ready.bounded r (mem_sortOn.mp sorted)).trusted

theorem Shows.of_eq {after : CaOverlap x} (shows_ : Shows o bundle)
    (fetched : after.fetched = o.fetched) (distrusted : after.distrusted = o.distrusted) :
    Shows after bundle := by
  unfold Shows
  rw [fetched, distrusted]
  exact shows_

/-- What is known of the cache in each phase.  While the overlap has a newer bundle than
the cache, the cache has run out. -/
def PhaseSafe (a : VaultPki x) (clock : Int) : Holder → Prop
  | .free | .entered _ | .refreshed | .attaching | .distrusting _ =>
    a.bundle = encode a.overlap.certificates
  | .fetching _ | .failed _ =>
    a.bundle = encode a.overlap.certificates ∧ a.cached clock = false
  | .updated served | .reserved served =>
    served = encode a.overlap.certificates ∧ a.cached clock = false
  | .attached => Shows a.overlap a.bundle
  | .distrusted fps n =>
    a.overlap.distrusted = fps ∧ (n = 0 → a.bundle = encode a.overlap.certificates)
  | .recaching none served =>
    served = some (encode a.overlap.certificates) ∧ Shows a.overlap a.bundle
  | .recaching (some fps) served =>
    served = some (encode a.overlap.certificates) ∧ a.overlap.distrusted = fps

structure Safe (s : Shared x) : Prop where
  ready : Ready s.overlap
  phase : PhaseSafe s.authority s.clock s.holder

theorem cached_mono {later : Int} (uncached : a.cached now = false) (le : now ≤ later) :
    a.cached later = false := by
  simp only [cached, Bool.and_eq_false_iff, decide_eq_false_iff_not] at uncached ⊢
  omega

theorem frame_attachStore (o : CaOverlap x) (rows : List UpstreamCA) (now : Int) :
    (o.attachStore (some rows) now).fetched = o.fetched ∧
      (o.attachStore (some rows) now).distrusted = o.distrusted := by
  have frame := frame_takeOver { o with attached := true } (some rows) o.current now
  unfold CaOverlap.attachStore
  dsimp only
  split <;> exact ⟨frame.fetched, frame.distrusted⟩

theorem distrusted_install (o : CaOverlap x) (certs : List Certificate)
    (stored : Option (List UpstreamCA)) (now : Int) :
    (o.install certs stored now).distrusted = o.distrusted :=
  (frame_takeOver o (o.loadStored stored) (Table.empty.putAll certs) now).distrusted

theorem distrusted_distrust (o : CaOverlap x) (fps : List Bytes) (now : Int) :
    (o.distrust fps now).1.distrusted = fps := by
  unfold CaOverlap.distrust
  dsimp only
  split <;> rfl

theorem PhaseSafe.later {later : Int} {holder : Holder} (phase : PhaseSafe a now holder)
    (le : now ≤ later) : PhaseSafe a later holder := by
  cases holder with
  | fetching | failed | updated | reserved => exact ⟨phase.1, cached_mono phase.2 le⟩
  | recaching fps => cases fps <;> exact phase
  | _ => exact phase

variable {s s' : Shared x} {event : Event} {fps : List Bytes}

theorem Safe.step (safe : Safe s) (step : Step s event s') : Safe s' := by
  obtain ⟨ready, phase⟩ := safe
  cases step with
  | tick now later => exact ⟨ready, phase.later later⟩
  | read | wait => exact ⟨ready, phase⟩
  | enter stale free | useStore free
  | distrust free => exact ⟨ready, by rw [free] at phase; exact phase⟩
  | reread stale entered => exact ⟨ready, by rw [entered] at phase; exact phase⟩
  | fetch stale entered uncached =>
    rw [entered] at phase
    exact ⟨ready, phase, uncached⟩
  | fail stale fetching => exact ⟨ready, by rw [fetching] at phase; exact phase⟩
  | update stale fetching body stored now certs parses =>
    rw [fetching] at phase
    exact ⟨ready_install ready.bounded parses stored now, rfl, phase.2⟩
  | cache served updated =>
    rw [updated] at phase
    exact ⟨ready, phase.1⟩
  | answer refreshed => exact ⟨ready, by rw [refreshed] at phase; exact phase⟩
  | serveAgain stale failed now =>
    rw [failed] at phase
    rw [serve_of_loaded ready.loaded]
    exact ⟨ready.serveLocked now, rfl, phase.2⟩
  | backOff served reserved =>
    rw [reserved] at phase
    have nonempty : 0 < served.length := by
      rw [phase.1, List.length_pos_iff]
      exact encode_ne_nil (List.append_ne_nil_of_left_ne_nil ready.nonempty _)
    simp only [nonempty, if_true]
    exact ⟨ready, phase.1⟩
  | unread attaching => exact ⟨ready, by rw [attaching] at phase; exact phase⟩
  | attach attaching rows now =>
    rw [attaching] at phase
    obtain ⟨fetched, distrusted⟩ := frame_attachStore s.overlap rows now
    refine ⟨ready.attachStore (some rows) now, ?_⟩
    have shown := ready.shows
    rw [Shared.overlap, ← phase] at shown
    exact shown.of_eq fetched distrusted
  | replace fps distrusting now =>
    rw [distrusting] at phase
    refine ⟨ready.distrust fps now, distrusted_distrust s.overlap fps now, fun none => ?_⟩
    exact phase.trans (congrArg encode (certificates_distrust none).symm)
  | nothingKept fps distrusted =>
    rw [distrusted] at phase
    exact ⟨ready, phase.2 rfl⟩
  | reserve fps now changed =>
    rw [serve_of_loaded ready.loaded]
    refine ⟨ready.serveLocked now, ?_⟩
    rcases changed with ⟨rfl, attached⟩ | ⟨list, n, rfl, distrusted, -⟩
    · rw [attached] at phase
      exact ⟨rfl, phase.of_eq rfl rfl⟩
    · rw [distrusted] at phase
      exact ⟨rfl, phase.1⟩
  | recache fps served recaching =>
    rw [recaching] at phase
    cases fps with
    | none | some => exact ⟨ready, by rw [phase.1]; rfl⟩

/-! ## From when on a list is in force -/

/-- The list is the distrusted one, and no call is about to make that known. -/
structure InForce (fps : List Bytes) (s : Shared x) : Prop where
  distrusted : s.overlap.distrusted = fps
  settled : match s.holder with
    | .distrusted _ _ | .recaching (some _) _ => False
    | _ => True

theorem inForce_of_returned (safe : Safe s) (step : Step s (.returned fps) s') :
    InForce fps s' := by
  have phase := safe.phase
  generalize isEvent : Event.returned fps = event at step
  cases step with
  | nothingKept list distrusted =>
    obtain rfl := Event.returned.inj isEvent
    rw [distrusted] at phase
    exact ⟨phase.1, trivial⟩
  | recache list served recaching =>
    cases list with
    | none => cases isEvent
    | some =>
      obtain rfl := Event.returned.inj isEvent
      rw [recaching] at phase
      exact ⟨phase.2, trivial⟩
  | _ => cases isEvent

theorem InForce.step (inForce : InForce fps s) (safe : Safe s) (step : Step s event s')
    (unreplaced : event ≠ .replaced) : InForce fps s' := by
  obtain ⟨distrusted, settled⟩ := inForce
  cases step with
  | tick | read | wait => exact ⟨distrusted, settled⟩
  | update => exact ⟨(distrusted_install ..).trans distrusted, trivial⟩
  | serveAgain =>
    rw [serve_of_loaded safe.ready.loaded]
    exact ⟨distrusted, trivial⟩
  | backOff =>
    refine ⟨?_, trivial⟩
    rw [Shared.overlap]
    dsimp only
    split <;> exact distrusted
  | attach => exact ⟨(frame_attachStore ..).2.trans distrusted, trivial⟩
  | replace => exact absurd rfl unreplaced
  | reserve list now changed =>
    rcases changed with ⟨rfl, attached⟩ | ⟨_, n, rfl, isDistrusted, -⟩
    · rw [serve_of_loaded safe.ready.loaded]
      exact ⟨distrusted, trivial⟩
    · rw [isDistrusted] at settled
      cases settled
  | _ => exact ⟨distrusted, trivial⟩

/-- While a list is in force the cache, as long as it is used, shows none of it but what
the issuer publishes. -/
theorem InForce.shows (inForce : InForce fps s) (safe : Safe s)
    (isCached : s.authority.cached s.clock = true) : Shows s.overlap s.authority.bundle := by
  have phase := safe.phase
  have settled := inForce.settled
  have shown := safe.ready.shows
  cases isHolder : s.holder with
  | fetching | failed =>
    rw [isHolder] at phase
    exact phase.1 ▸ shown
  | updated | reserved =>
    rw [isHolder] at phase
    exact absurd isCached (by simp [phase.2])
  | attached =>
    rw [isHolder] at phase
    exact phase
  | distrusted =>
    rw [isHolder] at settled
    cases settled
  | recaching fps =>
    rw [isHolder] at phase settled
    cases fps with
    | none => exact phase.2
    | some => cases settled
  | _ =>
    rw [isHolder] at phase
    exact phase ▸ shown

theorem InForce.answers (inForce : InForce fps s) (safe : Safe s)
    (step : Step s (.answered bundle) s') :
    Shows s'.overlap bundle := by
  have phase := safe.phase
  have shown := safe.ready.shows
  generalize isEvent : Event.answered bundle = event at step
  cases step with
  | read isCached | reread stale entered isCached =>
    obtain rfl := Event.answered.inj isEvent
    exact inForce.shows safe isCached
  | answer refreshed =>
    obtain rfl := Event.answered.inj isEvent
    rw [refreshed] at phase
    exact phase ▸ shown
  | backOff served reserved =>
    obtain rfl := Event.answered.inj isEvent
    rw [reserved] at phase
    rw [phase.1]
    refine shown.of_eq ?_ ?_ <;>
    · rw [Shared.overlap]
      dsimp only
      split <;> rfl
  | recache list => cases list <;> cases isEvent
  | _ => cases isEvent

theorem Safe.run (safe : Safe s)
    (run : Relation.ReflTransGen (fun s s' => ∃ event, Step s event s') s s') : Safe s' := by
  induction run with
  | refl => exact safe
  | tail _ step ih =>
    obtain ⟨event, step⟩ := step
    exact ih.step step

/-- Steps that do not replace the list. -/
def Unreplaced (s s' : Shared x) : Prop :=
  ∃ event, event ≠ Event.replaced ∧ Step s event s'

theorem InForce.run (inForce : InForce fps s) (safe : Safe s)
    (since : Relation.ReflTransGen Unreplaced s s') : InForce fps s' ∧ Safe s' := by
  induction since with
  | refl => exact ⟨inForce, safe⟩
  | tail _ step ih =>
    obtain ⟨event, unreplaced, step⟩ := step
    exact ⟨ih.1.step ih.2 step unreplaced, ih.2.step step⟩

/-- Once `DistrustCAs` of a list has returned, and until the list is replaced, what
`BundlePEM` returns has a certificate of it only if the last bundle of the issuer does. -/
theorem distrust_immediate {bundleTTL grace : Int} {first : Option Bytes} {start now : Int}
    {a : VaultPki x} (created : newVaultPKIAuthority x bundleTTL grace first start = some a)
    {before returned s after : Shared x} {fps : List Bytes} {bundle : Bytes}
    (run : Relation.ReflTransGen (fun s s' => ∃ event, Step s event s') (.start a now) before)
    (returns : Step before (.returned fps) returned)
    (since : Relation.ReflTransGen Unreplaced returned s)
    (answers : Step s (.answered bundle) after) :
    ∀ block ∈ Pem.blocks bundle, x.sha256 block.bytes ∈ fps →
      ∃ cert ∈ after.overlap.fetched, Workload.certificateBlock cert.toCertificate = block := by
  have primed := newVaultPKIAuthority_primed created
  have safe : Safe (Shared.start a now) := ⟨primed.ready, primed.bundle⟩
  have safeBefore := safe.run run
  obtain ⟨inForce, safeNow⟩ :=
    (inForce_of_returned safeBefore returns).run (safeBefore.step returns) since
  have shown := inForce.answers safeNow answers
  have unreplaced := (inForce.step safeNow answers nofun).distrusted
  rw [Shows, unreplaced] at shown
  exact shown

/-- A CA that Vault publishes stays when it is distrusted. -/
theorem distrust_immediate_published :
    ∃ (a : VaultPki vaultX509) (after : Shared vaultX509),
      newVaultPKIAuthority vaultX509 (5 * Clock.minute) Clock.hour (some (encode [oldCA])) 0 =
        some a ∧
      ∀ block ∈ Pem.blocks a.bundle, vaultX509.sha256 block.bytes ∈ [fingerprint vaultX509 oldCA] →
        ∃ cert ∈ after.overlap.fetched, Workload.certificateBlock cert.toCertificate = block := by
  have facts : (newVaultPKIAuthority vaultX509 (5 * Clock.minute) Clock.hour
      (some (encode [oldCA])) 0).any (fun a => a.cached 0 &&
        decide ((a.overlap.distrust [fingerprint vaultX509 oldCA] 0).2 = 0)) = true := by
    decide
  cases created : newVaultPKIAuthority vaultX509 (5 * Clock.minute) Clock.hour
      (some (encode [oldCA])) 0 with
  | none =>
    rw [created] at facts
    contradiction
  | some a =>
    simp only [created, Option.any_some, Bool.and_eq_true, decide_eq_true_eq] at facts
    obtain ⟨isCached, nothing⟩ := facts
    have replaced := Step.replace (s := { Shared.start a 0 with holder := .distrusting _ })
      [fingerprint vaultX509 oldCA] rfl 0
    rw [show (Shared.overlap { Shared.start a 0 with holder := .distrusting _ }) = a.overlap from
      rfl, nothing] at replaced
    exact ⟨a, _, rfl, distrust_immediate created
      (.tail (.single ⟨_, .distrust rfl [fingerprint vaultX509 oldCA]⟩) ⟨_, replaced⟩)
      (.nothingKept _ rfl) .refl (.read isCached)⟩

end OmegaPlane.Identity.Upstream.VaultPki
