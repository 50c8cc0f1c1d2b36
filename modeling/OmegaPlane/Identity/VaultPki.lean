import OmegaPlane.Crypto.Sha256
import OmegaPlane.Identity.OverlapHistory

/-!
# The bundle of the Vault PKI authority

The authority answers from a cached bundle.  It asks Vault again when the cache has run
out, and when that fails it serves the last bundle for a short while.  What it caches is
what the overlap serves, so the cached bytes hold exactly the issuer's certificates and the
kept ones.  The overlap drops a CA whose time is up only when it serves: a CA whose time
runs out while the cache is valid stays in the bundle until the cache has run out too.
-/

namespace OmegaPlane.Identity.Upstream

open CaOverlap

variable {x : X509}

structure VaultPki (x : X509) where
  overlap : CaOverlap x
  bundle : Bytes
  bundleExp : Int
  bundleTTL : Int

namespace VaultPki

def defaultVaultPKIBundleTTL : Int := 5 * Clock.minute

def upstreamRefreshBackoff : Int := 30 * Clock.second

def upstreamGrace (d : Int) : Int :=
  if d < 0 then 0 else d

/-- Fetch the chain and replace the cached bundle; `body` is that of a successful response.
The bundle to serve, unless the refresh fails. -/
def refreshBundle (a : VaultPki x) (body : Option Bytes) (stored : Option (List UpstreamCA))
    (now : Int) : VaultPki x × Option Bytes :=
  match body with
  | none => (a, none)
  | some body =>
    if body.length = 0 ∨ ¬ ascii "-----BEGIN CERTIFICATE-----" <:+: body then (a, none)
    else
      match a.overlap.update body stored now with
      | (o, .error _) => ({ a with overlap := o }, none)
      | (o, .ok served) =>
        ({ a with overlap := o, bundle := served, bundleExp := now + a.bundleTTL }, some served)

/-- An authority, if the first refresh succeeds. -/
def newVaultPKIAuthority (x : X509) (bundleTTL grace : Int) (body : Option Bytes) (now : Int) :
    Option (VaultPki x) :=
  let a : VaultPki x :=
    { overlap := newCAOverlap x (upstreamGrace grace)
      bundle := []
      bundleExp := 0
      bundleTTL := if bundleTTL ≤ 0 then defaultVaultPKIBundleTTL else bundleTTL }
  match a.refreshBundle body none now with
  | (_, none) => none
  | (a, some _) => some a

/-- The cached bundle may be used. -/
def cached (a : VaultPki x) (now : Int) : Bool :=
  0 < a.bundle.length && decide (now < a.bundleExp)

def bundlePEM (a : VaultPki x) (body : Option Bytes) (stored : Option (List UpstreamCA))
    (now : Int) : VaultPki x × Bytes :=
  if a.cached now then (a, a.bundle)
  else
    match a.refreshBundle body stored now with
    | (refreshed, some _) => (refreshed, refreshed.bundle)
    | (refreshed, none) =>
      let (o, answer) := refreshed.overlap.serve now
      let served := answer.getD a.bundle
      if 0 < served.length then
        ({ refreshed with
            overlap := o
            bundle := served
            bundleExp := now + min a.bundleTTL upstreamRefreshBackoff }, served)
      else ({ refreshed with overlap := o }, served)

/-- Cache what the overlap serves now. -/
def recache (a : VaultPki x) (now : Int) : VaultPki x :=
  let (o, answer) := a.overlap.serve now
  { a with overlap := o, bundle := answer.getD a.bundle }

/-- No rows when the store cannot be read. -/
def useCAStore (a : VaultPki x) (stored : Option (List UpstreamCA)) (now : Int) : VaultPki x :=
  match stored with
  | none => a
  | some rows => { a with overlap := a.overlap.attachStore (some rows) now }.recache now

def distrustCAs (a : VaultPki x) (fps : List Bytes) (now : Int) : VaultPki x × Nat :=
  let (o, n) := a.overlap.distrust fps now
  let a := { a with overlap := o }
  (if 0 < n then a.recache now else a, n)

inductive Call where
  | bundlePEM (body : Option Bytes) (stored : Option (List UpstreamCA)) (now : Int)
  | useCAStore (stored : Option (List UpstreamCA)) (now : Int)
  | distrustCAs (fps : List Bytes) (now : Int)

def perform (a : VaultPki x) : Call → VaultPki x
  | .bundlePEM body stored now => (a.bundlePEM body stored now).1
  | .useCAStore stored now => a.useCAStore stored now
  | .distrustCAs fps now => (a.distrustCAs fps now).1

def run (a : VaultPki x) (calls : List Call) : VaultPki x :=
  calls.foldl perform a

/-- Every certificate of the bundle is published, as of the last refresh, or is kept and its
time is not up. -/
def NoneExpired (a : VaultPki x) (bundle : Bytes) (t : Int) : Prop :=
  ∀ block ∈ Pem.blocks bundle,
    (∃ cert ∈ a.overlap.fetched, Workload.certificateBlock cert.toCertificate = block) ∨
      ∃ r ∈ a.overlap.retired.rows,
        Workload.certificateBlock r.cert.toCertificate = block ∧ t < r.keptUntil

instance (a : VaultPki x) (bundle : Bytes) (t : Int) : Decidable (NoneExpired a bundle t) :=
  inferInstanceAs (Decidable (∀ block ∈ Pem.blocks bundle,
    (∃ cert ∈ a.overlap.fetched, Workload.certificateBlock cert.toCertificate = block) ∨
      ∃ r ∈ a.overlap.retired.rows,
        Workload.certificateBlock r.cert.toCertificate = block ∧ t < r.keptUntil))

/-! ## The cache is what the overlap serves -/

variable {certs : List Certificate} {o : CaOverlap x} {now : Int} {a : VaultPki x}

theorem encode_ne_nil (nonempty : certs ≠ []) : encode certs ≠ [] := by
  cases certs with
  | nil => contradiction
  | cons => simp [encode, Pem.encodeToMemory, Pem.beginMark, ascii]

theorem blocks_encode (certs : List Certificate) :
    Pem.blocks (encode certs) =
      certs.map fun cert => Workload.certificateBlock cert.toCertificate := by
  have served := Workload.serves_flatMap (certs.map Certificate.toCertificate)
  rw [List.flatMap_map] at served
  rw [Workload.Serves, List.map_map] at served
  exact served

/-- An overlap that was given a bundle. -/
structure Ready (o : CaOverlap x) : Prop where
  loaded : o.loaded = true
  indexed : o.current = Table.empty.putAll o.fetched
  nonempty : o.fetched ≠ []
  bounded : Bounded o

theorem serve_of_loaded (loaded : o.loaded = true) (now : Int) :
    o.serve now = (o.serveLocked now, some (encode (o.serveLocked now).certificates)) := by
  rw [serve, if_pos loaded]
  rfl

theorem Ready.serveLocked (ready : Ready o) (now : Int) : Ready (o.serveLocked now) where
  loaded := ready.loaded
  indexed := ready.indexed
  nonempty := ready.nonempty
  bounded := by
    have keeps := serve_keepsBounds ready.bounded now
    rw [serve_of_loaded ready.loaded] at keeps
    exact fun r member => (keeps r member).1

theorem nonempty_of_parsePEMCerts {raw : Bytes} (parses : parsePEMCerts x raw = .ok certs) :
    certs ≠ [] := by
  unfold parsePEMCerts at parses
  dsimp only at parses
  split at parses
  · cases parses
    assumption
  · split at parses <;> contradiction

theorem ready_install (bounded : Bounded o) {fetched : Bytes}
    (parses : parsePEMCerts x fetched = .ok certs) (stored : Option (List UpstreamCA)) (now : Int) :
    Ready (o.install certs stored now) where
  loaded := rfl
  indexed := rfl
  nonempty := nonempty_of_parsePEMCerts parses
  bounded := fun r member => (install_keepsBounds bounded certs stored now r member).1

theorem Ready.attachStore (ready : Ready o) (stored : Option (List UpstreamCA)) (now : Int) :
    Ready (o.attachStore stored now) := by
  have bounded : Bounded (o.attachStore stored now) := fun r member =>
    (attachStore_keepsBounds ready.bounded stored now r member).1
  cases stored with
  | none => exact ready
  | some rows =>
  have frame := frame_takeOver { o with attached := true } (some rows) o.current now
  revert bounded
  unfold CaOverlap.attachStore
  dsimp only
  have loaded := frame.loaded.trans ready.loaded
  have indexed : ({ o with attached := true }.takeOver (some rows) o.current now).current =
      Table.empty.putAll
        ({ o with attached := true }.takeOver (some rows) o.current now).fetched := by
    rw [frame.current, frame.fetched]
    exact ready.indexed
  have nonempty : ({ o with attached := true }.takeOver (some rows) o.current now).fetched ≠ [] := by
    rw [frame.fetched]
    exact ready.nonempty
  split <;> exact fun bounded => ⟨loaded, indexed, nonempty, bounded⟩

theorem Ready.distrust (ready : Ready o) (fps : List Bytes) (now : Int) :
    Ready (o.distrust fps now).1 := by
  have bounded : Bounded (o.distrust fps now).1 := fun r member =>
    (distrust_keepsBounds ready.bounded fps now r member).1
  revert bounded
  unfold CaOverlap.distrust
  dsimp only
  split <;> exact fun bounded => ⟨ready.loaded, ready.indexed, ready.nonempty, bounded⟩

/-- If no kept CA is distrusted, the same certificates are served. -/
theorem certificates_distrust {fps : List Bytes} (nothing : (o.distrust fps now).2 = 0) :
    (o.distrust fps now).1.certificates = o.certificates := by
  unfold CaOverlap.distrust at nothing ⊢
  dsimp only at nothing ⊢
  rw [nothing, if_neg (by simp)]
  have stays : ∀ r ∈ o.retired.rows, (!decide (r.fingerprint x ∈ fps)) = true := by
    intro r member
    have absent := List.filter_eq_nil_iff.mp (List.length_eq_zero_iff.mp nothing) r member
    simpa using absent
  have rows : o.retired.rows.filter (fun r => !decide (r.fingerprint x ∈ fps)) = o.retired.rows :=
    List.filter_eq_self.mpr stays
  simp only [certificates, kept, drop, Table.filter, rows]

/-- The cache holds what the overlap serves. -/
structure Primed (a : VaultPki x) : Prop where
  ready : Ready a.overlap
  bundle : a.bundle = encode a.overlap.certificates

theorem primed_recache (ready : Ready a.overlap) (now : Int) : Primed (a.recache now) := by
  unfold recache
  rw [serve_of_loaded ready.loaded]
  exact ⟨ready.serveLocked now, rfl⟩

/-- A refresh that succeeds caches the new bundle; one that fails changes nothing. -/
theorem refreshBundle_cases (bounded : Bounded a.overlap) (body : Option Bytes)
    (stored : Option (List UpstreamCA)) (now : Int) :
    a.refreshBundle body stored now = (a, none) ∨
      ∃ refreshed, a.refreshBundle body stored now = (refreshed, some refreshed.bundle) ∧
        Primed refreshed ∧ ∀ r ∈ refreshed.overlap.retired.rows, now < r.keptUntil := by
  unfold refreshBundle
  cases body with
  | none => exact .inl rfl
  | some body =>
  dsimp only
  split
  · exact .inl rfl
  unfold update
  cases parses : parsePEMCerts x body with
  | error => exact .inl rfl
  | ok =>
    refine .inr ⟨_, rfl, ⟨ready_install bounded parses stored now, rfl⟩, ?_⟩
    exact fun r member => (mem_serveLocked.mp member).2

theorem newVaultPKIAuthority_primed {bundleTTL grace : Int} {body : Option Bytes}
    (created : newVaultPKIAuthority x bundleTTL grace body now = some a) :
    Primed a := by
  unfold newVaultPKIAuthority at created
  dsimp only at created
  rcases refreshBundle_cases (a := ⟨newCAOverlap x (upstreamGrace grace), [], 0,
      if bundleTTL ≤ 0 then defaultVaultPKIBundleTTL else bundleTTL⟩)
      (newCAOverlap_bounded x _) body none now with failed | ⟨refreshed, succeeded, primed, _⟩
  · rw [failed] at created
    contradiction
  · rw [succeeded] at created
    cases created
    exact primed

/-- A call either answers from the cache or serves what the overlap has now. -/
theorem bundlePEM_cases (primed : Primed a) (body : Option Bytes)
    (stored : Option (List UpstreamCA)) (now : Int) :
    (a.cached now = true ∧ a.bundlePEM body stored now = (a, a.bundle)) ∨
      (a.cached now = false ∧ Primed (a.bundlePEM body stored now).1 ∧
        (a.bundlePEM body stored now).2 = (a.bundlePEM body stored now).1.bundle ∧
        ∀ r ∈ (a.bundlePEM body stored now).1.overlap.retired.rows, now < r.keptUntil) := by
  cases isCached : a.cached now with
  | true => exact .inl ⟨rfl, by rw [bundlePEM, if_pos isCached]⟩
  | false =>
  refine .inr ⟨rfl, ?_⟩
  rw [bundlePEM, if_neg (by simp [isCached])]
  rcases refreshBundle_cases primed.ready.bounded body stored now with
    failed | ⟨refreshed, succeeded, primed, running⟩
  · rw [failed]
    dsimp only
    have served := primed.ready.serveLocked now
    have nonempty : encode (a.overlap.serveLocked now).certificates ≠ [] :=
      encode_ne_nil (by simp [certificates, served.nonempty])
    rw [serve_of_loaded primed.ready.loaded]
    dsimp only
    rw [Option.getD_some, if_pos (List.length_pos_iff.mpr nonempty)]
    exact ⟨⟨served, rfl⟩, rfl, fun r member => (mem_serveLocked.mp member).2⟩
  · rw [succeeded]
    exact ⟨primed, rfl, running⟩

theorem Primed.perform (primed : Primed a) (call : Call) : Primed (a.perform call) := by
  cases call with
  | bundlePEM body stored now =>
    rcases bundlePEM_cases primed body stored now with ⟨_, answered⟩ | ⟨_, next, _⟩
    · rw [VaultPki.perform, answered]
      exact primed
    · exact next
  | useCAStore stored now =>
    cases stored with
    | none => exact primed
    | some rows => exact primed_recache (primed.ready.attachStore (some rows) now) now
  | distrustCAs fps now =>
    have ready := primed.ready.distrust fps now
    unfold VaultPki.perform distrustCAs
    dsimp only
    split
    · exact primed_recache ready now
    rename_i nothing
    refine ⟨ready, ?_⟩
    rw [certificates_distrust (Nat.eq_zero_of_not_pos nothing)]
    exact primed.bundle

theorem Primed.run (primed : Primed a) (calls : List Call) : Primed (a.run calls) :=
  List.foldlRecOn calls _ primed fun _ primed call _ => primed.perform call

/-! ## What is returned -/

/-- The cached certificates are none that expired exactly when no kept CA's time is up. -/
theorem noneExpired_iff (primed : Primed a) (t : Int) :
    NoneExpired a a.bundle t ↔ ∀ r ∈ a.overlap.retired.rows, t < r.keptUntil := by
  have blocks : Pem.blocks a.bundle = a.overlap.certificates.map
      fun cert => Workload.certificateBlock cert.toCertificate := by
    rw [primed.bundle, blocks_encode]
  have rawEq : ∀ {first second : Certificate},
      Workload.certificateBlock first.toCertificate =
        Workload.certificateBlock second.toCertificate →
      fingerprint x first = fingerprint x second := fun same =>
    congrArg (fun block : Pem.Block => x.sha256 block.bytes) same
  constructor
  · intro holds r member
    have inBundle : Workload.certificateBlock r.cert.toCertificate ∈ Pem.blocks a.bundle := by
      rw [blocks]
      refine List.mem_map_of_mem (List.mem_append_right _ ?_)
      exact List.mem_map_of_mem (mem_sortOn.mpr member)
    rcases holds _ inBundle with ⟨cert, published, same⟩ | ⟨other, kept, same, running⟩
    · -- A kept CA is not a published one.
      have unpublished := (primed.ready.bounded r member).unpublished
      rw [primed.ready.indexed, Table.lookup_putAll, Option.or_eq_none_iff,
        List.getLast?_eq_none_iff, List.filter_eq_nil_iff] at unpublished
      have differs : fingerprint x cert ≠ r.fingerprint x := by
        simpa using unpublished.1 cert published
      exact absurd (rawEq same) differs
    · rw [Table.eq_of_key_eq member kept (rawEq same).symm]
      exact running
  · intro running block member
    rw [blocks] at member
    obtain ⟨cert, served, rfl⟩ := List.mem_map.mp member
    rcases List.mem_append.mp served with published | kept
    · exact .inl ⟨cert, published, rfl⟩
    · obtain ⟨r, sorted, rfl⟩ := List.mem_map.mp kept
      have isKept := mem_sortOn.mp sorted
      exact .inr ⟨r, isKept, rfl, running r isKept⟩

/-- After any calls, what `BundlePEM` returns holds no CA whose keep time is up, unless it
answers from the cache and the time of a kept CA has run out since it was filled. -/
theorem bundlePEM_unexpired_iff {bundleTTL grace : Int} {first : Option Bytes} {start : Int}
    {a : VaultPki x} (created : newVaultPKIAuthority x bundleTTL grace first start = some a)
    (calls : List Call) (body : Option Bytes) (stored : Option (List UpstreamCA)) (now : Int) :
    NoneExpired ((a.run calls).bundlePEM body stored now).1
        ((a.run calls).bundlePEM body stored now).2 now ↔
      ((a.run calls).cached now = true →
        ∀ r ∈ (a.run calls).overlap.retired.rows, now < r.keptUntil) := by
  have primed := (newVaultPKIAuthority_primed created).run calls
  rcases bundlePEM_cases primed body stored now with
    ⟨isCached, answered⟩ | ⟨uncached, next, returned, running⟩
  · rw [answered, noneExpired_iff primed, isCached]
    simp
  · rw [returned, noneExpired_iff next, uncached]
    simpa using running

/-- Vault replaces the old CA, which is kept for an hour from the tenth minute on; the last
refresh falls into the minute before that hour ends. -/
def refreshedLate : List Call :=
  [.bundlePEM (some (encode [newCA])) none (10 * Clock.minute),
    .bundlePEM (some (encode [newCA])) none (69 * Clock.minute)]

def vaultX509 : X509 := plainX509 Crypto.Sha256.sum

/-- The authority that served the old CA first, after the refreshes. -/
def refreshedAuthority : Option (VaultPki vaultX509) :=
  (newVaultPKIAuthority vaultX509 (5 * Clock.minute) Clock.hour (some (encode [oldCA])) 0).map
    fun a => a.run refreshedLate

/-- Two minutes after its time is up the old CA is still served. -/
theorem cache_serves_expired :
    refreshedAuthority.any (fun a =>
      ((a.bundlePEM none none (72 * Clock.minute)).2 = encode [newCA, oldCA]) &&
        a.overlap.retired.rows = [⟨oldCA, 10 * Clock.minute, 70 * Clock.minute⟩] &&
        !decide (NoneExpired (a.bundlePEM none none (72 * Clock.minute)).1
          (a.bundlePEM none none (72 * Clock.minute)).2 (72 * Clock.minute))) = true := by
  decide +kernel

theorem bundlePEM_unexpired_rotation :
    ∃ a, newVaultPKIAuthority vaultX509 (5 * Clock.minute) Clock.hour (some (encode [oldCA])) 0 =
        some a ∧
      NoneExpired ((a.run refreshedLate).bundlePEM none none (75 * Clock.minute)).1
        ((a.run refreshedLate).bundlePEM none none (75 * Clock.minute)).2 (75 * Clock.minute) := by
  have runOut : (newVaultPKIAuthority vaultX509 (5 * Clock.minute) Clock.hour
      (some (encode [oldCA])) 0).any
        (fun a => (a.run refreshedLate).cached (75 * Clock.minute) = false) = true := by
    decide +kernel
  cases created : newVaultPKIAuthority vaultX509 (5 * Clock.minute) Clock.hour
      (some (encode [oldCA])) 0 with
  | none =>
    rw [created] at runOut
    contradiction
  | some a =>
    refine ⟨a, rfl, (bundlePEM_unexpired_iff created refreshedLate none none _).mpr ?_⟩
    rw [created] at runOut
    intro isCached
    simp [isCached] at runOut

end VaultPki

end OmegaPlane.Identity.Upstream
