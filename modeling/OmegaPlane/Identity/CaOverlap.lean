import OmegaPlane.Data.ByteOrder
import OmegaPlane.Data.Table
import OmegaPlane.Workload.Bundle

/-!
# The CAs of an external issuer

An external issuer publishes its CAs.  The overlap serves them together with the ones the
issuer stopped publishing within a grace period, so that certificates signed before a
rotation keep verifying.  What it keeps is shared with other replicas, and with later
processes, through a store of rows: a row without an end is a CA that was published when
the row was saved, the others are kept CAs.

The functions below are those that run under the lock of the overlap.  A row is whatever
the store answers: it may be a replay of an old one.
-/

namespace OmegaPlane.Identity.Upstream

/-! ## Certificates -/

/-- A certificate that parses. -/
structure Certificate extends Workload.Certificate where
  notAfter : Int
  isCA : Bool
  deriving DecidableEq

/-- The hash and the parser of certificates. -/
structure X509 where
  sha256 : Bytes → Bytes
  parseCertificate : Bytes → Option Certificate
  raw_eq : ∀ {der : Bytes} {cert : Certificate}, parseCertificate der = some cert → cert.raw = der

variable (x : X509)

def fingerprint (cert : Certificate) : Bytes :=
  x.sha256 cert.raw

/-- What the parser returns for the certificate's own DER. -/
def Parsed (cert : Certificate) : Prop :=
  x.parseCertificate cert.raw = some cert

inductive BundleError where
  | noCertificates
  | noParseableCertificates
  deriving DecidableEq

/-- A block that does not parse is skipped as long as one does. -/
def parsePEMCerts (raw : Bytes) : Except BundleError (List Certificate) :=
  let blocks := (Pem.blocks raw).filter fun block => block.type = ascii "CERTIFICATE"
  let out := blocks.filterMap fun block => x.parseCertificate block.bytes
  if out ≠ [] then .ok out
  else if blocks ≠ [] then .error .noParseableCertificates
  else .error .noCertificates

def encode (certs : List Certificate) : Bytes :=
  certs.flatMap fun cert => Pem.encodeToMemory (Workload.certificateBlock cert.toCertificate)

/-! ## State -/

/-- A stored row.  No `keptUntil` is the zero time, of a CA that was published when the row was
saved. -/
structure UpstreamCA where
  der : Bytes
  keptAt : Int
  keptUntil : Option Int
  savedAt : Option Int
  deriving DecidableEq

structure RetiredCA where
  cert : Certificate
  keptAt : Int
  keptUntil : Int
  deriving DecidableEq

def RetiredCA.fingerprint (r : RetiredCA) : Bytes :=
  Upstream.fingerprint x r.cert

/-- CAs by fingerprint. -/
abbrev Published := Table (fingerprint x)

abbrev Kept := Table (RetiredCA.fingerprint x)

structure CaOverlap where
  grace : Int
  loaded : Bool
  fetched : List Certificate
  current : Published x
  retired : Kept x
  distrusted : List Bytes
  /-- Bounds the keep time of a CA restored as published. -/
  restoreCap : Table (Prod.fst : Bytes × Int → Bytes)
  served : Option Bytes
  seq : Int
  /-- A store is set. -/
  attached : Bool
  /-- The stored CAs were compared with the issuer's once. -/
  baselined : Bool
  version : Int
  saved : Int

def newCAOverlap (grace : Int) : CaOverlap x where
  grace := grace
  loaded := false
  fetched := []
  current := Table.empty
  retired := Table.empty
  distrusted := []
  restoreCap := Table.empty
  served := none
  seq := 1
  attached := false
  baselined := false
  version := 0
  saved := 0

namespace CaOverlap

variable {x}

/-! ## Under the lock -/

/-- The rows to store: the issuer's CAs and the kept ones. -/
def snapshotLocked (o : CaOverlap x) : List UpstreamCA :=
  (o.current.rows.map fun cert => ⟨cert.raw, 0, none, none⟩) ++
    o.retired.rows.map fun r => ⟨r.cert.raw, r.keptAt, some r.keptUntil, none⟩

/-- Drop the kept CAs that satisfy a condition. -/
def drop (o : CaOverlap x) (gone : RetiredCA → Bool) : CaOverlap x :=
  { o with
    retired := o.retired.filter fun r => !gone r
    version := o.version + (o.retired.rows.filter gone).length }

/-- The kept CAs in the order they are served. -/
def kept (o : CaOverlap x) : List RetiredCA :=
  sortOn (RetiredCA.fingerprint x) o.retired.rows

/-- The certificates to serve: the issuer's in its own order, then the kept ones. -/
def certificates (o : CaOverlap x) : List Certificate :=
  o.fetched ++ o.kept.map RetiredCA.cert

/-- Set the bundle, and count it if it differs from the last one. -/
def publish (o : CaOverlap x) (served : Bytes) : CaOverlap x :=
  { o with
    served := some served
    seq := if o.served.any fun last => served ≠ last then o.seq + 1 else o.seq }

def serveLocked (o : CaOverlap x) (now : Int) : CaOverlap x :=
  let o := o.drop fun r => !decide (now < r.keptUntil)
  o.publish (encode o.certificates)

/-- The end of the grace of a CA that is no longer published. -/
def keepUntil (o : CaOverlap x) (cert : Certificate) (now : Int) : Int :=
  let capped :=
    match o.restoreCap.lookup (fingerprint x cert) with
    | some (_, limit) => min (now + o.grace) limit
    | none => now + o.grace
  min capped cert.notAfter

/-- The CA is to be kept: it is not published, has not expired, is not distrusted and is
not kept already. -/
def leaves (o : CaOverlap x) (next : Published x) (now : Int) (cert : Certificate) : Bool :=
  !((next.lookup (fingerprint x cert)).isSome || !decide (now < cert.notAfter) ||
      decide (fingerprint x cert ∈ o.distrusted)) &&
    (o.retired.lookup (fingerprint x cert)).isNone

def retireLocked (o : CaOverlap x) (prev next : Published x) (now : Int) : CaOverlap x :=
  if o.grace ≤ 0 then o
  else
    let leaving := prev.rows.filter (o.leaves next now)
    { o with
      retired := o.retired.putAll (leaving.map fun cert => ⟨cert, now, o.keepUntil cert now⟩)
      version := o.version + leaving.length }

/-- Keep a CA as a stored row has it, cut to this process's grace and to its expiry. -/
def mergeKept (o : CaOverlap x) (first : Bool) (next : Published x) (now : Int)
    (cert : Certificate) (keptAt rowUntil : Int) : CaOverlap x :=
  let r : RetiredCA := ⟨cert, keptAt, min (min rowUntil (keptAt + o.grace)) cert.notAfter⟩
  if (next.lookup (fingerprint x cert)).isSome || decide (fingerprint x cert ∈ o.distrusted) then o
  else if ¬ now < r.keptUntil then
    -- Its grace ended while no process was running to drop it.
    if first then { o with version := o.version + 1 } else o
  else if (o.retired.lookup (fingerprint x cert)).any
      fun old => old.keptUntil = r.keptUntil && old.keptAt = r.keptAt then o
  else { o with retired := o.retired.put r, version := o.version + 1 }

/-- Fold one row in; `prev` collects the CAs published before. -/
def mergeRow (first : Bool) (next : Published x) (now : Int) (state : CaOverlap x × Published x)
    (row : UpstreamCA) : CaOverlap x × Published x :=
  let (o, prev) := state
  match x.parseCertificate row.der with
  | none => (o, prev)
  | some cert =>
    if !cert.isCA then (o, prev)
    else
      match row.keptUntil with
      | some rowUntil => (o.mergeKept first next now cert row.keptAt rowUntil, prev)
      | none =>
        match row.savedAt with
        | none => (o, prev)
        | some savedAt =>
          if first && decide (now < savedAt + o.grace) then
            ({ o with
                restoreCap := o.restoreCap.put (fingerprint x cert, savedAt + o.grace) },
              prev.put cert)
          else (o, prev)

/-- Fold the stored rows in; also the CAs the issuer published before `next`, which are
this process's own and, the first time, the stored ones. -/
def mergeStoredLocked (o : CaOverlap x) (stored : List UpstreamCA) (next : Published x)
    (now : Int) : CaOverlap x × Published x :=
  stored.foldl (mergeRow (!o.baselined) next now) ({ o with baselined := true }, o.current)

/-- `sameKeys`. -/
def sameKeys (first second : Published x) : Bool :=
  first.rows.length = second.rows.length &&
    first.rows.all fun cert => (second.lookup (fingerprint x cert)).isSome

/-! ## Calls -/

/-- Fold the rows in, if there are any, then keep the CAs that are gone. -/
def takeOver (o : CaOverlap x) (stored : Option (List UpstreamCA)) (next : Published x)
    (now : Int) : CaOverlap x :=
  let merged :=
    match stored with
    | some rows => o.mergeStoredLocked rows next now
    | none => (o, o.current)
  merged.1.retireLocked merged.2 next now

/-- `attachStore`; no rows when they cannot be read. -/
def attachStore (o : CaOverlap x) (stored : Option (List UpstreamCA)) (now : Int) : CaOverlap x :=
  match stored with
  | none => o
  | some rows =>
    let o := { o with attached := true }.takeOver (some rows) o.current now
    let o := { o with version := o.version + 1 }
    if o.loaded then o.serveLocked now else o

/-- `loadStored`, given what the store answers. -/
def loadStored (o : CaOverlap x) (stored : Option (List UpstreamCA)) : Option (List UpstreamCA) :=
  if o.attached then stored else none

/-- Make the parsed bundle the current one. -/
def replace (o : CaOverlap x) (certs : List Certificate) (next : Published x) : CaOverlap x :=
  { o with
    version := if sameKeys o.current next then o.version else o.version + 1
    loaded := true
    fetched := certs
    current := next }

/-- `update` once the bundle is parsed. -/
def install (o : CaOverlap x) (certs : List Certificate) (stored : Option (List UpstreamCA))
    (now : Int) : CaOverlap x :=
  let next : Published x := Table.empty.putAll certs
  let o := o.takeOver (o.loadStored stored) next now
  let o := { o with restoreCap := Table.empty }.drop fun r =>
    (next.lookup (r.fingerprint x)).isSome
  (o.replace certs next).serveLocked now

def update (o : CaOverlap x) (fetched : Bytes) (stored : Option (List UpstreamCA)) (now : Int) :
    CaOverlap x × Except BundleError Bytes :=
  match parsePEMCerts x fetched with
  | .error err => (o, .error err)
  | .ok certs =>
    let o := o.install certs stored now
    (o, .ok (o.served.getD []))

/-- Nothing is served before the first update. -/
def serve (o : CaOverlap x) (now : Int) : CaOverlap x × Option Bytes :=
  if o.loaded then
    let o := o.serveLocked now
    (o, o.served)
  else (o, none)

/-- Also how many kept CAs were dropped. -/
def distrust (o : CaOverlap x) (fps : List Bytes) (now : Int) : CaOverlap x × Nat :=
  let n := (o.retired.rows.filter fun r => r.fingerprint x ∈ fps).length
  let o := { o with distrusted := fps }.drop fun r => r.fingerprint x ∈ fps
  (if 0 < n && o.loaded then o.serveLocked now else o, n)

def sequence (o : CaOverlap x) : Int :=
  o.seq

/-- What `unlock` writes to the store: the snapshot and its version, if it changed. -/
def unsaved (o : CaOverlap x) : Option (List UpstreamCA × Int) :=
  if o.attached && decide (o.version ≠ o.saved) then some (o.snapshotLocked, o.version) else none

/-- `save` of a snapshot that the store took. -/
def save (o : CaOverlap x) (version : Int) : CaOverlap x :=
  if version ≤ o.saved then o else { o with saved := version }

/-! ## What is kept -/

variable {o : CaOverlap x} {r : RetiredCA} {now : Int} {cert : Certificate}

theorem mem_drop {gone : RetiredCA → Bool} :
    r ∈ (o.drop gone).retired.rows ↔ r ∈ o.retired.rows ∧ gone r = false := by
  simp [drop, Table.filter]

theorem mem_serveLocked :
    r ∈ (o.serveLocked now).retired.rows ↔ r ∈ o.retired.rows ∧ now < r.keptUntil := by
  change r ∈ (o.drop _).retired.rows ↔ _
  simp [mem_drop]

/-- What was set is what is served. -/
theorem served_serveLocked (o : CaOverlap x) (now : Int) :
    (o.serveLocked now).served = some (encode (o.serveLocked now).certificates) :=
  rfl

theorem leaves_iff {next : Published x} :
    o.leaves next now cert = true ↔
      next.lookup (fingerprint x cert) = none ∧ now < cert.notAfter ∧
        fingerprint x cert ∉ o.distrusted ∧ o.retired.lookup (fingerprint x cert) = none := by
  simp [leaves, and_assoc]

/-- Nothing that is kept is lost, and a CA that leaves is kept from now on. -/
theorem mem_retireLocked {prev next : Published x} :
    r ∈ (o.retireLocked prev next now).retired.rows ↔
      r ∈ o.retired.rows ∨
        (0 < o.grace ∧ ∃ cert ∈ prev.rows, o.leaves next now cert = true ∧
          r = ⟨cert, now, o.keepUntil cert now⟩) := by
  unfold retireLocked
  split
  · rename_i off
    simp [Int.not_lt.mpr off]
  rename_i on
  have positive : 0 < o.grace := Int.not_le.mp on
  let keep : Certificate → RetiredCA := fun cert => ⟨cert, now, o.keepUntil cert now⟩
  have keys : ((prev.rows.filter (o.leaves next now)).map keep).map (RetiredCA.fingerprint x) =
      (prev.rows.filter (o.leaves next now)).map (fingerprint x) := by
    rw [List.map_map]
    rfl
  have apart : (((prev.rows.filter (o.leaves next now)).map keep).map
      (RetiredCA.fingerprint x)).Nodup := by
    rw [keys]
    exact prev.distinct.sublist (List.filter_sublist.map _)
  have fresh : ∀ other ∈ (prev.rows.filter (o.leaves next now)).map keep,
      o.retired.lookup (other.fingerprint x) = none := by
    intro other member
    obtain ⟨cert, leaving, rfl⟩ := List.mem_map.mp member
    exact (leaves_iff.mp (List.mem_filter.mp leaving).2).2.2.2
  refine (Table.mem_putAll_of_fresh apart fresh).trans (or_congr_right ?_)
  simp only [List.mem_map, List.mem_filter, positive, true_and]
  constructor
  · rintro ⟨cert, ⟨member, leaving⟩, rfl⟩
    exact ⟨cert, member, leaving, rfl⟩
  · rintro ⟨cert, member, leaving, rfl⟩
    exact ⟨cert, ⟨member, leaving⟩, rfl⟩

theorem keepUntil_le_notAfter (o : CaOverlap x) (cert : Certificate) (now : Int) :
    o.keepUntil cert now ≤ cert.notAfter :=
  min_le_right _ _

theorem keepUntil_le_grace (o : CaOverlap x) (cert : Certificate) (now : Int) :
    o.keepUntil cert now ≤ now + o.grace := by
  refine (min_le_left _ _).trans ?_
  split
  · exact min_le_left _ _
  · exact le_rfl

theorem keepUntil_le_cap {limit : Int} (now : Int)
    (capped : o.restoreCap.lookup (fingerprint x cert) = some (fingerprint x cert, limit)) :
    o.keepUntil cert now ≤ limit := by
  rw [keepUntil, capped]
  exact (min_le_left _ _).trans (min_le_right _ _)

theorem keepUntil_of_uncapped (now : Int)
    (uncapped : o.restoreCap.lookup (fingerprint x cert) = none) :
    o.keepUntil cert now = min (now + o.grace) cert.notAfter := by
  rw [keepUntil, uncapped]

end CaOverlap

end OmegaPlane.Identity.Upstream
