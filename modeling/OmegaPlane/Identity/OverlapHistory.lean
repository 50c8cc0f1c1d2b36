import OmegaPlane.Data.Clock
import OmegaPlane.Identity.KeptBounds

/-!
# What the overlap serves, from its history

Without a store the overlap is determined by the calls made to it.  The bundles it was
given and the lists of distrusted CAs say which CAs are served at a time: those of the last
bundle, and those an earlier bundle had that were dropped less than a grace ago.  The state
of the overlap is this description, kept up to date call by call.
-/

namespace OmegaPlane.Identity.Upstream

variable (x : X509)

/-! ## Histories -/

inductive Call where
  | update (fetched : Bytes) (now : Int)
  | serve (now : Int)
  | distrust (fps : List Bytes) (now : Int)

namespace Call

def time : Call → Int
  | update _ now => now
  | serve now => now
  | distrust _ now => now

/-- The call as an operation of an overlap without a store. -/
def operation : Call → CaOverlap.Operation
  | update fetched now => .update fetched none now
  | serve now => .serve now
  | distrust fps now => .distrust fps now

/-- The CAs the call makes the issuer's current ones, if its bundle parses. -/
def publishes : Call → Option (List Certificate)
  | update fetched _ => (parsePEMCerts x fetched).toOption
  | _ => none

/-- The list of distrusted CAs that the call sets. -/
def distrusts : Call → Option (List Bytes)
  | distrust fps _ => some fps
  | _ => none

end Call

/-- The certificates of the last update. -/
def published (calls : List Call) : List Certificate :=
  (calls.filterMap (Call.publishes x)).getLast?.getD []

/-- The distrust list in force. -/
def distrustList (calls : List Call) : List Bytes :=
  (calls.filterMap Call.distrusts).getLast?.getD []

/-- An update stopped publishing the CA, which had not expired; at time `t` its keep time
has not passed, no later update published it again, and neither the distrust list in force
then nor one set since has it. -/
def Overlaps (grace : Int) (calls : List Call) (t : Int) (cert : Certificate) : Prop :=
  ∃ before call certs later, calls = before ++ call :: later ∧ call.publishes x = some certs ∧
    cert ∈ published x before ∧ cert ∉ certs ∧ call.time < cert.notAfter ∧
    t < min (call.time + grace) cert.notAfter ∧
    (∀ next ∈ later, ∀ more, next.publishes x = some more → cert ∉ more) ∧
    fingerprint x cert ∉ distrustList before ∧
    ∀ next ∈ later, ∀ fps, next.distrusts = some fps → fingerprint x cert ∉ fps

/-- The overlap after the calls. -/
def overlapAfter (grace : Int) (calls : List Call) : CaOverlap x :=
  (newCAOverlap x grace).run (calls.map Call.operation)

variable {x}

theorem overlapAfter_concat (grace : Int) (calls : List Call) (call : Call) :
    overlapAfter x grace (calls ++ [call]) =
      ((overlapAfter x grace calls).perform call.operation).1 := by
  simp [overlapAfter, CaOverlap.run]

theorem published_concat (calls : List Call) (call : Call) :
    published x (calls ++ [call]) = (call.publishes x).getD (published x calls) := by
  unfold published
  rw [List.filterMap_append]
  cases publishes : call.publishes x <;> simp [publishes]

theorem distrustList_concat (calls : List Call) (call : Call) :
    distrustList (calls ++ [call]) = call.distrusts.getD (distrustList calls) := by
  unfold distrustList
  rw [List.filterMap_append]
  cases distrusts : call.distrusts <;> simp [distrusts]

/-- One more call: the CA overlapped before and the call does not end it, or the call is
the update that stopped publishing it. -/
theorem overlaps_concat {grace : Int} {calls : List Call} {call : Call} {t : Int}
    {cert : Certificate} :
    Overlaps x grace (calls ++ [call]) t cert ↔
      (Overlaps x grace calls t cert ∧ (∀ more, call.publishes x = some more → cert ∉ more) ∧
          ∀ fps, call.distrusts = some fps → fingerprint x cert ∉ fps) ∨
        ∃ certs, call.publishes x = some certs ∧ cert ∈ published x calls ∧ cert ∉ certs ∧
          call.time < cert.notAfter ∧ t < min (call.time + grace) cert.notAfter ∧
          fingerprint x cert ∉ distrustList calls := by
  constructor
  · rintro ⟨before, stop, certs, later, split, publishes, earlier, gone, valid, running, unpublished,
      trusted, undistrusted⟩
    rcases List.eq_nil_or_concat later with rfl | ⟨rest, last, rfl⟩
    · obtain ⟨rfl, equal⟩ := List.append_inj' split rfl
      cases equal
      exact .inr ⟨certs, publishes, earlier, gone, valid, running, trusted⟩
    · rw [List.concat_eq_append] at split unpublished undistrusted
      have aligned : calls ++ [call] = (before ++ stop :: rest) ++ [last] := by simpa using split
      obtain ⟨rfl, equal⟩ := List.append_inj' aligned rfl
      cases equal
      refine .inl ⟨⟨before, stop, certs, rest, rfl, publishes, earlier, gone, valid, running, ?_,
        trusted, ?_⟩, ?_, ?_⟩
      · exact fun next member => unpublished next (List.mem_append_left _ member)
      · exact fun next member => undistrusted next (List.mem_append_left _ member)
      · exact unpublished call (by simp)
      · exact undistrusted call (by simp)
  · rintro (⟨⟨before, stop, certs, rest, rfl, publishes, earlier, gone, valid, running, unpublished,
      trusted, undistrusted⟩, notNow, notListed⟩ |
      ⟨certs, publishes, earlier, gone, valid, running, trusted⟩)
    · refine ⟨before, stop, certs, rest ++ [call], by simp, publishes, earlier, gone, valid, running,
        ?_, trusted, ?_⟩
      · intro next member
        rcases List.mem_append.mp member with old | new
        · exact unpublished next old
        · exact List.mem_singleton.mp new ▸ notNow
      · intro next member
        rcases List.mem_append.mp member with old | new
        · exact undistrusted next old
        · exact List.mem_singleton.mp new ▸ notListed
    · exact ⟨calls, call, certs, [], rfl, publishes, earlier, gone, valid, running, by simp, trusted,
        by simp⟩

/-! ## Certificates by fingerprint -/

theorem parsed_of_parsePEMCerts {raw : Bytes} {certs : List Certificate}
    (parses : parsePEMCerts x raw = .ok certs) : ∀ cert ∈ certs, Parsed x cert := by
  unfold parsePEMCerts at parses
  dsimp only at parses
  split at parses
  · cases parses
    intro cert member
    obtain ⟨block, _, parsed⟩ := List.mem_filterMap.mp member
    rw [Parsed, x.raw_eq parsed]
    exact parsed
  · split at parses <;> contradiction

section Collisions

variable (collisionFree : Function.Injective x.sha256)
include collisionFree

/-- Two certificates with one fingerprint are one certificate. -/
theorem eq_of_fingerprint {first second : Certificate} (firstParsed : Parsed x first)
    (secondParsed : Parsed x second) (same : fingerprint x first = fingerprint x second) :
    first = second := by
  have raws : first.raw = second.raw := collisionFree same
  rw [Parsed, raws, secondParsed] at firstParsed
  exact (Option.some.inj firstParsed).symm

variable {certs : List Certificate} {cert : Certificate}

theorem mem_index (parsed : ∀ cert ∈ certs, Parsed x cert) :
    cert ∈ (Table.empty.putAll certs : Published x).rows ↔ cert ∈ certs := by
  rw [Table.mem_rows_iff, Table.lookup_putAll]
  have nothing : (Table.empty : Published x).lookup (fingerprint x cert) = none := rfl
  rw [nothing, Option.or_none]
  constructor
  · intro last
    exact (List.mem_filter.mp (List.mem_of_getLast? last)).1
  intro member
  cases last : (certs.filter fun row => fingerprint x row = fingerprint x cert).getLast? with
  | none =>
    have absent := List.filter_eq_nil_iff.mp (List.getLast?_eq_none_iff.mp last) cert member
    simp at absent
  | some found =>
    obtain ⟨foundMember, same⟩ := List.mem_filter.mp (List.mem_of_getLast? last)
    rw [eq_of_fingerprint collisionFree (parsed found foundMember) (parsed cert member)
      (by simpa using same)]

theorem lookup_index_eq_none (parsed : ∀ cert ∈ certs, Parsed x cert) (certParsed : Parsed x cert) :
    (Table.empty.putAll certs : Published x).lookup (fingerprint x cert) = none ↔ cert ∉ certs := by
  rw [Table.lookup_eq_none_iff]
  constructor
  · intro absent member
    exact absent cert ((mem_index collisionFree parsed).mpr member) rfl
  · intro absent row member same
    have rowMember := (mem_index collisionFree parsed).mp member
    exact absent (eq_of_fingerprint collisionFree (parsed row rowMember) certParsed same ▸ rowMember)

end Collisions

/-! ## The state follows the history -/

namespace CaOverlap

/-- The state is what the history says. -/
structure Exact (grace : Int) (calls : List Call) (o : CaOverlap x) : Prop where
  grace_eq : o.grace = grace
  unattached : o.attached = false
  uncapped : ∀ fp, o.restoreCap.lookup fp = none
  fetched : o.fetched = published x calls
  current : ∀ cert, cert ∈ o.current.rows ↔ cert ∈ published x calls
  parsed : ∀ cert ∈ published x calls, Parsed x cert
  keptParsed : ∀ r ∈ o.retired.rows, Parsed x r.cert
  distrusted : o.distrusted = distrustList calls
  kept : ∀ t, (∀ call ∈ calls, call.time ≤ t) → ∀ cert,
    (∃ r ∈ o.retired.rows, r.cert = cert ∧ t < r.keptUntil) ↔ Overlaps x grace calls t cert

theorem newCAOverlap_exact (grace : Int) : Exact grace [] (newCAOverlap x grace) where
  grace_eq := rfl
  unattached := rfl
  uncapped := fun _ => rfl
  fetched := rfl
  current := fun _ => Iff.rfl
  parsed := fun _ member => absurd member List.not_mem_nil
  keptParsed := fun _ member => absurd member List.not_mem_nil
  distrusted := rfl
  kept := by
    intro t _ cert
    constructor
    · rintro ⟨r, member, _⟩
      exact absurd member List.not_mem_nil
    · rintro ⟨before, call, certs, later, split, _⟩
      exact absurd split (by simp)

variable {grace : Int} {calls : List Call} {o : CaOverlap x} {call : Call}

/-- Serving drops what has run out by then, which no later call asks for. -/
theorem Exact.serveLocked {now : Int} (exactly : Exact grace calls o)
    (reached : ∃ call ∈ calls, now ≤ call.time) :
    Exact grace calls (o.serveLocked now) where
  grace_eq := exactly.grace_eq
  unattached := exactly.unattached
  uncapped := exactly.uncapped
  fetched := exactly.fetched
  current := exactly.current
  parsed := exactly.parsed
  keptParsed := fun r member => exactly.keptParsed r (mem_serveLocked.mp member).1
  distrusted := exactly.distrusted
  kept := by
    intro t times cert
    rw [← exactly.kept t times cert]
    obtain ⟨call, member, later⟩ := reached
    have past : now ≤ t := later.trans (times call member)
    constructor
    · rintro ⟨r, kept, certEq, running⟩
      exact ⟨r, (mem_serveLocked.mp kept).1, certEq, running⟩
    · rintro ⟨r, kept, certEq, running⟩
      exact ⟨r, mem_serveLocked.mpr ⟨kept, past.trans_lt running⟩, certEq, running⟩

/-- A call that neither publishes nor distrusts leaves the description as it is. -/
theorem Exact.quiet (exactly : Exact grace calls o) (unpublished : call.publishes x = none)
    (undistrusted : call.distrusts = none) :
    Exact grace (calls ++ [call]) o where
  grace_eq := exactly.grace_eq
  unattached := exactly.unattached
  uncapped := exactly.uncapped
  fetched := by rw [published_concat, unpublished]; exact exactly.fetched
  current := by rw [published_concat, unpublished]; exact exactly.current
  parsed := by rw [published_concat, unpublished]; exact exactly.parsed
  keptParsed := exactly.keptParsed
  distrusted := by rw [distrustList_concat, undistrusted]; exact exactly.distrusted
  kept := by
    intro t times cert
    rw [exactly.kept t (fun earlier member => times earlier (List.mem_append_left _ member)) cert,
      overlaps_concat]
    simp [unpublished, undistrusted]

/-- A new distrust list drops the kept CAs it has. -/
theorem Exact.drop_distrusted (exactly : Exact grace calls o) (fps : List Bytes) (now : Int) :
    Exact grace (calls ++ [.distrust fps now])
      ({ o with distrusted := fps }.drop fun r => r.fingerprint x ∈ fps) where
  grace_eq := exactly.grace_eq
  unattached := exactly.unattached
  uncapped := exactly.uncapped
  fetched := by rw [published_concat]; exact exactly.fetched
  current := by rw [published_concat]; exact exactly.current
  parsed := by rw [published_concat]; exact exactly.parsed
  keptParsed := fun r member => exactly.keptParsed r (mem_drop.mp member).1
  distrusted := by rw [distrustList_concat]; rfl
  kept := by
    intro t times cert
    have before := exactly.kept t
      (fun earlier member => times earlier (List.mem_append_left _ member)) cert
    rw [overlaps_concat, ← before]
    simp only [mem_drop, decide_eq_false_iff_not, Call.publishes, Call.distrusts, reduceCtorEq,
      false_implies, implies_true, true_and, false_and, exists_false, or_false,
      Option.some.injEq, forall_eq']
    constructor
    · rintro ⟨r, ⟨member, notListed⟩, rfl, running⟩
      exact ⟨⟨r, member, rfl, running⟩, notListed⟩
    · rintro ⟨⟨r, member, rfl, running⟩, notListed⟩
      exact ⟨r, ⟨member, notListed⟩, rfl, running⟩

section Collisions

variable (collisionFree : Function.Injective x.sha256)
include collisionFree

variable {grace now : Int} {calls : List Call} {o : CaOverlap x} {certs : List Certificate}

/-- Without a store, what is kept after a bundle is installed was kept before or was
published until now; the bundle has neither. -/
theorem mem_install (exactly : Exact grace calls o) (bounded : Bounded o) (positive : 0 < grace)
    (parsed : ∀ cert ∈ certs, Parsed x cert) {r : RetiredCA} :
    r ∈ (o.install certs none now).retired.rows ↔
      (r ∈ o.retired.rows ∨
        (r.cert ∈ published x calls ∧ now < r.cert.notAfter ∧
          fingerprint x r.cert ∉ distrustList calls ∧
          r = ⟨r.cert, now, min (now + grace) r.cert.notAfter⟩)) ∧
        r.cert ∉ certs ∧ now < r.keptUntil := by
  have unloaded : o.loadStored none = none := by simp [loadStored]
  have taken : r ∈ (o.install certs none now).retired.rows ↔
      (r ∈ (o.retireLocked o.current (Table.empty.putAll certs) now).retired.rows ∧
        (Table.empty.putAll certs : Published x).lookup (r.fingerprint x) = none) ∧
        now < r.keptUntil := by
    refine mem_serveLocked.trans (and_congr_left' ?_)
    refine mem_drop.trans ?_
    rw [unloaded]
    simp [takeOver]
  have absent : Parsed x r.cert →
      ((Table.empty.putAll certs : Published x).lookup (r.fingerprint x) = none ↔
        r.cert ∉ certs) := fun certParsed => lookup_index_eq_none collisionFree parsed certParsed
  rw [taken, mem_retireLocked, exactly.grace_eq]
  constructor
  · rintro ⟨⟨old | ⟨_, cert, member, leaving, rfl⟩, notBack⟩, running⟩
    · exact ⟨.inl old, (absent (exactly.keptParsed r old)).mp notBack, running⟩
    · have wasPublished := (exactly.current cert).mp member
      obtain ⟨_, valid, trusted, _⟩ := leaves_iff.mp leaving
      refine ⟨.inr ⟨wasPublished, valid, exactly.distrusted ▸ trusted, ?_⟩,
        (absent (exactly.parsed cert wasPublished)).mp notBack, running⟩
      rw [keepUntil_of_uncapped now (exactly.uncapped _), exactly.grace_eq]
  · rintro ⟨old | ⟨wasPublished, valid, trusted, isNew⟩, gone, running⟩
    · exact ⟨⟨.inl old, (absent (exactly.keptParsed r old)).mpr gone⟩, running⟩
    · have certParsed := exactly.parsed r.cert wasPublished
      have member := (exactly.current r.cert).mpr wasPublished
      have notBack := (absent certParsed).mpr gone
      -- A kept CA is not a current one.
      have free : o.retired.lookup (fingerprint x r.cert) = none := by
        cases found : o.retired.lookup (fingerprint x r.cert) with
        | none => rfl
        | some old =>
        obtain ⟨oldMember, same⟩ := Table.lookup_eq_some_iff.mp found
        have unpublished := (bounded old oldMember).unpublished
        rw [same] at unpublished
        exact absurd rfl (Table.lookup_eq_none_iff.mp unpublished r.cert member)
      refine ⟨⟨.inr ⟨positive, r.cert, member, ?_, ?_⟩, notBack⟩, running⟩
      · exact leaves_iff.mpr ⟨notBack, valid, exactly.distrusted ▸ trusted, free⟩
      · rw [keepUntil_of_uncapped now (exactly.uncapped _), exactly.grace_eq]
        exact isNew

/-- An update keeps the CAs it stopped publishing and drops those it publishes again. -/
theorem Exact.install (exactly : Exact grace calls o) (bounded : Bounded o) (positive : 0 < grace)
    {fetched : Bytes} (parses : parsePEMCerts x fetched = .ok certs) :
    Exact grace (calls ++ [.update fetched now]) (o.install certs none now) := by
  have publishes : (Call.update fetched now).publishes x = some certs := by
    simp [Call.publishes, parses, Except.toOption]
  have parsed := parsed_of_parsePEMCerts parses
  have frame := frame_takeOver o (o.loadStored none) (Table.empty.putAll certs) now
  have isPublished : published x (calls ++ [.update fetched now]) = certs := by
    rw [published_concat, publishes]
    rfl
  refine
    { grace_eq := frame.grace.trans exactly.grace_eq
      unattached := frame.attached.trans exactly.unattached
      uncapped := fun _ => rfl
      fetched := isPublished.symm
      current := ?_
      parsed := by rw [isPublished]; exact parsed
      keptParsed := ?_
      distrusted := ?_
      kept := ?_ }
  · intro cert
    rw [isPublished]
    exact mem_index collisionFree parsed
  · intro r member
    rcases ((mem_install collisionFree exactly bounded positive parsed).mp member).1 with
      old | ⟨wasPublished, _⟩
    · exact exactly.keptParsed r old
    · exact exactly.parsed r.cert wasPublished
  · rw [distrustList_concat]
    exact frame.distrusted.trans exactly.distrusted
  · intro t times cert
    have before := exactly.kept t
      (fun earlier member => times earlier (List.mem_append_left _ member)) cert
    have past : now ≤ t := times (.update fetched now) (by simp)
    rw [overlaps_concat, ← before]
    constructor
    · rintro ⟨r, member, rfl, running⟩
      obtain ⟨source, gone, _⟩ := (mem_install collisionFree exactly bounded positive parsed).mp member
      rcases source with old | ⟨wasPublished, valid, trusted, isNew⟩
      · refine .inl ⟨⟨r, old, rfl, running⟩, ?_, by simp [Call.distrusts]⟩
        intro more same
        cases publishes.symm.trans same
        exact gone
      · rw [isNew] at running
        exact .inr ⟨certs, publishes, wasPublished, gone, valid, running, trusted⟩
    · rintro (⟨⟨r, old, rfl, running⟩, notNow, _⟩ |
        ⟨_, same, wasPublished, gone, valid, running, trusted⟩)
      · exact ⟨r, (mem_install collisionFree exactly bounded positive parsed).mpr
          ⟨.inl old, notNow certs publishes, past.trans_lt running⟩, rfl, running⟩
      · cases publishes.symm.trans same
        exact ⟨⟨cert, now, min (now + grace) cert.notAfter⟩,
          (mem_install collisionFree exactly bounded positive parsed).mpr
            ⟨.inr ⟨wasPublished, valid, trusted, rfl⟩, gone, past.trans_lt running⟩, rfl, running⟩

/-- One call keeps the state and the history together. -/
theorem Exact.perform (exactly : Exact grace calls o) (bounded : Bounded o) (positive : 0 < grace)
    (call : Call) :
    Exact grace (calls ++ [call]) (o.perform call.operation).1 := by
  cases call with
  | update fetched =>
    simp only [Call.operation, CaOverlap.perform, update]
    cases parses : parsePEMCerts x fetched with
    | error => exact exactly.quiet (by simp [Call.publishes, parses, Except.toOption]) rfl
    | ok => exact exactly.install collisionFree bounded positive parses
  | serve now =>
    have quiet : Exact grace (calls ++ [.serve now]) o := exactly.quiet rfl rfl
    simp only [Call.operation, CaOverlap.perform, serve]
    split
    · exact quiet.serveLocked ⟨.serve now, by simp, le_rfl⟩
    · exact quiet
  | distrust fps now =>
    have dropped := exactly.drop_distrusted fps now
    simp only [Call.operation, CaOverlap.perform, distrust]
    split
    · exact dropped.serveLocked ⟨.distrust fps now, by simp, le_rfl⟩
    · exact dropped

theorem exact_overlapAfter (positive : 0 < grace) (calls : List Call) :
    Exact grace calls (overlapAfter x grace calls) := by
  induction calls using List.reverseRecOn with
  | nil => exact newCAOverlap_exact grace
  | append_singleton calls call ih =>
    rw [overlapAfter_concat]
    exact ih.perform collisionFree (run_bounded (newCAOverlap_bounded x grace) _) positive call

end Collisions

/-! ## The sequence number -/

/-- The bundle that was set differs from the one before. -/
def Changed (o after : CaOverlap x) : Prop :=
  ∃ last served, o.served = some last ∧ after.served = some served ∧ served ≠ last

/-- Setting a bundle counts it exactly when it differs. -/
theorem sequence_serveLocked {middle : CaOverlap x} (served : middle.served = o.served)
    (seq : middle.seq = o.seq) (now : Int) :
    (Changed o (middle.serveLocked now) → (middle.serveLocked now).sequence = o.sequence + 1) ∧
      (¬ Changed o (middle.serveLocked now) → (middle.serveLocked now).sequence = o.sequence) := by
  have counted : (middle.serveLocked now).sequence =
      if o.served.any fun last => encode (middle.serveLocked now).certificates ≠ last
      then o.sequence + 1 else o.sequence := by
    rw [← served, sequence, sequence, ← seq]
    rfl
  have changed : Changed o (middle.serveLocked now) ↔
      (o.served.any fun last => encode (middle.serveLocked now).certificates ≠ last) = true := by
    rw [Changed, served_serveLocked]
    cases o.served <;> simp
  rw [counted, changed]
  constructor
  · intro differs
    rw [if_pos differs]
  · intro equal
    rw [if_neg equal]

/-- A call that sets no bundle changes no number. -/
theorem sequence_unchanged {after : CaOverlap x} (served : after.served = o.served)
    (seq : after.seq = o.seq) :
    (Changed o after → after.sequence = o.sequence + 1) ∧
      (¬ Changed o after → after.sequence = o.sequence) := by
  refine ⟨?_, fun _ => seq⟩
  rintro ⟨last, new, lastServed, newServed, differs⟩
  rw [served, lastServed] at newServed
  exact absurd (Option.some.inj newServed).symm differs

theorem sequence_perform (o : CaOverlap x) (call : Call) :
    (Changed o (o.perform call.operation).1 →
        (o.perform call.operation).1.sequence = o.sequence + 1) ∧
      (¬ Changed o (o.perform call.operation).1 →
        (o.perform call.operation).1.sequence = o.sequence) := by
  cases call with
  | update fetched now =>
    simp only [Call.operation, CaOverlap.perform, update]
    split
    · exact sequence_unchanged rfl rfl
    rename_i certs _
    have frame := frame_takeOver o (o.loadStored none) (Table.empty.putAll certs) now
    refine sequence_serveLocked ?_ ?_ now
    · exact frame.served
    · exact frame.seq
  | serve now =>
    simp only [Call.operation, CaOverlap.perform, serve]
    split
    · exact sequence_serveLocked rfl rfl now
    · exact sequence_unchanged rfl rfl
  | distrust fps now =>
    simp only [Call.operation, CaOverlap.perform, distrust]
    split
    · refine sequence_serveLocked ?_ ?_ now <;> rfl
    · exact sequence_unchanged rfl rfl

theorem served_of_returned {bundle : Bytes}
    (returned : (o.perform call.operation).2 = some bundle) :
    (o.perform call.operation).1.served = some bundle := by
  cases call with
  | update =>
    simp only [Call.operation, CaOverlap.perform, update] at returned ⊢
    split at returned
    · contradiction
    · exact returned
  | serve =>
    simp only [Call.operation, CaOverlap.perform, serve] at returned ⊢
    split at returned
    · rw [if_pos ‹_›]
      exact returned
    · contradiction
  | distrust => contradiction

/-! ## The bundle -/

theorem nodup_kept (o : CaOverlap x) : (o.kept.map RetiredCA.cert).Nodup := by
  have apart : (o.kept.map (RetiredCA.fingerprint x)).Nodup :=
    ((sortOn_perm _ o.retired.rows).map _).nodup_iff.mpr o.retired.distinct
  have composed : o.kept.map (RetiredCA.fingerprint x) =
      (o.kept.map RetiredCA.cert).map (fingerprint x) := by
    rw [List.map_map]
    rfl
  rw [composed] at apart
  exact apart.of_map

/-- A bundle that is returned holds the certificates of the last update in their order and
then, once each, exactly those the history says overlap; the sequence number rises by one
exactly when the bundle that is set differs from the one set before. -/
theorem overlap_exact (x : X509) (collisionFree : Function.Injective x.sha256) (grace : Int)
    (positive : 0 < grace) (calls : List Call) (call : Call)
    (ordered : (calls ++ [call]).Pairwise fun first second => first.time ≤ second.time) :
    let o := overlapAfter x grace calls
    let after := (o.perform call.operation).1
    (∀ bundle, (o.perform call.operation).2 = some bundle →
      after.served = some bundle ∧
      ∃ kept, bundle = encode (published x (calls ++ [call]) ++ kept) ∧ kept.Nodup ∧
        (∀ cert ∈ kept, cert ∉ published x (calls ++ [call])) ∧
        ∀ cert, cert ∈ kept ↔ Overlaps x grace (calls ++ [call]) call.time cert) ∧
    (Changed o after → after.sequence = o.sequence + 1) ∧
    (¬ Changed o after → after.sequence = o.sequence) := by
  intro o after
  refine ⟨?_, sequence_perform o call⟩
  intro bundle returned
  refine ⟨served_of_returned returned, after.kept.map RetiredCA.cert, ?_⟩
  have bounded : Bounded after := fun r member => (perform_keepsBounds
    (run_bounded (newCAOverlap_bounded x grace) _) call.operation r member).1
  have exactly : Exact grace (calls ++ [call]) after :=
    (exact_overlapAfter collisionFree positive calls).perform collisionFree
      (run_bounded (newCAOverlap_bounded x grace) _) positive call
  obtain ⟨bytes, running⟩ := served_of_perform returned
  have timeEq : call.operation.now = call.time := by cases call <;> rfl
  have times : ∀ earlier ∈ calls ++ [call], earlier.time ≤ call.time := by
    intro earlier member
    rcases List.mem_append.mp member with old | last
    · exact (List.pairwise_append.mp ordered).2.2 earlier old call (by simp)
    · rw [List.mem_singleton.mp last]
  refine ⟨?_, nodup_kept after, ?_, ?_⟩
  · rw [← exactly.fetched]
    exact bytes
  · intro cert member isPublished
    obtain ⟨r, kept, rfl⟩ := List.mem_map.mp member
    have unpublished := (bounded r (mem_sortOn.mp kept)).unpublished
    exact Table.lookup_eq_none_iff.mp unpublished r.cert ((exactly.current _).mpr isPublished) rfl
  · intro cert
    rw [← exactly.kept call.time times cert, List.mem_map]
    constructor
    · rintro ⟨r, member, certEq⟩
      have kept := mem_sortOn.mp member
      exact ⟨r, kept, certEq, timeEq ▸ running r kept⟩
    · rintro ⟨r, member, certEq, _⟩
      exact ⟨r, mem_sortOn.mpr member, certEq⟩

/-- Certificates that carry their expiry, in hours, in the first byte. -/
def plainX509 (sha256 : Bytes → Bytes) : X509 where
  sha256 := sha256
  parseCertificate der :=
    if encoded : der ≠ [] then some ⟨⟨der, encoded⟩, (der.head encoded).toNat * Clock.hour, true⟩
    else none
  raw_eq := by
    intro der cert parsed
    split at parsed
    · cases parsed
      rfl
    · contradiction

def oldCA : Certificate := ⟨⟨[100, 1], by decide⟩, 100 * Clock.hour, true⟩

def newCA : Certificate := ⟨⟨[200, 2], by decide⟩, 200 * Clock.hour, true⟩

theorem overlap_exact_rotation :
    ∃ kept, encode [newCA, oldCA] = encode ([newCA] ++ kept) ∧
      ∀ cert, cert ∈ kept ↔ Overlaps (plainX509 id) (24 * Clock.hour)
        [.update (encode [oldCA]) 0, .update (encode [newCA]) Clock.hour] Clock.hour cert := by
  have ordered : ([Call.update (encode [oldCA]) 0] ++
      [Call.update (encode [newCA]) Clock.hour]).Pairwise
        fun first second => first.time ≤ second.time := by
    simp [Call.time, Clock.hour, Clock.minute, Clock.second]
  have returned : ((overlapAfter (plainX509 id) (24 * Clock.hour)
      [.update (encode [oldCA]) 0]).perform
        (Call.update (encode [newCA]) Clock.hour).operation).2 = some (encode [newCA, oldCA]) := by
    decide
  have publishes : published (plainX509 id)
      [.update (encode [oldCA]) 0, .update (encode [newCA]) Clock.hour] = [newCA] := by
    decide
  obtain ⟨_, kept, bytes, _, _, exactly⟩ := (overlap_exact (plainX509 id) Function.injective_id
    (24 * Clock.hour) (by decide) [.update (encode [oldCA]) 0]
    (.update (encode [newCA]) Clock.hour) ordered).1 _ returned
  exact ⟨kept, publishes ▸ bytes, exactly⟩

end CaOverlap

end OmegaPlane.Identity.Upstream
