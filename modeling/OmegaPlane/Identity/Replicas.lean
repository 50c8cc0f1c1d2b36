import Mathlib.Logic.Function.Basic
import OmegaPlane.Crypto.Sha256
import OmegaPlane.Identity.OverlapHistory

/-!
# Replicas that share the kept CAs

Every replica watches the issuer on its own and notices at its own time that a CA is gone.
The one that may write stores what it keeps; the others fold the stored rows in when they
update, and a stored row replaces what a replica kept itself.  So the end of a grace is
shared, but it is the end that the writer set, not the earliest one.

If all ends that are ever set for a CA agree, they stay: no replica moves the end, serves
the CA past it or takes the CA up again.
-/

namespace OmegaPlane.Identity.Upstream

open CaOverlap

/-! ## The replicas and their store -/

/-- The issuer's bundle, the stored rows, and for each replica its overlap, the rows it has
read for its next update and the snapshots it is about to write. -/
structure Cluster (x : X509) (ι : Type) where
  issuer : Bytes
  stored : List UpstreamCA
  replica : ι → CaOverlap x
  loaded : ι → Option (List UpstreamCA)
  writing : ι → List (List UpstreamCA × Int)

/-- What may happen.  The rows are read before the lock is taken, and a snapshot is written
after it is released, by a replica that is the leader then. -/
inductive Event (ι : Type) where
  | publish (bundle : Bytes)
  | load (i : ι)
  | attach (i : ι) (now : Int)
  | update (i : ι) (now : Int)
  | serve (i : ι) (now : Int)
  | distrust (i : ι) (fps : List Bytes) (now : Int)
  | save (i : ι) (index : Nat) (now : Int)

variable {x : X509} {ι : Type}

/-- The call a replica makes, with what it was given. -/
def Event.call (c : Cluster x ι) : Event ι → Option (ι × Operation)
  | .attach i now => some (i, .attachStore (c.loaded i) now)
  | .update i now => some (i, .update c.issuer (c.loaded i) now)
  | .serve i now => some (i, .serve now)
  | .distrust i fps now => some (i, .distrust fps now)
  | _ => none

/-- The call uses the rows that were read. -/
def CaOverlap.Operation.reads : Operation → Bool
  | .attachStore _ _ => true
  | .update _ _ _ => true
  | _ => false

/-- The time of an event that reads the clock. -/
def Event.now : Event ι → Option Int
  | .publish _ => none
  | .load _ => none
  | .attach _ now => some now
  | .update _ now => some now
  | .serve _ now => some now
  | .distrust _ _ now => some now
  | .save _ _ now => some now

namespace Cluster

variable [DecidableEq ι]

/-- A call of one replica; what changed is to be written. -/
def perform (c : Cluster x ι) (i : ι) (operation : Operation) : Cluster x ι :=
  let o := ((c.replica i).perform operation).1
  { c with
    replica := Function.update c.replica i o
    loaded := if operation.reads then Function.update c.loaded i none else c.loaded
    writing := Function.update c.writing i (c.writing i ++ o.unsaved.toList) }

/-- Write a snapshot over the rows, unless a later one was written. -/
def save (c : Cluster x ι) (i : ι) (index : Nat) (now : Int) : Cluster x ι :=
  match (c.writing i)[index]? with
  | none => c
  | some (snapshot, version) =>
    if version ≤ (c.replica i).saved then c
    else
      { c with
        stored := snapshot.map fun row => { row with savedAt := some now }
        replica := Function.update c.replica i ((c.replica i).save version) }

def step (c : Cluster x ι) (event : Event ι) : Cluster x ι :=
  match event.call c with
  | some (i, operation) => c.perform i operation
  | none =>
    match event with
    | .publish bundle => { c with issuer := bundle }
    | .load i => { c with loaded := Function.update c.loaded i (some c.stored) }
    | .save i index now => c.save i index now
    | _ => c

def run (c : Cluster x ι) (events : List (Event ι)) : Cluster x ι :=
  events.foldl step c

theorem run_append (c : Cluster x ι) (first rest : List (Event ι)) :
    c.run (first ++ rest) = (c.run first).run rest :=
  List.foldl_append

theorem run_concat (c : Cluster x ι) (events : List (Event ι)) (event : Event ι) :
    c.run (events ++ [event]) = (c.run events).step event := by
  simp [run]

def initial (x : X509) (ι : Type) (grace : Int) : Cluster x ι where
  issuer := []
  stored := []
  replica := fun _ => newCAOverlap x grace
  loaded := fun _ => none
  writing := fun _ => []

/-- The replica's entry for a CA. -/
def keeps (c : Cluster x ι) (i : ι) (fp : Bytes) : Option RetiredCA :=
  (c.replica i).retired.lookup fp

/-- A replica returns a bundle with the CA at a time. -/
def Serves (c : Cluster x ι) (event : Event ι) (i : ι) (fp : Bytes) (t : Int) : Prop :=
  ∃ operation, event.call c = some (i, operation) ∧ operation.now = t ∧
    ((c.replica i).perform operation).2.isSome ∧
    ∃ cert ∈ ((c.replica i).perform operation).1.certificates, fingerprint x cert = fp

/-- A replica drops the CA at the end of its grace. -/
def Expires (c : Cluster x ι) (event : Event ι) (i : ι) (fp : Bytes) : Prop :=
  ∃ operation r, event.call c = some (i, operation) ∧ c.keeps i fp = some r ∧
    r.keptUntil ≤ operation.now ∧ (c.step event).keeps i fp = none

/-- From when the issuer stopped publishing a CA on: a replica never moves the end of its
grace back, none serves the CA at or after an end that one set when it began to keep the
CA, and none keeps the CA again after it dropped it at the end of its grace. -/
def GraceHolds (c : Cluster x ι) (events : List (Event ι)) (fp : Bytes) : Prop :=
  ∀ before event later, events = before ++ event :: later → ∀ i,
    (∀ r s, (c.run before).keeps i fp = some r →
      ((c.run before).step event).keeps i fp = some s → s.keptUntil ≤ r.keptUntil) ∧
    (∀ t, (c.run before).Serves event i fp t →
      ∀ first keeping rest j r, before ++ [event] = first ++ keeping :: rest →
        (c.run first).keeps j fp = none → ((c.run first).step keeping).keeps j fp = some r →
        t < r.keptUntil) ∧
    ∀ first ending rest, before = first ++ ending :: rest →
      (c.run first).Expires ending i fp → ((c.run before).step event).keeps i fp = none

end Cluster

/-! ## The end of another replica -/

def sampleX509 : X509 := plainX509 Crypto.Sha256.sum

/-- Two replicas that serve the old CA when the issuer replaces it. -/
def withdrawn : Cluster sampleX509 Bool :=
  (Cluster.initial sampleX509 Bool (24 * Clock.hour)).run
    [.publish (encode [oldCA]), .load false, .attach false 0, .load true, .attach true 0,
      .update false 0, .update true 0, .publish (encode [newCA])]

/-- One replica notices after an hour that the old CA is gone, and the other, which writes,
an hour later. -/
def noticedTwice : List (Event Bool) :=
  [.update false Clock.hour, .update true (2 * Clock.hour), .save true 2 (2 * Clock.hour),
    .load false]

/-- The first replica takes over the end of the second when it folds its row in, and then
serves the old CA past its own end. -/
theorem merge_extends_grace :
    (withdrawn.run noticedTwice).keeps false (fingerprint sampleX509 oldCA) =
        some ⟨oldCA, Clock.hour, 25 * Clock.hour⟩ ∧
      (withdrawn.run (noticedTwice ++ [.update false (3 * Clock.hour)])).keeps false
          (fingerprint sampleX509 oldCA) =
        some ⟨oldCA, 2 * Clock.hour, 26 * Clock.hour⟩ ∧
      (((withdrawn.run (noticedTwice ++ [.update false (3 * Clock.hour)])).replica false).serve
          (25 * Clock.hour)).2 = some (encode [newCA, oldCA]) ∧
      ¬ withdrawn.GraceHolds (noticedTwice ++ [.update false (3 * Clock.hour)])
        (fingerprint sampleX509 oldCA) := by
  obtain ⟨own, merged, served⟩ :
      (withdrawn.run noticedTwice).keeps false (fingerprint sampleX509 oldCA) =
        some ⟨oldCA, Clock.hour, 25 * Clock.hour⟩ ∧
      ((withdrawn.run noticedTwice).step (.update false (3 * Clock.hour))).keeps false
          (fingerprint sampleX509 oldCA) = some ⟨oldCA, 2 * Clock.hour, 26 * Clock.hour⟩ ∧
      ((((withdrawn.run noticedTwice).step (.update false (3 * Clock.hour))).replica false).serve
          (25 * Clock.hour)).2 = some (encode [newCA, oldCA]) := by
    decide +kernel
  rw [Cluster.run_concat]
  refine ⟨own, merged, served, fun holds => ?_⟩
  have earlier := (holds noticedTwice _ [] rfl false).1 _ _ own merged
  exact absurd earlier (by decide)

/-! ## One end -/

namespace CaOverlap

variable {o : CaOverlap x} {fp : Bytes} {deadline rowUntil : Int} {first : Bool}
  {cert : Certificate}

/-- Every end that an update or a merge may set for the CA is the same: that of a stored row,
cut to the grace and to the expiry, and that of a replica which notices itself that the CA
is gone.  A replica that has not found a row notices before the end. -/
structure Agreed (deadline : Int) (fp : Bytes) (o : CaOverlap x) (next : Published x)
    (stored : Option (List UpstreamCA)) (now : Int) : Prop where
  baselined : o.baselined = true
  uncapped : o.restoreCap.lookup fp = none
  rows : ∀ row ∈ stored.getD [], ∀ cert ∈ x.parseCertificate row.der, fingerprint x cert = fp →
    ∀ rowUntil ∈ row.keptUntil, min (min rowUntil (row.keptAt + o.grace)) cert.notAfter = deadline
  notices : ∀ cert ∈ o.current.rows, fingerprint x cert = fp → o.leaves next now cert = true →
    now < deadline ∧
      ((∃ row ∈ stored.getD [], ∃ kept ∈ x.parseCertificate row.der,
          kept.isCA = true ∧ fingerprint x kept = fp ∧ row.keptUntil.isSome) ∨
        min (now + o.grace) cert.notAfter = deadline)

instance (deadline : Int) (fp : Bytes) (o : CaOverlap x) (next : Published x)
    (stored : Option (List UpstreamCA)) (now : Int) :
    Decidable (Agreed deadline fp o next stored now) :=
  decidable_of_iff
    (o.baselined = true ∧ o.restoreCap.lookup fp = none ∧
      (∀ row ∈ stored.getD [], ∀ cert ∈ x.parseCertificate row.der, fingerprint x cert = fp →
        ∀ rowUntil ∈ row.keptUntil,
          min (min rowUntil (row.keptAt + o.grace)) cert.notAfter = deadline) ∧
      ∀ cert ∈ o.current.rows, fingerprint x cert = fp → o.leaves next now cert = true →
        now < deadline ∧
          ((∃ row ∈ stored.getD [], ∃ kept ∈ x.parseCertificate row.der,
              kept.isCA = true ∧ fingerprint x kept = fp ∧ row.keptUntil.isSome) ∨
            min (now + o.grace) cert.notAfter = deadline))
    ⟨fun ⟨baselined, uncapped, rows, notices⟩ => ⟨baselined, uncapped, rows, notices⟩,
      fun agreed => ⟨agreed.baselined, agreed.uncapped, agreed.rows, agreed.notices⟩⟩

/-- What a call meets.  An update does not publish the CA, and a replica that serves the CA
as published does so before the end. -/
def Timely (deadline : Int) (fp : Bytes) (o : CaOverlap x) : Operation → Prop
  | .attachStore stored now => ∀ rows ∈ stored, Agreed deadline fp o o.current (some rows) now
  | .update fetched stored now => ∀ certs ∈ (parsePEMCerts x fetched).toOption,
      (∀ cert ∈ certs, fingerprint x cert ≠ fp) ∧
        Agreed deadline fp o (Table.empty.putAll certs) (o.loadStored stored) now
  | .serve now => (∃ cert ∈ o.fetched, fingerprint x cert = fp) → now < deadline
  | _ => True

instance (deadline : Int) (fp : Bytes) (o : CaOverlap x) (operation : Operation) :
    Decidable (Timely deadline fp o operation) :=
  match operation with
  | .attachStore stored now => inferInstanceAs
      (Decidable (∀ rows ∈ stored, Agreed deadline fp o o.current (some rows) now))
  | .update fetched stored now => inferInstanceAs
      (Decidable (∀ certs ∈ (parsePEMCerts x fetched).toOption,
        (∀ cert ∈ certs, fingerprint x cert ≠ fp) ∧
          Agreed deadline fp o (Table.empty.putAll certs) (o.loadStored stored) now))
  | .serve now => inferInstanceAs
      (Decidable ((∃ cert ∈ o.fetched, fingerprint x cert = fp) → now < deadline))
  | .restart _ => isTrue trivial
  | .distrust _ _ => isTrue trivial
  | .save _ => isTrue trivial

theorem mergeKept_isSome {next : Published x} {now : Int} {keptAt : Int}
    (kept : (o.retired.lookup fp).isSome) :
    ((o.mergeKept first next now cert keptAt rowUntil).retired.lookup fp).isSome := by
  unfold mergeKept
  dsimp only
  split_ifs
  all_goals first | exact kept | skip
  rw [Table.lookup_put]
  split
  · rfl
  · exact kept

/-- A row of a kept CA that has not run out makes the replica keep it. -/
theorem mergeKept_keeps {next : Published x} {now : Int} {keptAt : Int}
    (unpublished : next.lookup (fingerprint x cert) = none)
    (trusted : fingerprint x cert ∉ o.distrusted)
    (running : now < min (min rowUntil (keptAt + o.grace)) cert.notAfter) :
    ((o.mergeKept first next now cert keptAt rowUntil).retired.lookup
      (fingerprint x cert)).isSome := by
  unfold mergeKept
  dsimp only
  rw [if_neg (by simp [unpublished, trusted]), if_neg (not_not.mpr running)]
  split
  · rename_i same
    cases found : o.retired.lookup (fingerprint x cert) with
    | none => simp [found] at same
    | some => rfl
  · simp [Table.lookup_put, RetiredCA.fingerprint]

theorem mergeRow_isSome {next : Published x} {now : Int} {state : CaOverlap x × Published x}
    {row : UpstreamCA} (kept : (state.1.retired.lookup fp).isSome) :
    ((mergeRow first next now state row).1.retired.lookup fp).isSome := by
  unfold mergeRow
  dsimp only
  split
  · exact kept
  split
  · exact kept
  split
  · exact mergeKept_isSome kept
  · split
    · exact kept
    · split <;> exact kept

/-- Folding rows in never drops a CA. -/
theorem foldl_mergeRow_isSome {next : Published x} {now : Int} (rows : List UpstreamCA)
    {state : CaOverlap x × Published x} (kept : (state.1.retired.lookup fp).isSome) :
    ((rows.foldl (mergeRow first next now) state).1.retired.lookup fp).isSome := by
  induction rows generalizing state with
  | nil => exact kept
  | cons row rows ih => exact ih (mergeRow_isSome kept)

theorem foldl_mergeRow_frame {first : Bool} {next : Published x} {now : Int}
    (rows : List UpstreamCA) (state : CaOverlap x × Published x) :
    Frame state.1 (rows.foldl (mergeRow first next now) state).1 := by
  induction rows generalizing state with
  | nil => constructor <;> rfl
  | cons row rows ih => exact (frame_mergeRow first next now state row).trans (ih _)

/-- A replica keeps the CA once a row for it is among those it folds in. -/
theorem mergeStoredLocked_keeps {rows : List UpstreamCA} {next : Published x} {now : Int}
    {row : UpstreamCA} (member : row ∈ rows) (parsed : x.parseCertificate row.der = some cert)
    (ca : cert.isCA = true) (keptRow : row.keptUntil = some rowUntil)
    (unpublished : next.lookup (fingerprint x cert) = none)
    (trusted : fingerprint x cert ∉ o.distrusted)
    (running : now < min (min rowUntil (row.keptAt + o.grace)) cert.notAfter) :
    ((o.mergeStoredLocked rows next now).1.retired.lookup (fingerprint x cert)).isSome := by
  obtain ⟨before, later, rfl⟩ := List.append_of_mem member
  unfold mergeStoredLocked
  rw [List.foldl_append, List.foldl_cons]
  refine foldl_mergeRow_isSome later ?_
  have frame := @foldl_mergeRow_frame x (!o.baselined) next now before
    ({ o with baselined := true }, o.current)
  rw [mergeRow, parsed]
  dsimp only
  rw [if_neg (by simp [ca]), keptRow]
  refine mergeKept_keeps unpublished ?_ ?_
  · rw [frame.distrusted]
    exact trusted
  · rw [frame.grace]
    exact running

/-- Once the stored CAs were compared, a row of a published CA is passed over. -/
theorem mergeRow_of_baselined (next : Published x) (now : Int) (state : CaOverlap x × Published x)
    (row : UpstreamCA) :
    (mergeRow false next now state row).2 = state.2 ∧
      (mergeRow false next now state row).1.restoreCap = state.1.restoreCap := by
  unfold mergeRow
  dsimp only
  split
  · exact ⟨rfl, rfl⟩
  split
  · exact ⟨rfl, rfl⟩
  · split
    · exact ⟨rfl, restoreCap_mergeKept ..⟩
    · split <;> exact ⟨rfl, rfl⟩

theorem foldl_mergeRow_of_baselined {next : Published x} {now : Int} (rows : List UpstreamCA)
    (state : CaOverlap x × Published x) :
    (rows.foldl (mergeRow false next now) state).2 = state.2 ∧
      (rows.foldl (mergeRow false next now) state).1.restoreCap = state.1.restoreCap := by
  induction rows generalizing state with
  | nil => exact ⟨rfl, rfl⟩
  | cons row rows ih =>
    obtain ⟨prevEq, capEq⟩ := mergeRow_of_baselined next now state row
    obtain ⟨restPrev, restCap⟩ := ih (mergeRow false next now state row)
    exact ⟨restPrev.trans prevEq, restCap.trans capEq⟩

theorem mergeStoredLocked_of_baselined {rows : List UpstreamCA} {next : Published x} {now : Int}
    (baselined : o.baselined = true) :
    (o.mergeStoredLocked rows next now).2 = o.current ∧
      (o.mergeStoredLocked rows next now).1.restoreCap = o.restoreCap := by
  unfold mergeStoredLocked
  rw [baselined]
  exact foldl_mergeRow_of_baselined rows _

/-- If all ends agree, a CA is kept to that end, and it is newly kept only before. -/
theorem takeOver_agreed {next : Published x} {stored : Option (List UpstreamCA)} {now : Int}
    (agreed : Agreed deadline fp o next stored now)
    (before : ∀ r, o.retired.lookup fp = some r → r.keptUntil = deadline) {r : RetiredCA}
    (kept : (o.takeOver stored next now).retired.lookup fp = some r) :
    r.keptUntil = deadline ∧ (o.retired.lookup fp = some r ∨ now < deadline) := by
  have merged : ∃ state, o.takeOver stored next now = state.1.retireLocked state.2 next now ∧
      Merged o (stored.getD []) next now state ∧ state.2 = o.current ∧
      state.1.restoreCap = o.restoreCap ∧
      ((o.retired.lookup fp).isSome → (state.1.retired.lookup fp).isSome) ∧
      ((∃ row ∈ stored.getD [], ∃ kept ∈ x.parseCertificate row.der,
          kept.isCA = true ∧ fingerprint x kept = fp ∧ row.keptUntil.isSome) →
        next.lookup fp = none → fp ∉ o.distrusted → now < deadline →
          (state.1.retired.lookup fp).isSome) := by
    cases stored with
    | none =>
      refine ⟨(o, o.current), rfl, merged_start .., rfl, rfl, id, ?_⟩
      rintro ⟨row, member, _⟩
      exact absurd member List.not_mem_nil
    | some rows =>
      obtain ⟨prevEq, capEq⟩ := mergeStoredLocked_of_baselined agreed.baselined
      refine ⟨_, rfl, mergeStoredLocked_merged o rows next now, prevEq, capEq,
        fun isKept => foldl_mergeRow_isSome rows isKept, ?_⟩
      rintro ⟨row, member, cert, parsed, ca, rfl, isKept⟩ unpublished trusted running
      obtain ⟨rowUntil, keptRow⟩ := Option.isSome_iff_exists.mp isKept
      rw [← agreed.rows row member cert parsed rfl rowUntil keptRow] at running
      exact mergeStoredLocked_keeps member parsed ca keptRow unpublished trusted running
  obtain ⟨state, taken, merged, prevEq, capEq, grows, found⟩ := merged
  obtain ⟨member, rfl⟩ := Table.lookup_eq_some_iff.mp kept
  rw [taken] at member
  rcases mem_retireLocked.mp member with old | ⟨_, cert, earlier, leaving, rfl⟩
  · rcases merged.retired r old with own | ⟨⟨row, rowMember, rowUntil, keptRow, parsed, _, _, cut⟩,
      _, _, running⟩
    · have isOwn := Table.mem_rows_iff.mp own
      exact ⟨before r isOwn, .inl isOwn⟩
    · have isDeadline : r.keptUntil = deadline :=
        cut.trans (agreed.rows row rowMember r.cert parsed rfl rowUntil keptRow)
      exact ⟨isDeadline, .inr (isDeadline ▸ running)⟩
  · rw [prevEq] at earlier
    obtain ⟨unpublished, valid, trusted, free⟩ := leaves_iff.mp leaving
    rw [merged.frame.distrusted] at trusted
    have absent : o.retired.lookup (fingerprint x cert) = none := by
      by_contra isKept
      have still := grows (Option.isSome_iff_ne_none.mpr isKept)
      rw [RetiredCA.fingerprint, free] at still
      contradiction
    obtain ⟨running, row | own⟩ := agreed.notices cert earlier rfl
      (leaves_iff.mpr ⟨unpublished, valid, trusted, absent⟩)
    · have still := found row unpublished trusted running
      rw [RetiredCA.fingerprint, free] at still
      contradiction
    · refine ⟨?_, .inr running⟩
      have uncapped : state.1.restoreCap.lookup (fingerprint x cert) = none :=
        capEq ▸ agreed.uncapped
      rw [keepUntil_of_uncapped now uncapped, merged.frame.grace]
      exact own

theorem lookup_serveLocked {now : Int} {r : RetiredCA}
    (kept : (o.serveLocked now).retired.lookup fp = some r) :
    o.retired.lookup fp = some r ∧ now < r.keptUntil := by
  obtain ⟨member, keyEq⟩ := Table.lookup_eq_some_iff.mp kept
  obtain ⟨old, running⟩ := mem_serveLocked.mp member
  exact ⟨Table.lookup_eq_some_iff.mpr ⟨old, keyEq⟩, running⟩

theorem lookup_drop {gone : RetiredCA → Bool} {r : RetiredCA}
    (kept : (o.drop gone).retired.lookup fp = some r) : o.retired.lookup fp = some r := by
  obtain ⟨member, keyEq⟩ := Table.lookup_eq_some_iff.mp kept
  exact Table.lookup_eq_some_iff.mpr ⟨(mem_drop.mp member).1, keyEq⟩

/-- One call keeps the agreed end, and newly keeps the CA only before it. -/
theorem perform_agreed {operation : Operation} (timely : Timely deadline fp o operation)
    (before : ∀ r, o.retired.lookup fp = some r → r.keptUntil = deadline) {r : RetiredCA}
    (kept : (o.perform operation).1.retired.lookup fp = some r) :
    r.keptUntil = deadline ∧ (o.retired.lookup fp = some r ∨ operation.now < deadline) := by
  have unchanged : o.retired.lookup fp = some r →
      r.keptUntil = deadline ∧ (o.retired.lookup fp = some r ∨ operation.now < deadline) :=
    fun old => ⟨before r old, .inl old⟩
  cases operation with
  | restart => exact absurd kept (by simp [perform, newCAOverlap, Table.lookup, Table.empty])
  | attachStore stored now =>
    cases stored with
    | none => exact unchanged kept
    | some rows =>
    have agreed := timely rows rfl
    have attached : Agreed deadline fp { o with attached := true } o.current (some rows) now :=
      ⟨agreed.baselined, agreed.uncapped, agreed.rows, agreed.notices⟩
    simp only [perform, attachStore] at kept
    split at kept
    · exact takeOver_agreed attached before (lookup_serveLocked kept).1
    · exact takeOver_agreed attached before kept
  | update fetched stored now =>
    simp only [perform, update] at kept
    split at kept
    · exact unchanged kept
    · rename_i certs parses
      exact takeOver_agreed (timely certs (by rw [parses]; rfl)).2 before
        (lookup_drop (lookup_serveLocked kept).1)
  | serve =>
    simp only [perform, serve] at kept
    split at kept
    · exact unchanged (lookup_serveLocked kept).1
    · exact unchanged kept
  | distrust =>
    simp only [perform, distrust] at kept
    split at kept
    · exact unchanged (lookup_drop (lookup_serveLocked kept).1)
    · exact unchanged (lookup_drop kept)
  | save =>
    simp only [perform, save] at kept
    split at kept <;> exact unchanged kept

/-- A bundle with the CA is returned only before the agreed end. -/
theorem returned_agreed {operation : Operation} (timely : Timely deadline fp o operation)
    (before : ∀ r, o.retired.lookup fp = some r → r.keptUntil = deadline)
    (returned : (o.perform operation).2.isSome)
    (member : cert ∈ (o.perform operation).1.certificates) (isCA : fingerprint x cert = fp) :
    operation.now < deadline := by
  obtain ⟨bundle, returned⟩ := Option.isSome_iff_exists.mp returned
  have running := (served_of_perform returned).2
  rcases List.mem_append.mp member with published | kept
  · cases operation with
    | update fetched stored now =>
      simp only [perform, update] at returned published
      split at returned
      · contradiction
      · rename_i certs parses
        rw [parses] at published
        exact absurd isCA ((timely certs (by rw [parses]; rfl)).1 cert published)
    | serve =>
      simp only [perform, serve] at returned published
      split at returned
      · rw [if_pos ‹_›] at published
        exact timely ⟨cert, published, isCA⟩
      · contradiction
    | restart | attachStore | distrust | save => contradiction
  · obtain ⟨r, sorted, rfl⟩ := List.mem_map.mp kept
    have isKept := mem_sortOn.mp sorted
    have found : (o.perform operation).1.retired.lookup fp = some r :=
      Table.lookup_eq_some_iff.mpr ⟨isKept, isCA⟩
    rw [← (perform_agreed timely before found).1]
    exact running r isKept

end CaOverlap

namespace Cluster

variable [DecidableEq ι] {c : Cluster x ι} {event : Event ι} {fp : Bytes} {deadline : Int}

/-- Every call meets only the agreed end. -/
def Steady (deadline : Int) (fp : Bytes) (c : Cluster x ι) (event : Event ι) : Prop :=
  ∀ called ∈ event.call c, Timely deadline fp (c.replica called.1) called.2

instance (deadline : Int) (fp : Bytes) (c : Cluster x ι) (event : Event ι) :
    Decidable (Steady deadline fp c event) :=
  inferInstanceAs (Decidable (∀ called ∈ event.call c,
    Timely deadline fp (c.replica called.1) called.2))

/-- Every replica that keeps the CA keeps it to this end. -/
def AgreesOn (deadline : Int) (fp : Bytes) (c : Cluster x ι) : Prop :=
  ∀ i r, c.keeps i fp = some r → r.keptUntil = deadline

/-- A replica's entry changes by its own calls only. -/
theorem keeps_step (c : Cluster x ι) (event : Event ι) (i : ι) (fp : Bytes) :
    (c.step event).keeps i fp = c.keeps i fp ∨
      ∃ operation, event.call c = some (i, operation) ∧
        (c.step event).keeps i fp = ((c.replica i).perform operation).1.retired.lookup fp := by
  unfold step
  cases called : event.call c with
  | some pair =>
    obtain ⟨j, operation⟩ := pair
    by_cases same : i = j
    · subst same
      exact .inr ⟨operation, rfl, by simp [keeps, perform]⟩
    · exact .inl (by simp [keeps, perform, same])
  | none =>
    refine .inl ?_
    cases event with
    | save j =>
      simp only [save]
      split
      · rfl
      split
      · rfl
      by_cases same : i = j
      · subst same
        simp only [keeps, Function.update_self, CaOverlap.save]
        split <;> rfl
      · simp [keeps, same]
    | publish | load | attach | update | serve | distrust => rfl

/-- A call keeps the agreed end, and newly keeps the CA only before it. -/
theorem keeps_of_step (steady : Steady deadline fp c event) (agrees : AgreesOn deadline fp c)
    {i : ι} {r : RetiredCA} (kept : (c.step event).keeps i fp = some r) :
    r.keptUntil = deadline ∧ (c.keeps i fp = some r ∨ ∃ t, event.now = some t ∧ t < deadline) := by
  rcases keeps_step c event i fp with unchanged | ⟨operation, called, performed⟩
  · rw [unchanged] at kept
    exact ⟨agrees i r kept, .inl kept⟩
  · rw [performed] at kept
    obtain ⟨isDeadline, source⟩ := perform_agreed (steady (i, operation) called)
      (fun s found => agrees i s found) kept
    refine ⟨isDeadline, source.imp_right fun early => ⟨operation.now, ?_, early⟩⟩
    cases event <;> cases called <;> rfl

theorem AgreesOn.step (agrees : AgreesOn deadline fp c) (steady : Steady deadline fp c event) :
    AgreesOn deadline fp (c.step event) :=
  fun _ _ kept => (keeps_of_step steady agrees kept).1

/-- Every step of a run meets only the agreed end. -/
def SteadyRun (deadline : Int) (fp : Bytes) (c : Cluster x ι) (events : List (Event ι)) : Prop :=
  ∀ before event later, events = before ++ event :: later → Steady deadline fp (c.run before) event

theorem steadyRun_nil : SteadyRun deadline fp c [] := by
  intro before event later split
  simp at split

variable {events : List (Event ι)}

theorem steadyRun_cons (steady : Steady deadline fp c event)
    (rest : SteadyRun deadline fp (c.step event) events) :
    SteadyRun deadline fp c (event :: events) := by
  intro before next later split
  cases before with
  | nil =>
    cases split
    exact steady
  | cons first before =>
    cases split
    exact rest before next later rfl

theorem SteadyRun.rest {first rest : List (Event ι)}
    (steady : SteadyRun deadline fp c (first ++ rest)) : SteadyRun deadline fp (c.run first) rest := by
  intro before event later split
  rw [← run_append]
  exact steady (first ++ before) event later (by rw [split, List.append_assoc])

theorem SteadyRun.of_append {first rest : List (Event ι)}
    (steady : SteadyRun deadline fp c (first ++ rest)) : SteadyRun deadline fp c first := by
  intro before event later split
  exact steady before event (later ++ rest) (by simp [split])

theorem AgreesOn.run (agrees : AgreesOn deadline fp c) (steady : SteadyRun deadline fp c events) :
    AgreesOn deadline fp (c.run events) := by
  induction events using List.reverseRecOn with
  | nil => exact agrees
  | append_singleton events event ih =>
    rw [run_concat]
    exact (ih steady.of_append).step (steady events event [] rfl)

/-- After the agreed end a CA that is not kept stays so. -/
theorem run_absent (agrees : AgreesOn deadline fp c) (steady : SteadyRun deadline fp c events)
    (late : ∀ event ∈ events, ∀ t, event.now = some t → deadline ≤ t) {i : ι}
    (absent : c.keeps i fp = none) : (c.run events).keeps i fp = none := by
  induction events using List.reverseRecOn with
  | nil => exact absent
  | append_singleton events event ih =>
  have before := ih steady.of_append fun earlier member =>
    late earlier (List.mem_append_left _ member)
  rw [run_concat]
  cases kept : ((c.run events).step event).keeps i fp with
  | none => rfl
  | some =>
  rcases (keeps_of_step (steady events event [] rfl)
    (agrees.run steady.of_append) kept).2 with old | ⟨t, isNow, early⟩
  · rw [before] at old
    contradiction
  · exact absurd early (Int.not_lt.mpr (late event (by simp) t isNow))

/-- If the ends that updates, merges and rows may set for a CA all agree, no replica moves the
end, serves the CA at or after it, or takes the CA up again. -/
theorem grace_holds_of_agreement (c : Cluster x ι) (events : List (Event ι)) (fp : Bytes)
    (deadline : Int) (agrees : AgreesOn deadline fp c) (steady : SteadyRun deadline fp c events)
    (ordered : events.Pairwise fun first second =>
      ∀ s t, first.now = some s → second.now = some t → s ≤ t) :
    c.GraceHolds events fp := by
  intro before event later split i
  subst split
  have agreesBefore : AgreesOn deadline fp (c.run before) := agrees.run steady.of_append
  have steadyNow : Steady deadline fp (c.run before) event := steady before event later rfl
  have steadyThrough : SteadyRun deadline fp c (before ++ [event]) := by
    rw [List.append_cons] at steady
    exact steady.of_append
  refine ⟨?_, ?_, ?_⟩
  · intro r s own moved
    rw [agreesBefore i r own, (keeps_of_step steadyNow agreesBefore moved).1]
  · rintro t ⟨operation, called, rfl, returned, cert, member, isCA⟩ first keeping rest j r splits _
      begun
    have steadyFirst : SteadyRun deadline fp c (first ++ keeping :: rest) := splits ▸ steadyThrough
    have agreesFirst : AgreesOn deadline fp (c.run first) := agrees.run steadyFirst.of_append
    rw [(keeps_of_step (steadyFirst first keeping rest rfl) agreesFirst begun).1]
    exact returned_agreed (steadyNow (i, operation) called) (fun s found => agreesBefore i s found)
      returned member isCA
  · rintro first ending rest rfl ⟨operation, r, called, own, ended, dropped⟩
    have agreesFirst : AgreesOn deadline fp (c.run first) :=
      agrees.run (SteadyRun.of_append (by simpa using steadyThrough))
    rw [agreesFirst i r own] at ended
    -- Everything from here on happens after the end.
    have late : ∀ next ∈ rest ++ [event], ∀ t, next.now = some t → deadline ≤ t := by
      intro next member t isNow
      have pairs : (ending :: (rest ++ event :: later)).Pairwise fun first second =>
          ∀ s t, first.now = some s → second.now = some t → s ≤ t := by
        have suffix := (List.pairwise_append.mp (by simpa using ordered :
          (first ++ ending :: (rest ++ event :: later)).Pairwise _)).2.1
        exact suffix
      have endingNow : ending.now = some operation.now := by
        cases ending <;> cases called <;> rfl
      have inSuffix : next ∈ rest ++ event :: later := by
        rcases List.mem_append.mp member with old | new
        · exact List.mem_append_left _ old
        · rw [List.mem_singleton.mp new]
          simp
      exact ended.trans ((List.pairwise_cons.mp pairs).1 next inSuffix _ t endingNow isNow)
    have whole : (first ++ ending :: rest) ++ [event] = (first ++ [ending]) ++ (rest ++ [event]) := by
      simp
    have steadyWhole := whole ▸ steadyThrough
    have absent := run_absent (agrees.run steadyWhole.of_append) steadyWhole.rest late
      (by rw [run_concat]; exact dropped)
    rw [← run_append, ← whole, run_concat] at absent
    exact absent

/-- The replica that writes notices first, and the other one folds its row in. -/
def noticedOnce : List (Event Bool) :=
  [.update true Clock.hour, .save true 2 Clock.hour, .load false, .update false (3 * Clock.hour),
    .serve false (25 * Clock.hour)]

theorem grace_holds_noticedOnce :
    withdrawn.GraceHolds noticedOnce (fingerprint sampleX509 oldCA) := by
  have agrees : AgreesOn (25 * Clock.hour) (fingerprint sampleX509 oldCA) withdrawn := by
    intro i r kept
    have unkept : withdrawn.keeps i (fingerprint sampleX509 oldCA) = none := by
      cases i <;> decide
    rw [unkept] at kept
    contradiction
  refine grace_holds_of_agreement withdrawn noticedOnce (fingerprint sampleX509 oldCA)
    (25 * Clock.hour) agrees ?_ ?_
  · exact steadyRun_cons (by decide +kernel) (steadyRun_cons (by decide +kernel)
      (steadyRun_cons (by decide +kernel) (steadyRun_cons (by decide +kernel)
        (steadyRun_cons (by decide +kernel) steadyRun_nil))))
  · simp [noticedOnce, Event.now, Clock.hour, Clock.minute, Clock.second]

end Cluster

end OmegaPlane.Identity.Upstream
