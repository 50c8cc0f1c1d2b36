import OmegaPlane.Identity.CaOverlap

/-!
# How long an upstream CA is kept

The kept CAs come from three places: the process saw the CA leave the issuer's bundle, a
stored row says that it is kept, or, when a process starts, a stored row says that the
issuer published it.  Each bounds the time differently, and every later call only drops
CAs.  So the bounds hold after each operation of a run, through restarts and whatever rows
the store answers with.
-/

namespace OmegaPlane.Identity.Upstream

variable {x : X509}

namespace CaOverlap

/-! ## What the store adds -/

/-- Merging and retiring change what is kept and nothing that a caller sees. -/
structure Frame (o after : CaOverlap x) : Prop where
  grace : after.grace = o.grace
  loaded : after.loaded = o.loaded
  fetched : after.fetched = o.fetched
  current : after.current = o.current
  distrusted : after.distrusted = o.distrusted
  served : after.served = o.served
  seq : after.seq = o.seq
  attached : after.attached = o.attached

variable {after o : CaOverlap x} {r : RetiredCA}

theorem Frame.trans {middle : CaOverlap x} (first : Frame o middle) (second : Frame middle after) :
    Frame o after where
  grace := second.grace.trans first.grace
  loaded := second.loaded.trans first.loaded
  fetched := second.fetched.trans first.fetched
  current := second.current.trans first.current
  distrusted := second.distrusted.trans first.distrusted
  served := second.served.trans first.served
  seq := second.seq.trans first.seq
  attached := second.attached.trans first.attached

theorem frame_retireLocked (o : CaOverlap x) (prev next : Published x) (now : Int) :
    Frame o (o.retireLocked prev next now) := by
  unfold retireLocked
  split <;> constructor <;> rfl

theorem frame_mergeKept (o : CaOverlap x) (first : Bool) (next : Published x) (now : Int)
    (cert : Certificate) (keptAt rowUntil : Int) :
    Frame o (o.mergeKept first next now cert keptAt rowUntil) := by
  unfold mergeKept
  dsimp only
  split_ifs <;> constructor <;> rfl

theorem frame_mergeRow (first : Bool) (next : Published x) (now : Int)
    (state : CaOverlap x × Published x) (row : UpstreamCA) :
    Frame state.1 (mergeRow first next now state row).1 := by
  unfold mergeRow
  dsimp only
  split
  · constructor <;> rfl
  split
  · constructor <;> rfl
  split
  · exact frame_mergeKept ..
  · split
    · constructor <;> rfl
    · split <;> constructor <;> rfl

/-- The CA is kept as one of the rows says, cut to the grace of this process and to its
expiry. -/
def StoredKept (o : CaOverlap x) (rows : List UpstreamCA) (r : RetiredCA) : Prop :=
  ∃ row ∈ rows, ∃ rowUntil, row.keptUntil = some rowUntil ∧
    x.parseCertificate row.der = some r.cert ∧ r.cert.isCA = true ∧ r.keptAt = row.keptAt ∧
    r.keptUntil = min (min rowUntil (row.keptAt + o.grace)) r.cert.notAfter

/-- One of the rows says that the issuer published the CA when it was saved, and the CA is
kept no longer than from then on. -/
def StoredPublished (o : CaOverlap x) (rows : List UpstreamCA) (r : RetiredCA) : Prop :=
  ∃ row ∈ rows, ∃ savedAt, row.keptUntil = none ∧ row.savedAt = some savedAt ∧
    x.parseCertificate row.der = some r.cert ∧ r.cert.isCA = true ∧
    r.keptUntil ≤ savedAt + o.grace

/-- What folding rows in has done so far. -/
structure Merged (o : CaOverlap x) (rows : List UpstreamCA) (next : Published x) (now : Int)
    (state : CaOverlap x × Published x) : Prop where
  frame : Frame o state.1
  retired : ∀ r ∈ state.1.retired.rows, r ∈ o.retired.rows ∨
    (StoredKept o rows r ∧ next.lookup (r.fingerprint x) = none ∧
      r.fingerprint x ∉ o.distrusted ∧ now < r.keptUntil)
  prev : ∀ cert ∈ state.2.rows, cert ∈ o.current.rows ∨
    ∃ row ∈ rows, ∃ savedAt, row.keptUntil = none ∧ row.savedAt = some savedAt ∧
      x.parseCertificate row.der = some cert ∧ cert.isCA = true ∧
      state.1.restoreCap.lookup (fingerprint x cert) = some (fingerprint x cert, savedAt + o.grace)

theorem restoreCap_mergeKept (o : CaOverlap x) (first : Bool) (next : Published x) (now : Int)
    (cert : Certificate) (keptAt rowUntil : Int) :
    (o.mergeKept first next now cert keptAt rowUntil).restoreCap = o.restoreCap := by
  unfold mergeKept
  dsimp only
  split_ifs <;> rfl

variable {next : Published x}

/-- A row of a kept CA adds at most that CA. -/
theorem mem_mergeKept {first : Bool} {now : Int} {cert : Certificate} {keptAt rowUntil : Int}
    (member : r ∈ (o.mergeKept first next now cert keptAt rowUntil).retired.rows) :
    r ∈ o.retired.rows ∨
      (r = ⟨cert, keptAt, min (min rowUntil (keptAt + o.grace)) cert.notAfter⟩ ∧
        next.lookup (fingerprint x cert) = none ∧ fingerprint x cert ∉ o.distrusted ∧
        now < r.keptUntil) := by
  unfold mergeKept at member
  dsimp only at member
  split at member
  · exact .inl member
  rename_i absent
  split at member
  · split at member <;> exact .inl member
  rename_i running
  split at member
  · exact .inl member
  rcases Table.mem_put.mp member with rfl | ⟨old, _⟩
  · simp only [Bool.or_eq_true, Option.isSome_iff_ne_none, decide_eq_true_eq, not_or,
      not_not] at absent
    exact .inr ⟨rfl, absent.1, absent.2, not_not.mp running⟩
  · exact .inl old

theorem Merged.mergeRow {rows : List UpstreamCA} {now : Int} {state : CaOverlap x × Published x}
    (merged : Merged o rows next now state) (first : Bool) {row : UpstreamCA}
    (member : row ∈ rows) :
    Merged o rows next now (CaOverlap.mergeRow first next now state row) := by
  have frame := merged.frame.trans (frame_mergeRow first next now state row)
  revert frame
  unfold CaOverlap.mergeRow
  dsimp only
  intro frame
  split
  · exact merged
  rename_i cert parsed
  split
  · exact merged
  rename_i isCA
  have ca : cert.isCA = true := by simpa using isCA
  simp only [parsed, isCA] at frame
  split
  · -- A row of a kept CA.
    rename_i rowUntil keptRow
    simp only [keptRow] at frame
    refine ⟨frame, ?_, ?_⟩
    · intro r kept
      rcases mem_mergeKept kept with old | ⟨rfl, unpublished, trusted, running⟩
      · exact merged.retired r old
      rw [merged.frame.distrusted] at trusted
      rw [merged.frame.grace] at running ⊢
      exact .inr ⟨⟨row, member, rowUntil, keptRow, parsed, ca, rfl, rfl⟩, unpublished,
        trusted, running⟩
    · intro other earlier
      simpa only [restoreCap_mergeKept] using merged.prev other earlier
  · rename_i publishedRow
    split
    · exact merged
    rename_i savedAt saved
    split
    · -- The first merge also takes the CAs that were published.
      rename_i taken
      simp only [publishedRow, saved, if_pos taken] at frame
      refine ⟨frame, merged.retired, ?_⟩
      intro other earlier
      rw [merged.frame.grace]
      rcases Table.mem_put.mp earlier with rfl | ⟨old, keysDiffer⟩
      · refine .inr ⟨row, member, savedAt, publishedRow, saved, parsed, ca, ?_⟩
        rw [Table.lookup_put, if_pos rfl]
      · rw [Table.lookup_put, if_neg (Ne.symm keysDiffer)]
        exact merged.prev other old
    · exact merged

theorem merged_start (o : CaOverlap x) (rows : List UpstreamCA) (next : Published x) (now : Int) :
    Merged o rows next now (o, o.current) where
  frame := by constructor <;> rfl
  retired := fun _ member => .inl member
  prev := fun _ member => .inl member

/-- Folding rows in adds kept CAs only as a row says, and takes a CA for one that was
published before only if the process saw it or a row says so. -/
theorem mergeStoredLocked_merged (o : CaOverlap x) (rows : List UpstreamCA) (next : Published x)
    (now : Int) : Merged o rows next now (o.mergeStoredLocked rows next now) := by
  have started : Merged o rows next now ({ o with baselined := true }, o.current) :=
    ⟨by constructor <;> rfl, fun r member => .inl member, fun cert member => .inl member⟩
  exact List.foldlRecOn rows _ started fun state merged row member =>
    merged.mergeRow _ member

/-! ## Bounds -/

/-- The bounds of a kept CA. -/
structure Within (o : CaOverlap x) (r : RetiredCA) : Prop where
  unpublished : o.current.lookup (r.fingerprint x) = none
  trusted : r.fingerprint x ∉ o.distrusted
  expiry : r.keptUntil ≤ r.cert.notAfter
  grace : r.keptUntil ≤ r.keptAt + o.grace

def Bounded (o : CaOverlap x) : Prop :=
  ∀ r ∈ o.retired.rows, Within o r

/-- Where a CA that is newly kept comes from: a row that says it is kept, or it is kept from
now on, either because this process saw it published or because a row says it was. -/
def Accounted (o : CaOverlap x) (rows : List UpstreamCA) (now : Int) (r : RetiredCA) : Prop :=
  StoredKept o rows r ∨ (r.keptAt = now ∧ (r.cert ∈ o.current.rows ∨ StoredPublished o rows r))

theorem Accounted.mono {rows more : List UpstreamCA} {now : Int}
    (accounted : Accounted o rows now r) (subset : ∀ row ∈ rows, row ∈ more) :
    Accounted o more now r := by
  rcases accounted with ⟨row, member, kept⟩ | ⟨keptAt, own | ⟨row, member, published⟩⟩
  · exact .inl ⟨row, subset row member, kept⟩
  · exact .inr ⟨keptAt, .inl own⟩
  · exact .inr ⟨keptAt, .inr ⟨row, subset row member, published⟩⟩

/-- The bounds depend on three fields of the state. -/
theorem Within.of_eq (within : Within o r) (current : after.current = o.current)
    (distrusted : after.distrusted = o.distrusted) (grace : after.grace = o.grace) :
    Within after r where
  unpublished := by rw [current]; exact within.unpublished
  trusted := by rw [distrusted]; exact within.trusted
  expiry := within.expiry
  grace := by rw [grace]; exact within.grace

theorem frame_takeOver (o : CaOverlap x) (stored : Option (List UpstreamCA)) (next : Published x)
    (now : Int) : Frame o (o.takeOver stored next now) := by
  cases stored with
  | none => exact frame_retireLocked ..
  | some rows =>
    exact (mergeStoredLocked_merged o rows next now).frame.trans (frame_retireLocked ..)

/-- A CA that rows or the issuer's bundle make newly kept is accounted for, and it is kept
within the bounds. -/
theorem mem_takeOver {stored : Option (List UpstreamCA)} {now : Int}
    (member : r ∈ (o.takeOver stored next now).retired.rows) :
    r ∈ o.retired.rows ∨
      (Accounted o (stored.getD []) now r ∧ next.lookup (r.fingerprint x) = none ∧
        r.fingerprint x ∉ o.distrusted ∧ r.keptUntil ≤ r.cert.notAfter ∧
        r.keptUntil ≤ r.keptAt + o.grace) := by
  have merged : ∃ state, o.takeOver stored next now = state.1.retireLocked state.2 next now ∧
      Merged o (stored.getD []) next now state := by
    cases stored with
    | none => exact ⟨(o, o.current), rfl, merged_start ..⟩
    | some rows => exact ⟨_, rfl, mergeStoredLocked_merged o rows next now⟩
  obtain ⟨state, taken, merged⟩ := merged
  rw [taken] at member
  rcases mem_retireLocked.mp member with old | ⟨_, cert, earlier, leaving, rfl⟩
  · rcases merged.retired r old with old | ⟨source, unpublished, trusted, _⟩
    · exact .inl old
    · refine .inr ⟨.inl source, unpublished, trusted, ?_⟩
      obtain ⟨row, _, rowUntil, _, _, _, keptAt, keptUntil⟩ := source
      rw [keptUntil, keptAt]
      exact ⟨min_le_right _ _, (min_le_left _ _).trans (min_le_right _ _)⟩
  · obtain ⟨unpublished, _, trusted, _⟩ := leaves_iff.mp leaving
    rw [merged.frame.distrusted] at trusted
    have graced := state.1.keepUntil_le_grace cert now
    rw [merged.frame.grace] at graced
    refine .inr ⟨.inr ⟨rfl, ?_⟩, unpublished, trusted, keepUntil_le_notAfter .., graced⟩
    rcases merged.prev cert earlier with
      own | ⟨row, source, savedAt, published, saved, parsed, ca, cap⟩
    · exact .inl own
    · exact .inr ⟨row, source, savedAt, published, saved, parsed, ca, keepUntil_le_cap now cap⟩

/-! ## Operations -/

/-- After the call every kept CA is within its bounds, and it was kept before or is
accounted for. -/
def KeepsBounds (o : CaOverlap x) (rows : List UpstreamCA) (now : Int)
    (after : CaOverlap x) : Prop :=
  ∀ r ∈ after.retired.rows, Within after r ∧ (r ∈ o.retired.rows ∨ Accounted o rows now r)

theorem KeepsBounds.serveLocked {rows : List UpstreamCA} {now : Int}
    (keeps : KeepsBounds o rows now after) (time : Int) :
    KeepsBounds o rows now (after.serveLocked time) := by
  intro r member
  obtain ⟨within, source⟩ := keeps r (mem_serveLocked.mp member).1
  exact ⟨within.of_eq rfl rfl rfl, source⟩

section

variable (bounded : Bounded o)
include bounded

theorem attachStore_keepsBounds (stored : Option (List UpstreamCA))
    (now : Int) :
    KeepsBounds o (stored.getD []) now (o.attachStore stored now) := by
  cases stored with
  | none => exact fun r member => ⟨bounded r member, .inl member⟩
  | some rows =>
  have frame := frame_takeOver { o with attached := true } (some rows) o.current now
  have taken : KeepsBounds o rows now
      { { o with attached := true }.takeOver (some rows) o.current now with
        version := ({ o with attached := true }.takeOver (some rows) o.current now).version
          + 1 } := by
    intro r member
    rcases mem_takeOver member with old | ⟨source, unpublished, trusted, expiry, grace⟩
    · exact ⟨(bounded r old).of_eq frame.current frame.distrusted frame.grace, .inl old⟩
    · have within : Within o r := ⟨unpublished, trusted, expiry, grace⟩
      exact ⟨within.of_eq frame.current frame.distrusted frame.grace, .inr source⟩
  unfold attachStore
  dsimp only
  split
  · exact taken.serveLocked now
  · exact taken

theorem install_keepsBounds (certs : List Certificate)
    (stored : Option (List UpstreamCA)) (now : Int) :
    KeepsBounds o (stored.getD []) now (o.install certs stored now) := by
  have loaded : ∀ row ∈ (o.loadStored stored).getD [], row ∈ stored.getD [] := by
    unfold loadStored
    split <;> simp
  refine KeepsBounds.serveLocked ?_ now
  intro r member
  obtain ⟨taken, notBack⟩ := mem_drop.mp member
  have frame := frame_takeOver o (o.loadStored stored) (Table.empty.putAll certs) now
  have unpublished : (Table.empty.putAll certs : Published x).lookup (r.fingerprint x) = none := by
    simpa using notBack
  rcases mem_takeOver taken with old | ⟨source, _, trusted, expiry, grace⟩
  · have within := bounded r old
    refine ⟨⟨unpublished, ?_, within.expiry, ?_⟩, .inl old⟩
    · exact frame.distrusted ▸ within.trusted
    · exact frame.grace ▸ within.grace
  · refine ⟨⟨unpublished, ?_, expiry, ?_⟩, .inr (source.mono loaded)⟩
    · exact frame.distrusted ▸ trusted
    · exact frame.grace ▸ grace

theorem update_keepsBounds (fetched : Bytes)
    (stored : Option (List UpstreamCA)) (now : Int) :
    KeepsBounds o (stored.getD []) now (o.update fetched stored now).1 := by
  unfold update
  split
  · exact fun r member => ⟨bounded r member, .inl member⟩
  · rename_i certs _
    exact install_keepsBounds bounded certs stored now

theorem serve_keepsBounds (now : Int) : KeepsBounds o [] now (o.serve now).1 := by
  have unchanged : KeepsBounds o [] now o := fun r member => ⟨bounded r member, .inl member⟩
  unfold serve
  split
  · exact unchanged.serveLocked now
  · exact unchanged

theorem distrust_keepsBounds (fps : List Bytes) (now : Int) :
    KeepsBounds o [] now (o.distrust fps now).1 := by
  have dropped : KeepsBounds o [] now
      ({ o with distrusted := fps }.drop fun r => r.fingerprint x ∈ fps) := by
    intro r member
    obtain ⟨old, trusted⟩ := mem_drop.mp member
    have within := bounded r old
    have notListed : r.fingerprint x ∉ fps := by simpa using trusted
    exact ⟨⟨within.unpublished, notListed, within.expiry, within.grace⟩, .inl old⟩
  unfold distrust
  dsimp only
  split
  · exact dropped.serveLocked now
  · exact dropped

/-- What happens to the overlap of one replica.  A restart makes a new one; every other
operation is a call, with what the store answers when it is asked. -/
inductive Operation where
  | restart (grace : Int)
  | attachStore (stored : Option (List UpstreamCA)) (now : Int)
  | update (fetched : Bytes) (stored : Option (List UpstreamCA)) (now : Int)
  | serve (now : Int)
  | distrust (fps : List Bytes) (now : Int)
  | save (version : Int)

/-- The rows the store answers with. -/
def Operation.rows : Operation → List UpstreamCA
  | .attachStore stored _ => stored.getD []
  | .update _ stored _ => stored.getD []
  | _ => []

/-- A restart and a save have no time of their own. -/
def Operation.now : Operation → Int
  | .restart _ => 0
  | .attachStore _ now => now
  | .update _ _ now => now
  | .serve now => now
  | .distrust _ now => now
  | .save _ => 0

/-- The state after an operation and the bundle it returns, if it returns one. -/
def perform (o : CaOverlap x) : Operation → CaOverlap x × Option Bytes
  | .restart grace => (newCAOverlap x grace, none)
  | .attachStore stored now => (o.attachStore stored now, none)
  | .update fetched stored now => ((o.update fetched stored now).1,
      (o.update fetched stored now).2.toOption)
  | .serve now => o.serve now
  | .distrust fps now => ((o.distrust fps now).1, none)
  | .save version => (o.save version, none)

def run (o : CaOverlap x) (operations : List Operation) : CaOverlap x :=
  operations.foldl (fun o operation => (o.perform operation).1) o

/-- One operation keeps the bounds. -/
theorem perform_keepsBounds (operation : Operation) :
    KeepsBounds o operation.rows operation.now (o.perform operation).1 := by
  cases operation with
  | restart => exact fun r member => absurd member (List.not_mem_nil)
  | attachStore stored now => exact attachStore_keepsBounds bounded stored now
  | update fetched stored now => exact update_keepsBounds bounded fetched stored now
  | serve now => exact serve_keepsBounds bounded now
  | distrust fps now => exact distrust_keepsBounds bounded fps now
  | save =>
  intro r member
  unfold perform save at member ⊢
  dsimp only at member ⊢
  split at member
  · rw [if_pos ‹_›]
    exact ⟨bounded r member, .inl member⟩
  · rw [if_neg ‹_›]
    exact ⟨(bounded r member).of_eq rfl rfl rfl, .inl member⟩

end

theorem newCAOverlap_bounded (x : X509) (grace : Int) : Bounded (newCAOverlap x grace) :=
  fun _ member => absurd member List.not_mem_nil

theorem run_bounded (bounded : Bounded o) (operations : List Operation) :
    Bounded (run o operations) :=
  List.foldlRecOn operations _ bounded fun _ bounded operation _ r member =>
    (perform_keepsBounds bounded operation r member).1

/-- A bundle that is returned was just set, and nothing in it has run out. -/
theorem served_of_perform {operation : Operation} {bundle : Bytes}
    (returned : (o.perform operation).2 = some bundle) :
    bundle = encode (o.perform operation).1.certificates ∧
      ∀ r ∈ (o.perform operation).1.retired.rows, operation.now < r.keptUntil := by
  cases operation with
  | update =>
    simp only [perform, update] at returned ⊢
    split at returned
    · contradiction
    · cases returned
      exact ⟨rfl, fun r member => (mem_serveLocked.mp member).2⟩
  | serve =>
    simp only [perform, serve] at returned ⊢
    split at returned
    · rw [if_pos ‹_›]
      cases returned
      exact ⟨rfl, fun r member => (mem_serveLocked.mp member).2⟩
    · contradiction
  | restart | attachStore | distrust | save => contradiction

/-- Over restarts, merges of any rows, updates, saves and changes of the distrusted CAs:
after each operation a kept CA is neither published nor distrusted, and it is kept no
longer than its expiry and than the grace from when it was kept.  A CA that the operation
newly keeps is kept as a stored row says, was published as far as this process knew, or was
published according to a stored row; in the last case it is kept no longer than the grace
from when that row was saved.  A bundle that is returned holds the issuer's certificates
and the kept ones, none of which has run out. -/
theorem kept_within_bounds (x : X509) (grace : Int) (operations : List Operation)
    (operation : Operation) :
    let o := run (newCAOverlap x grace) operations
    let after := (o.perform operation).1
    (∀ r ∈ after.retired.rows,
      after.current.lookup (r.fingerprint x) = none ∧ r.fingerprint x ∉ after.distrusted ∧
        r.keptUntil ≤ r.cert.notAfter ∧ r.keptUntil ≤ r.keptAt + after.grace) ∧
    (∀ r ∈ after.retired.rows, r ∈ o.retired.rows ∨ StoredKept o operation.rows r ∨
      (r.keptAt = operation.now ∧
        (r.cert ∈ o.current.rows ∨ StoredPublished o operation.rows r))) ∧
    ∀ bundle, (o.perform operation).2 = some bundle →
      bundle = encode (after.fetched ++ after.kept.map RetiredCA.cert) ∧
        ∀ r ∈ after.kept, operation.now < r.keptUntil := by
  intro o after
  have keeps := perform_keepsBounds
    (run_bounded (newCAOverlap_bounded x grace) operations) operation
  refine ⟨?_, ?_, ?_⟩
  · intro r member
    obtain ⟨unpublished, trusted, expiry, graced⟩ := (keeps r member).1
    exact ⟨unpublished, trusted, expiry, graced⟩
  · exact fun r member => (keeps r member).2
  · intro bundle returned
    obtain ⟨bytes, running⟩ := served_of_perform returned
    exact ⟨bytes, fun r member => running r (mem_sortOn.mp member)⟩

end CaOverlap

end OmegaPlane.Identity.Upstream
