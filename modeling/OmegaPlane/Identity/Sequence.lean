import Mathlib.Data.Fintype.Option
import Mathlib.Data.List.Pairwise
import Mathlib.Logic.Function.Basic
import OmegaPlane.Crypto.Sha256
import OmegaPlane.Data.Clock
import OmegaPlane.Data.Hex
import OmegaPlane.Data.Separated

/-!
# The sequence number of the trust bundle

A process numbers its trust material.  The number is kept in memory and in a store, from
which a restarted process goes on.  One call at a time reads and writes the store; the
others answer with the number in memory, which is set before it is stored.
-/

namespace OmegaPlane.Identity

/-! ## The number in memory -/

/-- What a peer verifies against.  The PEM text holds no zero byte. -/
structure Material where
  bundlePEM : Bytes
  jwks : Bytes
  plain : 0 ∉ bundlePEM
  deriving DecidableEq

def materialDigest (sha256 : Bytes → Bytes) (material : Material) : Bytes :=
  Hex.encodeToString (sha256 (material.bundlePEM ++ 0 :: material.jwks))

/-- The fields under `mu`; no time is the zero time. -/
structure DurableSequence where
  seq : Int
  digest : Bytes
  srcSeq : Int
  retryAt : Option Int
  resyncAt : Option Int
  deriving DecidableEq

def sequenceRecheck : Int := 30 * Clock.second

def maxStoredSequence : Int := 281474976710656

/-- What becomes of a number that was given: it is answered, the store could not be
read, or it has to be stored first. -/
inductive Numbered where
  | answer (seq : Int)
  | failed (last : Int)
  | save (seq : Int)
  deriving DecidableEq

/-- What becomes of a write of the store. -/
inductive SaveOutcome where
  | ok
  | notLeader
  | failed
  deriving DecidableEq

namespace DurableSequence

def fresh : DurableSequence := ⟨0, [], 0, none, none⟩

/-- The material was numbered, and the number need not be compared with the store. -/
def current (d : DurableSequence) (digest : Bytes) (now : Int) : Bool :=
  digest = d.digest && d.resyncAt.all fun time => now < time

/-- A read of the store failed a short while ago. -/
def holdOff (d : DurableSequence) (now : Int) : Bool :=
  d.retryAt.any fun time => now < time

/-- Two changes between two reads count twice, if the source counted them. -/
def advance (d : DurableSequence) (srcSeq : Int) : Int :=
  if d.seq = 0 ∨ srcSeq - d.srcSeq < 1 then 1 else srcSeq - d.srcSeq

/-- `number`, up to the write of the store; `loaded` is what the store holds, if it can
be read. -/
def number (d : DurableSequence) (now : Int) (digest : Bytes) (srcSeq : Int)
    (loaded : Option (Int × Bytes)) : DurableSequence × Numbered :=
  match loaded.filter fun row => 0 ≤ row.1 ∧ row.1 ≤ maxStoredSequence with
  | none => ({ d with retryAt := some (now + sequenceRecheck) }, .failed d.seq)
  | some (stored, storedDigest) =>
    if digest = d.digest then
      let seq := if storedDigest = digest ∧ d.seq < stored then stored else d.seq
      ({ d with seq, resyncAt := some (now + sequenceRecheck) }, .answer seq)
    else
      let seq :=
        if storedDigest = digest ∧ (d.seq < stored ∨ d.seq = 0) then stored
        else max d.seq stored + d.advance srcSeq
      ({ d with seq, digest, srcSeq },
        if seq = stored ∧ storedDigest = digest then .answer seq else .save seq)

/-- A replica that may not write compares its number with the store later. -/
def resync (d : DurableSequence) (now : Int) (outcome : SaveOutcome) : DurableSequence :=
  { d with resyncAt := if outcome = .notLeader then some (now + sequenceRecheck) else none }

end DurableSequence

/-- `SaveBundleSequence`: the stored number only moves forward. -/
def saveBundleSequence (stored : Option (Int × Bytes)) (seq : Int) (digest : Bytes) :
    Option (Int × Bytes) :=
  match stored with
  | none => some (seq, digest)
  | some row => if row.1 < seq then some (seq, digest) else some row

/-! ## Calls -/

/-- How far a call has come: it has read the material (or could not), has found a number
to be given, holds `ioMu`, has read the store, has a number to store, has stored it. -/
inductive Call where
  | read (material : Option Material) (srcSeq : Int)
  | trying (material : Material) (srcSeq last : Int)
  | loading (material : Material) (srcSeq : Int)
  | loaded (material : Material) (srcSeq : Int) (row : Option (Int × Bytes))
  | saving (material : Material) (seq : Int)
  | saved (material : Material) (seq : Int) (outcome : SaveOutcome)
  deriving DecidableEq

/-- What can be observed: the numbers returned, each for the material its call read, and
the restarts. -/
inductive Entry where
  | returned (material : Option Material) (seq : Int)
  | restarted
  deriving DecidableEq

variable {ι : Type} {sha256 : Bytes → Bytes}

/-- A process and its store.  The call `none` is that of the constructor, and the others
come after it. -/
structure World (ι : Type) where
  stored : Option (Int × Bytes)
  d : DurableSequence
  ready : Bool
  ioMu : Option (Option ι)
  calls : Option ι → Option Call
  history : List Entry

/-- One section of a call.  The material may be anything when it is read. -/
inductive Event (ι : Type) where
  | read (who : Option ι) (material : Option Material) (srcSeq : Int)
  | snapshot (who : Option ι) (now : Int)
  | tryLock (who : Option ι)
  | load (who : Option ι) (fails : Bool)
  | number (who : Option ι) (now : Int)
  | save (who : Option ι) (outcome : SaveOutcome)
  | finish (who : Option ι) (now : Int)
  | restart

namespace World

/-- A process that starts on what the store holds. -/
def start (stored : Option (Int × Bytes)) : World ι where
  stored
  d := .fresh
  ready := false
  ioMu := none
  calls := fun _ => none
  history := []

variable [DecidableEq ι]

/-- A call returns. -/
def answer (w : World ι) (who : Option ι) (material : Option Material) (seq : Int)
    (failed : Bool) : World ι :=
  { w with
    calls := Function.update w.calls who none
    ioMu := if w.ioMu = some who then none else w.ioMu
    ready := w.ready || (who = none && !failed)
    history := match who with
      | none => w.history
      | some _ => w.history ++ [.returned material seq] }

def set (w : World ι) (who : Option ι) (call : Call) : World ι :=
  { w with calls := Function.update w.calls who (some call) }

def step (sha256 : Bytes → Bytes) (w : World ι) : Event ι → World ι
  | .read who material srcSeq =>
    if w.calls who = none ∧ (who = none ↔ w.ready = false) then
      w.set who (.read material srcSeq)
    else
      w
  | .snapshot who now =>
    match w.calls who with
    | some (.read none _) => w.answer who none w.d.seq true
    | some (.read (some material) srcSeq) =>
      if w.d.current (materialDigest sha256 material) now || w.d.holdOff now then
        w.answer who (some material) w.d.seq false
      else
        w.set who (.trying material srcSeq w.d.seq)
    | _ => w
  | .tryLock who =>
    match w.calls who with
    | some (.trying material srcSeq last) =>
      if w.ioMu.isSome then
        w.answer who (some material) last false
      else
        { w.set who (.loading material srcSeq) with ioMu := some who }
    | _ => w
  | .load who fails =>
    match w.calls who with
    | some (.loading material srcSeq) =>
      w.set who (.loaded material srcSeq (if fails then none else some (w.stored.getD (0, []))))
    | _ => w
  | .number who now =>
    match w.calls who with
    | some (.loaded material srcSeq row) =>
      let (d, numbered) := w.d.number now (materialDigest sha256 material) srcSeq row
      match numbered with
      | .answer seq => { w with d }.answer who (some material) seq false
      | .failed last => { w with d }.answer who (some material) last true
      | .save seq => { w with d }.set who (.saving material seq)
    | _ => w
  | .save who outcome =>
    match w.calls who with
    | some (.saving material seq) =>
      { w.set who (.saved material seq outcome) with
        stored :=
          if outcome = .ok then
            saveBundleSequence w.stored seq (materialDigest sha256 material)
          else w.stored }
    | _ => w
  | .finish who now =>
    match w.calls who with
    | some (.saved material seq outcome) =>
      { w with d := w.d.resync now outcome }.answer who (some material) seq false
    | _ => w
  -- A crash; the numbers in memory are lost.
  | .restart => { start w.stored with history := w.history ++ [.restarted] }

def run (sha256 : Bytes → Bytes) (w : World ι) (events : List (Event ι)) : World ι :=
  events.foldl (step sha256) w

end World

/-! ## Calls that do not overlap -/

/-- The call has not looked at the number in memory yet. -/
def Quiet : Option Call → Prop
  | none => True
  | some (.read (some _) _) => True
  | _ => False

instance : DecidablePred Quiet
  | none => isTrue trivial
  | some (.read (some _) _) => isTrue trivial
  | some (.read none _) => isFalse id
  | some (.trying _ _ _) => isFalse id
  | some (.loading _ _) => isFalse id
  | some (.loaded _ _ _) => isFalse id
  | some (.saving _ _) => isFalse id
  | some (.saved _ _ _) => isFalse id

/-- The store can be read, and holds a number of this program. -/
def Readable (stored : Option (Int × Bytes)) : Prop :=
  0 ≤ (stored.getD (0, [])).1 ∧ (stored.getD (0, [])).1 ≤ maxStoredSequence

/-- The material and the store can be read, writes succeed, and no call looks at the
number in memory while another one is between that and its return. -/
def Calm (w : World ι) : Event ι → Prop
  | .read _ material _ => material ≠ none
  | .snapshot who _ => ∀ other, other ≠ who → Quiet (w.calls other)
  | .load _ fails => fails = false ∧ Readable w.stored
  | .save _ outcome => outcome = .ok
  | _ => True

def CalmRun [DecidableEq ι] (sha256 : Bytes → Bytes) : World ι → List (Event ι) → Prop
  | _, [] => True
  | w, event :: rest => Calm w event ∧ CalmRun sha256 (w.step sha256 event) rest

instance (stored : Option (Int × Bytes)) : Decidable (Readable stored) :=
  inferInstanceAs (Decidable (_ ∧ _))

instance [DecidableEq ι] [Fintype ι] (w : World ι) : DecidablePred (Calm w)
  | .read _ _ _ => inferInstanceAs (Decidable (_ ≠ _))
  | .snapshot who _ => inferInstanceAs (Decidable (∀ other, other ≠ who → Quiet (w.calls other)))
  | .tryLock _ => isTrue trivial
  | .load _ _ => inferInstanceAs (Decidable (_ ∧ _))
  | .number _ _ => isTrue trivial
  | .save _ _ => inferInstanceAs (Decidable (_ = _))
  | .finish _ _ => isTrue trivial
  | .restart => isTrue trivial

instance decidableCalmRun [DecidableEq ι] [Fintype ι] (sha256 : Bytes → Bytes) :
    (w : World ι) → (events : List (Event ι)) → Decidable (CalmRun sha256 w events)
  | _, [] => isTrue trivial
  | w, event :: rest =>
    have := decidableCalmRun sha256 (w.step sha256 event) rest
    inferInstanceAs (Decidable (Calm w event ∧ CalmRun sha256 (w.step sha256 event) rest))

/-! ## The number in memory and in the store -/

/-- The process has no number yet, or has the one in the store. -/
def Synced (w : World ι) : Prop :=
  w.d = .fresh ∨ w.stored = some (w.d.seq, w.d.digest)

/-- What a call that has looked at the number in memory can count on. -/
def Fits (sha256 : Bytes → Bytes) (w : World ι) (who : Option ι) : Call → Prop
  | .read _ _ => False
  | .trying material _ _ =>
    w.ioMu = none ∧ Synced w ∧ materialDigest sha256 material ≠ w.d.digest
  | .loading material _ =>
    w.ioMu = some who ∧ Synced w ∧ materialDigest sha256 material ≠ w.d.digest
  | .loaded material _ row =>
    w.ioMu = some who ∧ Synced w ∧ materialDigest sha256 material ≠ w.d.digest ∧
      row = some (w.stored.getD (0, [])) ∧ Readable w.stored
  | .saving material seq =>
    w.ioMu = some who ∧ w.d.seq = seq ∧ w.d.digest = materialDigest sha256 material ∧
      ∀ row, w.stored = some row → row.1 < seq
  | .saved material seq outcome =>
    w.ioMu = some who ∧ outcome = .ok ∧ w.d.seq = seq ∧
      w.d.digest = materialDigest sha256 material ∧
      w.stored = some (seq, materialDigest sha256 material)

/-- A later number is not lower, and higher for other material. -/
def Rises : Entry → Entry → Prop
  | .returned material seq, .returned later laterSeq =>
    seq ≤ laterSeq ∧ (material ≠ later → seq < laterSeq)
  | _, _ => True

/-- The number that was returned is in the store, or a later one is. -/
def Covered (sha256 : Bytes → Bytes) (stored : Option (Int × Bytes)) : Entry → Prop
  | .returned material seq =>
    ∃ given row, material = some given ∧ stored = some row ∧ seq ≤ row.1 ∧
      (seq = row.1 → materialDigest sha256 given = row.2)
  | .restarted => True

structure Durable (sha256 : Bytes → Bytes) (w : World ι) : Prop where
  noRetry : w.d.retryAt = none
  noResync : w.d.resyncAt = none
  covered : ∀ entry ∈ w.history, Covered sha256 w.stored entry
  rises : w.history.Pairwise Rises
  phase : (w.ioMu = none ∧ (∀ who, Quiet (w.calls who)) ∧ Synced w) ∨
    ∃ who call, w.calls who = some call ∧ (∀ other, other ≠ who → Quiet (w.calls other)) ∧
      Fits sha256 w who call

theorem materialDigest_injective (injective : Function.Injective sha256) :
    Function.Injective (materialDigest sha256) := by
  intro first second same
  have decoded := congrArg Hex.decodeString same
  simp only [materialDigest, Hex.decodeString_encodeToString, Option.some.injEq] at decoded
  obtain ⟨samePEM, sameJWKS⟩ := Separated.eq_of_first_sep first.plain second.plain (injective decoded)
  obtain ⟨firstPEM, firstJWKS, _⟩ := first
  obtain ⟨secondPEM, secondJWKS, _⟩ := second
  obtain rfl : firstPEM = secondPEM := samePEM
  obtain rfl : firstJWKS = secondJWKS := sameJWKS
  rfl

theorem materialDigest_ne_nil (nonempty : ∀ text, sha256 text ≠ []) (material : Material) :
    materialDigest sha256 material ≠ [] := by
  intro empty
  have decoded := congrArg Hex.decodeString empty
  rw [materialDigest, Hex.decodeString_encodeToString] at decoded
  exact nonempty _ (Option.some.inj decoded)

/-! ## Steps -/

section Steps

variable [DecidableEq ι] {w : World ι} {who : Option ι}

variable {call : Option Call} {material : Option Material} {srcSeq now : Int}

theorem quiet_update (isQuiet : Quiet call) (others : ∀ other, other ≠ who → Quiet (w.calls other))
    (other : Option ι) :
    Quiet (Function.update w.calls who call other) := by
  by_cases same : other = who
  · rw [same, Function.update_self]
    exact isQuiet
  · rw [Function.update_of_ne same]
    exact others other same

theorem others_update (others : ∀ other, other ≠ who → Quiet (w.calls other)) (other : Option ι)
    (different : other ≠ who) :
    Quiet (Function.update w.calls who call other) := by
  rw [Function.update_of_ne different]
  exact others other different

omit [DecidableEq ι] in
/-- A number that is in the store goes up from all that were returned. -/
theorem rises_of_covered (injective : Function.Injective sha256) {material : Material} {seq : Int}
    (stored : w.stored = some (seq, materialDigest sha256 material)) {entry : Entry}
    (covered : Covered sha256 w.stored entry) : Rises entry (.returned (some material) seq) := by
  cases entry with
  | restarted => trivial
  | returned given =>
  obtain ⟨given, row, rfl, found, atMost, same⟩ := covered
  obtain rfl := Option.some.inj (stored.symm.trans found)
  refine ⟨atMost, fun different => lt_of_le_of_ne atMost fun equal => different ?_⟩
  exact congrArg some (materialDigest_injective injective (same equal))

/-- A call returns the number that is in memory and in the store. -/
theorem Durable.answer (injective : Function.Injective sha256) (noRetry : w.d.retryAt = none)
    (noResync : w.d.resyncAt = none) (covered : ∀ entry ∈ w.history, Covered sha256 w.stored entry)
    (rises : w.history.Pairwise Rises) (others : ∀ other, other ≠ who → Quiet (w.calls other))
    (lock : w.ioMu = none ∨ w.ioMu = some who) {material : Material} {seq : Int}
    (inMemory : w.d.seq = seq ∧ w.d.digest = materialDigest sha256 material)
    (stored : w.stored = some (seq, materialDigest sha256 material)) (failed : Bool) :
    Durable sha256 (w.answer who (some material) seq failed) := by
  refine ⟨noRetry, noResync, ?_, ?_, .inl ⟨?_, quiet_update trivial others, .inr ?_⟩⟩
  · intro entry member
    cases who with
    | none => exact covered entry member
    | some =>
    rcases List.mem_append.mp member with old | new
    · exact covered entry old
    · obtain rfl := List.mem_singleton.mp new
      exact ⟨material, _, rfl, stored, le_rfl, fun _ => rfl⟩
  · cases who with
    | none => exact rises
    | some =>
      refine List.pairwise_append.mpr ⟨rises, List.pairwise_singleton _ _, ?_⟩
      intro earlier member later isLast
      obtain rfl := List.mem_singleton.mp isLast
      exact rises_of_covered injective stored (covered earlier member)
  · dsimp only [World.answer]
    rcases lock with free | held
    · simp [free]
    · simp [held]
  · dsimp only [World.answer]
    rw [stored, inMemory.1, inMemory.2]

omit [DecidableEq ι] in
/-- A call that has looked at the number in memory is the only one. -/
theorem Durable.fits (durable : Durable sha256 w) {call : Call} (found : w.calls who = some call)
    (busy : ¬ Quiet (some call)) :
    (∀ other, other ≠ who → Quiet (w.calls other)) ∧ Fits sha256 w who call := by
  rcases durable.phase with ⟨_, quiet, _⟩ | ⟨holder, held, isHeld, others, fits⟩
  · exact absurd (found ▸ quiet who) busy
  by_cases same : holder = who
  · subst same
    obtain rfl := Option.some.inj (isHeld.symm.trans found)
    exact ⟨others, fits⟩
  · exact absurd (found ▸ others who (Ne.symm same)) busy

omit [DecidableEq ι] in
/-- A call that looks at the number in memory alone. -/
theorem Durable.synced (durable : Durable sha256 w)
    (found : w.calls who = some (.read material srcSeq))
    (others : ∀ other, other ≠ who → Quiet (w.calls other)) :
    material ≠ none ∧ w.ioMu = none ∧ Synced w := by
  rcases durable.phase with ⟨free, quiet, synced⟩ | ⟨holder, held, isHeld, _, fits⟩
  · refine ⟨?_, free, synced⟩
    rintro rfl
    have := quiet who
    rw [found] at this
    exact this
  · exfalso
    by_cases same : holder = who
    · subst same
      obtain rfl := Option.some.inj (isHeld.symm.trans found)
      exact fits
    · have isQuiet := others holder same
      rw [isHeld] at isQuiet
      cases held with
      | read => exact fits
      | _ => exact isQuiet

theorem Durable.step_read (durable : Durable sha256 w) (calm : material ≠ none) :
    Durable sha256 (w.step sha256 (.read who material srcSeq)) := by
  dsimp only [World.step]
  split
  · rename_i idle
    have isQuiet : Quiet (some (.read material srcSeq)) := by
      cases material with
      | none => exact absurd rfl calm
      | some => trivial
    refine ⟨durable.noRetry, durable.noResync, durable.covered, durable.rises, ?_⟩
    rcases durable.phase with ⟨free, quiet, synced⟩ | ⟨holder, held, isHeld, others, fits⟩
    · exact .inl ⟨free, quiet_update isQuiet fun other _ => quiet other, synced⟩
    have different : holder ≠ who := by
      rintro rfl
      rw [idle.1] at isHeld
      cases isHeld
    refine .inr ⟨holder, held, (Function.update_of_ne different _ _).trans isHeld, ?_, fits⟩
    intro other notHolder
    dsimp only [World.set]
    by_cases same : other = who
    · rw [same, Function.update_self]
      exact isQuiet
    · rw [Function.update_of_ne same]
      exact others other notHolder
  · exact durable

theorem Durable.step_snapshot (durable : Durable sha256 w) (injective : Function.Injective sha256)
    (nonempty : ∀ text, sha256 text ≠ []) (others : ∀ other, other ≠ who → Quiet (w.calls other)) :
    Durable sha256 (w.step sha256 (.snapshot who now)) := by
  dsimp only [World.step]
  split
  · rename_i found
    exact absurd rfl (durable.synced found others).1
  · rename_i material srcSeq found
    obtain ⟨_, free, synced⟩ := durable.synced found others
    have noHoldOff : w.d.holdOff now = false := by
      simp [DurableSequence.holdOff, durable.noRetry]
    have isCurrent : w.d.current (materialDigest sha256 material) now = true ↔
        materialDigest sha256 material = w.d.digest := by
      simp [DurableSequence.current, durable.noResync]
    split
    · rename_i answers
      rw [noHoldOff, Bool.or_false, isCurrent] at answers
      have stored : w.stored = some (w.d.seq, materialDigest sha256 material) := by
        rcases synced with isFresh | stored
        · rw [isFresh] at answers
          exact absurd answers (materialDigest_ne_nil nonempty material)
        · rw [answers]
          exact stored
      exact Durable.answer injective durable.noRetry durable.noResync durable.covered
        durable.rises others (.inl free) ⟨rfl, answers.symm⟩ stored false
    · rename_i goesOn
      rw [noHoldOff, Bool.or_false, isCurrent] at goesOn
      refine ⟨durable.noRetry, durable.noResync, durable.covered, durable.rises, .inr ?_⟩
      exact ⟨who, _, Function.update_self .., others_update others, free, synced, goesOn⟩
  · exact durable

theorem Durable.step_tryLock (durable : Durable sha256 w) :
    Durable sha256 (w.step sha256 (.tryLock who)) := by
  dsimp only [World.step]
  split
  · rename_i material srcSeq last found
    obtain ⟨others, free, synced, different⟩ := durable.fits found id
    rw [free]
    refine ⟨durable.noRetry, durable.noResync, durable.covered, durable.rises, .inr ?_⟩
    exact ⟨who, _, Function.update_self .., others_update others, rfl, synced, different⟩
  · exact durable

theorem Durable.step_load (durable : Durable sha256 w) (readable : Readable w.stored) :
    Durable sha256 (w.step sha256 (.load who false)) := by
  dsimp only [World.step]
  split
  · rename_i material srcSeq found
    obtain ⟨others, held, synced, different⟩ := durable.fits found id
    refine ⟨durable.noRetry, durable.noResync, durable.covered, durable.rises, .inr ?_⟩
    exact ⟨who, _, Function.update_self .., others_update others, held, synced, different, rfl,
      readable⟩
  · exact durable

/-- New material gets the number in the store if it was numbered before, and a higher one
otherwise. -/
theorem number_spec {d : DurableSequence} {digest : Bytes} {row : Int × Bytes}
    (different : digest ≠ d.digest) (low : 0 ≤ row.1) (high : row.1 ≤ maxStoredSequence)
    (now srcSeq : Int) :
    ∃ seq, (d.number now digest srcSeq (some row) = ({ d with seq, digest, srcSeq }, .answer seq) ∧
        row = (seq, digest)) ∨
      d.number now digest srcSeq (some row) = ({ d with seq, digest, srcSeq }, .save seq) ∧
        row.1 < seq := by
  obtain ⟨stored, storedDigest⟩ := row
  have positive : 1 ≤ d.advance srcSeq := by
    unfold DurableSequence.advance
    split <;> omega
  have kept : (some (stored, storedDigest)).filter
      (fun row => (0 ≤ row.1 ∧ row.1 ≤ maxStoredSequence : Bool)) = some (stored, storedDigest) := by
    simpa using ⟨low, high⟩
  unfold DurableSequence.number
  rw [kept]
  dsimp only
  rw [if_neg different]
  by_cases numbered : storedDigest = digest ∧ (d.seq < stored ∨ d.seq = 0)
  · rw [if_pos numbered, if_pos ⟨rfl, numbered.1⟩]
    exact ⟨stored, .inl ⟨rfl, by rw [numbered.1]⟩⟩
  · have higher : stored < max d.seq stored + d.advance srcSeq := by omega
    rw [if_neg numbered, if_neg fun same => by omega]
    exact ⟨_, .inr ⟨rfl, higher⟩⟩

theorem le_number (d : DurableSequence) (now : Int) (digest : Bytes) (srcSeq : Int)
    (loaded : Option (Int × Bytes)) : d.seq ≤ (d.number now digest srcSeq loaded).1.seq := by
  have positive : 1 ≤ d.advance srcSeq := by
    unfold DurableSequence.advance
    split <;> omega
  unfold DurableSequence.number
  split
  · rfl
  · rename_i kept
    have low := (Option.filter_eq_some_iff.mp kept).2
    simp only [decide_eq_true_eq] at low
    split <;> dsimp only <;> split <;> omega

section

variable (durable : Durable sha256 w)
include durable

theorem Durable.step_number (injective : Function.Injective sha256)
    (nonempty : ∀ text, sha256 text ≠ []) :
    Durable sha256 (w.step sha256 (.number who now)) := by
  dsimp only [World.step]
  split
  · rename_i material srcSeq row found
    obtain ⟨others, held, synced, different, rfl, low, high⟩ := durable.fits found id
    obtain ⟨seq, ⟨numbered, isRow⟩ | ⟨numbered, higher⟩⟩ :=
      number_spec different low high now srcSeq
    · -- The material was numbered by this process before a restart, or by another one.
      rw [numbered]
      have stored : w.stored = some (seq, materialDigest sha256 material) := by
        cases kept : w.stored with
        | none =>
          rw [kept] at isRow
          exact absurd (Prod.mk.inj isRow).2.symm (materialDigest_ne_nil nonempty material)
        | some =>
          rw [kept] at isRow
          exact congrArg some isRow
      apply Durable.answer injective
      · exact durable.noRetry
      · exact durable.noResync
      · exact durable.covered
      · exact durable.rises
      · exact others
      · exact .inr held
      · exact ⟨rfl, rfl⟩
      · exact stored
    · rw [numbered]
      refine ⟨durable.noRetry, durable.noResync, durable.covered, durable.rises, .inr ?_⟩
      refine ⟨who, _, Function.update_self .., others_update others, held, rfl, rfl, ?_⟩
      intro row kept
      have kept : w.stored = some row := kept
      rwa [kept] at higher
  · exact durable

theorem Durable.step_save : Durable sha256 (w.step sha256 (.save who .ok)) := by
  dsimp only [World.step]
  split
  · rename_i material seq found
    obtain ⟨others, held, inMemory, digest, higher⟩ := durable.fits found id
    have stored : saveBundleSequence w.stored seq (materialDigest sha256 material) =
        some (seq, materialDigest sha256 material) := by
      unfold saveBundleSequence
      split
      · rfl
      · rename_i row kept
        rw [if_pos (higher row kept)]
    rw [if_pos rfl, stored]
    refine ⟨durable.noRetry, durable.noResync, ?_, durable.rises, .inr ?_⟩
    · intro entry member
      cases entry with
      | restarted => trivial
      | returned given =>
        obtain ⟨given, row, rfl, kept, atMost, _⟩ := durable.covered _ member
        have below := higher row kept
        exact ⟨given, _, rfl, rfl, by dsimp only; omega, fun same => by dsimp only at same; omega⟩
    · exact ⟨who, _, Function.update_self .., others_update others, held, rfl, inMemory, digest, rfl⟩
  · exact durable

theorem Durable.step_finish (injective : Function.Injective sha256) :
    Durable sha256 (w.step sha256 (.finish who now)) := by
  dsimp only [World.step]
  split
  · rename_i material seq outcome found
    obtain ⟨others, held, rfl, inMemory, digest, stored⟩ := durable.fits found id
    apply Durable.answer injective
    · exact durable.noRetry
    · rfl
    · exact durable.covered
    · exact durable.rises
    · exact others
    · exact .inr held
    · exact ⟨inMemory, digest⟩
    · exact stored
  · exact durable

theorem Durable.step_restart : Durable sha256 (w.step sha256 .restart) := by
  refine ⟨rfl, rfl, ?_, ?_, .inl ⟨rfl, fun _ => trivial, .inl rfl⟩⟩
  · intro entry member
    rcases List.mem_append.mp member with old | new
    · exact durable.covered entry old
    · obtain rfl := List.mem_singleton.mp new
      trivial
  · refine List.pairwise_append.mpr ⟨durable.rises, List.pairwise_singleton _ _, ?_⟩
    intro earlier _ later isLast
    obtain rfl := List.mem_singleton.mp isLast
    cases earlier <;> trivial

theorem Durable.step (injective : Function.Injective sha256)
    (nonempty : ∀ text, sha256 text ≠ []) {event : Event ι} (calm : Calm w event) :
    Durable sha256 (w.step sha256 event) := by
  cases event with
  | read => exact durable.step_read calm
  | snapshot => exact durable.step_snapshot injective nonempty calm
  | tryLock => exact durable.step_tryLock
  | load =>
    obtain ⟨rfl, readable⟩ := calm
    exact durable.step_load readable
  | number => exact durable.step_number injective nonempty
  | save who outcome =>
    obtain rfl : outcome = .ok := calm
    exact durable.step_save
  | finish => exact durable.step_finish injective
  | restart => exact durable.step_restart

theorem Durable.run (injective : Function.Injective sha256)
    (nonempty : ∀ text, sha256 text ≠ []) {events : List (Event ι)}
    (calm : CalmRun sha256 w events) : Durable sha256 (w.run sha256 events) := by
  induction events generalizing w with
  | nil => exact durable
  | cons event events ih => exact ih (durable.step injective nonempty calm.1) calm.2

end

/-- While calls do not overlap, the numbers returned after a restart are at least those
returned before it, and higher than those of other material. -/
theorem sequence_durable (injective : Function.Injective sha256)
    (nonempty : ∀ text, sha256 text ≠ []) (stored : Option (Int × Bytes))
    {events : List (Event ι)} (calm : CalmRun sha256 (World.start stored) events)
    {before after : List Entry}
    (split : ((World.start stored : World ι).run sha256 events).history =
      before ++ .restarted :: after)
    {material later : Option Material} {seq laterSeq : Int}
    (earlier : .returned material seq ∈ before) (afterwards : .returned later laterSeq ∈ after) :
    seq ≤ laterSeq ∧ (material ≠ later → seq < laterSeq) := by
  have start : Durable sha256 (World.start stored : World ι) :=
    ⟨rfl, rfl, by simp [World.start], by simp [World.start], .inl ⟨rfl, fun _ => trivial, .inl rfl⟩⟩
  have rises := (start.run injective nonempty calm).rises
  rw [split] at rises
  exact (List.pairwise_append.mp rises).2.2 _ earlier (.returned later laterSeq)
    (by simp [afterwards])

/-- However calls interleave and fail, the stored row gives way to higher numbers only, and
the number in memory falls at restarts only. -/
theorem numbers_rise (w : World ι) (events : List (Event ι)) :
    ((w.run sha256 events).stored = w.stored ∨ ∃ later, (w.run sha256 events).stored = some later ∧
      w.stored.all fun row => row.1 < later.1) ∧
    (.restart ∈ events ∨ w.d.seq ≤ (w.run sha256 events).d.seq) := by
  induction events using List.reverseRecOn with
  | nil => exact ⟨.inl rfl, .inr le_rfl⟩
  | append_singleton events event ih =>
    rw [World.run, List.foldl_concat, ← World.run]
    generalize w.run sha256 events = v at ih
    obtain ⟨stored, memory⟩ := ih.imp_right (Or.imp_left (List.mem_append_left [event]))
    cases event with
    | restart => exact ⟨stored, .inl (by simp)⟩
    | save who outcome =>
      dsimp only [World.step]
      split
      · refine ⟨?_, memory⟩
        dsimp only [saveBundleSequence]
        cases before : w.stored <;> cases now : v.stored <;> grind
      · exact ⟨stored, memory⟩
    | number who now =>
      dsimp only [World.step]
      split
      · rename_i material srcSeq row found
        have rises := le_number v.d now (materialDigest sha256 material) srcSeq row
        split <;> exact ⟨stored, memory.imp_right rises.trans'⟩
      · exact ⟨stored, memory⟩
    | _ =>
      dsimp only [World.step]
      repeat' split
      all_goals exact ⟨stored, memory⟩

end Steps

/-! ## A restart -/

def firstMaterial : Material := ⟨ascii "first", [], by decide⟩

def secondMaterial : Material := ⟨ascii "second", [], by decide⟩

def thirdMaterial : Material := ⟨ascii "third", [], by decide⟩

/-- A call from beginning to end, alone. -/
def wholeCall (who : Option Bool) (material : Material) : List (Event Bool) :=
  [.read who (some material) 0, .snapshot who 0, .tryLock who, .load who false, .number who 0,
    .save who .ok, .finish who 0]

/-- Two processes, one after the other, that each number their material and return the
number. -/
def cleanRestart : List (Event Bool) :=
  wholeCall none firstMaterial ++
    [.read (some false) (some firstMaterial) 0, .snapshot (some false) 0, .restart] ++
    wholeCall none secondMaterial ++
    [.read (some false) (some secondMaterial) 0, .snapshot (some false) 0]

theorem sequence_durable_restart :
    ((World.start none).run (0 :: ·) cleanRestart).history =
        [.returned (some firstMaterial) 1] ++ .restarted :: [.returned (some secondMaterial) 2] ∧
      (1 : Int) ≤ 2 ∧ (some firstMaterial ≠ some secondMaterial → (1 : Int) < 2) := by
  have calm : CalmRun (0 :: ·) (World.start none) cleanRestart := by decide
  have split : ((World.start none).run (0 :: ·) cleanRestart).history =
      [.returned (some firstMaterial) 1] ++ .restarted :: [.returned (some secondMaterial) 2] := by
    decide
  refine ⟨split, ?_⟩
  exact sequence_durable List.cons_injective (fun _ => List.cons_ne_nil _ _) none calm split
    (by simp) (by simp)

/-- A process numbers its first material.  For the second one, a call has set the number
in memory and another call returns it, when the process crashes.  The next process serves
other material. -/
def crashBeforeSave (material : Material) : List (Event Bool) :=
  wholeCall none firstMaterial ++
    [.read (some false) (some secondMaterial) 0, .snapshot (some false) 0, .tryLock (some false),
      .load (some false) false, .number (some false) 0,
      .read (some true) (some secondMaterial) 0, .snapshot (some true) 0, .restart] ++
    wholeCall none material ++ [.read (some false) (some material) 0, .snapshot (some false) 0]

/-- The number that was returned for the second material comes again for the third one,
and after a return to the first material an old one comes back. -/
theorem sequence_not_durable :
    ((World.start none).run Crypto.Sha256.sum (crashBeforeSave thirdMaterial)).history =
        [.returned (some secondMaterial) 2, .restarted, .returned (some thirdMaterial) 2] ∧
      ((World.start none).run Crypto.Sha256.sum (crashBeforeSave firstMaterial)).history =
        [.returned (some secondMaterial) 2, .restarted, .returned (some firstMaterial) 1] ∧
      secondMaterial ≠ thirdMaterial := by
  refine ⟨?_, ?_, ?_⟩ <;> decide +kernel

end OmegaPlane.Identity
