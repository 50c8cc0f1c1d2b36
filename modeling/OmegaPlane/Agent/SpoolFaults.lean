import OmegaPlane.Agent.Accounting
import OmegaPlane.Agent.Spool

/-!
# Failing writes of the spool

A decision whose line does not reach the spool is answered with an error, and what was
written of it is cut off again or the spool is rebuilt from the queue.  When neither
succeeds the agent goes on with the remains in its spool.
-/

namespace OmegaPlane.Agent

/-! ## A process and its spool -/

structure Spooler where
  pending : List Queued
  file : Bytes
  isOpen : Bool
  answered : List Queued
  /-- Decisions taken off the queue by a flush. -/
  shipped : List Queued
  /-- Decisions whose callers got an error. -/
  refused : List Queued

/-- How far `rewriteSpoolLocked` gets. -/
inductive Rewrite where
  | failed
  | renamed (reopens : Bool)
  deriving DecidableEq

/-- What fails while a line is written. -/
structure WriteFaults where
  stats : Bool
  /-- What a write that fails leaves of the line. -/
  torn : Option Bytes
  syncs : Bool
  truncates : Bool
  rewrite : Rewrite

def queuedLine (queued : Queued) : Bytes :=
  spoolFormat.line queued ++ [10]

def Spooler.rewriteSpoolLocked (s : Spooler) : Rewrite → Spooler
  | .failed => s
  | .renamed reopens =>
    { s with file := Journal.render spoolFormat s.pending, isOpen := reopens }

/-- Cut a line off again, or rebuild the spool. -/
def Spooler.repair (s : Spooler) (left : Bytes) (faults : WriteFaults) : Spooler :=
  if faults.truncates then s
  else { s with file := s.file ++ left }.rewriteSpoolLocked faults.rewrite

/-- The flag says whether the line was written and synced. -/
def Spooler.spoolDecision (s : Spooler) (queued : Queued) (faults : WriteFaults) : Spooler × Bool :=
  if queued.marshals = false ∨ faults.stats = false then (s, false)
  else
    match faults.torn with
    | some left => (s.repair left faults, false)
    | none =>
      if faults.syncs then ({ s with file := s.file ++ queuedLine queued }, true)
      else (s.repair (queuedLine queued) faults, false)

def Spooler.evaluate (s : Spooler) (queued : Queued) (faults : WriteFaults) : Spooler :=
  if s.isOpen = false then { s with refused := queued :: s.refused }
  else
    match s.spoolDecision queued faults with
    | (s, true) =>
      { s with pending := s.pending ++ [queued], answered := queued :: s.answered }
    | (s, false) => { s with refused := queued :: s.refused }

/-- A run of a process from its start, whose evaluations are allowed.  A flush takes
decisions off the queue and rewrites the spool when it took some. -/
inductive SpoolRun (setup : Setup) (allowed : Queued → WriteFaults → Prop) : Spooler → Prop where
  | start (pending : List Queued) (readable : ∀ queued ∈ pending, Readable queued) :
      SpoolRun setup allowed ⟨pending, Journal.render spoolFormat pending, true, pending, [], []⟩
  | evaluate {s : Spooler} (run : SpoolRun setup allowed s) (queued : Queued)
      (faults : WriteFaults) (plain : Plain setup queued)
      (fresh : queued ∉ s.answered ∧ queued ∉ s.refused)
      (part : ∀ left, faults.torn = some left → left <+: queuedLine queued)
      (meets : allowed queued faults) :
      SpoolRun setup allowed (s.evaluate queued faults)
  | ship {s : Spooler} (run : SpoolRun setup allowed s) (n : Nat) :
      SpoolRun setup allowed
        { s with pending := s.pending.drop n, shipped := s.pending.take n ++ s.shipped }
  | rewrite {s : Spooler} (run : SpoolRun setup allowed s) (outcome : Rewrite) :
      SpoolRun setup allowed (s.rewriteSpoolLocked outcome)

/-! ## What the spool holds -/

/-- What is left of a line that is answered with an error. -/
def WriteFaults.left (faults : WriteFaults) (queued : Queued) : Bytes :=
  match faults.torn with
  | some left => left
  | none => if faults.syncs then [] else queuedLine queued

theorem Spooler.spoolDecision_cases (s : Spooler) (queued : Queued) (faults : WriteFaults) :
    s.spoolDecision queued faults = (s, false) ∨
      s.spoolDecision queued faults = (s.repair (faults.left queued) faults, false) ∨
      s.spoolDecision queued faults = ({ s with file := s.file ++ queuedLine queued }, true) := by
  unfold Spooler.spoolDecision WriteFaults.left
  split
  · exact .inl rfl
  refine .inr ?_
  cases faults.torn with
  | some => exact .inl rfl
  | none =>
  dsimp only
  split
  · exact .inr rfl
  · exact .inl rfl

/-- The decision nests within the limit of a line, and nothing is left of a line that is
neither cut off nor removed by a rewrite. -/
def Mended (queued : Queued) (faults : WriteFaults) : Prop :=
  queued.Shallow ∧ (faults.left queued = [] ∨ faults.truncates = true ∨ faults.rewrite ≠ .failed)

/-- The spool is the lines of answered decisions, with those that wait. -/
structure Spooled (s : Spooler) : Prop where
  lines : ∃ records, s.file = Journal.render spoolFormat records ∧
    (∀ queued ∈ s.pending, queued ∈ records) ∧ ∀ queued ∈ records, queued ∈ s.answered
  readable : ∀ queued ∈ s.answered, Readable queued
  waits : ∀ queued ∈ s.answered, queued ∈ s.shipped ∨ queued ∈ s.pending
  pending : ∀ queued ∈ s.pending, queued ∈ s.answered
  apart : ∀ queued ∈ s.refused, queued ∉ s.answered

variable {s : Spooler} {queued : Queued}

theorem Spooled.rewriteSpoolLocked (spooled : Spooled s) (outcome : Rewrite) :
    Spooled (s.rewriteSpoolLocked outcome) := by
  cases outcome with
  | failed => exact spooled
  | renamed =>
    exact ⟨⟨s.pending, rfl, fun _ => id, spooled.pending⟩, spooled.readable, spooled.waits,
      spooled.pending, spooled.apart⟩

/-- The remains of a line are gone after a repair that succeeds. -/
theorem Spooled.repair (spooled : Spooled s) {left : Bytes} {faults : WriteFaults}
    (mends : left = [] ∨ faults.truncates = true ∨ faults.rewrite ≠ .failed) :
    Spooled (s.repair left faults) ∧ (s.repair left faults).answered = s.answered := by
  unfold Spooler.repair
  split
  · exact ⟨spooled, rfl⟩
  rename_i stays
  rcases mends with rfl | truncates | renames
  · rw [List.append_nil]
    cases isRewrite : faults.rewrite with
    | failed => exact ⟨spooled, rfl⟩
    | renamed reopens => exact ⟨spooled.rewriteSpoolLocked (.renamed reopens), rfl⟩
  · exact absurd truncates stays
  · cases isRewrite : faults.rewrite with
    | failed => exact absurd isRewrite renames
    | renamed reopens => exact ⟨spooled.rewriteSpoolLocked (.renamed reopens), rfl⟩

theorem Spooled.refuse (spooled : Spooled s) (fresh : queued ∉ s.answered) :
    Spooled { s with refused := queued :: s.refused } :=
  { spooled with apart := List.forall_mem_cons.mpr ⟨fresh, spooled.apart⟩ }

theorem Spooled.answer (spooled : Spooled s) (readable : Readable queued)
    (fresh : queued ∉ s.refused) :
    Spooled { s with
      file := s.file ++ queuedLine queued
      pending := s.pending ++ [queued]
      answered := queued :: s.answered } := by
  obtain ⟨records, isFile, holds, known⟩ := spooled.lines
  refine ⟨⟨records ++ [queued], ?_, ?_, ?_⟩, ?_, ?_, ?_, ?_⟩
  · simp [isFile, Journal.render, queuedLine]
  · intro other member
    rcases List.mem_append.mp member with earlier | last
    · exact List.mem_append_left _ (holds other earlier)
    · exact List.mem_append_right _ last
  · intro other member
    rcases List.mem_append.mp member with earlier | last
    · exact List.mem_cons_of_mem _ (known other earlier)
    · exact List.mem_cons.mpr (.inl (List.mem_singleton.mp last))
  · exact List.forall_mem_cons.mpr ⟨readable, spooled.readable⟩
  · refine List.forall_mem_cons.mpr ⟨.inr (by simp), fun other member => ?_⟩
    exact (spooled.waits other member).imp_right (List.mem_append_left _)
  · intro other member
    rcases List.mem_append.mp member with earlier | last
    · exact List.mem_cons_of_mem _ (spooled.pending other earlier)
    · exact List.mem_cons.mpr (.inl (List.mem_singleton.mp last))
  · intro other member
    refine List.not_mem_cons_of_ne_of_not_mem ?_ (spooled.apart other member)
    rintro rfl
    exact fresh member

theorem Spooled.evaluate {setup : Setup} (spooled : Spooled s) {faults : WriteFaults}
    (plain : Plain setup queued) (fresh : queued ∉ s.answered ∧ queued ∉ s.refused)
    (mended : Mended queued faults) :
    Spooled (s.evaluate queued faults) := by
  obtain ⟨shallow, mends⟩ := mended
  unfold Spooler.evaluate
  split
  · exact spooled.refuse fresh.1
  rcases s.spoolDecision_cases queued faults with unwritten | failed | written
  · rw [unwritten]
    exact spooled.refuse fresh.1
  · rw [failed]
    obtain ⟨repaired, same⟩ := spooled.repair mends
    exact repaired.refuse (same ▸ fresh.1)
  · rw [written]
    exact spooled.answer (plain.readable shallow) fresh.2

theorem SpoolRun.spooled {setup : Setup} (run : SpoolRun setup Mended s) : Spooled s := by
  induction run with
  | start pending readable =>
    exact ⟨⟨pending, rfl, fun _ => id, fun _ => id⟩, readable, fun _ => .inr, fun _ => id, nofun⟩
  | evaluate run queued faults plain fresh part meets ih => exact ih.evaluate plain fresh meets
  | @ship s run n ih =>
    obtain ⟨records, isFile, holds, known⟩ := ih.lines
    refine ⟨⟨records, isFile, fun queued member => holds queued (List.mem_of_mem_drop member),
      known⟩, ih.readable, ?_, fun queued member => ih.pending queued (List.mem_of_mem_drop member),
      ih.apart⟩
    intro queued member
    rcases ih.waits queued member with gone | waiting
    · exact .inl (List.mem_append_right _ gone)
    rw [← List.take_append_drop n s.pending] at waiting
    rcases List.mem_append.mp waiting with taken | stays
    · exact .inl (List.mem_append_left _ taken)
    · exact .inr stays
  | rewrite run outcome ih => exact ih.rewriteSpoolLocked outcome

/-- With lines within the nesting limit and repairs that leave nothing behind, a restart
reads the spool and has every answered decision that no flush took, and none whose
caller got an error. -/
theorem spool_tolerates {setup : Setup} {s : Spooler} (run : SpoolRun setup Mended s) :
    ∃ restored, Journal.load spoolFormat s.file = some restored ∧
      (∀ queued ∈ s.answered, queued ∈ s.shipped ∨ queued ∈ restored) ∧
      ∀ queued ∈ s.refused, queued ∉ restored := by
  have spooled := run.spooled
  obtain ⟨records, isFile, holds, known⟩ := spooled.lines
  refine ⟨records, ?_, ?_, ?_⟩
  · rw [isFile]
    exact Journal.load_render spoolFormat_lawful fun queued member =>
      spooled.readable queued (known queued member)
  · intro queued member
    exact (spooled.waits queued member).imp_right (holds queued)
  · intro queued refused member
    exact spooled.apart queued refused (known queued member)

/-- Decisions with different ids. -/
def sampleDecision (n : UInt8) : Queued :=
  ⟨newID [n], sampleText ({ sampleCall 0 with random := [n] }.decision
    { decision := true, context := none, reasons := [] }), sampleBundle.revision⟩

theorem sampleDecision_plain (n : UInt8) : Plain sampleSetup (sampleDecision n) :=
  ⟨⟨_, rfl⟩, ⟨_, rfl⟩, ⟨_, rfl⟩⟩

def cleanWrite : WriteFaults := ⟨true, none, true, true, .failed⟩

/-- The first byte of a line gets through and stays. -/
def tornWrite : WriteFaults := ⟨true, some [123], true, false, .failed⟩

/-- The line gets through and stays, but its sync fails. -/
def unsyncedWrite : WriteFaults := ⟨true, none, false, false, .failed⟩

def freshSpooler : Spooler := ⟨[], [], true, [], [], []⟩

theorem sampleDecision_run {allowed : Queued → WriteFaults → Prop}
    (run : SpoolRun sampleSetup allowed s) (n : UInt8) (faults : WriteFaults)
    (fresh : sampleDecision n ∉ s.answered ∧ sampleDecision n ∉ s.refused)
    (meets : allowed (sampleDecision n) faults)
    (part : ∀ left, faults.torn = some left → left <+: queuedLine (sampleDecision n)) :
    SpoolRun sampleSetup allowed (s.evaluate (sampleDecision n) faults) :=
  run.evaluate _ _ (sampleDecision_plain n) fresh part meets

theorem spool_tolerates_sample :
    ∃ restored, Journal.load spoolFormat
        (freshSpooler.evaluate (sampleDecision 1) cleanWrite).file = some restored ∧
      sampleDecision 1 ∈ (freshSpooler.evaluate (sampleDecision 1) cleanWrite).answered := by
  have shallow : (sampleDecision 1).Shallow := show reads _ _ = true by decide
  have started : SpoolRun sampleSetup Mended freshSpooler := .start [] nofun
  have run := sampleDecision_run started 1 cleanWrite ⟨nofun, nofun⟩ ⟨shallow, .inl rfl⟩ nofun
  obtain ⟨restored, loaded, -⟩ := spool_tolerates run
  exact ⟨restored, loaded, by decide +kernel⟩

/-- What a failed repair leaves takes an answered decision with it, keeps the agent from
starting, or brings a decision back whose caller got an error. -/
theorem remains_spoil_spool :
    (∃ s, SpoolRun sampleSetup (fun _ _ => True) s ∧ sampleDecision 2 ∈ s.answered ∧
      sampleDecision 2 ∉ s.shipped ∧ Journal.load spoolFormat s.file = some []) ∧
    (∃ s, SpoolRun sampleSetup (fun _ _ => True) s ∧ Journal.load spoolFormat s.file = none) ∧
    ∃ s, SpoolRun sampleSetup (fun _ _ => True) s ∧ sampleDecision 1 ∈ s.refused ∧
      Journal.load spoolFormat s.file = some [sampleDecision 1] := by
  have started : SpoolRun sampleSetup (fun _ _ => True) freshSpooler := .start [] nofun
  have torn := sampleDecision_run started 1 tornWrite ⟨nofun, nofun⟩ trivial
    (by rintro _ ⟨⟩; decide)
  have answered := sampleDecision_run torn 2 cleanWrite (by decide) trivial nofun
  have again := sampleDecision_run answered 3 cleanWrite (by decide) trivial nofun
  have unsynced := sampleDecision_run started 1 unsyncedWrite ⟨nofun, nofun⟩ trivial nofun
  exact ⟨⟨_, answered, by decide +kernel, by decide +kernel, by decide +kernel⟩,
    ⟨_, again, by decide +kernel⟩, _, unsynced, by decide +kernel, by decide +kernel⟩

end OmegaPlane.Agent
