import Mathlib.Logic.Relation
import OmegaPlane.Agent.Freshness

/-!
# Replayed bundles

With a signing key the agent remembers the newest issue time it loaded, at most its own
clock then, and refuses a bundle issued longer before it than clocks may differ.  The
mark is kept next to the spool and survives a restart.
-/

namespace OmegaPlane.Agent

/-- A bundle that was loaded, with the clock when the mark was set after it. -/
structure Marked where
  bundle : Bundle
  time : Int

/-- The agent across restarts, with the contents of the mark's file and the loads so far. -/
structure MarkState where
  pdp : PDP
  file : Option Int
  clock : Int
  loads : List Marked

/-- The mark a new process reads. -/
def PDP.restoreMark (pdp : PDP) : Option Int → PDP
  | none => pdp
  | some mark => if mark = Clock.zeroInstant then pdp else { pdp with issuedAt := mark }

section Steps

variable (sha256 : Bytes → Bytes) (policy : Policy) (config : Config)

def PDP.marked (pdp : PDP) (answer : PollAnswer) (clock : SyncReadings) : List Marked :=
  match answer, (pdp.sync sha256 policy config answer clock).1 with
  | .bundle bundle, .ok () => [⟨bundle, clock.mark⟩]
  | _, _ => []

/-- The file after a sync; writing it may fail. -/
def saveIssuedAt (file : Option Int) (before after : PDP) (saves : Bool) : Option Int :=
  if config.spooling ∧ before.issuedAt < after.issuedAt ∧ saves then some after.issuedAt else file

inductive MarkStep : MarkState → MarkState → Prop where
  | sync {s : MarkState} (answer : PollAnswer) (clock : SyncReadings) (saves : Bool)
      (later : s.clock ≤ clock.age) :
      MarkStep s
        { pdp := (s.pdp.sync sha256 policy config answer clock).2
          file := saveIssuedAt config s.file s.pdp
            (s.pdp.sync sha256 policy config answer clock).2 saves
          clock := clock.synced
          loads := s.loads ++ s.pdp.marked sha256 policy config answer clock }
  /-- A new process, after the mark was saved. -/
  | restart {s : MarkState} (pending : List Queued) (now : Int) (later : s.clock ≤ now)
      (saved : s.pdp.issuedAt = Clock.zeroInstant ∨ s.file = some s.pdp.issuedAt) :
      MarkStep s { s with pdp := { PDP.new with pending }.restoreMark s.file, clock := now }

/-- An agent that never ran before. -/
inductive MarkStart : MarkState → Prop where
  | new (now : Int) (dated : Clock.zeroInstant ≤ now) : MarkStart ⟨.new, none, now, []⟩

end Steps

variable {sha256 : Bytes → Bytes} {policy : Policy} {config : Config} {s s' : MarkState}

theorem PDP.mark_of_checkBundle {pdp : PDP} {bundle : Bundle} {clock : SyncReadings}
    (keyed : config.bundleKey = true)
    (checked : pdp.checkBundle sha256 policy config bundle clock = .ok ()) :
    pdp.issuedAt - maxClockSkew ≤ bundle.issuedAt := by
  simp only [PDP.checkBundle, keyed, if_true, ite_error_eq_ok, PDP.checkSigned] at checked
  obtain ⟨-, -, -, -, -, newer, -⟩ := checked
  exact not_lt.mp newer

/-- What a sync does to the mark. -/
theorem PDP.sync_mark (pdp : PDP) (answer : PollAnswer) (clock : SyncReadings)
    (keyed : config.bundleKey = true) :
    (pdp.sync sha256 policy config answer clock).2.issuedAt = pdp.issuedAt ∧
        pdp.marked sha256 policy config answer clock = [] ∨
      ∃ bundle, pdp.marked sha256 policy config answer clock = [⟨bundle, clock.mark⟩] ∧
        (pdp.sync sha256 policy config answer clock).2.issuedAt =
          max pdp.issuedAt (min bundle.issuedAt clock.mark) ∧
        pdp.issuedAt - maxClockSkew ≤ bundle.issuedAt := by
  rcases pdp.sync_keyed answer clock keyed with ⟨err, failed⟩ | ⟨bundle, loaded, rfl, checked⟩
  · refine .inl ⟨by rw [failed], ?_⟩
    cases answer <;> simp [PDP.marked, failed]
  · refine .inr ⟨bundle, by simp [PDP.marked, loaded], ?_, PDP.mark_of_checkBundle keyed checked⟩
    rw [loaded]
    rfl

/-- The mark bounds what was loaded from above and lies within the clock. -/
structure Guarded (s : MarkState) : Prop where
  dated : Clock.zeroInstant ≤ s.pdp.issuedAt
  within : s.pdp.issuedAt ≤ s.clock
  file : ∀ mark, s.file = some mark → Clock.zeroInstant < mark ∧ mark ≤ s.pdp.issuedAt
  covers : ∀ load ∈ s.loads, min load.bundle.issuedAt load.time ≤ s.pdp.issuedAt
  ordered : s.loads.Pairwise fun earlier later =>
    min earlier.bundle.issuedAt earlier.time - maxClockSkew ≤ later.bundle.issuedAt

theorem Guarded.start (start : MarkStart s) : Guarded s := by
  obtain ⟨now, dated⟩ := start
  exact ⟨le_rfl, dated, nofun, nofun, .nil⟩

theorem PDP.le_sync_mark (pdp : PDP) (answer : PollAnswer) (clock : SyncReadings)
    (keyed : config.bundleKey = true) :
    pdp.issuedAt ≤ (pdp.sync sha256 policy config answer clock).2.issuedAt := by
  rcases pdp.sync_mark answer clock keyed with ⟨same, -⟩ | ⟨bundle, -, marked, -⟩
  · exact same.ge
  · rw [marked]
    exact le_max_left _ _

/-- A new process has the mark of the last one. -/
theorem Guarded.restored (guarded : Guarded s) (pending : List Queued)
    (saved : s.pdp.issuedAt = Clock.zeroInstant ∨ s.file = some s.pdp.issuedAt) :
    ({ PDP.new with pending }.restoreMark s.file).issuedAt = s.pdp.issuedAt := by
  cases isFile : s.file with
  | none =>
    rcases saved with unmarked | saved
    · exact unmarked.symm
    · rw [isFile] at saved
      cases saved
  | some mark =>
    obtain ⟨positive, low⟩ := guarded.file mark isFile
    rcases saved with unmarked | saved
    · omega
    · rw [isFile, Option.some.injEq] at saved
      rw [PDP.restoreMark, if_neg positive.ne', saved]

theorem MarkStep.le (keyed : config.bundleKey = true) (guarded : Guarded s)
    (step : MarkStep sha256 policy config s s') : s.pdp.issuedAt ≤ s'.pdp.issuedAt := by
  cases step with
  | sync answer clock => exact s.pdp.le_sync_mark answer clock keyed
  | restart pending now later saved => exact (guarded.restored pending saved).ge

theorem Guarded.step (keyed : config.bundleKey = true) (guarded : Guarded s)
    (step : MarkStep sha256 policy config s s') : Guarded s' := by
  cases step with
  | sync answer clock saves later =>
    have rises := @PDP.le_sync_mark sha256 policy config s.pdp answer clock keyed
    have file : ∀ mark, saveIssuedAt config s.file s.pdp
          (s.pdp.sync sha256 policy config answer clock).2 saves = some mark →
        Clock.zeroInstant < mark ∧
          mark ≤ (s.pdp.sync sha256 policy config answer clock).2.issuedAt := by
      intro mark isMark
      unfold saveIssuedAt at isMark
      split at isMark
      · rename_i saved
        obtain rfl := Option.some.inj isMark
        exact ⟨guarded.dated.trans_lt saved.2.1, le_rfl⟩
      · obtain ⟨positive, low⟩ := guarded.file mark isMark
        exact ⟨positive, low.trans rises⟩
    have within := guarded.within
    have ahead := clock.ahead_le
    have mark := clock.mark_le
    have synced := clock.synced_le
    rcases @PDP.sync_mark sha256 policy config s.pdp answer clock keyed with
      ⟨same, none⟩ | ⟨bundle, loaded, marked, newer⟩
    · refine ⟨guarded.dated.trans rises, ?_, file, ?_, ?_⟩
      · simp only [same]
        omega
      · simpa [none, same] using guarded.covers
      · simpa [none] using guarded.ordered
    · refine ⟨guarded.dated.trans rises, ?_, file, ?_, ?_⟩
      · simp only [marked]
        omega
      · intro load member
        simp only [loaded, List.mem_append, List.mem_singleton] at member
        rcases member with earlier | rfl
        · exact (guarded.covers load earlier).trans rises
        · simp only [marked]
          exact le_max_right _ _
      · rw [loaded, List.pairwise_append]
        refine ⟨guarded.ordered, List.pairwise_singleton _ _, ?_⟩
        rintro earlier member later ⟨⟩
        · have covered := guarded.covers earlier member
          simp only
          omega
        · contradiction
  | restart pending now later saved =>
    have same := guarded.restored pending saved
    refine ⟨?_, ?_, ?_, ?_, guarded.ordered⟩
    · exact same ▸ guarded.dated
    · exact same ▸ guarded.within.trans later
    · exact same ▸ guarded.file
    · exact same ▸ guarded.covers

theorem Guarded.of_steps (keyed : config.bundleKey = true) (guarded : Guarded s)
    (steps : Relation.ReflTransGen (MarkStep sha256 policy config) s s') :
    Guarded s' ∧ s.pdp.issuedAt ≤ s'.pdp.issuedAt := by
  induction steps with
  | refl => exact ⟨guarded, le_rfl⟩
  | tail _ step ih => exact ⟨ih.1.step keyed step, ih.2.trans (step.le keyed ih.1)⟩

/-- A bundle that is loaded was issued at most the clock allowance before any earlier
one, or before that one was loaded.  The mark never falls and never passes the clock, so
a bundle issued now is not too old. -/
theorem replay_protected (keyed : config.bundleKey = true) {start s : MarkState}
    (starts : MarkStart start)
    (run : Relation.ReflTransGen (MarkStep sha256 policy config) start s) :
    (s.loads.Pairwise fun earlier later =>
      min earlier.bundle.issuedAt earlier.time - maxClockSkew ≤ later.bundle.issuedAt) ∧
    s.pdp.issuedAt ≤ s.clock ∧
    (∀ s', Relation.ReflTransGen (MarkStep sha256 policy config) s s' →
      s.pdp.issuedAt ≤ s'.pdp.issuedAt) ∧
    ∀ (bundle : Bundle) (clock : SyncReadings), s.clock ≤ bundle.issuedAt →
      bundle.issuedAt = clock.age →
      s.pdp.checkSigned sha256 policy config bundle clock ≠ .error .older ∧
      (s.pdp.checkSigned sha256 policy config bundle clock = .error .tooOld →
        config.maxAge < 0) := by
  have guarded := ((Guarded.start starts).of_steps keyed run).1
  refine ⟨guarded.ordered, guarded.within, fun s' later => (guarded.of_steps keyed later).2, ?_⟩
  intro bundle clock current isNow
  have newer : ¬ bundle.issuedAt < s.pdp.issuedAt - maxClockSkew := by
    have within := guarded.within
    have allowance : 0 ≤ maxClockSkew := by decide
    omega
  have young : Clock.sub clock.age bundle.issuedAt = 0 := by
    rw [isNow, Clock.sub, Int.sub_self]
    decide
  simp only [PDP.checkSigned, newer, young, if_false]
  constructor
  · repeat' split
    all_goals simp
  · repeat' split
    all_goals simp_all

theorem replay_protected_sample :
    ∃ s : MarkState, s.loads.length = 1 ∧ s.pdp.issuedAt ≤ s.clock ∧
      Relation.ReflTransGen (MarkStep Crypto.Sha256.sum samplePolicy sampleConfig)
        ⟨.new, none, 0, []⟩ s := by
  have run : Relation.ReflTransGen (MarkStep Crypto.Sha256.sum samplePolicy sampleConfig)
      ⟨.new, none, 0, []⟩ _ :=
    .single (.sync (.bundle sampleBundle) (.still Clock.minute) true (by decide))
  have protects := replay_protected (by decide) (.new 0 (by decide)) run
  exact ⟨_, by decide +kernel, protects.2.1, run⟩

end OmegaPlane.Agent
