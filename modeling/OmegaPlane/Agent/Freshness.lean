import OmegaPlane.Agent.Pdp
import OmegaPlane.Crypto.Sha256

/-!
# The age of the bundle behind a decision

A signed bundle is at most `maxAge` old when it is loaded, and a decision is
made at most `maxAge` after the load.  The two ages add up: whoever answers the
polls with an old bundle keeps the agent on it for twice the time.
-/

namespace OmegaPlane.Agent

open Decision

variable {sha256 : Bytes → Bytes} {policy : Policy} {config : Config}
  {marshal : LocalDecision → Option Bytes}

/-! ## One call -/

/-- With a signing key a sync fails and leaves everything as it was, or it loads a
bundle that passed the checks. -/
theorem PDP.sync_keyed (pdp : PDP) (answer : PollAnswer) (clock : SyncReadings)
    (keyed : config.bundleKey = true) :
    (∃ err, pdp.sync sha256 policy config answer clock = (.error err, pdp)) ∨
      ∃ bundle, pdp.sync sha256 policy config answer clock =
          (.ok (), (pdp.loadBundle bundle).stamp bundle clock.mark clock.synced) ∧
        answer = .bundle bundle ∧ pdp.checkBundle sha256 policy config bundle clock = .ok () := by
  cases answer with
  | unreachable | status | undecodable => exact .inl ⟨_, rfl⟩
  | notModified => simp [PDP.sync, keyed]
  | bundle bundle =>
  simp only [PDP.sync]
  cases checked : pdp.checkBundle sha256 policy config bundle clock with
  | error => exact .inl ⟨_, rfl⟩
  | ok =>
  dsimp only
  split
  · exact .inl ⟨_, rfl⟩
  · exact .inr ⟨bundle, rfl, rfl, checked⟩

/-- A call of `evaluate` changes neither the bundle nor when it was loaded. -/
theorem PDP.evaluate_bundle (pdp : PDP) (call : EvalCall) :
    (pdp.evaluate policy config marshal call).2.bundle = pdp.bundle ∧
      (pdp.evaluate policy config marshal call).2.synced = pdp.synced := by
  unfold PDP.evaluate PDP.reserve
  split
  · exact ⟨rfl, rfl⟩
  rename_i held reserved
  simp only [ite_error_eq_ok, Except.ok.injEq] at reserved
  obtain ⟨-, -, rfl⟩ := reserved
  split
  · exact ⟨rfl, rfl⟩
  · split <;> exact ⟨rfl, rfl⟩

variable {pdp : PDP}

/-- A decision is one of the bundle held, made within the maximum age of the
last sync. -/
theorem PDP.evaluate_eq_ok {call : EvalCall} {response : EvalResponse}
    (decided : (pdp.evaluate policy config marshal call).1 = .ok response) :
    policy.evaluate pdp.bundle call.request = .ok response ∧
      pdp.synced ≠ Clock.zeroInstant ∧ Clock.sub call.now pdp.synced ≤ config.maxAge := by
  unfold PDP.evaluate PDP.reserve at decided
  split at decided
  · contradiction
  rename_i held reserved
  simp only [ite_error_eq_ok, not_or, not_lt, Except.ok.injEq] at reserved
  obtain ⟨⟨synced, fresh⟩, -, rfl⟩ := reserved
  refine ⟨?_, synced, fresh⟩
  unfold EvalCall.decide at decided
  cases evaluated : policy.evaluate pdp.bundle call.request with
  | error => simp [evaluated] at decided
  | ok answer =>
  cases encoded : marshal (call.decision answer) with
  | none => simp [evaluated, encoded] at decided
  | some =>
  simp only [evaluated, encoded] at decided
  split at decided
  · contradiction
  · rw [Except.ok.inj decided]

/-! ## Runs -/

/-- A bundle that was loaded, with the clock when its age was checked and when
the load was stamped. -/
structure Load where
  bundle : Bundle
  checked : Int
  synced : Int

/-- What a sync loaded. -/
def PDP.loaded (sha256 : Bytes → Bytes) (policy : Policy) (config : Config) (pdp : PDP)
    (answer : PollAnswer) (clock : SyncReadings) : List Load :=
  match answer, (pdp.sync sha256 policy config answer clock).1 with
  | .bundle bundle, .ok () => [⟨bundle, clock.age, clock.synced⟩]
  | _, _ => []

theorem PDP.mem_loaded {answer : PollAnswer} {clock : SyncReadings} {load : Load}
    (member : load ∈ pdp.loaded sha256 policy config answer clock) :
    ∃ bundle, answer = .bundle bundle ∧ load = ⟨bundle, clock.age, clock.synced⟩ ∧
      (pdp.sync sha256 policy config answer clock).1 = .ok () := by
  unfold PDP.loaded at member
  split at member
  · rename_i bundle passed
    exact ⟨bundle, rfl, List.mem_singleton.mp member, passed⟩
  · simp at member

/-- A run of syncs and evaluations at nondecreasing times, with the loads made.
It starts with any queue and any high-water mark read from the disk. -/
inductive Run (sha256 : Bytes → Bytes) (policy : Policy) (config : Config)
    (marshal : LocalDecision → Option Bytes) : PDP → Int → List Load → Prop where
  | start {pdp : PDP} (now : Int) (unsynced : pdp.synced = Clock.zeroInstant) :
      Run sha256 policy config marshal pdp now []
  | sync {pdp : PDP} {last : Int} {loads : List Load}
      (run : Run sha256 policy config marshal pdp last loads)
      (answer : PollAnswer) (clock : SyncReadings) (later : last ≤ clock.age) :
      Run sha256 policy config marshal (pdp.sync sha256 policy config answer clock).2
        clock.synced (loads ++ pdp.loaded sha256 policy config answer clock)
  | evaluate {pdp : PDP} {last : Int} {loads : List Load}
      (run : Run sha256 policy config marshal pdp last loads)
      (call : EvalCall) (later : last ≤ call.now) :
      Run sha256 policy config marshal (pdp.evaluate policy config marshal call).2 call.now loads

/-- What the engine holds was loaded when the last sync was stamped. -/
def PDP.Backed (pdp : PDP) (loads : List Load) : Prop :=
  pdp.synced = Clock.zeroInstant ∨
    ∃ load ∈ loads, load.bundle = pdp.bundle ∧ load.synced = pdp.synced

theorem Run.backed (keyed : config.bundleKey = true) {last : Int} {loads : List Load}
    (run : Run sha256 policy config marshal pdp last loads) : pdp.Backed loads := by
  induction run with
  | start now unsynced => exact .inl unsynced
  | @sync pdp last loads run answer clock later ih =>
    rcases pdp.sync_keyed answer clock keyed with ⟨err, failed⟩ | ⟨bundle, loaded, rfl, -⟩
    · rw [failed]
      rcases ih with unsynced | ⟨load, member, held⟩
      · exact .inl unsynced
      · exact .inr ⟨load, List.mem_append_left _ member, held⟩
    · refine .inr ⟨⟨bundle, clock.age, clock.synced⟩, List.mem_append_right _ ?_, ?_⟩
      · simp [PDP.loaded, loaded]
      · rw [loaded]
        exact ⟨rfl, rfl⟩
  | @evaluate pdp last loads run call later ih =>
    obtain ⟨bundle, synced⟩ := @PDP.evaluate_bundle policy config marshal pdp call
    rw [PDP.Backed, bundle, synced]
    exact ih

/-- A bundle was at most the clock allowance old when its load was stamped. -/
def Load.Prompt (load : Load) : Prop :=
  load.synced ≤ load.bundle.issuedAt + maxClockSkew

/-- While every bundle is loaded promptly, a decision made at a time comes from
a bundle issued within the maximum age and the clock allowance before it. -/
theorem issuedAt_of_evaluate (keyed : config.bundleKey = true)
    (bounded : config.maxAge < Clock.maxDuration) {pdp : PDP} {last : Int} {loads : List Load}
    (run : Run sha256 policy config marshal pdp last loads)
    (prompt : ∀ load ∈ loads, load.Prompt) {call : EvalCall} {response : EvalResponse}
    (decided : (pdp.evaluate policy config marshal call).1 = .ok response) :
    policy.evaluate pdp.bundle call.request = .ok response ∧
      call.now - config.maxAge - maxClockSkew ≤ pdp.bundle.issuedAt := by
  obtain ⟨evaluated, synced, fresh⟩ := PDP.evaluate_eq_ok decided
  obtain ⟨load, member, held, stamped⟩ := (run.backed keyed).resolve_left synced
  refine ⟨evaluated, ?_⟩
  have loaded := prompt load member
  rw [Load.Prompt, held, stamped] at loaded
  simp only [Clock.sub] at fresh
  omega

/-! An agent with a maximum age of two minutes and a policy that allows
everything. -/

def sampleConfig : Config :=
  .new 0 (2 * Clock.minute) 0 (ascii "omega.local") true false

def samplePolicy : Policy where
  verifies _ := true
  loads _ := true
  evaluate _ _ := .ok { decision := true, context := none, reasons := [] }

/-- A bundle issued at the epoch. -/
def sampleBundle : Bundle where
  revision := Hex.encodeToString (Crypto.Sha256.sum [])
  trustDomain := ascii "omega.local"
  issuedAt := 0
  signature := ascii "signature"
  content := []

/-- The clock stands still during a sync. -/
def SyncReadings.still (now : Int) : SyncReadings :=
  ⟨now, now, now, now, le_rfl, le_rfl, le_rfl⟩

def sampleCall (now : Int) : EvalCall where
  request :=
    { subject := { type := ascii "User", id := ascii "alice" }
      actionName := ascii "read"
      resource := { type := ascii "Doc", id := ascii "plan" } }
  requestID := []
  requestIDSHA256 := []
  now := now
  decidedAt := now
  random := [1]
  spools := true

/-- The agent after a poll at a time was answered with the bundle. -/
def sampleSynced (now : Int) : PDP :=
  (PDP.new.sync Crypto.Sha256.sum samplePolicy sampleConfig (.bundle sampleBundle) (.still now)).2

theorem sampleSynced_run (now : Int) :
    Run Crypto.Sha256.sum samplePolicy sampleConfig (fun _ => some []) (sampleSynced now) now
      (PDP.new.loaded Crypto.Sha256.sum samplePolicy sampleConfig (.bundle sampleBundle)
        (.still now)) :=
  .sync (.start now rfl) _ _ le_rfl

theorem issuedAt_of_evaluate_sample :
    ∃ response, samplePolicy.evaluate (sampleSynced Clock.minute).bundle
        (sampleCall Clock.minute).request = .ok response ∧
      Clock.minute - sampleConfig.maxAge - maxClockSkew ≤
        (sampleSynced Clock.minute).bundle.issuedAt := by
  have succeeded : ((sampleSynced Clock.minute).evaluate samplePolicy sampleConfig
      (fun _ => some []) (sampleCall Clock.minute)).1.isOk = true := by decide +kernel
  obtain ⟨response, decided⟩ := exists_eq_ok_of_isOk succeeded
  refine ⟨response, issuedAt_of_evaluate rfl (by decide) (sampleSynced_run Clock.minute) ?_ decided⟩
  intro load member
  obtain ⟨bundle, same, rfl, -⟩ := PDP.mem_loaded member
  cases same
  rw [Load.Prompt]
  decide

/-- A bundle is loaded when it is two minutes old, and two minutes later the
agent still decides from it. -/
theorem old_bundle_decides :
    ∃ loads, Run Crypto.Sha256.sum samplePolicy sampleConfig (fun _ => some [])
        (sampleSynced (2 * Clock.minute)) (2 * Clock.minute) loads ∧
      ((sampleSynced (2 * Clock.minute)).evaluate samplePolicy sampleConfig (fun _ => some [])
          (sampleCall (4 * Clock.minute))).1.isOk = true ∧
      (sampleSynced (2 * Clock.minute)).bundle.issuedAt <
        4 * Clock.minute - sampleConfig.maxAge - maxClockSkew :=
  ⟨_, sampleSynced_run _, by decide +kernel, by decide +kernel⟩

end OmegaPlane.Agent
