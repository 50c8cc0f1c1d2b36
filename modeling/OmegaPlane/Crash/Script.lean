import Mathlib.Data.List.Basic
import Mathlib.Order.Basic

/-!
# Procedures that a crash may cut off

A script is a procedure over a durable state: it looks at the state, reads the
clock and applies operations, one after the other.  It runs against a list of
instants, one for every clock reading and every operation, and it is cut off
where the list ends.  So the executions of a script over all lists are its
complete executions and its executions up to a crash at any point; an operation
that fails ends it in the same way.
-/

namespace OmegaPlane.Crash

variable {σ ο ε : Type}

/-- A procedure over a state `σ` with operations `ο`, which may refuse. -/
inductive Script (σ ο ε : Type) where
  | done
  | refused (err : ε)
  | perform (operation : ο) (next : Script σ ο ε)
  | clock (next : Int → Script σ ο ε)
  | look (next : σ → Script σ ο ε)

/-- An operation that took effect. -/
structure Moment (σ ο : Type) where
  time : Int
  operation : ο
  before : σ
  after : σ

/-- The state some moments lead to. -/
def final (state : σ) : List (Moment σ ο) → σ
  | [] => state
  | moment :: later => final moment.after later

theorem final_append (state : σ) (earlier later : List (Moment σ ο)) :
    final state (earlier ++ later) = final (final state earlier) later := by
  induction earlier generalizing state with
  | nil => rfl
  | cons moment earlier ih => exact ih moment.after

section Execution

variable (apply : Int → ο → σ → σ)

/-- What a script does until it ends or is cut off. -/
def Script.exec : Script σ ο ε → σ → List Int → List (Moment σ ο)
  | .perform operation next, state, time :: ticks =>
    ⟨time, operation, state, apply time operation state⟩ ::
      next.exec (apply time operation state) ticks
  | .clock next, state, time :: ticks => (next time).exec state ticks
  | .look next, state, ticks => (next state).exec state ticks
  | _, _, _ => []

/-- Whether a script comes to an end before it is cut off. -/
def Script.ends : Script σ ο ε → σ → List Int → Bool
  | .perform operation next, state, time :: ticks =>
    next.ends (apply time operation state) ticks
  | .clock next, state, time :: ticks => (next time).ends state ticks
  | .look next, state, ticks => (next state).ends state ticks
  | .done, _, _ => true
  | .refused _, _, _ => true
  | _, _, [] => false

/-- Scripts one after the other, each with the instants it lives for. -/
def execAll : σ → List (Script σ ο ε × List Int) → List (Moment σ ο)
  | _, [] => []
  | state, (script, ticks) :: calls =>
    let moments := script.exec apply state ticks
    moments ++ execAll (final state moments) calls

/-- Every operation the script may perform, from this instant and this state on,
has a property.  The order says which instants may follow which. -/
def Script.Safe (order : Int → Int → Prop) (property : Moment σ ο → Prop) :
    Script σ ο ε → Int → σ → Prop
  | .perform operation next, now, state => ∀ time, order now time →
      property ⟨time, operation, state, apply time operation state⟩ ∧
        next.Safe order property time (apply time operation state)
  | .clock next, now, state => ∀ time, order now time → (next time).Safe order property time state
  | .look next, now, state => (next state).Safe order property now state
  | _, _, _ => True

variable {apply}

/-- Moments that follow from one another, from a state on. -/
def Chained (apply : Int → ο → σ → σ) : σ → List (Moment σ ο) → Prop
  | _, [] => True
  | state, moment :: later =>
    moment.before = state ∧ moment.after = apply moment.time moment.operation state ∧
      Chained apply moment.after later

variable {state : σ} {earlier later : List (Moment σ ο)} {order : Int → Int → Prop}
  {property : Moment σ ο → Prop} {now : Int}

theorem Chained.append (first : Chained apply state earlier)
    (second : Chained apply (final state earlier) later) :
    Chained apply state (earlier ++ later) := by
  induction earlier generalizing state with
  | nil => exact second
  | cons moment earlier ih => exact ⟨first.1, first.2.1, ih first.2.2 second⟩

/-- A chain of moments can be cut anywhere. -/
theorem Chained.cut (chained : Chained apply state (earlier ++ later)) :
    Chained apply state earlier ∧ Chained apply (final state earlier) later := by
  induction earlier generalizing state with
  | nil => exact ⟨trivial, chained⟩
  | cons moment earlier ih =>
    obtain ⟨before, after, rest⟩ := chained
    exact ⟨⟨before, after, (ih rest).1⟩, (ih rest).2⟩

theorem Script.exec_chained (script : Script σ ο ε) (state : σ) (ticks : List Int) :
    Chained apply state (script.exec apply state ticks) := by
  induction script generalizing state ticks with
  | done | refused _ => trivial
  | perform operation next ih =>
    cases ticks with
    | nil => trivial
    | cons time ticks => exact ⟨rfl, rfl, ih _ ticks⟩
  | clock next ih =>
    cases ticks with
    | nil => trivial
    | cons time ticks => exact ih time state ticks
  | look next ih => exact ih state state ticks

theorem execAll_chained (state : σ) (calls : List (Script σ ο ε × List Int)) :
    Chained apply state (execAll apply state calls) := by
  induction calls generalizing state with
  | nil => trivial
  | cons call calls ih => exact (call.1.exec_chained state call.2).append (ih _)

/-- The operations of a script happen at instants it was given, in their order. -/
theorem Script.exec_times (script : Script σ ο ε) (state : σ) (ticks : List Int) :
    List.Sublist ((script.exec apply state ticks).map Moment.time) ticks := by
  induction script generalizing state ticks with
  | done | refused _ => exact List.nil_sublist _
  | perform operation next ih =>
    cases ticks with
    | nil => exact List.nil_sublist _
    | cons time ticks => exact (ih _ ticks).cons_cons time
  | clock next ih =>
    cases ticks with
    | nil => exact List.nil_sublist _
    | cons time ticks => exact (ih time state ticks).cons time
  | look next ih => exact ih state state ticks

theorem execAll_times (state : σ) (calls : List (Script σ ο ε × List Int)) :
    List.Sublist ((execAll apply state calls).map Moment.time) (calls.flatMap Prod.snd) := by
  induction calls generalizing state with
  | nil => exact List.nil_sublist _
  | cons call calls ih =>
    rw [execAll, List.map_append, List.flatMap_cons]
    exact (call.1.exec_times state call.2).append (ih _)

/-- A safe script performs only operations with the property. -/
theorem Script.Safe.of_mem_exec {script : Script σ ο ε} {ticks : List Int}
    (safe : script.Safe apply order property now state) (rising : (now :: ticks).Pairwise order) :
    ∀ moment ∈ script.exec apply state ticks, property moment := by
  induction script generalizing now state ticks with
  | done | refused _ => exact fun _ member => absurd member List.not_mem_nil
  | perform operation next ih =>
    cases ticks with
    | nil => exact fun _ member => absurd member List.not_mem_nil
    | cons time =>
    obtain ⟨later, rest⟩ := List.pairwise_cons.mp rising
    obtain ⟨here, after⟩ := safe time (later time List.mem_cons_self)
    intro moment member
    rcases List.mem_cons.mp member with rfl | member
    · exact here
    · exact ih after rest moment member
  | clock next ih =>
    cases ticks with
    | nil => exact fun _ member => absurd member List.not_mem_nil
    | cons time =>
      obtain ⟨later, rest⟩ := List.pairwise_cons.mp rising
      exact ih time (safe time (later time List.mem_cons_self)) rest
  | look next ih => exact ih state safe rising

/-- If the property of an operation carries an invariant, the invariant holds at
the end, as of the last operation. -/
theorem invariant_final {invariant : Int → σ → Prop}
    (carries : ∀ moment, property moment → invariant moment.time moment.after)
    {now : Int} {state : σ} {moments : List (Moment σ ο)} (start : invariant now state)
    (each : ∀ moment ∈ moments, property moment) :
    ∃ last ∈ now :: moments.map Moment.time, invariant last (final state moments) := by
  induction moments generalizing now state with
  | nil => exact ⟨now, List.mem_cons_self, start⟩
  | cons moment later ih =>
    obtain ⟨last, member, holds⟩ := ih (carries moment (each moment List.mem_cons_self))
      fun other member => each other (List.mem_cons_of_mem _ member)
    exact ⟨last, List.mem_cons_of_mem _ member, holds⟩

/-- If every script is safe wherever the invariant holds, every operation of a
run has the property. -/
theorem execAll_safe {invariant : Int → σ → Prop}
    (carries : ∀ moment, property moment → invariant moment.time moment.after)
    {calls : List (Script σ ο ε × List Int)}
    (safe : ∀ call ∈ calls, ∀ now state, invariant now state →
      call.1.Safe apply order property now state)
    (rising : (now :: calls.flatMap Prod.snd).Pairwise order) (start : invariant now state) :
    ∀ moment ∈ execAll apply state calls, property moment := by
  induction calls generalizing now state with
  | nil => exact fun _ member => absurd member List.not_mem_nil
  | cons call calls ih =>
  obtain ⟨script, ticks⟩ := call
  rw [List.flatMap_cons, ← List.cons_append] at rising
  obtain ⟨here, rest, across⟩ := List.pairwise_append.mp rising
  have first := (safe _ List.mem_cons_self now state start).of_mem_exec here
  obtain ⟨last, member, holds⟩ := invariant_final carries start first
  have lived : last ∈ now :: ticks :=
    ((script.exec_times state ticks).cons_cons now).subset member
  have onward : (last :: calls.flatMap Prod.snd).Pairwise order :=
    List.pairwise_cons.mpr ⟨fun time later => across last lived time later, rest⟩
  intro moment occurs
  rcases List.mem_append.mp occurs with occurs | occurs
  · exact first moment occurs
  · exact ih (fun call member => safe call (List.mem_cons_of_mem _ member)) onward holds
      moment occurs

end Execution

end OmegaPlane.Crash
