import Mathlib.Algebra.BigOperators.Group.List.Basic
import OmegaPlane.Data.Bytes
import OmegaPlane.Data.Clock
import OmegaPlane.Data.Table

/-!
# Refusals of user tokens

A proxy whose user token is refused leaves an audit row, but at most one in a
window for every caller, kind of refusal and route: the limiter counts the
others, and the next row carries the count.  The limiter is locked for each of
its operations, and not while a row is written.
-/

namespace OmegaPlane.Tokens

/-! ## The limiter -/

/-- When the next row of a key may be written, and the refusals since the last one. -/
structure RefusalState where
  caller : Bytes
  opens : Int
  suppressed : Nat

structure RefusalLimiter where
  window : Int
  callers : Table RefusalState.caller
  max : Nat
  pruned : Int

namespace RefusalLimiter

variable (l : RefusalLimiter)

/-- At most once a window, a full table drops the callers whose window is over. -/
def sweep (now : Int) : RefusalLimiter :=
  if l.window ≤ Clock.sub now l.pruned then
    { l with pruned := now, callers := l.callers.filter fun st => now < st.opens }
  else l

def pass (caller : Bytes) (now : Int) : RefusalLimiter :=
  { l with callers := l.callers.put ⟨caller, now + l.window, 0⟩ }

/-- Count a refusal, or let it through with the count so far. -/
def allow (caller : Bytes) (now : Int) : RefusalLimiter × Option Nat :=
  match l.callers.lookup caller with
  | some st =>
    if now < st.opens then
      ({ l with callers := l.callers.put ⟨caller, st.opens, st.suppressed + 1⟩ }, none)
    else (l.pass caller now, some st.suppressed)
  | none =>
    if l.callers.rows.length < l.max then (l.pass caller now, some 0)
    else if (l.sweep now).callers.rows.length < l.max then ((l.sweep now).pass caller now, some 0)
    else (l.sweep now, some 0)

/-- Keep the refusals of a row that could not be written. -/
def unrecorded (caller : Bytes) (n : Nat) (retry : Bool) : RefusalLimiter :=
  match l.callers.lookup caller with
  | none => l
  | some st =>
    let opens := if retry then Clock.zeroInstant else st.opens
    { l with callers := l.callers.put ⟨caller, opens, st.suppressed + n⟩ }

end RefusalLimiter

/-! ## Interleaved refusals -/

/-- The limiter, the rows being written and those that are, each with its key and
its count, the keys of all refusals, and the times rows were let through, latest
first, with the failures that opened a window again. -/
structure RefusalLog where
  limiter : RefusalLimiter
  writing : List (Bytes × Nat) := []
  rows : List (Bytes × Nat) := []
  refused : List Bytes := []
  admitted : List (Bytes × Option Int) := []

/-- A refusal passes the limiter; the audit log takes one of the rows being
written, or fails. -/
inductive RefusalEvent where
  | refuse (caller : Bytes) (now : Int)
  | recorded (index : Nat)
  | failed (index : Nat) (notLeader : Bool)

def RefusalLog.step (log : RefusalLog) : RefusalEvent → RefusalLog
  | .refuse caller now =>
    let (limiter, allowed) := log.limiter.allow caller now
    let log := { log with limiter, refused := caller :: log.refused }
    match allowed with
    | none => log
    | some n =>
      { log with
        writing := (caller, n) :: log.writing
        admitted := (caller, some now) :: log.admitted }
  | .recorded index =>
    match log.writing[index]? with
    | none => log
    | some row => { log with writing := log.writing.eraseIdx index, rows := row :: log.rows }
  | .failed index notLeader =>
    match log.writing[index]? with
    | none => log
    | some (caller, n) =>
      { log with
        writing := log.writing.eraseIdx index
        limiter := log.limiter.unrecorded caller (n + 1) (!notLeader)
        admitted := if notLeader then log.admitted else (caller, none) :: log.admitted }

def RefusalLog.run (log : RefusalLog) (events : List RefusalEvent) : RefusalLog :=
  events.foldl step log

/-- The refusals of a key that rows stand for. -/
def counted (caller : Bytes) (rows : List (Bytes × Nat)) : Nat :=
  (rows.map fun row => if row.1 = caller then 1 + row.2 else 0).sum

/-- The refusals of a key the limiter holds. -/
def RefusalLimiter.held (l : RefusalLimiter) (caller : Bytes) : Nat :=
  ((l.callers.lookup caller).map RefusalState.suppressed).getD 0

/-- The last row of a key that was let through, unless its window was opened again. -/
def lastAdmitted (caller : Bytes) (admitted : List (Bytes × Option Int)) : Option Int :=
  (admitted.find? fun mark => mark.1 = caller).bind Prod.snd

/-- Rows of one key are let through a window apart, unless it was opened again. -/
def Apart (window : Int) : List (Bytes × Option Int) → Prop
  | [] => True
  | (caller, time) :: earlier =>
    (∀ now ∈ time, ∀ last ∈ lastAdmitted caller earlier, last + window ≤ now) ∧
      Apart window earlier

structure RefusalLog.Exact (window : Int) (log : RefusalLog) : Prop where
  window_eq : log.limiter.window = window
  count : ∀ caller, log.refused.count caller =
    counted caller log.rows + log.limiter.held caller + counted caller log.writing
  tracked : ∀ row ∈ log.writing, (log.limiter.callers.lookup row.1).isSome
  opens : ∀ caller, ∀ last ∈ lastAdmitted caller log.admitted,
    ∃ st, log.limiter.callers.lookup caller = some st ∧ st.opens = last + window
  apart : Apart window log.admitted

variable {window : Int} {log : RefusalLog}

theorem held_put {l : RefusalLimiter} (st : RefusalState) (caller : Bytes) :
    ({ l with callers := l.callers.put st } : RefusalLimiter).held caller =
      if st.caller = caller then st.suppressed else l.held caller := by
  rw [RefusalLimiter.held, Table.lookup_put]
  split <;> rfl

theorem RefusalLog.Exact.opens_eq (exactly : log.Exact window) {caller : Bytes} {st : RefusalState}
    (found : log.limiter.callers.lookup caller = some st) :
    ∀ last ∈ lastAdmitted caller log.admitted, st.opens = last + window := by
  intro last isLast
  obtain ⟨st', tracked, opens⟩ := exactly.opens caller last isLast
  obtain rfl := Option.some.inj (found.symm.trans tracked)
  exact opens

/-- The state of a key is replaced, and what it held is held or being written. -/
theorem RefusalLog.Exact.put (exactly : log.Exact window) {caller : Bytes} {opens : Int} {n : Nat}
    {refused : List Bytes} {writing : List (Bytes × Nat)} {admitted : List (Bytes × Option Int)}
    (count : ∀ other, refused.count other + counted other log.writing + log.limiter.held other =
      log.refused.count other + counted other writing +
        if caller = other then n else log.limiter.held other)
    (tracked : ∀ row ∈ writing, row.1 = caller ∨ row ∈ log.writing)
    (own : ∀ last ∈ lastAdmitted caller admitted, opens = last + window)
    (others : ∀ other, caller ≠ other →
      lastAdmitted other admitted = lastAdmitted other log.admitted)
    (apart : Apart window admitted) :
    ({ log with
      limiter := { log.limiter with callers := log.limiter.callers.put ⟨caller, opens, n⟩ }
      refused, writing, admitted } : RefusalLog).Exact window where
  window_eq := exactly.window_eq
  count other := by
    have before := exactly.count other
    have moved := count other
    rw [held_put]
    dsimp only
    omega
  tracked row member := by
    rw [Table.lookup_put]
    split
    · rfl
    · rename_i differs
      exact exactly.tracked row ((tracked row member).resolve_left fun same => differs same.symm)
  opens other last isLast := by
    rw [Table.lookup_put]
    by_cases same : caller = other
    · subst same
      exact ⟨_, if_pos rfl, own last isLast⟩
    · rw [if_neg same]
      exact exactly.opens other last (others other same ▸ isLast)
  apart := apart

/-- The row of a refusal is let through. -/
theorem RefusalLog.Exact.pass (exactly : log.Exact window) {caller : Bytes} {now : Int}
    (later : ∀ last ∈ lastAdmitted caller log.admitted, last + window ≤ now) :
    ({ log with
      limiter := log.limiter.pass caller now
      refused := caller :: log.refused
      writing := (caller, log.limiter.held caller) :: log.writing
      admitted := (caller, some now) :: log.admitted } : RefusalLog).Exact window := by
  refine exactly.put (fun other => ?_) (fun row member => ?_) ?_ (fun other differs => ?_)
    ⟨fun time isTime last found => ?_, exactly.apart⟩
  · by_cases same : caller = other
    · subst same
      simp [counted]
      omega
    · simp [counted, same]
  · exact (List.mem_cons.mp member).imp_left (congrArg Prod.fst)
  · simp [lastAdmitted, exactly.window_eq]
  · simp [lastAdmitted, differs]
  · exact Option.some.inj isTime ▸ later last found

theorem RefusalLog.Exact.refuse (exactly : log.Exact window)
    (room : log.limiter.callers.rows.length < log.limiter.max) (caller : Bytes) (now : Int) :
    (log.step (.refuse caller now)).Exact window := by
  simp only [step, RefusalLimiter.allow]
  cases found : log.limiter.callers.lookup caller with
  | none =>
    have held : log.limiter.held caller = 0 := by simp [RefusalLimiter.held, found]
    simp only [room, if_true]
    rw [← held]
    refine exactly.pass fun last member => ?_
    obtain ⟨st, tracked, -⟩ := exactly.opens caller last member
    rw [found] at tracked
    cases tracked
  | some st =>
    have held : log.limiter.held caller = st.suppressed := by simp [RefusalLimiter.held, found]
    by_cases early : now < st.opens
    · simp only [early, if_true]
      refine exactly.put (fun other => ?_) (fun _ => .inr) (exactly.opens_eq found)
        (fun _ _ => rfl) exactly.apart
      rw [List.count_cons]
      by_cases same : caller = other
      · subst same
        simp [held]
        omega
      · simp [same]
    · simp only [early, if_false]
      rw [← held]
      refine exactly.pass fun last member => ?_
      have := exactly.opens_eq found last member
      omega

theorem counted_eraseIdx {writing : List (Bytes × Nat)} {index : Nat} {row : Bytes × Nat}
    (found : writing[index]? = some row) (caller : Bytes) :
    counted caller writing =
      (if row.1 = caller then 1 + row.2 else 0) + counted caller (writing.eraseIdx index) := by
  obtain ⟨bound, rfl⟩ := List.getElem?_eq_some_iff.mp found
  have whole := (List.getElem_cons_eraseIdx_perm bound).map fun row : Bytes × Nat =>
    if row.1 = caller then 1 + row.2 else 0
  rw [counted, ← whole.sum_eq]
  rfl

theorem RefusalLog.Exact.step (exactly : log.Exact window)
    (room : log.limiter.callers.rows.length < log.limiter.max) (event : RefusalEvent) :
    (log.step event).Exact window := by
  cases event with
  | refuse caller now => exact exactly.refuse room caller now
  | recorded index =>
    simp only [RefusalLog.step]
    cases found : log.writing[index]? with
    | none => exact exactly
    | some row =>
      refine ⟨exactly.window_eq, fun caller => ?_, fun other member =>
        exactly.tracked other (List.mem_of_mem_eraseIdx member), exactly.opens, exactly.apart⟩
      have before := exactly.count caller
      rw [counted_eraseIdx found] at before
      simp only [counted, List.map_cons, List.sum_cons] at before ⊢
      omega
  | failed index notLeader =>
    simp only [RefusalLog.step]
    cases found : log.writing[index]? with
    | none => exact exactly
    | some row =>
      obtain ⟨caller, n⟩ := row
      obtain ⟨st, tracked⟩ := Option.isSome_iff_exists.mp
        (exactly.tracked _ (List.mem_of_getElem? found))
      have held : log.limiter.held caller = st.suppressed := by
        simp [RefusalLimiter.held, tracked]
      simp only [RefusalLimiter.unrecorded, tracked]
      refine exactly.put (fun other => ?_)
        (fun row member => .inr (List.mem_of_mem_eraseIdx member)) ?_ (fun other differs => ?_) ?_
      · rw [counted_eraseIdx found]
        by_cases same : caller = other
        · subst same
          simp only [if_true, held]
          omega
        · simp [same]
      · cases notLeader with
        | true => exact exactly.opens_eq tracked
        | false => simp [lastAdmitted]
      · cases notLeader <;> simp [lastAdmitted, differs]
      · cases notLeader with
        | true => exact exactly.apart
        | false => exact ⟨by simp, exactly.apart⟩

/-- The table of the limiter is not full at any time. -/
def RefusalLog.Roomy (log : RefusalLog) : List RefusalEvent → Prop
  | [] => True
  | event :: events =>
    log.limiter.callers.rows.length < log.limiter.max ∧ (log.step event).Roomy events

theorem RefusalLog.Exact.run (exactly : log.Exact window) {events : List RefusalEvent}
    (roomy : log.Roomy events) : (log.run events).Exact window := by
  induction events generalizing log with
  | nil => exact exactly
  | cons event events ih => exact ih (exactly.step roomy.1 event) roomy.2

end OmegaPlane.Tokens
