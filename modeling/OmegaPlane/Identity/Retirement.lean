import Mathlib.Data.List.Dedup
import OmegaPlane.Identity.Rotation

/-!
# Crashes and the retirement of a CA

From a directory with one CA, commands run in any order, each cut off anywhere.
The directory can be read after every file operation, and a CA that was active
is trusted until the file of the previous CA is removed while it names it.

The wait before that removal counts from the recorded time.  An activation
records it before the old key leaves, and one that is resumed does not record it
again; and the previous CA may be retired while it is still the active one.  So
the wait covers everything the CA signed where the key leaves at the recorded
time and the active CA is not retired.
-/

namespace OmegaPlane.Identity.Rotation

open Workload Crash

variable (publicKey : Certificate → Option Bytes)

/-- The CA that signs. -/
def signing (dir : Directory) : Option Certificate :=
  match readDiskState publicKey dir with
  | .ok st => some st.cert
  | .error _ => none

/-- The CA that was replaced. -/
def previous (dir : Directory) : Option Certificate :=
  (readCert dir .caPrevCrt).toOption

/-- The operation removes this CA as the previous one. -/
def Retires (moment : Moment Directory Operation) (cert : Certificate) : Prop :=
  moment.operation = .remove .caPrevCrt ∧ previous moment.before = some cert

instance (moment : Moment Directory Operation) (cert : Certificate) :
    Decidable (Retires moment cert) :=
  inferInstanceAs (Decidable (_ ∧ _))

variable {publicKey}

theorem cert_newCAState (active : Certificate) (extra : List (Option Certificate)) :
    (newCAState active extra).cert = active := by
  suffices kept : ∀ st : CAState, (extra.foldl CAState.add st).cert = st.cert from kept _
  intro st
  induction extra generalizing st with
  | nil => rfl
  | cons other extra ih =>
    rw [List.foldl_cons, ih]
    cases other <;> rfl

theorem trusted_newCAState (active : Certificate) (extra : List (Option Certificate)) :
    (newCAState active extra).trusted = active :: extra.filterMap id :=
  (@foldl_add ⟨active, [active], Pem.encodeToMemory (certificateBlock active)⟩ extra (by simp)).1

variable {dir : Directory} {view view' : View} {cert : Certificate} {timed : Prop}
  {moments : List (Moment Directory Operation)}

theorem Stands.signing_eq (stands : Stands publicKey dir view) :
    signing publicKey dir = some view.active := by
  obtain ⟨-, extra, -, reads, -⟩ := stands.readDiskState
  rw [signing, reads]
  exact congrArg some (cert_newCAState _ _)

theorem Stands.previous_eq (stands : Stands publicKey dir view) : previous dir = view.prev := by
  cases kept : view.prev with
  | some => rw [previous, readCert_of_readExtra (kept ▸ stands.prev), Except.toOption]
  | none =>
    have absent := isNone_of_readExtra (kept ▸ stands.prev)
    simp [previous, readCert, absent, Except.toOption]

/-- A directory stands for one view. -/
theorem Stands.unique (stands : Stands publicKey dir view) (stands' : Stands publicKey dir view') :
    view = view' := by
  have active := stands.signing_eq.symm.trans stands'.signing_eq
  have prev := stands.previous_eq.symm.trans stands'.previous_eq
  have since := stands.since.symm.trans stands'.since
  cases view
  cases view'
  simp only [Option.some.injEq, Except.ok.injEq] at active prev since
  rw [active, prev, since]

theorem history_chained (start : Directory) (calls : List (Call × List Int)) :
    Chained Operation.apply start (history publicKey start calls) :=
  execAll_chained _ _

/-! ## The trusted CAs -/

/-- The CA is the active one or the previous one. -/
def View.Keeps (view : View) (cert : Certificate) : Prop :=
  view.active = cert ∨ view.prev = some cert

theorem View.Step.keeps {time : Int} {operation : Operation}
    (step : View.Step timed time operation view view') (kept : view.Keeps cert)
    (stays : ¬ (operation = .remove .caPrevCrt ∧ view.prev = some cert)) : view'.Keeps cert := by
  cases step with
  | stay | record | forget => exact kept
  | keep _ absent =>
    rcases kept with active | prev
    · exact .inl active
    · rw [absent] at prev
      cases prev
  | move next places saved =>
    rcases kept with active | prev
    · exact .inr (active ▸ saved)
    · exact .inr prev
  | retire =>
    rcases kept with active | prev
    · exact .inl active
    · exact absurd ⟨rfl, prev⟩ stays

theorem keeps_final (chained : Chained Operation.apply dir moments)
    (follows : ∀ moment ∈ moments, Follows publicKey timed moment)
    (stands : Stands publicKey dir view) (kept : view.Keeps cert)
    (stays : ∀ moment ∈ moments, ¬ Retires moment cert) :
    ∃ view', Stands publicKey (final dir moments) view' ∧ view'.Keeps cert := by
  induction moments generalizing dir view with
  | nil => exact ⟨view, stands, kept⟩
  | cons moment later ih =>
  obtain ⟨before, -, rest⟩ := chained
  obtain ⟨from', view', standsBefore, standsAfter, step, -⟩ := follows moment List.mem_cons_self
  obtain rfl : view = from' := stands.unique (before ▸ standsBefore)
  refine ih rest (fun other member => follows other (List.mem_cons_of_mem _ member)) standsAfter
    (step.keeps kept fun removed => ?_)
    fun other member => stays other (List.mem_cons_of_mem _ member)
  exact stays moment List.mem_cons_self ⟨removed.1, standsBefore.previous_eq.trans removed.2⟩

/-- Rotation is crash safe.  After any commands, each cut off anywhere, the
directory is read and its active certificate belongs to its key; at most three
CAs are trusted; and every CA that has been active is, until its file as the
previous CA is removed. -/
theorem rotation_crash_safe {start : Directory} {cert : Certificate}
    (one : HoldsOne publicKey start cert) (calls : List (Call × List Int)) :
    ∃ key st, readKey (final start (history publicKey start calls)) .caKey = .ok key ∧
      readDiskState publicKey (final start (history publicKey start calls)) = .ok st ∧
      keyMatches publicKey key st.cert = true ∧ st.trusted.dedup.length ≤ 3 ∧
      ∀ earlier later active, history publicKey start calls = earlier ++ later →
        signing publicKey (final start earlier) = some active →
        (∀ moment ∈ later, ¬ Retires moment active) → active ∈ st.trusted := by
  have follows : ∀ moment ∈ history publicKey start calls, Follows publicKey False moment :=
    @history_follows publicKey False start cert 0 calls one nofun nofun
  have standing : ∀ moments, (∀ moment ∈ moments, Follows publicKey False moment) →
      ∃ view, Stands publicKey (final start moments) view := by
    intro moments each
    have carries : ∀ moment, Follows publicKey False moment →
        ∃ view, Stands publicKey moment.after view := fun _ ⟨_, view', _, stands, _⟩ =>
      ⟨view', stands⟩
    obtain ⟨-, -, stands⟩ := @invariant_final _ _ _
      (fun _ dir => ∃ view, Stands publicKey dir view) carries 0 _ _ ⟨_, one.stands⟩ each
    exact stands
  obtain ⟨view, stands⟩ := standing _ follows
  obtain ⟨key, extra, readsKey, reads, fits, short, member⟩ := stands.readDiskState
  refine ⟨key, newCAState view.active extra, readsKey, reads, ?_, ?_, ?_⟩
  · rwa [cert_newCAState]
  · rw [trusted_newCAState]
    calc ((view.active :: extra.filterMap id).dedup).length
        ≤ (view.active :: extra.filterMap id).length := (List.dedup_sublist _).length_le
      _ ≤ extra.length + 1 := Nat.succ_le_succ (List.length_filterMap_le _ _)
      _ ≤ 3 := Nat.succ_le_succ short
  · intro earlier later active split signs stays
    obtain ⟨view₁, stands₁⟩ := standing earlier fun moment member =>
      follows moment (split ▸ List.mem_append_left _ member)
    have kept : view₁.Keeps active := by
      have same := stands₁.signing_eq.symm.trans signs
      exact .inl (Option.some.inj same)
    have cut := (split ▸ history_chained start calls : Chained _ start (earlier ++ later)).cut.2
    obtain ⟨view₂, stands₂, kept₂⟩ := keeps_final cut
      (fun moment member => follows moment (split ▸ List.mem_append_right _ member)) stands₁ kept
      stays
    rw [← final_append, ← split] at stands₂
    obtain rfl := stands.unique stands₂
    rw [trusted_newCAState]
    rcases kept₂ with rfl | prev
    · exact List.mem_cons_self
    · exact List.mem_cons_of_mem _ (List.mem_filterMap.mpr ⟨view.prev, member, prev⟩)

/-- Every certificate has a key of its own. -/
def ownKey (cert : Certificate) : Option Bytes := some cert.raw

/-- A directory with one CA. -/
def oneCA : Directory
  | .file .caKey => some ⟨.key (some activeCA.raw), 0⟩
  | .file .caCert => some ⟨.cert activeCA, 0⟩
  | _ => none

theorem holdsOne_oneCA : HoldsOne ownKey oneCA activeCA := by
  refine ⟨some activeCA.raw, rfl, rfl, by decide, fun name notKey notCert => ?_⟩
  cases name with
  | caKey => exact absurd rfl notKey
  | caCert => exact absurd rfl notCert
  | caNextKey | caNextCrt | caPrevCrt | caPrevSince => rfl

/-- Prepare and an activation that is cut off between its renames. -/
def halfActivated : List (Call × List Int) :=
  [(.prepare nextCA, List.replicate 8 0), (.activate, List.replicate 10 0)]

theorem rotation_crash_safe_halfway :
    HoldsOne ownKey oneCA activeCA ∧
    ∃ st, readDiskState ownKey (final oneCA (history ownKey oneCA halfActivated)) = .ok st ∧
      activeCA ∈ st.trusted := by
  obtain ⟨-, st, -, reads, -, -, kept⟩ := rotation_crash_safe holdsOne_oneCA halfActivated
  exact ⟨holdsOne_oneCA, st, reads, kept [] _ activeCA rfl (by decide) (by decide)⟩

/-- Prepare and a complete activation. -/
def replacedRotation : List (Call × List Int) :=
  [(.prepare nextCA, List.replicate 8 0), (.activate, List.replicate 11 0)]

/-- A retirement that is cut off between its two removals: the CA is no longer
trusted, and the call has not completed. -/
theorem cut_off_retirement_untrusts :
    HoldsOne ownKey oneCA activeCA ∧ signing ownKey oneCA = some activeCA ∧
    (retireCA ownKey true).ends Operation.apply
      (final oneCA (history ownKey oneCA replacedRotation)) [0, 0] = false ∧
    (readDiskState ownKey (final oneCA
      (history ownKey oneCA (replacedRotation ++ [(.retire true, [0, 0])])))).toOption.map
        CAState.trusted = some [nextCA] := by
  refine ⟨holdsOne_oneCA, by decide, by decide, by decide⟩

/-! ## The wait -/

/-- The directory has recorded a time, and it has not passed. -/
def RecordedAt (dir : Directory) (time : Int) : Prop :=
  match recorded dir with
  | .ok (some seconds) => time ≤ seconds * Clock.second
  | _ => False

instance (dir : Directory) (time : Int) : Decidable (RecordedAt dir time) := by
  unfold RecordedAt
  split <;> infer_instance

instance (operation : Operation) : Decidable operation.Places :=
  inferInstanceAs (Decidable (_ ∨ _))

variable (publicKey) in
/-- The old CA stops signing no later than the recorded time, and it is not
retired while it signs: conditions on the clock and on the directory that an
operation finds. -/
def Timely (moment : Moment Directory Operation) : Prop :=
  (moment.operation.Places → previous moment.before = signing publicKey moment.before →
    RecordedAt moment.before moment.time) ∧
  (moment.operation = .remove .caPrevCrt → previous moment.before ≠ signing publicKey moment.before)

instance (moment : Moment Directory Operation) : Decidable (Timely publicKey moment) :=
  inferInstanceAs (Decidable (_ ∧ _))

variable (publicKey) in
/-- All operations that found this CA signing came by the recorded time. -/
def Covered (moments : List (Moment Directory Operation)) (view : View) : Prop :=
  ∀ cert, view.prev = some cert → cert ≠ view.active →
    ∃ seconds, view.since = some seconds ∧ ∀ moment ∈ moments,
      signing publicKey moment.before = some cert → moment.time ≤ seconds * Clock.second

/-- One operation keeps the record. -/
theorem Covered.step {moment : Moment Directory Operation}
    (covered : Covered publicKey moments view) (stands : Stands publicKey moment.before view)
    (step : View.Step True moment.time moment.operation view view')
    (timely : Timely publicKey moment) (latest : ∀ other ∈ moments, other.time ≤ moment.time) :
    Covered publicKey (moments ++ [moment]) view' := by
  -- While the view has the same CAs, the operation found the active one signing.
  have others : ∀ cert, view.prev = some cert → cert ≠ view.active →
      ∃ seconds, view.since = some seconds ∧ ∀ other ∈ moments ++ [moment],
        signing publicKey other.before = some cert → other.time ≤ seconds * Clock.second := by
    intro cert kept differs
    obtain ⟨seconds, since, bound⟩ := covered cert kept differs
    refine ⟨seconds, since, fun other member signs => ?_⟩
    rcases List.mem_append.mp member with member | member
    · exact bound other member signs
    · rw [List.mem_singleton.mp member] at signs
      exact absurd (Option.some.inj (stands.signing_eq.symm.trans signs)).symm differs
  intro cert kept differs
  generalize isOperation : moment.operation = operation at step
  cases step with
  | stay => exact others cert kept differs
  | record _ _ absent | forget _ absent => exact absurd (absent.symm.trans kept) nofun
  | keep => exact absurd (Option.some.inj kept).symm differs
  | move next places saved =>
    have same : previous moment.before = signing publicKey moment.before := by
      rw [stands.previous_eq, stands.signing_eq, saved]
    have recordedAt := timely.1 (isOperation ▸ places) same
    obtain ⟨seconds, since⟩ := Option.isSome_iff_exists.mp (stands.dated (by rw [saved]; rfl))
    have early : moment.time ≤ seconds * Clock.second := by
      rwa [RecordedAt, stands.since, since] at recordedAt
    refine ⟨seconds, since, fun other member _ => ?_⟩
    rcases List.mem_append.mp member with member | member
    · exact (latest other member).trans early
    · rw [List.mem_singleton.mp member]
      exact early
  | retire => exact absurd kept nofun

/-- Along a run the record is kept. -/
theorem covered_final {start : Directory} (one : HoldsOne publicKey start cert)
    (chained : Chained Operation.apply start moments)
    (follows : ∀ moment ∈ moments, Follows publicKey True moment)
    (timely : ∀ moment ∈ moments, Timely publicKey moment)
    (rising : moments.Pairwise fun earlier later => earlier.time ≤ later.time) :
    ∃ view, Stands publicKey (final start moments) view ∧ Covered publicKey moments view := by
  induction moments using List.reverseRecOn with
  | nil => exact ⟨_, one.stands, nofun⟩
  | append_singleton earlier moment ih =>
  obtain ⟨before, last⟩ := chained.cut
  obtain ⟨risingBefore, -, latest⟩ := List.pairwise_append.mp rising
  obtain ⟨view, stands, covered⟩ := ih before
    (fun other member => follows other (List.mem_append_left _ member))
    (fun other member => timely other (List.mem_append_left _ member)) risingBefore
  have isLast : moment ∈ earlier ++ [moment] := by simp
  obtain ⟨from', view', standsBefore, standsAfter, step, -⟩ := follows moment isLast
  obtain rfl : view = from' := stands.unique (last.1 ▸ standsBefore)
  refine ⟨view', ?_, covered.step standsBefore step (timely moment isLast)
    fun other member => latest other member moment (by simp)⟩
  rw [final_append]
  exact standsAfter

/-- Where the key leaves at the recorded time and the active CA is not retired, a
CA is retired a full wait after it last signed: every operation that found it
signing, the one that ended its time included, is that much earlier. -/
theorem retire_waits {start : Directory} {cert : Certificate} (one : HoldsOne publicKey start cert)
    {calls : List (Call × List Int)} (rising : (calls.flatMap Prod.snd).Pairwise (· ≤ ·))
    (unforced : ∀ call ∈ calls, call.1 ≠ .retire true)
    (timely : ∀ moment ∈ history publicKey start calls, Timely publicKey moment)
    {earlier later : List (Moment Directory Operation)} {moment : Moment Directory Operation}
    {retired : Certificate} (occurs : history publicKey start calls = earlier ++ moment :: later)
    (retires : Retires moment retired) :
    ∀ other ∈ earlier ++ [moment], signing publicKey other.before = some retired →
      other.time ≤ moment.time - retireAfter := by
  have begins : ((calls.flatMap Prod.snd).headD 0 :: calls.flatMap Prod.snd).Pairwise (· ≤ ·) := by
    refine List.pairwise_cons.mpr ⟨fun time member => ?_, rising⟩
    cases ticks : calls.flatMap Prod.snd with
    | nil => simp [ticks] at member
    | cons =>
    rw [ticks] at member rising
    rcases List.mem_cons.mp member with rfl | member
    · exact le_rfl
    · exact (List.pairwise_cons.mp rising).1 time member
  have follows : ∀ moment ∈ history publicKey start calls, Follows publicKey True moment :=
    history_follows one (fun _ => begins) fun _ => unforced
  have times : (history publicKey start calls).Pairwise fun earlier later =>
      earlier.time ≤ later.time := by
    have sublist := @execAll_times _ _ RotationError Operation.apply start
      (calls.map fun call => (call.1.script publicKey, call.2))
    rw [List.flatMap_map] at sublist
    exact List.pairwise_map.mp (rising.sublist sublist)
  rw [occurs] at follows times timely
  have chained : Chained Operation.apply start (earlier ++ moment :: later) :=
    occurs ▸ history_chained start calls
  obtain ⟨before, here, after, -⟩ := chained.cut
  obtain ⟨view, stands, covered⟩ := covered_final one before
    (fun other member => follows other (List.mem_append_left _ member))
    (fun other member => timely other (List.mem_append_left _ member))
    (List.pairwise_append.mp times).1
  have member : moment ∈ earlier ++ moment :: later := by simp
  obtain ⟨from', view', standsBefore, standsAfter, step, -⟩ := follows moment member
  obtain rfl : view = from' := stands.unique (here ▸ standsBefore)
  have kept : view.prev = some retired := standsBefore.previous_eq.symm.trans retires.2
  have gone : view'.prev = none := by
    have absent : moment.after (.file .caPrevCrt) = none := by
      rw [after, retires.1]
      simp
    rw [← standsAfter.previous_eq]
    simp [previous, readCert, absent, Except.toOption]
  have differs : retired ≠ view.active := by
    rintro rfl
    apply (timely moment member).2 retires.1
    rw [standsBefore.previous_eq, standsBefore.signing_eq, kept]
  obtain ⟨seconds, since, bound⟩ := covered retired kept differs
  have waited : seconds * Clock.second + retireAfter ≤ moment.time := by
    generalize moment.operation = operation at step
    cases step with
    | stay | record | move => exact absurd (kept.symm.trans gone) (Option.some_ne_none _)
    | keep _ absent | forget _ absent => exact absurd (kept.symm.trans absent) (Option.some_ne_none _)
    | retire recordedAt waited =>
      obtain rfl := Option.some.inj (since.symm.trans recordedAt)
      exact waited trivial
  intro other member signs
  rcases List.mem_append.mp member with member | member
  · have := bound other member signs
    omega
  · rw [List.mem_singleton.mp member] at signs
    exact absurd (Option.some.inj (standsBefore.signing_eq.symm.trans signs)).symm differs

/-- Prepare, an activation within one second, and the retirement a day later. -/
def promptRotation : List (Call × List Int) :=
  [(.prepare nextCA, List.replicate 8 0), (.activate, List.replicate 11 0),
    (.retire false, List.replicate 3 (24 * Clock.hour))]

theorem retire_waits_prompt :
    HoldsOne ownKey oneCA activeCA ∧
    (∀ moment ∈ history ownKey oneCA promptRotation, Timely ownKey moment) ∧
    ∃ earlier moment later,
      history ownKey oneCA promptRotation = earlier ++ moment :: later ∧
      Retires moment activeCA ∧
      ∀ other ∈ earlier ++ [moment], signing ownKey other.before = some activeCA →
        other.time ≤ moment.time - retireAfter := by
  have timely : ∀ moment ∈ history ownKey oneCA promptRotation, Timely ownKey moment := by
    decide
  have removal : ∃ moment ∈ history ownKey oneCA promptRotation, Retires moment activeCA := by
    decide
  obtain ⟨moment, member, retires⟩ := removal
  obtain ⟨earlier, later, occurs⟩ := List.append_of_mem member
  exact ⟨holdsOne_oneCA, timely, earlier, moment, later, occurs, retires,
    retire_waits holdsOne_oneCA (by decide) (by simp [promptRotation]) timely occurs retires⟩

/-- Prepare; an activation that is cut off after it has kept the active CA; its
resumption 23 hours later; and the retirement an hour after that. -/
def resumedRotation : List (Call × List Int) :=
  [(.prepare nextCA, List.replicate 8 0), (.activate, List.replicate 9 0),
    (.activate, List.replicate 2 (23 * Clock.hour)),
    (.retire false, List.replicate 3 (24 * Clock.hour))]

/-- The CA is retired an hour after it last signed. -/
theorem resumed_activation_retires_early :
    HoldsOne ownKey oneCA activeCA ∧
    (resumedRotation.flatMap Prod.snd).Pairwise (· ≤ ·) ∧
    ∃ moment ∈ history ownKey oneCA resumedRotation, Retires moment activeCA ∧
      ∃ other ∈ history ownKey oneCA resumedRotation, other.time < moment.time ∧
        signing ownKey other.before = some activeCA ∧
        moment.time - retireAfter < other.time := by
  refine ⟨holdsOne_oneCA, by decide, by decide⟩

end OmegaPlane.Identity.Rotation
