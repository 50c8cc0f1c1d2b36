import OmegaPlane.Data.Checks
import OmegaPlane.Identity.Outline
import OmegaPlane.Identity.Retirement

/-!
# Reloading during a rotation

The server reads the directory file by file while a command may run in another process.  What
it reads is the material of one directory of the command as long as `ca.crt` does not change
before `ca.next.crt` is read; when the prepared certificate moves between the two reads, it is
found at neither place.
-/

namespace OmegaPlane.Identity.Rotation

open Workload Crash

section Read

variable (publicKey : Certificate → Option Bytes)

/-- `readDiskState`, where each of its files is read from the directory of its time. -/
def readDiskStateAcross (atKey atCert atNext atPrev : Directory) : Except RotationError CAState :=
  match readKey atKey .caKey, readCert atCert .caCert with
  | .error err, _ => .error (.read .caKey err)
  | .ok _, .error err => .error (.read .caCert err)
  | .ok key, .ok cert =>
    if keyMatches publicKey key cert then do
      let next ← readExtra atNext .caNextCrt
      let prev ← readExtra atPrev .caPrevCrt
      return newCAState cert [next, prev]
    else
      match readCert atNext .caNextCrt with
      | .error _ => .error .keyMismatch
      | .ok next =>
        if keyMatches publicKey key next then do
          let prev ← readExtra atPrev .caPrevCrt
          return newCAState next [prev]
        else .error .keyMismatch

theorem readDiskStateAcross_self (dir : Directory) :
    readDiskStateAcross publicKey dir dir dir dir = readDiskState publicKey dir :=
  rfl

end Read

variable {publicKey : Certificate → Option Bytes} {dir atKey atPrev here stage : Directory}

theorem readDiskStateAcross_plain {atCert atNext : Directory} :
    readDiskStateAcross publicKey (plain atKey) (plain atCert) (plain atNext) (plain atPrev) =
      readDiskStateAcross publicKey atKey atCert atNext atPrev := by
  simp only [readDiskStateAcross, readExtra, readKey_plain, readCert_plain]

/-- What is read is the material of a directory with these files. -/
theorem readDiskStateAcross_eq (whole : Directory)
    (key : atKey (.file .caKey) = whole (.file .caKey))
    (cert : here (.file .caCert) = whole (.file .caCert))
    (next : here (.file .caNextCrt) = whole (.file .caNextCrt))
    (prev : atPrev (.file .caPrevCrt) = whole (.file .caPrevCrt)) :
    readDiskStateAcross publicKey atKey here here atPrev = readDiskState publicKey whole := by
  rw [← readDiskStateAcross_self]
  simp only [readDiskStateAcross, readExtra, readKey_moved rfl key, readCert_moved rfl cert,
    readCert_moved rfl next, readCert_moved rfl prev]

/-! ## Mixed views of an outline -/

section Mixed

variable (publicKey)

/-- Reading fails or gives the material of a stage that was reached. -/
def Whole (stages : List Directory) (reached : Nat) (atKey here atPrev : Directory) : Prop :=
  (∃ err, readDiskStateAcross publicKey atKey here here atPrev = .error err) ∨
    ∃ m ≤ reached, ∃ whole, stages[m]? = some whole ∧
      readDiskStateAcross publicKey atKey here here atPrev = readDiskState publicKey whole

/-- The key is read at one stage, both certificates at a later and the previous CA at a still
later one. -/
def Consistent (stages : List Directory) : Prop :=
  ∀ {a b c : Nat} {atKey here atPrev : Directory}, a ≤ b → b ≤ c → stages[a]? = some atKey →
    stages[b]? = some here → stages[c]? = some atPrev → Whole publicKey stages c atKey here atPrev

end Mixed

theorem Whole.cons {stages : List Directory} {reached : Nat}
    (read : Whole publicKey stages reached atKey here atPrev) (first : Directory) :
    Whole publicKey (first :: stages) (reached + 1) atKey here atPrev :=
  read.imp_right fun ⟨m, le, whole, found, same⟩ =>
    ⟨m + 1, Nat.succ_le_succ le, whole, found, same⟩

/-- Neither the key nor the previous CA changes. -/
theorem consistent_of_quiet {stages : List Directory}
    (quiet : ∀ stage ∈ stages, stage (.file .caKey) = dir (.file .caKey) ∧
      stage (.file .caPrevCrt) = dir (.file .caPrevCrt)) : Consistent publicKey stages := by
  intro a b c atKey here atPrev ab bc foundKey found foundPrev
  have first := quiet atKey (List.mem_of_getElem? foundKey)
  have second := quiet here (List.mem_of_getElem? found)
  have third := quiet atPrev (List.mem_of_getElem? foundPrev)
  exact .inr ⟨b, bc, here, found, readDiskStateAcross_eq here (first.1.trans second.1.symm) rfl rfl
    (third.2.trans second.2.symm)⟩

/-- The active CA and the prepared one are those of a directory. -/
structure Steady (dir stage : Directory) : Prop where
  key : stage (.file .caKey) = dir (.file .caKey)
  cert : stage (.file .caCert) = dir (.file .caCert)
  next : stage (.file .caNextCrt) = dir (.file .caNextCrt)

theorem Steady.read (first : Steady dir atKey) (second : Steady dir here)
    (third : Steady dir atPrev) :
    readDiskStateAcross publicKey atKey here here atPrev = readDiskState publicKey atPrev :=
  readDiskStateAcross_eq atPrev (first.key.trans third.key.symm)
    (second.cert.trans third.cert.symm) (second.next.trans third.next.symm) rfl

theorem consistent_of_steady {stages : List Directory}
    (steady : ∀ stage ∈ stages, Steady dir stage) : Consistent publicKey stages := by
  intro a b c atKey here atPrev ab bc foundKey found foundPrev
  exact .inr ⟨c, le_rfl, atPrev, foundPrev, (steady _ (List.mem_of_getElem? foundKey)).read
    (steady _ (List.mem_of_getElem? found)) (steady _ (List.mem_of_getElem? foundPrev))⟩

theorem consistent_refused : Consistent publicKey (dir :: Outline.refused.1) := by
  refine @consistent_of_steady publicKey dir _ ?_
  simp only [Outline.refused, List.mem_singleton, forall_eq]
  exact ⟨rfl, rfl, rfl⟩

theorem consistent_prepareOutline (cert : Certificate) :
    Consistent publicKey (dir :: (prepareOutline publicKey cert dir).1) := by
  unfold prepareOutline
  split
  · exact consistent_refused
  split
  · exact consistent_refused
  · refine @consistent_of_quiet publicKey dir _ ?_
    simp [put]

theorem consistent_retireOutline (force : Bool) :
    Consistent publicKey (dir :: (retireOutline force dir).1) := by
  unfold retireOutline
  split
  · exact consistent_refused
  · refine @consistent_of_steady publicKey dir _ ?_
    simp only [List.mem_cons, List.not_mem_nil, or_false, forall_eq_or_imp, forall_eq]
    refine ⟨⟨rfl, rfl, rfl⟩, ⟨?_, ?_, ?_⟩, ⟨?_, ?_, ?_⟩⟩ <;> simp

variable {kept : Directory}

/-- A stage before the two renames, between them or after both. -/
theorem stage_of_move {earlier : List Directory} {i : Nat}
    (found : (earlier ++ kept :: moveStages kept)[i]? = some stage) :
    i ≤ earlier.length ∧ stage ∈ earlier ++ [kept] ∨
      i = earlier.length + 1 ∧ stage = move .caNextKey .caKey kept ∨
      i = earlier.length + 2 ∧ stage = move .caNextCrt .caCert (move .caNextKey .caKey kept) := by
  rw [List.getElem?_append] at found
  split at found
  · rename_i before
    exact .inl ⟨before.le, List.mem_append_left _ (List.mem_of_getElem? found)⟩
  · obtain ⟨j, rfl⟩ : ∃ j, i = earlier.length + j := ⟨i - earlier.length, by omega⟩
    rw [Nat.add_sub_cancel_left] at found
    match j with
    | 0 => simp_all [moveStages]
    | 1 => simp_all [moveStages]
    | 2 => simp_all [moveStages]
    | j + 3 => simp [moveStages] at found

/-- The old key is read beside the certificate that replaced its own. -/
theorem read_moved {atKey moved atPrev : Directory} {nextKey : Option Bytes} {next : Certificate}
    (readsKey : readKey moved .caKey = .ok nextKey) (readsCert : readCert moved .caCert = .ok next)
    (fits : keyMatches publicKey nextKey next = true)
    (noNext : readCert moved .caNextCrt = .error .notExist)
    (prev : atPrev (.file .caPrevCrt) = moved (.file .caPrevCrt)) :
    (∃ err, readDiskStateAcross publicKey atKey moved moved atPrev = .error err) ∨
      readDiskStateAcross publicKey atKey moved moved atPrev = readDiskState publicKey moved := by
  have samePrev : readExtra atPrev .caPrevCrt = readExtra moved .caPrevCrt :=
    readExtra_same rfl prev
  cases readsOld : readKey atKey .caKey with
  | error err =>
    refine .inl ⟨.read .caKey err, ?_⟩
    simp only [readDiskStateAcross, readsOld]
  | ok key =>
  by_cases both : keyMatches publicKey key next = true
  · right
    simp only [readDiskStateAcross, readDiskState, readsOld, readsCert, both, readsKey, fits,
      if_true, samePrev]
  · refine .inl ⟨.keyMismatch, ?_⟩
    simp only [readDiskStateAcross, readsOld, readsCert, both, noNext]
    rfl

/-- The renames of an activation, after the active CA was kept. -/
theorem consistent_moveStages {earlier : List Directory} {kept : Directory}
    {nextKey : Option Bytes} {next : Certificate}
    (steady : ∀ stage ∈ earlier ++ [kept], Steady kept stage)
    (readsKey : readKey kept .caNextKey = .ok nextKey)
    (readsNext : readCert kept .caNextCrt = .ok next)
    (fits : keyMatches publicKey nextKey next = true) :
    Consistent publicKey (earlier ++ kept :: moveStages kept) := by
  intro a b c atKey here atPrev ab bc foundKey found foundPrev
  set keyed := move .caNextKey .caKey kept with isKeyed
  set moved := move .caNextCrt .caCert keyed with isMoved
  have keptAt : (earlier ++ kept :: moveStages kept)[earlier.length]? = some kept := by simp
  have later (after : earlier.length < c) :
      atPrev (.file .caPrevCrt) = kept (.file .caPrevCrt) := by
    rcases stage_of_move foundPrev with ⟨before, -⟩ | ⟨-, rfl⟩ | ⟨-, rfl⟩
    · omega
    · simp
    · simp
  have movedPrev : moved (.file .caPrevCrt) = kept (.file .caPrevCrt) := by
    simp [isMoved, isKeyed]
  rcases stage_of_move foundKey with ⟨beforeKey, memberKey⟩ | afterKey
  · have sameKey := (steady atKey memberKey).key
    rcases stage_of_move found with ⟨-, member⟩ | ⟨atKeyed, isHere⟩ | ⟨atMoved, isHere⟩
    · -- both certificates are read before the renames
      have same := steady here member
      rcases Nat.lt_or_ge earlier.length c with after | before
      · exact .inr ⟨_, after.le, kept, keptAt,
          readDiskStateAcross_eq kept sameKey same.cert same.next (later after)⟩
      · rcases stage_of_move foundPrev with ⟨-, memberPrev⟩ | ⟨after, -⟩ | ⟨after, -⟩
        · exact .inr ⟨c, le_rfl, atPrev, foundPrev,
            (steady atKey memberKey).read same (steady atPrev memberPrev)⟩
        · omega
        · omega
    · -- the key was read before it moved: what was there when the active CA was kept
      rw [isHere]
      exact .inr ⟨_, by omega, kept, keptAt, readDiskStateAcross_eq kept sameKey
        (by simp) (by simp) (later (by omega))⟩
    · obtain rfl : here = moved := isHere
      refine (@read_moved publicKey atKey _ _ _ _ (readKey_moved readsKey ?_)
        (readCert_moved readsNext ?_) fits ?_
        ((later (by omega)).trans movedPrev.symm)).imp_right fun read =>
          ⟨b, bc, moved, found, read⟩
      all_goals simp [isMoved, isKeyed, readCert]
  · -- the key has moved
    have isKey : atKey (.file .caKey) = keyed (.file .caKey) := by
      rcases afterKey with ⟨-, rfl⟩ | ⟨-, rfl⟩ <;> simp [isKeyed]
    rcases stage_of_move found with ⟨before, -⟩ | ⟨atKeyed, isHere⟩ | ⟨atMoved, isHere⟩
    · omega
    · refine .inr ⟨b, bc, here, found, readDiskStateAcross_eq here (isHere ▸ isKey) rfl rfl
        ((later (by omega)).trans ?_)⟩
      simp [isHere]
    · refine .inr ⟨b, bc, here, found, readDiskStateAcross_eq here (isKey.trans ?_) rfl rfl
        ((later (by omega)).trans ?_)⟩
      · simp [isHere, isKeyed]
      · simp [isHere]

theorem consistent_activateOutline :
    Consistent publicKey (dir :: (activateOutline publicKey dir).1) := by
  unfold activateOutline
  split
  · exact consistent_refused
  split
  · rename_i nextKey next active readsKey readsNext readsActive
    split
    · exact consistent_refused
    rename_i fits
    rw [Bool.not_eq_true, Bool.not_eq_false'] at fits
    split
    · split
      · exact consistent_refused
      · refine @consistent_moveStages publicKey [] dir _ _ ?_ readsKey readsNext fits
        simp only [List.nil_append, List.mem_singleton, forall_eq]
        exact ⟨rfl, rfl, rfl⟩
    · exact consistent_refused
    · refine @consistent_moveStages publicKey [dir, put .caPrevSince (.instant 0) dir] _ _ _ ?_
        (readKey_moved readsKey ?_) (readCert_moved readsNext ?_) fits
      · simp only [List.cons_append, List.nil_append, List.mem_cons, List.not_mem_nil, or_false,
          forall_eq_or_imp, forall_eq]
        refine ⟨⟨?_, ?_, ?_⟩, ⟨?_, ?_, ?_⟩, ⟨rfl, rfl, rfl⟩⟩ <;> simp [put]
      all_goals simp [put]
  · exact consistent_refused

variable {key : Option Bytes} {state : CAState}

/-- A half-finished activation reads like a finished one. -/
theorem read_repaired {cert next : Certificate} (readsKey : readKey atKey .caKey = .ok key)
    (readsCert : readCert dir .caCert = .ok cert)
    (mismatch : ¬ keyMatches publicKey key cert = true)
    (readsNext : readCert dir .caNextCrt = .ok next) (fits : keyMatches publicKey key next = true) :
    readDiskStateAcross publicKey atKey dir dir atPrev =
      readDiskStateAcross publicKey atKey (move .caNextCrt .caCert dir)
        (move .caNextCrt .caCert dir) atPrev := by
  have movedCert : readCert (move .caNextCrt .caCert dir) .caCert = .ok next :=
    readCert_moved readsNext (by simp)
  have movedNext : readExtra (move .caNextCrt .caCert dir) .caNextCrt = .ok none :=
    readExtra_of_none (by simp)
  simp only [readDiskStateAcross, readsKey, readsCert, mismatch, readsNext, fits, movedCert,
    movedNext, if_true]
  rfl

theorem readDiskStateAcross_key {other : Directory}
    (same : atKey (.file .caKey) = other (.file .caKey)) :
    readDiskStateAcross publicKey atKey here here atPrev =
      readDiskStateAcross publicKey other here here atPrev := by
  simp only [readDiskStateAcross, readKey_moved rfl same]

theorem consistent_repairOutline {outline : Directory → Outline}
    (each : ∀ dir, Consistent publicKey (dir :: (outline dir).1)) :
    Consistent publicKey (dir :: (repairOutline publicKey outline dir).1) := by
  unfold repairOutline
  split
  · rename_i key cert readsKey readsCert
    split
    · exact each dir
    rename_i mismatch
    split
    · exact consistent_refused
    rename_i prepared readsNext
    split
    · rename_i fits
      intro a b c atKey here atPrev ab bc foundKey found foundPrev
      have tail := @each (move .caNextCrt .caCert dir)
      have movedKey : dir (.file .caKey) = move .caNextCrt .caCert dir (.file .caKey) := by
        simp
      cases c with
      | zero =>
        obtain rfl : b = 0 := by omega
        obtain rfl : a = 0 := by omega
        simp only [List.getElem?_cons_zero, Option.some.injEq] at foundKey found foundPrev
        subst foundKey found foundPrev
        exact .inr ⟨0, le_rfl, dir, rfl, rfl⟩
      | succ c =>
        rw [List.getElem?_cons_succ] at foundPrev
        -- what is read in the directory that is found is read in the repaired one
        cases b with
        | zero =>
          obtain rfl : a = 0 := by omega
          simp only [List.getElem?_cons_zero, Option.some.injEq] at foundKey found
          subst foundKey found
          rw [Whole, read_repaired readsKey readsCert mismatch readsNext fits,
            readDiskStateAcross_key movedKey]
          exact (tail le_rfl (Nat.zero_le c) rfl rfl foundPrev).cons dir
        | succ b =>
          rw [List.getElem?_cons_succ] at found
          cases a with
          | zero =>
            simp only [List.getElem?_cons_zero, Option.some.injEq] at foundKey
            subst foundKey
            rw [Whole, readDiskStateAcross_key movedKey]
            exact (tail (Nat.zero_le b) (by omega) rfl found foundPrev).cons dir
          | succ =>
            rw [List.getElem?_cons_succ] at foundKey
            exact (tail (by omega) (by omega) foundKey found foundPrev).cons dir
    · exact consistent_refused
  · exact consistent_refused

theorem consistent_outline (call : Call) :
    Consistent publicKey (dir :: (call.outline publicKey dir).1) := by
  refine consistent_repairOutline fun dir => ?_
  cases call with
  | prepare cert => exact consistent_prepareOutline cert
  | activate => exact consistent_activateOutline
  | retire force => exact consistent_retireOutline force

/-! ## A reload beside a command -/

variable (publicKey) in
/-- The directory after the first operations of a command. -/
def Call.after (call : Call) (dir : Directory) (ticks : List Int) (operations : Nat) : Directory :=
  final dir (((call.script publicKey).exec Operation.apply dir ticks).take operations)

variable {active prepared : Certificate}

/-- With the active CA and the prepared one in place both are trusted. -/
theorem trusts_of_steady (readsKey : readKey dir .caKey = .ok key)
    (readsCert : readCert dir .caCert = .ok active)
    (settled : keyMatches publicKey key active = true)
    (readsNext : readCert dir .caNextCrt = .ok prepared)
    (read : readDiskState publicKey dir = .ok state) :
    active ∈ state.trusted ∧ prepared ∈ state.trusted := by
  simp only [readDiskState, readsKey, readsCert, settled, if_true,
    readExtra_of_readCert readsNext] at read
  cases readsPrev : readExtra dir .caPrevCrt with
  | error =>
    rw [readsPrev] at read
    contradiction
  | ok =>
    rw [readsPrev] at read
    obtain rfl := Except.ok.inj read
    rw [trusted_newCAState]
    simp

/-- Once the old CA is kept, the renames leave both CAs trusted. -/
theorem trusts_of_moveStages {nextKey : Option Bytes}
    (readsCert : readCert kept .caCert = .ok active)
    (readsKey : readKey kept .caNextKey = .ok nextKey)
    (readsNext : readCert kept .caNextCrt = .ok prepared)
    (fits : keyMatches publicKey nextKey prepared = true)
    (readsPrev : readCert kept .caPrevCrt = .ok active) (member : stage ∈ moveStages kept)
    (read : readDiskState publicKey stage = .ok state) :
    active ∈ state.trusted ∧ prepared ∈ state.trusted := by
  simp only [moveStages, List.mem_cons, List.not_mem_nil, or_false] at member
  have movedKey : readKey stage .caKey = .ok nextKey :=
    readKey_moved readsKey (by rcases member with rfl | rfl <;> simp)
  have keptPrev : readExtra stage .caPrevCrt = .ok (some active) :=
    readExtra_of_readCert (readCert_moved readsPrev
      (by rcases member with rfl | rfl <;> simp))
  rcases member with isKeyed | isMoved
  · have sameCert : readCert stage .caCert = .ok active :=
      readCert_moved readsCert (by simp [isKeyed])
    have sameNext : readCert stage .caNextCrt = .ok prepared :=
      readCert_moved readsNext (by simp [isKeyed])
    by_cases settled : keyMatches publicKey nextKey active = true
    · exact trusts_of_steady movedKey sameCert settled sameNext read
    simp only [readDiskState, movedKey, sameCert, settled, sameNext, fits, if_true, keptPrev]
      at read
    obtain rfl := Except.ok.inj read
    rw [trusted_newCAState]
    simp
  · have movedCert : readCert stage .caCert = .ok prepared :=
      readCert_moved readsNext (by simp [isMoved])
    have noNext : readExtra stage .caNextCrt = .ok none :=
      readExtra_of_none (by simp [isMoved])
    simp only [readDiskState, movedKey, movedCert, fits, noNext, if_true, keptPrev] at read
    obtain rfl := Except.ok.inj read
    rw [trusted_newCAState]
    simp

/-- A stage of an activation that found its CAs in place trusts the old one and the new one. -/
theorem trusts_both (readsKey : readKey dir .caKey = .ok key)
    (readsCert : readCert dir .caCert = .ok active)
    (settled : keyMatches publicKey key active = true)
    (readsNext : readCert dir .caNextCrt = .ok prepared)
    (member : stage ∈ dir :: (Call.activate.outline publicKey dir).1)
    (read : readDiskState publicKey stage = .ok state) :
    active ∈ state.trusted ∧ prepared ∈ state.trusted := by
  have steady {stage : Directory} (same : Steady dir stage)
      (read : readDiskState publicKey stage = .ok state) :=
    trusts_of_steady (readKey_moved readsKey same.key) (readCert_moved readsCert same.cert) settled
      (readCert_moved readsNext same.next) read
  have unmoved (member : stage ∈ dir :: Outline.refused.1) :
      active ∈ state.trusted ∧ prepared ∈ state.trusted := by
    obtain rfl := List.mem_singleton.mp member
    exact steady ⟨rfl, rfl, rfl⟩ read
  simp only [Call.outline, repairOutline, readsKey, readsCert, settled, if_true] at member
  unfold activateOutline at member
  split at member
  · exact unmoved member
  split at member
  · rename_i nextKey next active' readsNextKey readsNext' readsCert'
    obtain rfl := Except.ok.inj (readsNext.symm.trans readsNext')
    obtain rfl := Except.ok.inj (readsCert.symm.trans readsCert')
    split at member
    · exact unmoved member
    rename_i fits
    rw [Bool.not_eq_true, Bool.not_eq_false'] at fits
    split at member
    · rename_i prev readsPrev
      split at member
      · exact unmoved member
      rename_i same
      obtain rfl := not_not.mp same
      rcases List.mem_cons.mp member with rfl | member
      · exact steady ⟨rfl, rfl, rfl⟩ read
      · exact trusts_of_moveStages readsCert readsNextKey readsNext fits readsPrev member read
    · exact unmoved member
    · simp only [List.mem_cons] at member
      rcases member with rfl | rfl | rfl | member
      · exact steady ⟨rfl, rfl, rfl⟩ read
      · exact steady (by constructor <;> simp [put]) read
      · exact steady (by constructor <;> simp [put]) read
      · refine trusts_of_moveStages (readCert_moved readsCert ?_) (readKey_moved readsNextKey ?_)
          (readCert_moved readsNext ?_) fits ?_ member read
        all_goals simp [put, readCert]
  · exact unmoved member

/-- A reload that finds `ca.crt` unchanged when it reads `ca.next.crt` fails or gives the
material of a directory of the command; during an activation it trusts both CAs. -/
theorem reload_whole (call : Call) (dir : Directory) (ticks : List Int) {i j k l : Nat}
    (ij : i ≤ j) (jk : j ≤ k) (kl : k ≤ l)
    (unchanged : call.after publicKey dir ticks k (.file .caCert) =
      call.after publicKey dir ticks j (.file .caCert)) :
    let read := readDiskStateAcross publicKey (call.after publicKey dir ticks i)
      (call.after publicKey dir ticks j) (call.after publicKey dir ticks k)
      (call.after publicKey dir ticks l)
    ((∃ err, read = .error err) ∨
      ∃ n, read = readDiskState publicKey (call.after publicKey dir ticks n)) ∧
    ∀ key active prepared state, call = .activate → readKey dir .caKey = .ok key →
      readCert dir .caCert = .ok active → keyMatches publicKey key active = true →
      readCert dir .caNextCrt = .ok prepared → read = .ok state →
      active ∈ state.trusted ∧ prepared ∈ state.trusted := by
  obtain ⟨level, levels⟩ := (@Call.climbs publicKey call dir).levels rfl ticks
  have shows (n : Nat) : (plain dir :: (call.outline publicKey (plain dir)).1)[level n]? =
      some (plain (call.after publicKey dir ticks n)) := by
    rw [← List.head?_drop]
    exact levels.shows n
  have sameCert : readDiskStateAcross publicKey (call.after publicKey dir ticks i)
      (call.after publicKey dir ticks j) (call.after publicKey dir ticks k)
      (call.after publicKey dir ticks l) =
      readDiskStateAcross publicKey (plain (call.after publicKey dir ticks i))
        (plain (call.after publicKey dir ticks k)) (plain (call.after publicKey dir ticks k))
        (plain (call.after publicKey dir ticks l)) := by
    rw [readDiskStateAcross_plain]
    simp only [readDiskStateAcross, readCert_moved rfl unchanged]
  intro read
  have whole : Whole publicKey (plain dir :: (call.outline publicKey (plain dir)).1) (level l)
      (plain (call.after publicKey dir ticks i)) (plain (call.after publicKey dir ticks k))
      (plain (call.after publicKey dir ticks l)) :=
    consistent_outline call (levels.monotone (ij.trans jk)) (levels.monotone kl) (shows i) (shows k)
      (shows l)
  rw [Whole, ← sameCert] at whole
  constructor
  · refine whole.imp_right fun ⟨m, reached, stage, found, same⟩ => ?_
    obtain ⟨n, rfl⟩ := levels.exists_level (Nat.zero_le m) reached
    obtain rfl := Option.some.inj (found.symm.trans (shows n))
    exact ⟨n, by rwa [readDiskState_plain] at same⟩
  · rintro key active prepared state rfl readsKey readsCert settled readsNext isState
    rcases whole with ⟨err, failed⟩ | ⟨m, reached, stage, found, same⟩
    · exact absurd (failed.symm.trans isState) (by simp)
    refine trusts_both ?_ ?_ settled ?_ (List.mem_of_getElem? found) (same.symm.trans isState)
    · rwa [readKey_plain]
    · rwa [readCert_plain]
    · rwa [readCert_plain]

/-- A directory with a prepared CA. -/
def preparedDir : Directory :=
  put .caNextKey (.key (some nextCA.raw)) (put .caNextCrt (.cert nextCA) oneCA)

/-- The reload reads everything after the key has moved and before the certificate has. -/
theorem reload_whole_between :
    ∃ st, readDiskState ownKey (Call.activate.after ownKey preparedDir (List.replicate 11 0) 9) =
      .ok st ∧ activeCA ∈ st.trusted ∧ nextCA ∈ st.trusted := by
  obtain ⟨st, read⟩ : ∃ st, readDiskState ownKey
      (Call.activate.after ownKey preparedDir (List.replicate 11 0) 9) = .ok st :=
    exists_eq_ok_of_isOk (by decide)
  exact ⟨st, read, (@reload_whole ownKey .activate preparedDir (List.replicate 11 0) 9 9 9 9 le_rfl
    le_rfl le_rfl rfl).2 _ activeCA nextCA st rfl rfl rfl (by decide) rfl read⟩

/-- The reload reads the key and the certificate before an activation and the rest after it:
the prepared CA, which signs by then, is not trusted. -/
theorem reload_misses_prepared :
    (readDiskStateAcross ownKey preparedDir preparedDir
        (Call.activate.after ownKey preparedDir (List.replicate 11 0) 10)
        (Call.activate.after ownKey preparedDir (List.replicate 11 0) 10)).toOption.map
      CAState.trusted = some [activeCA, activeCA] ∧
    Call.activate.after ownKey preparedDir (List.replicate 11 0) 0 = preparedDir ∧
    readCert preparedDir .caNextCrt = .ok nextCA ∧ nextCA ∉ [activeCA, activeCA] := by
  refine ⟨by decide, rfl, rfl, by decide⟩

end OmegaPlane.Identity.Rotation
