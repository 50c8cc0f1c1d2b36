import Mathlib.Tactic.SplitIfs
import OmegaPlane.Crash.Script
import OmegaPlane.Data.Clock
import OmegaPlane.Workload.Bundle

/-!
# The CA directory of the disk authority

The directory keeps up to three CAs: the active one with its key, a prepared
next one with its key, and the previous one, trusted until it is retired.
Rotation is prepare, activate and retire.  Each is a script of file operations
that a crash may cut off anywhere; a half-finished activation is recognised when
the directory is read and finished by the next command.

An abstract view says what the directory stands for: the active CA, the previous
one and the time recorded for it.  Every file operation of a command, wherever
the commands before it stopped, is one of six steps of the view.
-/

namespace OmegaPlane.Identity.Rotation

open Workload Crash

/-! ## Files -/

inductive File where
  | caKey
  | caCert
  | caNextKey
  | caNextCrt
  | caPrevCrt
  | caPrevSince
  deriving DecidableEq

/-- A file of the directory, or the temporary file it is written through. -/
inductive Name where
  | file (name : File)
  | temp (name : File)
  deriving DecidableEq

/-- What a file parses as.  A private key is known by its public half, which is
missing unless it is an ECDSA key; a recorded time has whole seconds. -/
inductive Content where
  | key (publicKey : Option Bytes)
  | cert (certificate : Certificate)
  | instant (seconds : Int)
  | other
  deriving DecidableEq

structure Entry where
  content : Content
  modified : Int
  deriving DecidableEq

abbrev Directory := Name → Option Entry

inductive Operation where
  | create (name : File)
  | write (name : File) (content : Content)
  | sync (name : File)
  | rename (source target : Name)
  | remove (name : File)
  deriving DecidableEq

/-- The effect of a file operation.  A temporary file that is not completely
written holds nothing that parses. -/
@[simp]
def Operation.apply (time : Int) (operation : Operation) (dir : Directory) : Directory :=
  match operation with
  | .create name => Function.update dir (.temp name) (some ⟨.other, time⟩)
  | .write name content => Function.update dir (.temp name) (some ⟨content, time⟩)
  | .sync _ => dir
  | .rename source target => Function.update (Function.update dir target (dir source)) source none
  | .remove name => Function.update dir (.file name) none

/-! ## Reading the directory -/

inductive ReadError where
  | notExist
  | unreadable
  deriving DecidableEq

inductive RotationError where
  | read (name : File) (err : ReadError)
  | keyMismatch
  | alreadyPrepared
  | notPrepared
  | nextMismatch
  | prevTrusted
  | noPrevious
  | sinceUnreadable
  | tooEarly (wait : Int)
  deriving DecidableEq

def readKey (dir : Directory) (name : File) : Except ReadError (Option Bytes) :=
  match dir (.file name) with
  | none => .error .notExist
  | some entry =>
    match entry.content with
    | .key publicKey => .ok publicKey
    | _ => .error .unreadable

def readCert (dir : Directory) (name : File) : Except ReadError Certificate :=
  match dir (.file name) with
  | none => .error .notExist
  | some entry =>
    match entry.content with
    | .cert certificate => .ok certificate
    | _ => .error .unreadable

/-- A certificate that may be absent. -/
def readExtra (dir : Directory) (name : File) : Except RotationError (Option Certificate) :=
  match readCert dir name with
  | .ok certificate => .ok (some certificate)
  | .error .notExist => .ok none
  | .error err => .error (.read name err)

/-- When the previous CA was replaced: the recorded time, or the time of the
certificate file in a directory that has none. -/
def prevSince (dir : Directory) : Except RotationError Int :=
  match dir (.file .caPrevSince) with
  | some entry =>
    match entry.content with
    | .instant seconds => .ok (seconds * Clock.second)
    | _ => .error .sinceUnreadable
  | none =>
    match dir (.file .caPrevCrt) with
    | some entry => .ok entry.modified
    | none => .error (.read .caPrevCrt .notExist)

/-- The recorded time of a directory, if any, in seconds. -/
def recorded (dir : Directory) : Except RotationError (Option Int) :=
  match dir (.file .caPrevSince) with
  | none => .ok none
  | some entry =>
    match entry.content with
    | .instant seconds => .ok (some seconds)
    | _ => .error .sinceUnreadable

/-- How long the previous CA must stay trusted after an activation. -/
def retireAfter : Int := 24 * Clock.hour

section Commands

variable (publicKey : Certificate → Option Bytes)

def keyMatches (key : Option Bytes) (cert : Certificate) : Bool :=
  match key, publicKey cert with
  | some held, some named => held == named
  | _, _ => false

/-- The CAs of the directory.  An activation that was cut off between its two
renames leaves the new key beside the old certificate: then the next certificate
is the active one. -/
def readDiskState (dir : Directory) : Except RotationError CAState :=
  match readKey dir .caKey, readCert dir .caCert with
  | .error err, _ => .error (.read .caKey err)
  | .ok _, .error err => .error (.read .caCert err)
  | .ok key, .ok cert =>
    if keyMatches publicKey key cert then do
      let next ← readExtra dir .caNextCrt
      let prev ← readExtra dir .caPrevCrt
      return newCAState cert [next, prev]
    else
      match readCert dir .caNextCrt with
      | .error _ => .error .keyMismatch
      | .ok next =>
        if keyMatches publicKey key next then do
          let prev ← readExtra dir .caPrevCrt
          return newCAState next [prev]
        else .error .keyMismatch

/-! ## Commands -/

abbrev Procedure := Script Directory Operation RotationError

/-- Write a file through its temporary file. -/
def writeFileSync (name : File) (content : Content) (next : Procedure) : Procedure :=
  .perform (.create name) <| .perform (.write name content) <| .perform (.sync name) <|
    .perform (.rename (.temp name) (.file name)) next

def repairActivation (next : Procedure) : Procedure :=
  .look fun dir =>
    match readKey dir .caKey, readCert dir .caCert with
    | .error err, _ => .refused (.read .caKey err)
    | .ok _, .error err => .refused (.read .caCert err)
    | .ok key, .ok cert =>
      if keyMatches publicKey key cert then next
      else
        match readCert dir .caNextCrt with
        | .error _ => .refused .keyMismatch
        | .ok prepared =>
          if keyMatches publicKey key prepared then
            .perform (.rename (.file .caNextCrt) (.file .caCert)) next
          else .refused .keyMismatch

/-- Write the key and the certificate of a new CA. -/
def generateCA (cert : Certificate) (next : Procedure) : Procedure :=
  writeFileSync .caNextKey (.key (publicKey cert)) <| writeFileSync .caNextCrt (.cert cert) next

def prepareCA (cert : Certificate) : Procedure :=
  repairActivation publicKey <| .look fun dir =>
    if (dir (.file .caNextKey)).isSome then .refused .alreadyPrepared
    else
      match readDiskState publicKey dir with
      | .error err => .refused err
      | .ok _ => generateCA publicKey cert .done

/-- The two renames of an activation, the key first. -/
def moveNext : Procedure :=
  .perform (.rename (.file .caNextKey) (.file .caKey)) <|
    .perform (.rename (.file .caNextCrt) (.file .caCert)) .done

/-- Keep the active certificate as the previous one, and what follows. -/
def keepActive (active : Certificate) (next : Procedure) : Procedure :=
  .clock fun now =>
    writeFileSync .caPrevSince (.instant (now / Clock.second)) <|
      writeFileSync .caPrevCrt (.cert active) next

def activateCA : Procedure :=
  repairActivation publicKey <| .look fun dir =>
    if (dir (.file .caNextKey)).isNone then .refused .notPrepared
    else
      match readKey dir .caNextKey, readCert dir .caNextCrt, readCert dir .caCert with
      | .error err, _, _ => .refused (.read .caNextKey err)
      | .ok _, .error err, _ => .refused (.read .caNextCrt err)
      | .ok nextKey, .ok next, active =>
        if !keyMatches publicKey nextKey next then .refused .nextMismatch
        else
          match active, readCert dir .caPrevCrt with
          | .error err, _ => .refused (.read .caCert err)
          | .ok active, .ok prev => if prev ≠ active then .refused .prevTrusted else moveNext
          | .ok active, .error .notExist => keepActive active moveNext
          | .ok _, .error err => .refused (.read .caPrevCrt err)

def retireCA (force : Bool) : Procedure :=
  repairActivation publicKey <| .look fun dir =>
    if (dir (.file .caPrevCrt)).isNone then .refused .noPrevious
    else
      match prevSince dir with
      | .error err => .refused err
      | .ok since =>
        .clock fun now =>
          let wait := Clock.wrap64 (retireAfter - Clock.sub now since)
          if wait > 0 && !force then .refused (.tooEarly wait)
          else .perform (.remove .caPrevCrt) <| .perform (.remove .caPrevSince) .done

/-- A command, with the CA that prepare generates. -/
inductive Call where
  | prepare (cert : Certificate)
  | activate
  | retire (force : Bool)

def Call.script : Call → Procedure
  | .prepare cert => prepareCA publicKey cert
  | .activate => activateCA publicKey
  | .retire force => retireCA publicKey force

/-- The file operations of commands issued one after the other, each with the
instants it lives for. -/
def history (start : Directory) (calls : List (Call × List Int)) :
    List (Moment Directory Operation) :=
  execAll Operation.apply start (calls.map fun call => (call.1.script publicKey, call.2))

end Commands

/-! ## What the directory stands for -/

/-- The active CA, the previous one and the second recorded for it. -/
structure View where
  active : Certificate
  prev : Option Certificate
  since : Option Int
  deriving DecidableEq

/-- The two renames that put a prepared CA in place. -/
def Operation.Places (operation : Operation) : Prop :=
  operation = .rename (.file .caNextKey) (.file .caKey) ∨
    operation = .rename (.file .caNextCrt) (.file .caCert)

/-- What one file operation may do.  Where the clock counts, a recorded second
is not in the future, and the previous CA goes only after the wait. -/
inductive View.Step (timed : Prop) (time : Int) : Operation → View → View → Prop where
  | stay (operation : Operation) (view : View) : Step timed time operation view view
  | record (operation : Operation) {view : View} (seconds : Int) (absent : view.prev = none)
      (past : timed → seconds * Clock.second ≤ time) :
      Step timed time operation view { view with since := some seconds }
  | keep (operation : Operation) {view : View} (absent : view.prev = none)
      (dated : view.since.isSome) :
      Step timed time operation view { view with prev := some view.active }
  | move {operation : Operation} {view : View} (next : Certificate)
      (places : operation.Places) (kept : view.prev = some view.active) :
      Step timed time operation view { view with active := next }
  | retire {view : View} {seconds : Int} (since : view.since = some seconds)
      (waited : timed → seconds * Clock.second + retireAfter ≤ time) :
      Step timed time (.remove .caPrevCrt) view { view with prev := none }
  | forget (operation : Operation) {view : View} (absent : view.prev = none) :
      Step timed time operation view { view with since := none }

section Simulation

variable (publicKey : Certificate → Option Bytes)

/-- Which certificate signs.  Either the certificate belongs to the key, or an
activation stopped between its renames: the next certificate belongs to the key,
and the certificate is kept as the previous one. -/
def Signs (dir : Directory) (view : View) : Prop :=
  ∃ key cert, readKey dir .caKey = .ok key ∧ readCert dir .caCert = .ok cert ∧
    (keyMatches publicKey key cert = true ∧ view.active = cert ∨
      keyMatches publicKey key cert = false ∧ readCert dir .caNextCrt = .ok view.active ∧
        keyMatches publicKey key view.active = true ∧ view.prev = some cert)

/-- A directory stands for a view. -/
structure Stands (dir : Directory) (view : View) : Prop where
  signs : Signs publicKey dir view
  next : ∃ next, readExtra dir .caNextCrt = .ok next
  prev : readExtra dir .caPrevCrt = .ok view.prev
  since : recorded dir = .ok view.since
  /-- The time is recorded before the previous CA is kept. -/
  dated : view.prev.isSome → view.since.isSome

variable {publicKey}

variable {dir other : Directory} {name target : File} {cert : Certificate}

/-- A file that is unchanged, or moved here, reads as it did. -/
theorem readKey_moved {result : Except ReadError (Option Bytes)} (read : readKey dir name = result)
    (same : other (.file target) = dir (.file name)) :
    readKey other target = result := by
  rw [← read]
  simp only [readKey, same]

theorem readCert_moved {result : Except ReadError Certificate} (read : readCert dir name = result)
    (same : other (.file target) = dir (.file name)) :
    readCert other target = result := by
  rw [← read]
  simp only [readCert, same]

theorem readExtra_same {result : Except RotationError (Option Certificate)}
    (read : readExtra dir name = result) (same : other (.file name) = dir (.file name)) :
    readExtra other name = result := by
  rw [← read]
  simp only [readExtra, readCert, same]

theorem recorded_same {result : Except RotationError (Option Int)} (read : recorded dir = result)
    (same : other (.file .caPrevSince) = dir (.file .caPrevSince)) : recorded other = result := by
  rw [← read]
  simp only [recorded, same]

theorem readExtra_of_readCert (read : readCert dir name = .ok cert) :
    readExtra dir name = .ok (some cert) := by
  simp only [readExtra, read]

theorem readCert_of_readExtra (read : readExtra dir name = .ok (some cert)) :
    readCert dir name = .ok cert := by
  unfold readExtra at read
  split at read
  · next found =>
      cases read
      exact found
  · cases read
  · cases read

theorem readExtra_of_none (absent : dir (.file name) = none) : readExtra dir name = .ok none := by
  simp [readExtra, readCert, absent]

theorem isNone_of_readExtra (read : readExtra dir name = .ok none) : dir (.file name) = none := by
  unfold readExtra readCert at read
  split at read
  · cases read
  · next missing =>
      split at missing
      · assumption
      · split at missing <;> cases missing
  · cases read

theorem readExtra_next (read : ∃ next, readExtra dir .caNextCrt = .ok next)
    (same : other (.file .caNextCrt) = dir (.file .caNextCrt)) :
    ∃ next, readExtra other .caNextCrt = .ok next :=
  read.imp fun _ found => readExtra_same found same

variable {view : View} {timed : Prop} {now : Int}

/-- The view reads the named files only. -/
theorem Stands.congr (stands : Stands publicKey dir view) (other : Directory)
    (same : ∀ name, other (.file name) = dir (.file name)) :
    Stands publicKey other view := by
  obtain ⟨key, cert, readsKey, readsCert, shape⟩ := stands.signs
  refine ⟨⟨key, cert, readKey_moved readsKey (same _), readCert_moved readsCert (same _), ?_⟩,
    readExtra_next stands.next (same _), readExtra_same stands.prev (same _),
    recorded_same stands.since (same _), stands.dated⟩
  rcases shape with settled | ⟨moved, readsActive, rest⟩
  · exact .inl settled
  · exact .inr ⟨moved, readCert_moved readsActive (same _), rest⟩

/-- A directory that stands for a view is read: the active CA belongs to the key,
and with it the previous CA and at most one more are trusted. -/
theorem Stands.readDiskState (stands : Stands publicKey dir view) :
    ∃ key extra, readKey dir .caKey = .ok key ∧
      Rotation.readDiskState publicKey dir = .ok (newCAState view.active extra) ∧
      keyMatches publicKey key view.active = true ∧ extra.length ≤ 2 ∧ view.prev ∈ extra := by
  obtain ⟨key, cert, readsKey, readsCert, shape⟩ := stands.signs
  obtain ⟨next, readsNext⟩ := stands.next
  rcases shape with ⟨fits, active⟩ | ⟨moved, readsActive, fits, -⟩
  · refine ⟨key, [next, view.prev], readsKey, ?_, by rwa [active], le_rfl, by simp⟩
    simp only [Rotation.readDiskState, readsKey, readsCert, fits, if_true, readsNext, stands.prev,
      active]
    rfl
  · refine ⟨key, [view.prev], readsKey, ?_, fits, by simp, by simp⟩
    simp only [Rotation.readDiskState, readsKey, readsCert, moved, readsActive, fits, if_true,
      stands.prev]
    rfl

/-- The active certificate is in place beside its key. -/
def Settled (publicKey : Certificate → Option Bytes) (dir : Directory) (view : View) : Prop :=
  ∃ key, readKey dir .caKey = .ok key ∧ readCert dir .caCert = .ok view.active ∧
    keyMatches publicKey key view.active = true

/-- A settled directory stays settled as long as its key and its certificate do. -/
theorem Settled.congr (settled : Settled publicKey dir view) (other : Directory) {view' : View}
    (active : view'.active = view.active) (sameKey : other (.file .caKey) = dir (.file .caKey))
    (sameCert : other (.file .caCert) = dir (.file .caCert)) :
    Settled publicKey other view' := by
  obtain ⟨key, readsKey, readsCert, fits⟩ := settled
  refine ⟨key, readKey_moved readsKey sameKey, ?_, ?_⟩
  · rw [active]
    exact readCert_moved readsCert sameCert
  · rwa [active]

theorem Settled.signs (settled : Settled publicKey dir view) : Signs publicKey dir view := by
  obtain ⟨key, readsKey, readsCert, fits⟩ := settled
  exact ⟨key, view.active, readsKey, readsCert, .inl ⟨fits, rfl⟩⟩

/-- The recorded second is not in the future. -/
def Past (timed : Prop) (now : Int) (view : View) : Prop :=
  timed → ∀ seconds, view.since = some seconds → seconds * Clock.second ≤ now

variable (publicKey) in
/-- A file operation that takes one view to another. -/
def Follows (timed : Prop) (moment : Moment Directory Operation) : Prop :=
  ∃ view view', Stands publicKey moment.before view ∧ Stands publicKey moment.after view' ∧
    View.Step timed moment.time moment.operation view view' ∧ Past timed moment.time view'

variable (publicKey) in
/-- The directory stands for a view that was recorded by now. -/
def Sound (timed : Prop) (now : Int) (dir : Directory) : Prop :=
  ∃ view, Stands publicKey dir view ∧ Past timed now view

/-- The order of the instants, where it counts. -/
def Ordered (timed : Prop) (earlier later : Int) : Prop :=
  timed → earlier ≤ later

/-- The script keeps to the steps of the view. -/
abbrev Tame (publicKey : Certificate → Option Bytes) (timed : Prop) (script : Procedure)
    (now : Int) (dir : Directory) : Prop :=
  script.Safe Operation.apply (Ordered timed) (Follows publicKey timed) now dir

theorem Past.later {later : Int} (past : Past timed now view) (order : Ordered timed now later) :
    Past timed later view :=
  fun counts seconds found => (past counts seconds found).trans (order counts)

variable {next : Procedure}

/-- A file is written in four operations, the last of which shows. -/
theorem tame_writeFileSync {content : Content} (view' : View) (stands : Stands publicKey dir view)
    (past : Past timed now view)
    (written : ∀ time modified dir', Ordered timed now time →
      dir' (.file name) = some ⟨content, modified⟩ →
      (∀ other, other ≠ name → dir' (.file other) = dir (.file other)) →
      Stands publicKey dir' view' ∧ Past timed time view' ∧
        View.Step timed time (.rename (.temp name) (.file name)) view view' ∧
        Tame publicKey timed next time dir') :
    Tame publicKey timed (writeFileSync name content next) now dir := by
  intro created afterCreated
  have stands₁ : Stands publicKey ((Operation.create name).apply created dir) view :=
    stands.congr _ fun other => by simp
  refine ⟨⟨view, view, stands, stands₁, .stay _ _, past.later afterCreated⟩, ?_⟩
  intro wrote afterWrote
  have stands₂ := stands₁.congr ((Operation.write name content).apply wrote
    ((Operation.create name).apply created dir)) fun other => by simp
  refine ⟨⟨view, view, stands₁, stands₂, .stay _ _, (past.later afterCreated).later afterWrote⟩, ?_⟩
  intro synced afterSynced
  refine ⟨⟨view, view, stands₂, stands₂, .stay _ _,
    ((past.later afterCreated).later afterWrote).later afterSynced⟩, ?_⟩
  intro renamed afterRenamed
  have order : Ordered timed now renamed := fun counts =>
    (afterCreated counts).trans ((afterWrote counts).trans ((afterSynced counts).trans
      (afterRenamed counts)))
  obtain ⟨standsAfter, pastAfter, step, rest⟩ := written renamed wrote
    ((Operation.rename (.temp name) (.file name)).apply renamed
      ((Operation.write name content).apply wrote ((Operation.create name).apply created dir)))
    order (by simp) (fun other differs => by simp [differs])
  exact ⟨⟨view, view', stands₂, standsAfter, step, pastAfter⟩, rest⟩

section

variable (stands : Stands publicKey dir view)
include stands

/-- A command starts with a settled directory. -/
theorem tame_repairActivation (past : Past timed now view)
    (repaired : ∀ time dir', Ordered timed now time → Stands publicKey dir' view →
      Settled publicKey dir' view → Tame publicKey timed next time dir') :
    Tame publicKey timed (repairActivation publicKey next) now dir := by
  obtain ⟨key, cert, readsKey, readsCert, shape⟩ := stands.signs
  dsimp only [Tame, repairActivation, Script.Safe]
  rw [readsKey, readsCert]
  rcases shape with ⟨fits, active⟩ | ⟨moved, readsActive, fits, kept⟩
  · simp only [fits, if_true]
    exact repaired now dir (fun _ => le_rfl) stands ⟨key, readsKey, active ▸ readsCert,
      active ▸ fits⟩
  · simp only [moved, Bool.false_eq_true, if_false, readsActive, fits, if_true]
    intro time order
    set dir' := (Operation.rename (.file .caNextCrt) (.file .caCert)).apply time dir with rename
    have settled : Settled publicKey dir' view :=
      ⟨key, readKey_moved readsKey (by simp [rename]),
        readCert_moved readsActive (by simp [rename]), fits⟩
    have standsAfter : Stands publicKey dir' view :=
      ⟨settled.signs, ⟨none, readExtra_of_none (by simp [rename])⟩,
        readExtra_same stands.prev (by simp [rename]),
        recorded_same stands.since (by simp [rename]), stands.dated⟩
    exact ⟨⟨view, view, stands, standsAfter, .stay _ _, past.later order⟩,
      repaired time dir' order standsAfter settled⟩

theorem tame_prepareCA (past : Past timed now view) :
    Tame publicKey timed (prepareCA publicKey cert) now dir := by
  refine tame_repairActivation stands past fun time dir order stands settled => ?_
  dsimp only [Tame, Script.Safe]
  split
  · trivial
  split
  · trivial
  refine tame_writeFileSync view stands (past.later order)
    fun keyTime _ keyDir keyOrder _ keySame => ?_
  have settledKey : Settled publicKey keyDir view :=
    settled.congr keyDir rfl (keySame _ (by decide)) (keySame _ (by decide))
  have standsKey : Stands publicKey keyDir view :=
    ⟨settledKey.signs, readExtra_next stands.next (keySame _ (by decide)),
      readExtra_same stands.prev (keySame _ (by decide)),
      recorded_same stands.since (keySame _ (by decide)), stands.dated⟩
  have pastKey := (past.later order).later keyOrder
  refine ⟨standsKey, pastKey, .stay _ _, ?_⟩
  refine tame_writeFileSync view standsKey pastKey
    fun certTime _ certDir certOrder certRead certSame =>
      ⟨?_, pastKey.later certOrder, .stay _ _, trivial⟩
  have settledCert : Settled publicKey certDir view :=
    settledKey.congr certDir rfl (certSame _ (by decide)) (certSame _ (by decide))
  exact ⟨settledCert.signs, ⟨some cert, by simp [readExtra, readCert, certRead]⟩,
    readExtra_same standsKey.prev (certSame _ (by decide)),
    recorded_same standsKey.since (certSame _ (by decide)), stands.dated⟩

/-- The renames of an activation move the active CA once, since the old one is
kept by then. -/
theorem tame_moveNext {nextKey : Option Bytes} {next : Certificate} (past : Past timed now view)
    (settled : Settled publicKey dir view) (kept : view.prev = some view.active)
    (readsKey : readKey dir .caNextKey = .ok nextKey)
    (readsNext : readCert dir .caNextCrt = .ok next)
    (fits : keyMatches publicKey nextKey next = true) :
    Tame publicKey timed moveNext now dir := by
  obtain ⟨-, -, readsCert, -⟩ := settled
  have renamed : ∀ time time' : Int, ∀ dir',
      dir' = (Operation.rename (.file .caNextCrt) (.file .caCert)).apply time'
        ((Operation.rename (.file .caNextKey) (.file .caKey)).apply time dir) →
      Stands publicKey dir' { view with active := next } := by
    rintro time time' dir' rfl
    exact ⟨⟨nextKey, next, readKey_moved readsKey (by simp),
        readCert_moved readsNext (by simp), .inl ⟨fits, rfl⟩⟩,
      ⟨none, readExtra_of_none (by simp)⟩,
      readExtra_same stands.prev (by simp),
      recorded_same stands.since (by simp), stands.dated⟩
  intro time order
  set moved := (Operation.rename (.file .caNextKey) (.file .caKey)).apply time dir with rename
  have keyMoved : readKey moved .caKey = .ok nextKey :=
    readKey_moved readsKey (by simp [rename])
  have certStays : readCert moved .caCert = .ok view.active :=
    readCert_moved readsCert (by simp [rename])
  have nextStays : readCert moved .caNextCrt = .ok next :=
    readCert_moved readsNext (by simp [rename])
  have standsAs : ∀ active, Signs publicKey moved { view with active := active } →
      Stands publicKey moved { view with active := active } := fun active signs =>
    ⟨signs, ⟨_, readExtra_of_readCert nextStays⟩,
      readExtra_same stands.prev (by simp [rename]),
      recorded_same stands.since (by simp [rename]), stands.dated⟩
  -- With two CAs of one key the active one moves with the certificate.
  cases same : keyMatches publicKey nextKey view.active with
  | true =>
    have standsMoved : Stands publicKey moved view :=
      standsAs view.active ⟨nextKey, view.active, keyMoved, certStays, .inl ⟨same, rfl⟩⟩
    refine ⟨⟨view, view, stands, standsMoved, .stay _ _, past.later order⟩, ?_⟩
    intro time' order'
    exact ⟨⟨view, _, standsMoved, renamed time time' _ rfl, .move next (.inr rfl) kept,
      (past.later order).later order'⟩, trivial⟩
  | false =>
    have standsMoved : Stands publicKey moved { view with active := next } :=
      standsAs next ⟨nextKey, view.active, keyMoved, certStays, .inr ⟨same, nextStays, fits, kept⟩⟩
    refine ⟨⟨view, _, stands, standsMoved, .move next (.inl rfl) kept, past.later order⟩, ?_⟩
    intro time' order'
    exact ⟨⟨_, _, standsMoved, renamed time time' _ rfl, .stay _ _,
      (past.later order).later order'⟩, trivial⟩

/-- The time is recorded first, then the active certificate is kept. -/
theorem tame_keepActive (past : Past timed now view)
    (settled : Settled publicKey dir view) (absent : view.prev = none)
    (kept : ∀ time dir' view', Stands publicKey dir' view' → Past timed time view' →
      Settled publicKey dir' view' → view'.prev = some view'.active →
      (∀ name, name = .caNextKey ∨ name = .caNextCrt → dir' (.file name) = dir (.file name)) →
      Tame publicKey timed next time dir') :
    Tame publicKey timed (keepActive view.active next) now dir := by
  intro reading order
  set dated : View := { view with since := some (reading / Clock.second) } with isDated
  refine tame_writeFileSync dated stands (past.later order)
    fun sinceTime _ sinceDir sinceOrder sinceRead sinceSame => ?_
  have recent : reading / Clock.second * Clock.second ≤ reading :=
    Int.ediv_mul_le _ (by decide)
  have settledSince : Settled publicKey sinceDir dated :=
    settled.congr sinceDir rfl (sinceSame _ (by decide)) (sinceSame _ (by decide))
  have standsSince : Stands publicKey sinceDir dated :=
    ⟨settledSince.signs, readExtra_next stands.next (sinceSame _ (by decide)),
      readExtra_same stands.prev (sinceSame _ (by decide)),
      by simp [recorded, sinceRead, isDated], fun _ => rfl⟩
  have pastSince : Past timed sinceTime dated := by
    intro counts seconds found
    cases found
    exact recent.trans (sinceOrder counts)
  refine ⟨standsSince, pastSince,
    .record _ _ absent fun counts => recent.trans (sinceOrder counts), ?_⟩
  set done : View := { dated with prev := some dated.active } with isDone
  refine tame_writeFileSync done standsSince pastSince
    fun prevTime _ prevDir prevOrder prevRead prevSame => ?_
  have settledPrev : Settled publicKey prevDir done :=
    settledSince.congr prevDir rfl (prevSame _ (by decide)) (prevSame _ (by decide))
  have standsPrev : Stands publicKey prevDir done :=
    ⟨settledPrev.signs, readExtra_next standsSince.next (prevSame _ (by decide)),
      by simp [readExtra, readCert, prevRead, isDone, isDated],
      recorded_same standsSince.since (prevSame _ (by decide)), fun _ => rfl⟩
  refine ⟨standsPrev, pastSince.later prevOrder, .keep _ absent rfl,
    kept prevTime prevDir done standsPrev (pastSince.later prevOrder) settledPrev rfl ?_⟩
  rintro name (rfl | rfl) <;> exact (prevSame _ (by decide)).trans (sinceSame _ (by decide))

theorem tame_activateCA (past : Past timed now view) :
    Tame publicKey timed (activateCA publicKey) now dir := by
  refine tame_repairActivation stands past fun time dir order stands settled => ?_
  have readsActive : readCert dir .caCert = .ok view.active := settled.choose_spec.2.1
  dsimp only [Tame, Script.Safe]
  split
  · trivial
  cases readsKey : readKey dir .caNextKey with
  | error => trivial
  | ok nextKey =>
  cases readsNext : readCert dir .caNextCrt with
  | error => trivial
  | ok next =>
  rw [readsActive]
  dsimp only
  cases fits : keyMatches publicKey nextKey next with
  | false => trivial
  | true =>
  rw [if_neg (by decide)]
  cases readsPrev : readCert dir .caPrevCrt with
  | ok =>
    dsimp only
    split_ifs with differs
    · trivial
    -- An activation that stopped after keeping the active CA is resumed.
    have kept : view.prev = some view.active := by
      have same := stands.prev.symm.trans (readExtra_of_readCert readsPrev)
      rw [not_not] at differs
      rw [Except.ok.inj same, differs]
    exact tame_moveNext stands (past.later order) settled kept readsKey readsNext fits
  | error err =>
    cases err with
    | unreadable => trivial
    | notExist =>
    have absent : view.prev = none := by
      have same := stands.prev
      simp only [readExtra, readsPrev, Except.ok.injEq] at same
      exact same.symm
    refine tame_keepActive stands (past.later order) settled absent
      fun time dir' view' stands' past' settled' kept same => ?_
    exact tame_moveNext stands' past' settled' kept
      (readKey_moved readsKey (same _ (.inl rfl)))
      (readCert_moved readsNext (same _ (.inr rfl))) fits

end

/-- The wait of a retirement is elapsed a day after the recorded time. -/
theorem waited_of_nonpos {since : Int} (past : since ≤ now)
    (elapsed : ¬ Clock.wrap64 (retireAfter - Clock.sub now since) > 0) :
    since + retireAfter ≤ now := by
  have fits : Clock.wrap64 (retireAfter - Clock.sub now since) =
      retireAfter - Clock.sub now since := by
    apply Clock.wrap64_of_fits <;>
      simp only [Clock.sub, Clock.minDuration, Clock.maxDuration, retireAfter, Clock.hour,
        Clock.minute, Clock.second] <;> omega
  rw [fits] at elapsed
  simp only [Clock.sub, Clock.minDuration, Clock.maxDuration] at elapsed
  simp only [retireAfter, Clock.hour, Clock.minute, Clock.second] at elapsed ⊢
  omega

theorem prevSince_eq {seconds : Int} (read : recorded dir = .ok (some seconds)) :
    prevSince dir = .ok (seconds * Clock.second) := by
  unfold recorded at read
  split at read
  · cases read
  next entry found =>
    split at read
    · next content =>
        cases read
        simp only [prevSince, found, content]
    · cases read

theorem tame_retireCA {force : Bool} (unforced : timed → force = false)
    (stands : Stands publicKey dir view) (past : Past timed now view) :
    Tame publicKey timed (retireCA publicKey force) now dir := by
  refine tame_repairActivation stands past fun time dir order stands settled => ?_
  dsimp only [Tame, Script.Safe]
  split
  · trivial
  next present =>
  have kept : view.prev.isSome := by
    cases absent : view.prev with
    | some => rfl
    | none =>
      have missing := isNone_of_readExtra (absent ▸ stands.prev)
      simp [missing] at present
  obtain ⟨seconds, dated⟩ := Option.isSome_iff_exists.mp (stands.dated kept)
  have pastNow := past.later order
  rw [prevSince_eq (dated ▸ stands.since)]
  intro reading readingOrder
  dsimp only
  split_ifs with early
  · trivial
  intro removed removedOrder
  set dir₁ := (Operation.remove .caPrevCrt).apply removed dir with remove₁
  have settled₁ : Settled publicKey dir₁ { view with prev := none } :=
    settled.congr dir₁ rfl (by simp [remove₁]) (by simp [remove₁])
  have stands₁ : Stands publicKey dir₁ { view with prev := none } :=
    ⟨settled₁.signs, readExtra_next stands.next (by simp [remove₁]),
      readExtra_of_none (by simp [remove₁]),
      recorded_same stands.since (by simp [remove₁]), nofun⟩
  have waited : timed → seconds * Clock.second + retireAfter ≤ removed := by
    intro counts
    have elapsed : ¬ Clock.wrap64 (retireAfter - Clock.sub reading (seconds * Clock.second)) > 0 := by
      simpa [unforced counts] using early
    exact (waited_of_nonpos ((pastNow.later readingOrder) counts seconds dated) elapsed).trans
      (removedOrder counts)
  refine ⟨⟨view, _, stands, stands₁, .retire dated waited,
    (pastNow.later readingOrder).later removedOrder⟩, ?_⟩
  intro forgot forgotOrder
  set dir₂ := (Operation.remove .caPrevSince).apply forgot dir₁ with remove₂
  have settled₂ : Settled publicKey dir₂ ⟨view.active, none, none⟩ :=
    settled₁.congr dir₂ rfl (by simp [remove₂]) (by simp [remove₂])
  have stands₂ : Stands publicKey dir₂ ⟨view.active, none, none⟩ :=
    ⟨settled₂.signs, readExtra_next stands₁.next (by simp [remove₂]),
      readExtra_same stands₁.prev (by simp [remove₂]),
      by simp [recorded, remove₂], nofun⟩
  exact ⟨⟨_, _, stands₁, stands₂, .forget _ rfl, nofun⟩, trivial⟩

variable (publicKey) in
/-- The directory holds one valid CA and nothing else under the names of a
rotation; temporary files may lie around. -/
def HoldsOne (dir : Directory) (cert : Certificate) : Prop :=
  ∃ key, readKey dir .caKey = .ok key ∧ readCert dir .caCert = .ok cert ∧
    keyMatches publicKey key cert = true ∧
    ∀ name, name ≠ .caKey → name ≠ .caCert → dir (.file name) = none

theorem HoldsOne.stands (one : HoldsOne publicKey dir cert) :
    Stands publicKey dir ⟨cert, none, none⟩ := by
  obtain ⟨key, readsKey, readsCert, fits, nothing⟩ := one
  exact ⟨⟨key, cert, readsKey, readsCert, .inl ⟨fits, rfl⟩⟩,
    ⟨none, readExtra_of_none (nothing _ (by decide) (by decide))⟩,
    readExtra_of_none (nothing _ (by decide) (by decide)),
    by simp [recorded, nothing .caPrevSince (by decide) (by decide)], nofun⟩

/-- Every file operation of the commands is a step of the view, wherever the
commands before it stopped. -/
theorem history_follows {start : Directory} {cert : Certificate} {now : Int}
    {calls : List (Call × List Int)} (one : HoldsOne publicKey start cert)
    (rising : timed → (now :: calls.flatMap Prod.snd).Pairwise (· ≤ ·))
    (unforced : timed → ∀ call ∈ calls, call.1 ≠ .retire true) :
    ∀ moment ∈ history publicKey start calls, Follows publicKey timed moment := by
  have ticks : (calls.map fun call => (call.1.script publicKey, call.2)).flatMap Prod.snd =
      calls.flatMap Prod.snd := by
    rw [List.flatMap_map]
  have ordered : (now :: calls.flatMap Prod.snd).Pairwise (Ordered timed) := by
    by_cases counts : timed
    · exact (rising counts).imp fun later _ => later
    · exact List.pairwise_of_forall fun _ _ counted => absurd counted counts
  have carries : ∀ moment, Follows publicKey timed moment →
      Sound publicKey timed moment.time moment.after := by
    rintro moment ⟨-, view', -, stands, -, past⟩
    exact ⟨view', stands, past⟩
  refine execAll_safe carries ?_ (ticks.symm ▸ ordered) ⟨_, one.stands, nofun⟩
  intro call member now dir sound
  obtain ⟨view, stands, past⟩ := sound
  obtain ⟨⟨command, ticks⟩, issued, rfl⟩ := List.mem_map.mp member
  cases command with
  | prepare => exact tame_prepareCA stands past
  | activate => exact tame_activateCA stands past
  | retire force =>
  refine tame_retireCA (fun counts => ?_) stands past
  cases force with
  | false => rfl
  | true => exact absurd rfl (unforced counts _ issued)

end Simulation

end OmegaPlane.Identity.Rotation
