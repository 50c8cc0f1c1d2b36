import OmegaPlane.Crash.Stages
import OmegaPlane.Identity.Rotation

/-!
# The stages of a rotation

Of the file operations of a command only a few show in the files of the directory: a rename
that puts a written file in place, a rename of the prepared CA and a removal.  The outline of a
command lists the directories they lead through; every execution of the command, cut off or
not, climbs from one to the next.
-/

namespace OmegaPlane.Identity.Rotation

open Workload Crash

/-! ## What shows -/

/-- A recorded time, whenever it was. -/
def Content.undated : Content → Content
  | .instant _ => .instant 0
  | content => content

/-- What the files hold, without temporary files and times. -/
def plain (dir : Directory) : Directory
  | .file name => (dir (.file name)).map fun entry => ⟨entry.content.undated, 0⟩
  | .temp _ => none

def put (name : File) (content : Content) (dir : Directory) : Directory :=
  Function.update dir (.file name) (some ⟨content, 0⟩)

@[simp]
def move (source target : File) (dir : Directory) : Directory :=
  (Operation.rename (.file source) (.file target)).apply 0 dir

@[simp]
def drop (name : File) (dir : Directory) : Directory :=
  (Operation.remove name).apply 0 dir

variable {publicKey : Certificate → Option Bytes} {dir : Directory}

theorem plain_file (name : File) :
    plain dir (.file name) = (dir (.file name)).map fun entry => ⟨entry.content.undated, 0⟩ :=
  rfl

@[simp]
theorem readKey_plain (name : File) : readKey (plain dir) name = readKey dir name := by
  simp only [readKey, plain_file]
  cases dir (.file name) with
  | none => rfl
  | some entry =>
    obtain ⟨content, time⟩ := entry
    cases content <;> rfl

@[simp]
theorem readCert_plain (name : File) : readCert (plain dir) name = readCert dir name := by
  simp only [readCert, plain_file]
  cases dir (.file name) with
  | none => rfl
  | some entry =>
    obtain ⟨content, time⟩ := entry
    cases content <;> rfl

@[simp]
theorem isSome_plain (name : File) : (plain dir (.file name)).isSome =
    (dir (.file name)).isSome := by
  simp [plain]

@[simp]
theorem isNone_plain (name : File) : (plain dir (.file name)).isNone =
    (dir (.file name)).isNone := by
  simp [plain]

@[simp]
theorem readDiskState_plain : readDiskState publicKey
    (plain dir) = readDiskState publicKey dir := by
  simp [readDiskState, readExtra]

theorem isOk_prevSince_plain : (prevSince (plain dir)).isOk = (prevSince dir).isOk := by
  simp only [prevSince, plain_file]
  cases dir (.file .caPrevSince) with
  | none => cases dir (.file .caPrevCrt) <;> rfl
  | some entry =>
    obtain ⟨content, time⟩ := entry
    cases content <;> rfl

theorem plain_rename {source target : File} (time : Int) :
    plain ((Operation.rename (.file source) (.file target)).apply time dir) =
      move source target (plain dir) := by
  funext name
  cases name with
  | temp => rfl
  | file =>
    simp only [plain, move, Operation.apply, Function.update_apply]
    repeat' split
    all_goals rfl

variable {name : File} {stages rest : List Directory} {certain : Bool} {n : Nat}

theorem plain_remove (time : Int) :
    plain ((Operation.remove name).apply time dir) = drop name (plain dir) := by
  funext other
  cases other with
  | temp => rfl
  | file other =>
    by_cases same : other = name <;> simp [plain, same]

/-! ## Outlines -/

section Outlines

variable (publicKey)

/-- The directories a command goes through after the one it finds, and whether it cannot fail
there. -/
abbrev Outline := List Directory × Bool

/-- The command refuses. -/
def Outline.refused : Outline :=
  ([], false)

/-- Finish an interrupted activation, and what follows. -/
def repairOutline (next : Directory → Outline) (dir : Directory) : Outline :=
  match readKey dir .caKey, readCert dir .caCert with
  | .ok key, .ok cert =>
    if keyMatches publicKey key cert then next dir
    else
      match readCert dir .caNextCrt with
      | .error _ => .refused
      | .ok prepared =>
        if keyMatches publicKey key prepared then
          let moved := move .caNextCrt .caCert dir
          (moved :: (next moved).1, (next moved).2)
        else .refused
  | _, _ => .refused

def prepareOutline (cert : Certificate) (dir : Directory) : Outline :=
  if (dir (.file .caNextKey)).isSome then .refused
  else
    match readDiskState publicKey dir with
    | .error _ => .refused
    | .ok _ =>
      let keyed := put .caNextKey (.key (publicKey cert)) dir
      ([keyed, put .caNextCrt (.cert cert) keyed], true)

/-- The two renames. -/
def moveStages (dir : Directory) : List Directory :=
  let moved := move .caNextKey .caKey dir
  [moved, move .caNextCrt .caCert moved]

def activateOutline (dir : Directory) : Outline :=
  if (dir (.file .caNextKey)).isNone then .refused
  else
    match readKey dir .caNextKey, readCert dir .caNextCrt, readCert dir .caCert with
    | .ok nextKey, .ok next, .ok active =>
      if !keyMatches publicKey nextKey next then .refused
      else
        match readCert dir .caPrevCrt with
        | .ok prev => if prev ≠ active then .refused else (moveStages dir, true)
        | .error .unreadable => .refused
        | .error .notExist =>
          let dated := put .caPrevSince (.instant 0) dir
          let kept := put .caPrevCrt (.cert active) dated
          (dated :: kept :: moveStages kept, true)
    | _, _, _ => .refused

/-- Without force the time decides whether the command fails. -/
def retireOutline (force : Bool) (dir : Directory) : Outline :=
  if (dir (.file .caPrevCrt)).isNone || !(prevSince dir).isOk then .refused
  else
    let dropped := drop .caPrevCrt dir
    ([dropped, drop .caPrevSince dropped], force)

def Call.outline (call : Call) : Directory → Outline :=
  repairOutline publicKey <| match call with
    | .prepare cert => prepareOutline publicKey cert
    | .activate => activateOutline publicKey
    | .retire force => retireOutline force

end Outlines

/-! ## Every execution follows the outline -/

/-- The directory is the one listed at a position. -/
def Shows (stages : List Directory) (n : Nat) (dir : Directory) : Prop :=
  (stages.drop n).head? = some (plain dir)

/-- A command that cannot fail ends with the last directory. -/
def Halts (stages : List Directory) (certain : Bool) (done : Bool) (n : Nat) : Prop :=
  certain = true → done = true ∧ n + 1 = stages.length

/-- The procedure goes through the directories listed from a position on. -/
abbrev Climbing (stages : List Directory) (certain : Bool) (script : Procedure) (n : Nat)
    (dir : Directory) : Prop :=
  script.Climbs Operation.apply (Shows stages) (Halts stages certain) n dir

variable {next : Procedure} {shown : Directory}

theorem shows_of_drop (here : stages.drop n = plain dir :: rest) : Shows stages n dir := by
  rw [Shows, here]
  rfl

theorem drop_succ_of_cons {first : Directory} (here : stages.drop n = first :: rest) :
    stages.drop (n + 1) = rest := by
  rw [← List.tail_drop, here]
  rfl

theorem climbing_done (here : stages.drop n = [plain dir]) :
    Climbing stages certain .done n dir := by
  intro _
  have size := congrArg List.length here
  rw [List.length_drop, List.length_singleton] at size
  exact ⟨rfl, by omega⟩

theorem climbing_writeFileSync {content : Content}
    (here : stages.drop n = plain dir :: shown :: rest)
    (isShown : shown = put name content.undated (plain dir))
    (goesOn : ∀ dir', plain dir' = shown → stages.drop (n + 1) = plain dir' :: rest →
      Climbing stages certain next (n + 1) dir') :
    Climbing stages certain (writeFileSync name content next) n dir := by
  have hidden {dir' : Directory} (same : plain dir' = plain dir) : Shows stages n dir' :=
    shows_of_drop (same ▸ here)
  intro created
  have same₁ : plain ((Operation.create name).apply created dir) = plain dir := by
    funext other
    cases other <;> simp [plain]
  refine ⟨n, .inl rfl, hidden same₁, fun wrote => ?_⟩
  have same₂ : plain ((Operation.write name content).apply wrote
      ((Operation.create name).apply created dir)) = plain dir := by
    funext other
    cases other <;> simp [plain]
  refine ⟨n, .inl rfl, hidden same₂, fun synced => ⟨n, .inl rfl, hidden same₂, fun renamed => ?_⟩⟩
  have shows : plain ((Operation.rename (.temp name) (.file name)).apply renamed
      ((Operation.write name content).apply wrote ((Operation.create name).apply created dir))) =
      shown := by
    rw [isShown]
    funext other
    cases other with
    | temp => rfl
    | file other =>
      by_cases same : other = name <;> simp [plain, put, same]
  have after := shows ▸ drop_succ_of_cons here
  exact ⟨n + 1, .inr rfl, shows_of_drop after, goesOn _ shows after⟩

/-- An operation that shows. -/
theorem climbing_perform {operation : Operation} (here : stages.drop n = plain dir :: shown :: rest)
    (isShown : ∀ time, plain (operation.apply time dir) = shown)
    (goesOn : ∀ dir', plain dir' = shown → stages.drop (n + 1) = plain dir' :: rest →
      Climbing stages certain next (n + 1) dir') :
    Climbing stages certain (.perform operation next) n dir := by
  intro time
  have after := isShown time ▸ drop_succ_of_cons here
  exact ⟨n + 1, .inr rfl, shows_of_drop after, goesOn _ (isShown time) after⟩

theorem climbing_refused {err : RotationError} : Climbing stages false (.refused err) n dir :=
  fun impossible => absurd impossible Bool.false_ne_true

theorem climbing_repairActivation {outline : Directory → Outline}
    (here : stages.drop n = plain dir :: (repairOutline publicKey outline (plain dir)).1)
    (goesOn : ∀ n dir', stages.drop n = plain dir' :: (outline (plain dir')).1 →
      Climbing stages (outline (plain dir')).2 next n dir') :
    Climbing stages (repairOutline publicKey outline (plain dir)).2
      (repairActivation publicKey next) n dir := by
  dsimp only [Climbing, repairActivation, Script.Climbs]
  revert here
  simp only [repairOutline, readKey_plain, readCert_plain]
  cases readKey dir .caKey with
  | error => exact fun _ => climbing_refused
  | ok =>
  cases readCert dir .caCert with
  | error => exact fun _ => climbing_refused
  | ok =>
  dsimp only
  split
  · exact fun here => goesOn n dir here
  cases readCert dir .caNextCrt with
  | error => exact fun _ => climbing_refused
  | ok =>
  dsimp only
  split
  · intro here
    refine climbing_perform here plain_rename fun dir' moved after => ?_
    rw [← moved] at after ⊢
    exact goesOn _ dir' after
  · exact fun _ => climbing_refused

theorem climbing_moveNext (here : stages.drop n = plain dir :: moveStages (plain dir)) :
    Climbing stages certain moveNext n dir := by
  refine climbing_perform here plain_rename fun keyed isKeyed after => ?_
  rw [← isKeyed] at after
  exact climbing_perform after plain_rename fun certified _ last => climbing_done last

/-- Every execution of a command goes through the directories of its outline. -/
theorem Call.climbs (call : Call) (dir : Directory) :
    Climbing (plain dir :: (call.outline publicKey (plain dir)).1)
      (call.outline publicKey (plain dir)).2 (call.script publicKey) 0 dir := by
  cases call with
  | prepare =>
    refine climbing_repairActivation (by rw [Call.outline, List.drop_zero]) fun n dir here => ?_
    dsimp only [Climbing, Script.Climbs]
    revert here
    simp only [prepareOutline, isSome_plain, readDiskState_plain]
    split
    · exact fun _ => climbing_refused
    cases readDiskState publicKey dir with
    | error => exact fun _ => climbing_refused
    | ok state =>
    intro here
    refine climbing_writeFileSync here rfl fun keyed isKeyed after => ?_
    rw [← isKeyed] at after
    exact climbing_writeFileSync after rfl fun certified _ last => climbing_done last
  | activate =>
    refine climbing_repairActivation (by rw [Call.outline, List.drop_zero]) fun n dir here => ?_
    dsimp only [Climbing, Script.Climbs]
    revert here
    simp only [activateOutline, isNone_plain, readKey_plain, readCert_plain]
    split
    · exact fun _ => climbing_refused
    cases readKey dir .caNextKey with
    | error => exact fun _ => climbing_refused
    | ok nextKey =>
    cases readCert dir .caNextCrt with
    | error => exact fun _ => climbing_refused
    | ok prepared =>
    cases readCert dir .caCert with
    | error =>
      dsimp only
      split <;> exact fun _ => climbing_refused
    | ok active =>
    dsimp only
    split
    · exact fun _ => climbing_refused
    cases readCert dir .caPrevCrt with
    | ok =>
      dsimp only
      split
      · exact fun _ => climbing_refused
      · exact climbing_moveNext
    | error err =>
      cases err with
      | unreadable => exact fun _ => climbing_refused
      | notExist =>
      intro here now
      refine climbing_writeFileSync here rfl fun dated isDated after => ?_
      rw [← isDated] at after
      refine climbing_writeFileSync after rfl fun kept isKept last => climbing_moveNext ?_
      rwa [← isKept] at last
  | retire force =>
    refine climbing_repairActivation (by rw [Call.outline, List.drop_zero]) fun n dir here => ?_
    dsimp only [Climbing, Script.Climbs]
    revert here
    simp only [retireOutline, isNone_plain, isOk_prevSince_plain]
    by_cases absent : (dir (.file .caPrevCrt)).isNone = true
    · simp only [absent, if_true, Bool.true_or]
      exact fun _ => climbing_refused
    rw [if_neg absent]
    cases prevSince dir with
    | error =>
      simp only [Except.isOk, Except.toBool, Bool.not_false, Bool.or_true, if_true]
      exact fun _ => climbing_refused
    | ok since =>
    simp only [absent, Except.isOk, Except.toBool, Bool.not_true, Bool.or_self,
      Bool.false_eq_true, if_false]
    intro here now
    dsimp only
    split
    · rename_i early
      -- a forced retirement is never too early
      exact fun forced => by simp [forced] at early
    · refine climbing_perform here plain_remove fun dropped isDropped after => ?_
      rw [← isDropped] at after
      exact climbing_perform after plain_remove fun forgotten _ last => climbing_done last

end OmegaPlane.Identity.Rotation
