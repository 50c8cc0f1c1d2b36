import OmegaPlane.Data.Regexp
import OmegaPlane.Data.Separated
import OmegaPlane.Data.Text

/-!
# The cgroup of a process

The agent tells from the cgroup file of a process in which container of which pod it
runs.  A process that is in no pod is attested by its user instead, so whatever looks
like a container of the kubelet and is not understood is refused.
-/

namespace OmegaPlane.Attestor

/-! ## Paths -/

def hexDigit (byte : UInt8) : Bool :=
  (48 ≤ byte.toNat ∧ byte.toNat ≤ 57) ∨ (97 ≤ byte.toNat ∧ byte.toNat ≤ 102)

/-- `-` or `_`. -/
def dash (byte : UInt8) : Bool :=
  byte = 45 ∨ byte = 95

def uuidPattern : Regexp :=
  .concat [.times 8 hexDigit, .oneOf dash, .times 4 hexDigit, .oneOf dash, .times 4 hexDigit,
    .oneOf dash, .times 4 hexDigit, .oneOf dash, .times 12 hexDigit]

/-- The directory of a pod: `pod<uid>`, or a slice whose name ends so. -/
def podSegment : Regexp :=
  .concat [.alt .start (.oneOf dash), .literal (ascii "pod"), .group uuidPattern,
    .optional (.literal (ascii ".slice")), .finish]

/-- The directory of a container: its id, or a scope of a container runtime. -/
def containerSegment : Regexp :=
  .concat [.start,
    .optional (.alt (.literal (ascii "cri-containerd-"))
      (.alt (.literal (ascii "crio-")) (.literal (ascii "docker-")))),
    .group (.times 64 hexDigit), .optional (.literal (ascii ".scope")), .finish]

structure ContainerRef where
  podUID : Bytes
  containerID : Bytes
  deriving DecidableEq

inductive CgroupError where
  | notAPod
  | noContainer (podUID : Bytes)
  | namesNoContainer (podUID segment : Bytes)
  | unrecognised (path : Bytes)
  | disagree (found ref : ContainerRef)
  | tooLong
  | read
  deriving DecidableEq

def segments (path : Bytes) : List Bytes :=
  path.splitOn 47

/-- What the first segment of a pod captures, and the segment after it. -/
def firstPod : List Bytes → Option (Bytes × Option Bytes)
  | [] => none
  | segment :: rest =>
    match podSegment.submatch segment with
    | some uid => some (uid, rest.head?)
    | none => firstPod rest

/-- The pod's UID in its canonical form. -/
def canonical (uid : Bytes) : Bytes :=
  uid.map fun byte => if byte = 95 then 45 else byte

def parseCgroupPath (path : Bytes) : Except CgroupError (Option ContainerRef) :=
  match firstPod (segments path) with
  | some (uid, none) => .error (.noContainer (canonical uid))
  | some (uid, some segment) =>
    match containerSegment.submatch segment with
    | none => .error (.namesNoContainer (canonical uid) segment)
    | some id => .ok (some ⟨canonical uid, id⟩)
  | none =>
    if (segments path).any fun segment =>
        Text.contains segment (ascii "kubepods") || (containerSegment.submatch segment).isSome then
      .error (.unrecognised path)
    else .ok none

/-! ## Files -/

/-- The third field of a line. -/
def cgroupPath (line : Bytes) : Option Bytes :=
  (Text.cut [58] line).bind fun (_, rest) => (Text.cut [58] rest).map Prod.snd

/-- The bytes that could be read, and whether reading them ended in an error. -/
structure CgroupFile where
  content : Bytes
  failed : Bool

/-- A line and its end have to fit into the scanner's buffer. -/
def maxScanTokenSize : Nat := 65536

def dropCR (line : Bytes) : Bytes :=
  if line.getLast? = some 13 then line.dropLast else line

/-- The lines up to one that is too long, and whether there is one. -/
def scan : List Bytes → List Bytes × Bool
  | [] => ([], false)
  | [[]] => ([], false)
  | piece :: rest =>
    if maxScanTokenSize ≤ piece.length then ([], true)
    else
      let (lines, tooLong) := scan rest
      (dropCR piece :: lines, tooLong)

def CgroupFile.scan (file : CgroupFile) : List Bytes × Bool :=
  Attestor.scan (file.content.splitOn 10)

def parseLine (found : Option ContainerRef) (line : Bytes) :
    Except CgroupError (Option ContainerRef) :=
  match cgroupPath line with
  | none => .ok found
  | some path =>
    match parseCgroupPath path with
    | .error err => .error err
    | .ok none => .ok found
    | .ok (some ref) =>
      match found with
      | none => .ok (some ref)
      | some found => if ref ≠ found then .error (.disagree found ref) else .ok (some ref)

def parseCgroup (file : CgroupFile) : Except CgroupError ContainerRef :=
  match file.scan.1.foldlM parseLine none with
  | .error err => .error err
  | .ok found =>
    if file.scan.2 then .error .tooLong
    else if file.failed then .error .read
    else
      match found with
      | none => .error .notAPod
      | some ref => .ok ref

/-! ## Who is in no pod -/

/-- The segment says that the process is in a pod. -/
def Telling (segment : Bytes) : Prop :=
  (podSegment.submatch segment).isSome ∨ Text.contains segment (ascii "kubepods") = true ∨
    (containerSegment.submatch segment).isSome

/-- The path that a line names, if it has three fields. -/
def CgroupFile.Names (file : CgroupFile) (path : Bytes) : Prop :=
  ∃ line ∈ file.scan.1, cgroupPath line = some path

theorem firstPod_eq_none_iff {segments : List Bytes} :
    firstPod segments = none ↔ ∀ segment ∈ segments, podSegment.submatch segment = none := by
  induction segments with
  | nil => simp [firstPod]
  | cons segment rest ih =>
  rw [firstPod, List.forall_mem_cons]
  cases podSegment.submatch segment with
  | none => simpa using ih
  | some => simp

/-- Segments below the one after a pod's segment are not looked at. -/
theorem firstPod_append {segments : List Bytes} {uid next : Bytes} (more : List Bytes)
    (found : firstPod segments = some (uid, some next)) :
    firstPod (segments ++ more) = some (uid, some next) := by
  induction segments with
  | nil => cases found
  | cons segment rest ih =>
  rw [List.cons_append, firstPod]
  rw [firstPod] at found
  cases isPod : podSegment.submatch segment with
  | none =>
    rw [isPod] at found
    exact ih found
  | some =>
    rw [isPod] at found
    cases rest with
    | nil => simp at found
    | cons => exact found

theorem parseCgroupPath_ne_notAPod (path : Bytes) : parseCgroupPath path ≠ .error .notAPod := by
  unfold parseCgroupPath
  repeat' split
  all_goals simp

variable {path line : Bytes} {ref : ContainerRef} {found after : Option ContainerRef}
  {lines : List Bytes}

theorem parseCgroupPath_eq_none_iff :
    parseCgroupPath path = .ok none ↔ ∀ segment ∈ segments path, ¬ Telling segment := by
  have split : (∀ segment ∈ segments path, ¬ Telling segment) ↔
      firstPod (segments path) = none ∧ (segments path).any (fun segment =>
        Text.contains segment (ascii "kubepods") ||
          (containerSegment.submatch segment).isSome) = false := by
    rw [firstPod_eq_none_iff, List.any_eq_false, ← forall₂_and]
    refine forall₂_congr fun segment _ => ?_
    simp only [Telling, not_or, Bool.not_eq_true, Option.isSome_eq_false_iff,
      Option.isNone_iff_eq_none, Bool.or_eq_false_iff]
  rw [split]
  unfold parseCgroupPath
  cases firstPod (segments path) with
  | none => split <;> simp_all
  | some found =>
  obtain ⟨uid, _ | segment⟩ := found
  · simp
  · dsimp only
    split <;> simp

/-- A path that names a container, with further segments below it. -/
theorem parseCgroupPath_below (more : Bytes) (named : parseCgroupPath path = .ok (some ref)) :
    parseCgroupPath (path ++ 47 :: more) = .ok (some ref) := by
  have isSplit : segments (path ++ 47 :: more) = segments path ++ segments more :=
    List.splitOn_append_cons_self path more
  unfold parseCgroupPath at named ⊢
  cases found : firstPod (segments path) with
  | none =>
    rw [found] at named
    dsimp only at named
    split at named <;> cases named
  | some found' =>
    obtain ⟨uid, _ | segment⟩ := found'
    · rw [found] at named
      cases named
    · rw [found] at named
      rw [isSplit, firstPod_append _ found]
      exact named

/-- The line names no container and does not look like it either. -/
def Silent (line : Bytes) : Prop :=
  ∀ path, cgroupPath line = some path → parseCgroupPath path = .ok none

theorem parseLine_of_silent (silent : Silent line) (found : Option ContainerRef) :
    parseLine found line = .ok found := by
  unfold parseLine
  cases isPath : cgroupPath line with
  | none => rfl
  | some path =>
    dsimp only
    rw [silent path isPath]

theorem parseLine_eq_ok (parsed : parseLine found line = .ok after) :
    (Silent line ∧ after = found) ∨
      ∃ path ref, cgroupPath line = some path ∧ parseCgroupPath path = .ok (some ref) ∧
        after = some ref ∧ ∀ before, found = some before → before = ref := by
  unfold parseLine at parsed
  cases isPath : cgroupPath line with
  | none =>
    rw [isPath] at parsed
    exact .inl ⟨fun path named => by simp [isPath] at named, (Except.ok.inj parsed).symm⟩
  | some path =>
  simp only [isPath] at parsed
  cases named : parseCgroupPath path with
  | error => simp [named] at parsed
  | ok ref =>
  rw [named] at parsed
  cases ref with
  | none =>
    refine .inl ⟨fun other isOther => ?_, (Except.ok.inj parsed).symm⟩
    obtain rfl := Option.some.inj (isPath.symm.trans isOther)
    exact named
  | some ref =>
    refine .inr ⟨path, ref, rfl, named, ?_⟩
    cases found with
    | none => exact ⟨(Except.ok.inj parsed).symm, by simp⟩
    | some found =>
    dsimp only at parsed
    split at parsed
    · cases parsed
    rename_i same
    refine ⟨(Except.ok.inj parsed).symm, fun before isFound => ?_⟩
    rw [← Option.some.inj isFound]
    exact (not_not.mp same).symm

theorem parseLine_ne_notAPod (found : Option ContainerRef) (line : Bytes) :
    parseLine found line ≠ .error .notAPod := by
  unfold parseLine
  cases cgroupPath line with
  | none => simp
  | some path =>
  have other := parseCgroupPath_ne_notAPod path
  dsimp only
  repeat' split
  all_goals simp_all

theorem foldlM_silent (silent : ∀ line ∈ lines, Silent line) (found : Option ContainerRef) :
    lines.foldlM parseLine found = .ok found := by
  induction lines with
  | nil => rfl
  | cons line lines ih =>
    rw [List.forall_mem_cons] at silent
    rw [List.foldlM_cons, parseLine_of_silent silent.1]
    exact ih silent.2

/-- The lines that were read agree, with each other and with what was found before. -/
theorem foldlM_eq_ok (parsed : lines.foldlM parseLine found = .ok after) :
    (after = none → found = none ∧ ∀ line ∈ lines, Silent line) ∧
      ∀ ref, after = some ref → (∀ before, found = some before → before = ref) ∧
        ∀ line ∈ lines, ∀ path named, cgroupPath line = some path →
          parseCgroupPath path = .ok (some named) → named = ref := by
  induction lines generalizing found with
  | nil =>
    obtain rfl := Except.ok.inj parsed
    exact ⟨fun missing => ⟨missing, by simp⟩, fun ref isRef =>
      ⟨fun before isBefore => Option.some.inj (isBefore.symm.trans isRef), by simp⟩⟩
  | cons line lines ih =>
    rw [List.foldlM_cons] at parsed
    cases first : parseLine found line with
    | error => simp [first, bind, Except.bind] at parsed
    | ok =>
    rw [first] at parsed
    obtain ⟨silent, agree⟩ := ih parsed
    rcases parseLine_eq_ok first with ⟨isSilent, rfl⟩ | ⟨path, ref, isPath, named, rfl, same⟩
    · refine ⟨fun missing => ⟨(silent missing).1, ?_⟩, fun ref isRef => ⟨(agree ref isRef).1, ?_⟩⟩
      · exact List.forall_mem_cons.mpr ⟨isSilent, (silent missing).2⟩
      · refine List.forall_mem_cons.mpr ⟨fun path named isPath isNamed => ?_, (agree ref isRef).2⟩
        rw [isSilent path isPath] at isNamed
        cases isNamed
    · refine ⟨fun missing => by simpa using (silent missing).1, fun last isLast => ?_⟩
      obtain ⟨sameRef, others⟩ := agree last isLast
      obtain rfl := sameRef ref rfl
      refine ⟨same, List.forall_mem_cons.mpr ⟨fun other named' isOther isNamed => ?_, others⟩⟩
      obtain rfl := Option.some.inj (isPath.symm.trans isOther)
      rw [named] at isNamed
      exact (Option.some.inj (Except.ok.inj isNamed)).symm

theorem foldlM_ne_notAPod (lines : List Bytes) (found : Option ContainerRef) :
    lines.foldlM parseLine found ≠ .error .notAPod := by
  induction lines generalizing found with
  | nil => simp [pure, Except.pure]
  | cons line lines ih =>
  rw [List.foldlM_cons]
  cases first : parseLine found line with
  | error =>
    rintro same
    obtain rfl := Except.error.inj same
    exact parseLine_ne_notAPod found line first
  | ok mid => exact ih mid

theorem parseCgroup_notAPod_iff (file : CgroupFile) :
    parseCgroup file = .error .notAPod ↔ file.scan.2 = false ∧ file.failed = false ∧
      ∀ path, file.Names path → ∀ segment ∈ segments path, ¬ Telling segment := by
  have silent_iff : (∀ line ∈ file.scan.1, Silent line) ↔
      ∀ path, file.Names path → ∀ segment ∈ segments path, ¬ Telling segment := by
    simp only [← parseCgroupPath_eq_none_iff, CgroupFile.Names, Silent]
    grind
  rw [← silent_iff]
  unfold parseCgroup
  constructor
  · intro refused
    cases parsed : file.scan.1.foldlM parseLine none with
    | error =>
      rw [parsed] at refused
      obtain rfl := Except.error.inj refused
      exact absurd parsed (foldlM_ne_notAPod _ _)
    | ok found =>
      simp only [parsed] at refused
      split at refused
      · cases refused
      split at refused
      · cases refused
      · cases found with
        | some => cases refused
        | none => exact ⟨by simp_all, by simp_all, ((foldlM_eq_ok parsed).1 rfl).2⟩
  · rintro ⟨short, whole, silent⟩
    rw [foldlM_silent silent]
    simp [short, whole]

theorem parseCgroup_eq_ok {file : CgroupFile} (parsed : parseCgroup file = .ok ref) :
    file.scan.1.foldlM parseLine none = .ok (some ref) ∧ file.scan.2 = false ∧
      file.failed = false := by
  unfold parseCgroup at parsed
  cases isParsed : file.scan.1.foldlM parseLine none with
  | error => simp [isParsed] at parsed
  | ok found =>
  simp only [isParsed] at parsed
  split at parsed
  · cases parsed
  split at parsed
  · cases parsed
  · cases found with
    | none => cases parsed
    | some => simp_all

/-! ## Further segments -/

theorem parseLine_below (more : Bytes) (isPath : cgroupPath line = some path)
    (named : parseCgroupPath path = .ok (some ref)) (found : Option ContainerRef) :
    parseLine found (line ++ 47 :: more) = parseLine found line := by
  have isBelow : cgroupPath (line ++ 47 :: more) = some (path ++ 47 :: more) := by
    obtain ⟨⟨first, rest⟩, isFirst, isRest⟩ := Option.bind_eq_some_iff.mp isPath
    obtain ⟨⟨second, path⟩, isSecond, rfl⟩ := Option.map_eq_some_iff.mp isRest
    unfold cgroupPath
    rw [Text.cut_append_right _ isFirst, Option.bind_some]
    dsimp only
    rw [Text.cut_append_right _ isSecond, Option.map_some]
  unfold parseLine
  rw [isPath, isBelow]
  dsimp only
  rw [named, parseCgroupPath_below more named]

theorem dropCR_below (line more : Bytes) :
    ∃ rest, dropCR (line ++ 47 :: more) = line ++ 47 :: rest := by
  unfold dropCR
  split
  · rename_i isLast
    cases more with
    | nil => simp at isLast
    | cons byte more =>
      refine ⟨(byte :: more).dropLast, ?_⟩
      rw [List.dropLast_append_of_ne_nil (by simp), List.dropLast_cons_of_ne_nil (by simp)]
  · exact ⟨more, rfl⟩

/-- Another text in the place of one line. -/
theorem scan_swap {piece other : Bytes} (nonempty : piece ≠ []) (nonempty' : other ≠ [])
    (short : piece.length < maxScanTokenSize) (short' : other.length < maxScanTokenSize)
    (earlier later : List Bytes) :
    scan (earlier ++ piece :: later) = scan (earlier ++ other :: later) ∨
      ∃ before after tooLong,
        scan (earlier ++ piece :: later) = (before ++ dropCR piece :: after, tooLong) ∧
        scan (earlier ++ other :: later) = (before ++ dropCR other :: after, tooLong) := by
  induction earlier with
  | nil =>
    refine .inr ⟨[], (scan later).1, (scan later).2, ?_⟩
    simp only [List.nil_append]
    rw [scan.eq_3 _ _ fun same => absurd same nonempty, scan.eq_3 _ _ fun same => absurd same nonempty',
      if_neg (not_le.mpr short), if_neg (not_le.mpr short')]
    exact ⟨rfl, rfl⟩
  | cons first earlier ih =>
    rw [List.cons_append, List.cons_append, scan.eq_3 _ _ (by simp), scan.eq_3 _ _ (by simp)]
    split
    · exact .inl rfl
    rcases ih with same | ⟨before, after, tooLong, isScan, isScan'⟩
    · rw [same]
      exact .inl rfl
    · rw [isScan, isScan']
      exact .inr ⟨dropCR first :: before, after, tooLong, rfl, rfl⟩

/-- A process in a container cannot change what its file says by making cgroups below the
container's. -/
theorem parseCgroup_below {earlier later : List Bytes} {more : Bytes}
    (plain : ∀ piece ∈ earlier ++ (line ++ 47 :: more) :: later, 10 ∉ piece)
    (ends : line.getLast? ≠ some 13) (fits : (line ++ 47 :: more).length < maxScanTokenSize)
    (isPath : cgroupPath line = some path) (named : parseCgroupPath path = .ok (some ref))
    (failed : Bool) :
    parseCgroup ⟨Separated.join 10 (earlier ++ (line ++ 47 :: more) :: later), failed⟩ =
      parseCgroup ⟨Separated.join 10 (earlier ++ line :: later), failed⟩ := by
  have nonempty : line ≠ [] := by
    rintro rfl
    cases isPath
  have plain' : ∀ piece ∈ earlier ++ line :: later, 10 ∉ piece := by
    rw [List.forall_mem_append, List.forall_mem_cons] at plain ⊢
    exact ⟨plain.1, fun member => plain.2.1 (List.mem_append_left _ member), plain.2.2⟩
  have isScan (pieces : List Bytes) (isPlain : ∀ piece ∈ pieces, 10 ∉ piece) (some : pieces ≠ []) :
      CgroupFile.scan ⟨Separated.join 10 pieces, failed⟩ = scan pieces :=
    congrArg scan (List.splitOn_intercalate 10 isPlain some)
  have swapped := scan_swap (by simp) nonempty fits (lt_of_le_of_lt (by simp) fits) earlier later
  unfold parseCgroup
  rw [isScan _ plain (by simp), isScan _ plain' (by simp)]
  rcases swapped with same | ⟨before, after, tooLong, isFirst, isSecond⟩
  · rw [same]
  obtain ⟨rest, isRest⟩ := dropCR_below line more
  rw [isFirst, isSecond, isRest, dropCR, if_neg ends]
  have sameLine := fun found => parseLine_below rest isPath named found
  simp only [List.foldlM_append, List.foldlM_cons, sameLine]

/-- A process is taken for one outside of pods only if nothing in its file says otherwise. -/
theorem pods_stay_apart (file : CgroupFile) :
    (parseCgroup file = .error .notAPod ↔ file.scan.2 = false ∧ file.failed = false ∧
      ∀ path, file.Names path → ∀ segment ∈ segments path, ¬ Telling segment) ∧
    (∀ ref, parseCgroup file = .ok ref → ∀ path named, file.Names path →
      parseCgroupPath path = .ok (some named) → named = ref) ∧
    (∀ path ref, parseCgroupPath path = .ok (some ref) → ∀ more,
      parseCgroupPath (path ++ 47 :: more) = .ok (some ref)) ∧
    ∀ (earlier later : List Bytes) (line path more : Bytes) (ref : ContainerRef) (failed : Bool),
      (∀ piece ∈ earlier ++ (line ++ 47 :: more) :: later, 10 ∉ piece) →
      line.getLast? ≠ some 13 → (line ++ 47 :: more).length < maxScanTokenSize →
      cgroupPath line = some path → parseCgroupPath path = .ok (some ref) →
      parseCgroup ⟨Separated.join 10 (earlier ++ (line ++ 47 :: more) :: later), failed⟩ =
        parseCgroup ⟨Separated.join 10 (earlier ++ line :: later), failed⟩ := by
  refine ⟨parseCgroup_notAPod_iff file, ?_, ?_, ?_⟩
  · rintro ref parsed path named ⟨line, member, isPath⟩ isNamed
    exact ((foldlM_eq_ok (parseCgroup_eq_ok parsed).1).2 ref rfl).2 line member path named isPath
      isNamed
  · intro path ref named more
    exact parseCgroupPath_below more named
  · intro earlier later line path more ref failed plain ends fits isPath named
    exact parseCgroup_below plain ends fits isPath named failed

/-- A process of the host. -/
def hostFile : CgroupFile :=
  ⟨ascii "1:cpu:/user.slice\n0::/user.slice/session-1.scope\n", false⟩

theorem pods_stay_apart_host :
    parseCgroup hostFile = .error .notAPod ∧
      ∀ path, hostFile.Names path → ∀ segment ∈ segments path, ¬ Telling segment := by
  have refused : parseCgroup hostFile = .error .notAPod := by decide +kernel
  exact ⟨refused, ((pods_stay_apart hostFile).1.mp refused).2.2⟩

end OmegaPlane.Attestor
