import OmegaPlane.Attestor.Cgroup

/-!
# The cgroups of the kubelet

The kubelet names the cgroup of a pod after its UID: a UUID, or for a static pod the hash
of its configuration.  What the attestor reads back of each layout.
-/

namespace OmegaPlane.Attestor

/-! ## What the patterns read -/

abbrev Digits (count : Nat) := {text : Bytes // text.length = count ∧ ∀ byte ∈ text, hexDigit byte}

structure Uuid where
  a : Digits 8
  b : Digits 4
  c : Digits 4
  d : Digits 4
  e : Digits 12

/-- The groups of digits with the separators between them. -/
def Uuid.text (uuid : Uuid) (w x y z : UInt8) : Bytes :=
  uuid.a.1 ++ w :: (uuid.b.1 ++ x :: (uuid.c.1 ++ y :: (uuid.d.1 ++ z :: uuid.e.1)))

def IsUuid (word : Bytes) : Prop :=
  ∃ (uuid : Uuid) (w x y z : UInt8), dash w ∧ dash x ∧ dash y ∧ dash z ∧ word = uuid.text w x y z

theorem uuidPattern_reads : uuidPattern.Reads IsUuid := by
  have digits (count : Nat) := Regexp.Reads.times count hexDigit
  have sep := Regexp.Reads.oneOf dash
  refine ((digits 8).seq <| sep.seq <| (digits 4).seq <| sep.seq <| (digits 4).seq <| sep.seq <|
    (digits 4).seq <| sep.seq <| (digits 12).seq .empty).of_iff fun word => ?_
  constructor
  · rintro ⟨a, _, isA, ⟨_, _, ⟨w, isW, rfl⟩, ⟨b, _, isB, ⟨_, _, ⟨x, isX, rfl⟩, ⟨c, _, isC,
      ⟨_, _, ⟨y, isY, rfl⟩, ⟨d, _, isD, ⟨_, _, ⟨z, isZ, rfl⟩, ⟨e, _, isE, rfl, rfl⟩, rfl⟩, rfl⟩,
      rfl⟩, rfl⟩, rfl⟩, rfl⟩, rfl⟩, rfl⟩
    refine ⟨⟨⟨a, isA⟩, ⟨b, isB⟩, ⟨c, isC⟩, ⟨d, isD⟩, ⟨e, isE⟩⟩, w, x, y, z, isW, isX, isY, isZ, ?_⟩
    simp [Uuid.text]
  · rintro ⟨⟨a, b, c, d, e⟩, w, x, y, z, isW, isX, isY, isZ, rfl⟩
    exact ⟨_, _, a.2, ⟨_, _, ⟨w, isW, rfl⟩, ⟨_, _, b.2, ⟨_, _, ⟨x, isX, rfl⟩, ⟨_, _, c.2,
      ⟨_, _, ⟨y, isY, rfl⟩, ⟨_, _, d.2, ⟨_, _, ⟨z, isZ, rfl⟩, ⟨_, _, e.2, rfl, rfl⟩, rfl⟩, rfl⟩,
      rfl⟩, rfl⟩, rfl⟩, rfl⟩, rfl⟩, by simp [Uuid.text]⟩

variable {word segment captured : Bytes} {lines : List Bytes} {found : Option ContainerRef}

theorem IsUuid.length (isUuid : IsUuid word) : word.length = 36 := by
  obtain ⟨⟨a, b, c, d, e⟩, w, x, y, z, -, -, -, -, rfl⟩ := isUuid
  simp [Uuid.text, a.2.1, b.2.1, c.2.1, d.2.1, e.2.1]

theorem IsUuid.bytes (isUuid : IsUuid word) :
    (∀ byte ∈ word, hexDigit byte ∨ dash byte) ∧ ∃ byte ∈ word, dash byte := by
  obtain ⟨⟨a, b, c, d, e⟩, w, x, y, z, isW, isX, isY, isZ, rfl⟩ := isUuid
  refine ⟨?_, w, by simp [Uuid.text], isW⟩
  simp only [Uuid.text, List.mem_append, List.mem_cons]
  rintro byte (member | rfl | member | rfl | member | rfl | member | rfl | member)
  · exact .inl (a.2.2 _ member)
  · exact .inr isW
  · exact .inl (b.2.2 _ member)
  · exact .inr isX
  · exact .inl (c.2.2 _ member)
  · exact .inr isY
  · exact .inl (d.2.2 _ member)
  · exact .inr isZ
  · exact .inl (e.2.2 _ member)

theorem podSegment_finds_iff :
    podSegment.Finds true segment captured ↔ IsUuid captured ∧
      ∃ lead, (lead = [] ∨ ∃ front sep, dash sep ∧ lead = front ++ [sep]) ∧
        (segment = lead ++ (ascii "pod" ++ (captured ++ ascii ".slice")) ∨
          segment = lead ++ (ascii "pod" ++ captured)) := by
  constructor
  · rintro ⟨skipped, rest, rfl, way, member, captures⟩
    obtain ⟨mid, leads, member⟩ := Regexp.mem_ways_concat.mp member
    obtain ⟨next, reads, member⟩ := Regexp.mem_ways_concat.mp member
    obtain ⟨_, rfl, isMid, -⟩ := (Regexp.Reads.literal _ _ _).mp reads
    obtain ⟨isUuid, isNext⟩ := (Regexp.captures_at_end uuidPattern_reads _ _ _).mp
      ⟨way, member, captures⟩
    refine ⟨isUuid, ?_⟩
    obtain ⟨lead, isLead, isAll⟩ : ∃ lead, (lead = [] ∨ ∃ front sep, dash sep ∧
        lead = front ++ [sep]) ∧ skipped ++ rest = lead ++ mid.rest := by
      rcases List.mem_append.mp leads with atStart | afterSep
      · simp only [Regexp.ways] at atStart
        split at atStart
        · rename_i isFresh
          obtain rfl := List.mem_singleton.mp atStart
          obtain rfl : skipped = [] := by simpa using isFresh
          exact ⟨[], .inl rfl, rfl⟩
        · cases atStart
      · obtain ⟨_, ⟨sep, isSep, rfl⟩, isRest, -⟩ := (Regexp.Reads.oneOf dash _ _).mp afterSep
        refine ⟨skipped ++ [sep], .inr ⟨skipped, sep, isSep, rfl⟩, ?_⟩
        dsimp only at isRest
        rw [isRest, List.append_assoc]
    refine ⟨lead, isLead, ?_⟩
    rw [isAll, isMid]
    exact isNext.imp (fun same => by rw [same]) fun same => by rw [same]
  · rintro ⟨isUuid, lead, isLead, isSegment⟩
    obtain ⟨tail, isTail, rfl⟩ : ∃ tail, (tail = captured ++ ascii ".slice" ∨ tail = captured) ∧
        segment = lead ++ (ascii "pod" ++ tail) := by
      rcases isSegment with rfl | rfl
      · exact ⟨_, .inl rfl, rfl⟩
      · exact ⟨_, .inr rfl, rfl⟩
    obtain ⟨way, member, captures⟩ := (Regexp.captures_at_end uuidPattern_reads (ascii ".slice")
      ⟨false, tail, none⟩ captured).mpr ⟨isUuid, isTail⟩
    have reads (fresh : Bool) : (⟨false, tail, none⟩ : Regexp.Cursor) ∈
        (Regexp.literal (ascii "pod")).ways ⟨fresh, ascii "pod" ++ tail, none⟩ :=
      (Regexp.Reads.literal _ _ _).mpr ⟨_, rfl, rfl, (Bool.and_false _).symm, rfl⟩
    rcases isLead with rfl | ⟨front, sep, isSep, rfl⟩
    · refine ⟨[], _, rfl, way, ?_, captures⟩
      refine Regexp.mem_ways_concat.mpr ⟨⟨true, ascii "pod" ++ tail, none⟩, by simp, ?_⟩
      exact Regexp.mem_ways_concat.mpr ⟨_, reads true, member⟩
    · refine ⟨front, sep :: (ascii "pod" ++ tail), by simp, way, ?_, captures⟩
      refine Regexp.mem_ways_concat.mpr ⟨⟨false, ascii "pod" ++ tail, none⟩, ?_, ?_⟩
      · exact List.mem_append_right _ (by simp [isSep])
      · exact Regexp.mem_ways_concat.mpr ⟨_, reads false, member⟩

theorem IsUuid.notMem (isUuid : IsUuid word) {byte : UInt8} (notDigit : hexDigit byte = false)
    (notDash : dash byte = false) : byte ∉ word := by
  intro member
  rcases isUuid.bytes.1 byte member with digit | isDash <;> simp_all

/-- A UUID that ends a text as another suffix of the text does has no byte but digits and
dashes. -/
theorem IsUuid.suffix {tail : Bytes} (isUuid : IsUuid word) (ends : word <:+ segment)
    (isTail : tail <:+ segment) (short : tail.length ≤ 36) (byte : UInt8) (member : byte ∈ tail) :
    hexDigit byte ∨ dash byte :=
  isUuid.bytes.1 byte <|
    (List.suffix_of_suffix_length_le isTail ends (short.trans_eq isUuid.length.symm)).subset member

theorem podSegment_submatch (finds : podSegment.Finds true segment captured) :
    podSegment.submatch segment = some captured := by
  refine Regexp.submatch_eq_some finds fun other finds' => ?_
  obtain ⟨isUuid, lead, -, isSegment⟩ := podSegment_finds_iff.mp finds
  obtain ⟨isUuid', lead', -, isSegment'⟩ := podSegment_finds_iff.mp finds'
  have dot : ¬ (hexDigit 46 ∨ dash 46) := by decide
  have same (before before' : Bytes) (isSame : before' ++ other = before ++ captured) :
      other = captured :=
    (List.append_inj' isSame (isUuid'.length.trans isUuid.length.symm)).2
  -- `.slice` cannot be a part of the UUID
  have apart {word before before' : Bytes} (isWord : IsUuid word)
      (isSame : before' ++ word = before ++ ascii ".slice") : False :=
    dot (isWord.suffix (isSame ▸ List.suffix_append _ _) (List.suffix_append _ _) (by decide) 46
      (by decide))
  rcases isSegment with rfl | rfl <;> rcases isSegment' with isSame | isSame
  · simp only [← List.append_assoc, List.append_cancel_right_eq] at isSame
    exact same _ _ isSame.symm
  · simp only [← List.append_assoc] at isSame
    exact (apart isUuid' isSame.symm).elim
  · simp only [← List.append_assoc] at isSame
    exact (apart isUuid isSame).elim
  · simp only [← List.append_assoc] at isSame
    exact same _ _ isSame.symm

inductive Runtime where
  | containerd
  | crio
  | docker

def Runtime.name : Runtime → Bytes
  | .containerd => ascii "cri-containerd-"
  | .crio => ascii "crio-"
  | .docker => ascii "docker-"

theorem containerSegment_finds_iff :
    containerSegment.Finds true segment captured ↔
      (captured.length = 64 ∧ ∀ byte ∈ captured, hexDigit byte) ∧
        ∃ lead, ((∃ runtime : Runtime, lead = runtime.name) ∨ lead = []) ∧
          (segment = lead ++ (captured ++ ascii ".scope") ∨ segment = lead ++ captured) := by
  have lead_reads := (((Regexp.Reads.literal (ascii "cri-containerd-")).alt
    ((Regexp.Reads.literal (ascii "crio-")).alt (.literal (ascii "docker-")))).alt .empty).of_iff
      fun lead => show _ ↔ (∃ runtime : Runtime, lead = runtime.name) ∨ lead = [] by
        refine or_congr_left ⟨?_, ?_⟩
        · rintro (isName | isName | isName)
          · exact ⟨.containerd, isName⟩
          · exact ⟨.crio, isName⟩
          · exact ⟨.docker, isName⟩
        · rintro ⟨_ | _ | _, isName⟩
          · exact .inl isName
          · exact .inr (.inl isName)
          · exact .inr (.inr isName)
  have digits := Regexp.Reads.times 64 hexDigit
  constructor
  · rintro ⟨skipped, rest, rfl, way, member, captures⟩
    obtain ⟨mid, atStart, member⟩ := Regexp.mem_ways_concat.mp member
    obtain ⟨next, leads, member⟩ := Regexp.mem_ways_concat.mp member
    obtain ⟨lead, isLead, isMid, -⟩ := (lead_reads _ _).mp leads
    obtain ⟨isDigits, isNext⟩ := (Regexp.captures_at_end digits _ _ _).mp ⟨way, member, captures⟩
    simp only [Regexp.ways] at atStart
    split at atStart
    · rename_i isFresh
      obtain rfl := List.mem_singleton.mp atStart
      obtain rfl : skipped = [] := by simpa using isFresh
      refine ⟨isDigits, lead, isLead, ?_⟩
      dsimp only at isMid
      rw [List.nil_append, isMid]
      exact isNext.imp (fun same => by rw [same]) fun same => by rw [same]
    · cases atStart
  · rintro ⟨isDigits, lead, isLead, isSegment⟩
    obtain ⟨tail, isTail, rfl⟩ : ∃ tail, (tail = captured ++ ascii ".scope" ∨ tail = captured) ∧
        segment = lead ++ tail := by
      rcases isSegment with rfl | rfl
      · exact ⟨_, .inl rfl, rfl⟩
      · exact ⟨_, .inr rfl, rfl⟩
    obtain ⟨way, member, captures⟩ := (Regexp.captures_at_end digits (ascii ".scope")
      ⟨lead.isEmpty, tail, none⟩ captured).mpr ⟨isDigits, isTail⟩
    refine ⟨[], _, rfl, way, ?_, captures⟩
    refine Regexp.mem_ways_concat.mpr ⟨⟨true, lead ++ tail, none⟩, by simp, ?_⟩
    refine Regexp.mem_ways_concat.mpr ⟨⟨lead.isEmpty, tail, none⟩, ?_, member⟩
    exact (lead_reads _ _).mpr ⟨lead, isLead, rfl, rfl, rfl⟩

/-! ## Layouts -/

/-- The UID of a pod. -/
inductive PodUID where
  | assigned (uuid : Uuid)
  /-- A static pod has the hash of its configuration. -/
  | static (hash : Digits 32)

def PodUID.text : PodUID → Bytes
  | .assigned uuid => uuid.text 45 45 45 45
  | .static hash => hash.1

/-- In the names of slices, dashes are underscores. -/
def PodUID.escaped (uid : PodUID) : Bytes :=
  uid.text.map fun byte => if byte = 45 then 95 else byte

inductive Driver where
  | cgroupfs
  | systemd (slice : Bytes) (runtime : Runtime)

def Driver.podSegment : Driver → PodUID → Bytes
  | .cgroupfs, uid => ascii "pod" ++ uid.text
  | .systemd slice _, uid => slice ++ (ascii "-pod" ++ (uid.escaped ++ ascii ".slice"))

def Driver.containerSegment : Driver → Digits 64 → Bytes
  | .cgroupfs, id => id.1
  | .systemd _ runtime, id => runtime.name ++ (id.1 ++ ascii ".scope")

/-- A driver below segments of which none is a pod's. -/
structure Layout where
  above : List Bytes
  driver : Driver
  plain : ∀ segment ∈ above, 47 ∉ segment
  outside : ∀ segment ∈ above, Attestor.podSegment.submatch segment = none
  whole : ∀ slice runtime, driver = .systemd slice runtime → 47 ∉ slice

def Layout.path (layout : Layout) (uid : PodUID) (id : Digits 64) : Bytes :=
  Separated.join 47
    (layout.above ++ [layout.driver.podSegment uid, layout.driver.containerSegment id])

/-- Replacing another byte leaves digits as they are. -/
theorem Digits.map_replace {count : Nat} (digits : Digits count) {old : UInt8} (new : UInt8)
    (other : hexDigit old = false) :
    digits.1.map (fun byte => if byte = old then new else byte) = digits.1 := by
  refine (List.map_congr_left fun byte member => ?_).trans (List.map_id _)
  rw [if_neg]
  · rfl
  · rintro rfl
    exact absurd (digits.2.2 _ member) (by simp [other])

theorem escaped_assigned (uuid : Uuid) :
    (PodUID.assigned uuid).escaped = uuid.text 95 95 95 95 := by
  have same {count : Nat} (digits : Digits count) :=
    digits.map_replace 95 (show hexDigit 45 = false by decide)
  simp [PodUID.escaped, PodUID.text, Uuid.text, same]

theorem canonical_text (uuid : Uuid) {sep : UInt8} (isDash : dash sep) :
    canonical (uuid.text sep sep sep sep) = uuid.text 45 45 45 45 := by
  have same {count : Nat} (digits : Digits count) :=
    digits.map_replace 45 (show hexDigit 95 = false by decide)
  have isSep : (if sep = 95 then 45 else sep) = 45 := by
    simp only [dash, decide_eq_true_eq] at isDash
    rcases isDash with rfl | rfl <;> rfl
  simp [canonical, Uuid.text, same, isSep]

theorem podSegment_assigned (driver : Driver) (uuid : Uuid) :
    ∃ sep, dash sep ∧ podSegment.submatch (driver.podSegment (.assigned uuid)) =
      some (uuid.text sep sep sep sep) := by
  have isUuid {sep : UInt8} (isDash : dash sep) : IsUuid (uuid.text sep sep sep sep) :=
    ⟨uuid, sep, sep, sep, sep, isDash, isDash, isDash, isDash, rfl⟩
  cases driver with
  | cgroupfs =>
    refine ⟨45, by decide, podSegment_submatch (podSegment_finds_iff.mpr ⟨isUuid (by decide), ?_⟩)⟩
    exact ⟨[], .inl rfl, .inr rfl⟩
  | systemd slice =>
    refine ⟨95, by decide, podSegment_submatch (podSegment_finds_iff.mpr ⟨isUuid (by decide), ?_⟩)⟩
    refine ⟨slice ++ [45], .inr ⟨slice, 45, by decide, rfl⟩, .inl ?_⟩
    rw [Driver.podSegment, escaped_assigned, List.append_assoc]
    rfl

/-- The hash of a static pod is not read as a UID. -/
theorem podSegment_static (driver : Driver) (hash : Digits 32) :
    podSegment.submatch (driver.podSegment (.static hash)) = none := by
  refine Regexp.submatch_eq_none_iff.mpr fun captured finds => ?_
  obtain ⟨isUuid, lead, -, isSegment⟩ := podSegment_finds_iff.mp finds
  cases driver with
  | cgroupfs =>
    have lengths : 39 ≤ (ascii "pod" ++ hash.1).length := by
      rcases isSegment with same | same <;> rw [Driver.podSegment, PodUID.text] at same <;>
        simp only [same, List.length_append, isUuid.length, show (ascii "pod").length = 3 from rfl] <;>
        omega
    rw [List.length_append, hash.2.1] at lengths
    exact absurd lengths (by decide)
  | systemd slice =>
    have isEscaped : (PodUID.static hash).escaped = hash.1 :=
      hash.map_replace 95 (by decide)
    rw [Driver.podSegment, isEscaped] at isSegment
    rcases isSegment with same | same
    · -- the UUID would be the hash and the four bytes before it
      simp only [← List.append_assoc, List.append_cancel_right_eq] at same
      have isTail : ascii "pod" ++ hash.1 <:+ slice ++ ascii "-pod" ++ hash.1 :=
        ⟨slice ++ ascii "-", by simp [ascii]⟩
      have := isUuid.suffix (same ▸ List.suffix_append _ _) isTail (by simp [hash.2.1, ascii])
        112 (by simp [ascii])
      exact absurd this (by decide)
    · have isTail : ascii ".slice" <:+ slice ++ (ascii "-pod" ++ (hash.1 ++ ascii ".slice")) :=
        ⟨slice ++ (ascii "-pod" ++ hash.1), by simp⟩
      have := isUuid.suffix (by rw [same, ← List.append_assoc]; exact List.suffix_append _ _) isTail
        (by decide) 46 (by decide)
      exact absurd this (by decide)

theorem podSegment_container (driver : Driver) (id : Digits 64) :
    podSegment.submatch (driver.containerSegment id) = none := by
  refine Regexp.submatch_eq_none_iff.mpr fun captured finds => ?_
  obtain ⟨isUuid, lead, -, isSegment⟩ := podSegment_finds_iff.mp finds
  cases driver with
  | cgroupfs =>
    have member : 112 ∈ id.1 := by
      rcases isSegment with same | same <;> rw [Driver.containerSegment] at same <;>
        simp [same, ascii]
    exact absurd (id.2.2 _ member) (by decide)
  | systemd =>
    rw [Driver.containerSegment] at isSegment
    simp only [← List.append_assoc] at isSegment
    rcases isSegment with same | same
    · exact absurd (List.append_inj' same (by decide)).2 (by decide)
    have isTail : ascii ".scope" <:+ lead ++ ascii "pod" ++ captured :=
      same ▸ List.suffix_append _ _
    have := isUuid.suffix (List.suffix_append _ _) isTail (by decide) 46 (by decide)
    exact absurd this (by decide)

theorem containerSegment_id (driver : Driver) (id : Digits 64) :
    containerSegment.submatch (driver.containerSegment id) = some id.1 := by
  have lengths (runtime : Runtime) : runtime.name.length = 15 ∨ runtime.name.length = 5 ∨
      runtime.name.length = 7 := by
    cases runtime <;> decide
  refine Regexp.submatch_eq_some (containerSegment_finds_iff.mpr ⟨id.2, ?_⟩) fun other finds => ?_
  · cases driver with
    | cgroupfs => exact ⟨[], .inr rfl, .inr rfl⟩
    | systemd slice runtime => exact ⟨_, .inl ⟨runtime, rfl⟩, .inl rfl⟩
  · obtain ⟨isDigits, lead, isLead, isSegment⟩ := containerSegment_finds_iff.mp finds
    have leadLength : lead.length = 15 ∨ lead.length = 5 ∨ lead.length = 7 ∨ lead.length = 0 := by
      rcases isLead with ⟨runtime, rfl⟩ | rfl
      · have := lengths runtime
        omega
      · decide
    have isId := id.2.1
    have isScope : (ascii ".scope").length = 6 := rfl
    -- the lengths of the parts tell which of them are there
    cases driver with
    | cgroupfs =>
      rw [Driver.containerSegment] at isSegment
      rcases isSegment with same | same <;> have sum := congrArg List.length same <;>
        simp only [List.length_append, isId, isDigits.1, isScope] at sum
      · omega
      · rw [List.length_eq_zero_iff.mp (show lead.length = 0 by omega), List.nil_append] at same
        exact same.symm
    | systemd slice runtime =>
      have runtimeLength := lengths runtime
      rw [Driver.containerSegment] at isSegment
      rcases isSegment with same | same <;> have sum := congrArg List.length same <;>
        simp only [List.length_append, isId, isDigits.1, isScope] at sum
      · have parts := (List.append_inj same (by omega)).2
        exact (List.append_inj' parts rfl).1.symm
      · omega

/-! ## What is read back -/

theorem PodUID.slash_notMem (uid : PodUID) : 47 ∉ uid.text := by
  cases uid with
  | assigned uuid =>
    have isUuid : IsUuid (uuid.text 45 45 45 45) :=
      ⟨uuid, 45, 45, 45, 45, rfl, rfl, rfl, rfl, rfl⟩
    exact isUuid.notMem (by decide) (by decide)
  | static hash => exact fun member => absurd (hash.2.2 _ member) (by decide)

theorem segments_path (layout : Layout) (uid : PodUID) (id : Digits 64) :
    segments (layout.path uid id) =
      layout.above ++ [layout.driver.podSegment uid, layout.driver.containerSegment id] := by
  have isId : 47 ∉ id.1 := fun member => absurd (id.2.2 _ member) (by decide)
  refine List.splitOn_intercalate 47 ?_ (by simp)
  rw [List.forall_mem_append, List.forall_mem_cons, List.forall_mem_singleton]
  refine ⟨layout.plain, ?_⟩
  obtain ⟨above, driver, -, -, whole⟩ := layout
  cases driver with
  | cgroupfs =>
    refine ⟨?_, isId⟩
    rw [Driver.podSegment, List.mem_append, not_or]
    exact ⟨by decide, uid.slash_notMem⟩
  | systemd slice runtime =>
    have isEscaped : 47 ∉ uid.escaped := by
      intro member
      obtain ⟨byte, isByte, same⟩ := List.mem_map.mp member
      split at same
      · cases same
      · exact uid.slash_notMem (same ▸ isByte)
    have isName : 47 ∉ runtime.name := by cases runtime <;> decide
    simp only [Driver.podSegment, Driver.containerSegment, List.mem_append, not_or]
    exact ⟨⟨whole _ _ rfl, by decide, isEscaped, by decide⟩, isName, isId, by decide⟩

theorem firstPod_above {above : List Bytes}
    (outside : ∀ segment ∈ above, podSegment.submatch segment = none) (below : List Bytes) : firstPod (above ++ below) = firstPod below := by
  induction above with
  | nil => rfl
  | cons segment above ih =>
    rw [List.forall_mem_cons] at outside
    rw [List.cons_append, firstPod, outside.1]
    exact ih outside.2

theorem parseCgroupPath_assigned (layout : Layout) (uuid : Uuid) (id : Digits 64) :
    parseCgroupPath (layout.path (.assigned uuid) id) =
      .ok (some ⟨(PodUID.assigned uuid).text, id.1⟩) := by
  obtain ⟨sep, isDash, isPod⟩ := podSegment_assigned layout.driver uuid
  have found : firstPod (segments (layout.path (.assigned uuid) id)) =
      some (uuid.text sep sep sep sep, some (layout.driver.containerSegment id)) := by
    rw [segments_path, firstPod_above layout.outside, firstPod, isPod]
    rfl
  unfold parseCgroupPath
  rw [found]
  dsimp only
  rw [containerSegment_id, canonical_text uuid isDash]
  rfl

theorem parseCgroupPath_static (layout : Layout) (hash : Digits 32) (id : Digits 64) :
    parseCgroupPath (layout.path (.static hash) id) =
      .error (.unrecognised (layout.path (.static hash) id)) := by
  have missing : firstPod (segments (layout.path (.static hash) id)) = none := by
    rw [segments_path, firstPod_above layout.outside, firstPod, podSegment_static]
    dsimp only
    rw [firstPod, podSegment_container]
    rfl
  have isContainer := containerSegment_id layout.driver id
  unfold parseCgroupPath
  rw [missing]
  dsimp only
  rw [if_pos]
  rw [segments_path, List.any_append]
  simp [isContainer]

/-- A line that was read is one that can be. -/
theorem parseLine_of_mem {after : Option ContainerRef}
    (parsed : lines.foldlM parseLine found = .ok after) {line : Bytes} (member : line ∈ lines) :
    ∃ before mid, parseLine before line = .ok mid := by
  induction lines generalizing found with
  | nil => cases member
  | cons first lines ih =>
  rw [List.foldlM_cons] at parsed
  cases isFirst : parseLine found first with
  | error => simp [isFirst, bind, Except.bind] at parsed
  | ok mid =>
  rw [isFirst] at parsed
  rcases List.mem_cons.mp member with rfl | later
  · exact ⟨found, mid, isFirst⟩
  · exact ih parsed later

/-- Lines that name a container, beside others that name none. -/
theorem foldlM_of_named {ref : ContainerRef} (agrees : ∀ before, found = some before → before = ref)
    (each : ∀ line ∈ lines, Silent line ∨
      ∃ path, cgroupPath line = some path ∧ parseCgroupPath path = .ok (some ref))
    (once : found = some ref ∨ ∃ line ∈ lines, ¬ Silent line) :
    lines.foldlM parseLine found = .ok (some ref) := by
  induction lines generalizing found with
  | nil => simpa [pure, Except.pure] using once
  | cons line lines ih =>
  rw [List.forall_mem_cons] at each
  rw [List.foldlM_cons]
  rcases each.1 with silent | ⟨path, isPath, named⟩
  · rw [parseLine_of_silent silent]
    refine ih agrees each.2 (once.imp_right ?_)
    rintro ⟨other, member, telling⟩
    rcases List.mem_cons.mp member with rfl | later
    · exact absurd silent telling
    · exact ⟨other, later, telling⟩
  · have isRef : parseLine found line = .ok (some ref) := by
      unfold parseLine
      rw [isPath]
      dsimp only
      rw [named]
      cases found with
      | none => rfl
      | some before =>
        obtain rfl := agrees before rfl
        simp
    rw [isRef]
    exact ih (by simp) each.2 (.inl rfl)

/-- The attestor reads back every pod but a static one. -/
theorem kubelet_cgroup_read_iff (uid : PodUID) (id : Digits 64) {file : CgroupFile}
    (short : file.scan.2 = false) (whole : file.failed = false)
    (each : ∀ line ∈ file.scan.1,
      Silent line ∨ ∃ layout : Layout, cgroupPath line = some (layout.path uid id))
    (once : ∃ line ∈ file.scan.1, ∃ layout : Layout, cgroupPath line = some (layout.path uid id)) :
    parseCgroup file = .ok ⟨uid.text, id.1⟩ ↔ ∃ uuid, uid = .assigned uuid := by
  obtain ⟨line, member, layout, isPath⟩ := once
  cases uid with
  | assigned uuid =>
    refine ⟨fun _ => ⟨uuid, rfl⟩, fun _ => ?_⟩
    have read : file.scan.1.foldlM parseLine none =
        .ok (some ⟨(PodUID.assigned uuid).text, id.1⟩) := by
      refine foldlM_of_named (by simp) (fun line member => (each line member).imp_right ?_)
        (.inr ⟨line, member, fun silent => ?_⟩)
      · rintro ⟨layout, isPath⟩
        exact ⟨_, isPath, parseCgroupPath_assigned layout uuid id⟩
      · have := silent _ isPath
        rw [parseCgroupPath_assigned] at this
        cases this
    unfold parseCgroup
    rw [read]
    simp [short, whole]
  | static =>
    refine ⟨fun parsed => ?_, fun ⟨uuid, same⟩ => by cases same⟩
    obtain ⟨before, mid, isMid⟩ := parseLine_of_mem (parseCgroup_eq_ok parsed).1 member
    unfold parseLine at isMid
    rw [isPath] at isMid
    dsimp only at isMid
    rw [parseCgroupPath_static] at isMid
    cases isMid

/-! ## A pod and a static pod -/

def sampleUuid : Uuid :=
  ⟨⟨ascii "0b5dbc1a", by decide +kernel⟩, ⟨ascii "2f0e", by decide +kernel⟩,
    ⟨ascii "4c5d", by decide +kernel⟩, ⟨ascii "9d3e", by decide +kernel⟩,
    ⟨ascii "6a7b8c9d0e1f", by decide +kernel⟩⟩

def sampleHash : Digits 32 :=
  ⟨ascii "d8e15d4f3cd0a7d6b6e8f9a0b1c2d3e4", by decide +kernel⟩

def sampleID : Digits 64 :=
  ⟨List.replicate 64 97, by decide +kernel⟩

def burstable : Layout where
  above := [[], ascii "kubepods", ascii "burstable"]
  driver := .cgroupfs
  plain := by decide
  outside := by decide +kernel
  whole := by simp

def sampleFile (uid : PodUID) : CgroupFile :=
  ⟨ascii "0::" ++ burstable.path uid sampleID ++ [10], false⟩

theorem kubelet_cgroup_read_burstable :
    parseCgroup (sampleFile (.assigned sampleUuid)) =
      .ok ⟨ascii "0b5dbc1a-2f0e-4c5d-9d3e-6a7b8c9d0e1f", sampleID.1⟩ := by
  let line := ascii "0::" ++ burstable.path (.assigned sampleUuid) sampleID
  have isScan : (sampleFile (.assigned sampleUuid)).scan = ([line], false) := by decide +kernel
  have isPath : cgroupPath line = some (burstable.path (.assigned sampleUuid) sampleID) := by
    decide
  refine (kubelet_cgroup_read_iff (.assigned sampleUuid) sampleID (congrArg Prod.snd isScan) rfl
    ?_ ?_).mpr ⟨sampleUuid, rfl⟩
  · rw [isScan]
    exact List.forall_mem_singleton.mpr (.inr ⟨burstable, isPath⟩)
  · rw [isScan]
    exact ⟨line, List.mem_singleton_self _, burstable, isPath⟩

/-- The process of a static pod is refused. -/
theorem static_pod_unread :
    parseCgroup (sampleFile (.static sampleHash)) =
      .error (.unrecognised (burstable.path (.static sampleHash) sampleID)) := by
  decide +kernel

end OmegaPlane.Attestor
