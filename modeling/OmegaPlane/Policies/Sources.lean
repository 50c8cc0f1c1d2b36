import OmegaPlane.Data.ByteOrder
import OmegaPlane.Data.Checks
import OmegaPlane.Policies.Load

/-!
# Policy sources

The engine parses its files and stored policies text by text, gives each Cedar policy an
ID, and refuses a set that defines an ID twice.  A stored policy that passes the check
against the files cannot make such a set.
-/

namespace OmegaPlane.Policies

/-- A policy as the parser returns it: the name it is given in its text, its `@id`
annotation, empty where it has none, and what it says. -/
structure ParsedPolicy (π : Type) where
  autoID : Bytes
  annotation : Bytes
  policy : π

inductive SourceError where
  | parse (base message : Bytes)
  | duplicate (id base : Bytes)
  | fileName (name : Bytes)

def isStored (base : Bytes) : Bool :=
  (ascii "api/").isPrefixOf base

/-- A file name without its extension, or the key of a stored policy. -/
def stem (base : Bytes) : Bytes :=
  if isStored base then base
  else if base.contains 46 then ((base.reverse.dropWhile (· ≠ 46)).drop 1).reverse
  else base

def policyID {π : Type} (base : Bytes) (parsed : ParsedPolicy π) : Bytes :=
  if parsed.annotation ≠ [] then
    if isStored base then stem base ++ ascii "::" ++ parsed.annotation else parsed.annotation
  else stem base ++ ascii "::" ++ parsed.autoID

section Parse

variable {π : Type}

-- the Cedar parser
variable (parse : Bytes → Except Bytes (List (ParsedPolicy π)))

/-- The policies of one source, under their IDs. -/
def sourcePolicies (source : Bytes × Bytes) : Except SourceError (List (Bytes × π)) :=
  match parse source.2 with
  | .error message => .error (.parse source.1 message)
  | .ok parsed => .ok (parsed.map fun p => (policyID source.1 p, p.policy))

def addPolicy (base : Bytes) (ps : List (Bytes × π)) (entry : Bytes × π) :
    Except SourceError (List (Bytes × π)) :=
  if entry.1 ∈ ps.map Prod.fst then .error (.duplicate entry.1 base) else .ok (ps ++ [entry])

def addSource (ps : List (Bytes × π)) (source : Bytes × Bytes) :
    Except SourceError (List (Bytes × π)) := do
  let own ← sourcePolicies parse source
  own.foldlM (addPolicy source.1) ps

/-- Parse the sources in the order of their names. -/
def parseSources (sources : List (Bytes × Bytes)) : Except SourceError (List (Bytes × π)) :=
  (sortOn Prod.fst sources).foldlM (addSource parse) []

variable (render : SourceError → Bytes)

/-- The IDs the sources define, or the text of the error. -/
def sourceIDs (sources : List (Bytes × Bytes)) : Except Bytes (List Bytes) :=
  ((parseSources parse sources).map (List.map Prod.fst)).mapError render

/-- `LoadSources`, entities aside. -/
def Engine.loadSources (engine : Engine) (sources : TextMap) : Except SourceError Engine :=
  match sources.rows.find? fun source => source.1.contains 47 with
  | some source => .error (.fileName source.1)
  | none => do
    let _ ← parseSources parse (unionSources sources (engine.stored.getD .empty)).rows
    let own ← parseSources parse sources.rows
    return { engine with files := sources, fileIDs := own.map Prod.fst }

/-! ## Sets without duplicates -/

variable {parse render}

variable {ps own result : List (Bytes × π)} {sources : List (Bytes × Bytes)} {ids : List Bytes}
  {engine : Engine}

theorem foldlM_addPolicy {base : Bytes} (distinct : (ps.map Prod.fst).Nodup) :
    own.foldlM (addPolicy base) ps = .ok result ↔
      result = ps ++ own ∧ ((ps ++ own).map Prod.fst).Nodup := by
  induction own generalizing ps with
  | nil => simp [pure, Except.pure, distinct, eq_comm]
  | cons entry rest ih =>
  rw [List.foldlM_cons, bind_eq_ok]
  simp only [addPolicy, ite_error_eq_ok, Except.ok.injEq]
  constructor
  · rintro ⟨_, ⟨fresh, rfl⟩, added⟩
    have grown : ((ps ++ [entry]).map Prod.fst).Nodup := by
      rw [List.map_append, List.nodup_append]
      exact ⟨distinct, by simp, fun id member other isOther same => fresh
        (by simpa [same, List.mem_singleton.mp isOther] using member)⟩
    simpa using (ih grown).mp added
  · rintro ⟨rfl, all⟩
    have split : ps ++ entry :: rest = (ps ++ [entry]) ++ rest := by simp
    have grown : ((ps ++ [entry]).map Prod.fst).Nodup := by
      rw [split, List.map_append] at all
      exact (List.nodup_append.mp all).1
    refine ⟨_, ⟨fun member => ?_, rfl⟩, (ih grown).mpr ⟨split, split ▸ all⟩⟩
    rw [List.map_append, List.nodup_append] at grown
    exact grown.2.2 _ member _ (by simp) rfl

/-- The policies of a source, none where it does not parse. -/
def ownPolicies (parse : Bytes → Except Bytes (List (ParsedPolicy π))) (source : Bytes × Bytes) :
    List (Bytes × π) :=
  (sourcePolicies parse source).toOption.getD []

theorem foldlM_addSource (distinct : (ps.map Prod.fst).Nodup) :
    sources.foldlM (addSource parse) ps = .ok result ↔
      (∀ source ∈ sources, (sourcePolicies parse source).isOk = true) ∧
        result = ps ++ sources.flatMap (ownPolicies parse) ∧ (result.map Prod.fst).Nodup := by
  induction sources generalizing ps with
  | nil =>
    rw [List.foldlM_nil, List.flatMap_nil, List.append_nil]
    constructor
    · rintro ⟨⟩
      exact ⟨by simp, rfl, distinct⟩
    · rintro ⟨-, rfl, -⟩
      rfl
  | cons source rest ih =>
    rw [List.foldlM_cons, bind_eq_ok, List.forall_mem_cons, List.flatMap_cons]
    cases parsed : sourcePolicies parse source with
    | error => simp [addSource, parsed, bind, Except.bind, Except.isOk, Except.toBool]
    | ok own =>
    have isOwn : ownPolicies parse source = own := by
      rw [ownPolicies, parsed]
      rfl
    simp only [addSource, parsed, bind, Except.bind, isOwn]
    constructor
    · rintro ⟨middle, added, others⟩
      obtain ⟨rfl, grown⟩ := (foldlM_addPolicy distinct).mp added
      obtain ⟨allParse, same, all⟩ := (ih grown).mp others
      exact ⟨⟨rfl, allParse⟩, by rw [same, List.append_assoc], all⟩
    · rintro ⟨⟨-, allParse⟩, same, all⟩
      have grown : ((ps ++ own).map Prod.fst).Nodup := by
        rw [same, ← List.append_assoc, List.map_append] at all
        exact (List.nodup_append.mp all).1
      exact ⟨_, (foldlM_addPolicy distinct).mpr ⟨rfl, grown⟩,
        (ih grown).mpr ⟨allParse, by rw [same, List.append_assoc], all⟩⟩

/-- A set parses if every text does and no ID is defined twice. -/
theorem parseSources_eq_ok :
    parseSources parse sources = .ok ps ↔
      (∀ source ∈ sources, (sourcePolicies parse source).isOk = true) ∧
        ps = (sortOn Prod.fst sources).flatMap (ownPolicies parse) ∧ (ps.map Prod.fst).Nodup := by
  rw [parseSources, foldlM_addSource (by simp)]
  simp

theorem mem_parseSources (parsed : parseSources parse sources = .ok ps) {entry : Bytes × π} :
    entry ∈ ps ↔ ∃ source ∈ sources, entry ∈ ownPolicies parse source := by
  obtain ⟨-, rfl, -⟩ := parseSources_eq_ok.mp parsed
  simp [List.mem_flatMap]

/-- The order of the sources and how they are split does not matter for duplicates. -/
theorem parseSources_of_distinct {others : List (Bytes × Bytes)} (perm : others.Perm sources)
    (allParse : ∀ source ∈ sources, (sourcePolicies parse source).isOk = true)
    (distinct : ((sources.flatMap (ownPolicies parse)).map Prod.fst).Nodup) :
    ∃ ps, parseSources parse others = .ok ps := by
  refine ⟨_, parseSources_eq_ok.mpr ⟨fun source member => allParse source
    (perm.mem_iff.mp member), rfl, ?_⟩⟩
  exact ((((sortOn_perm _ _).trans perm).flatMap_right _).map _).nodup_iff.mpr distinct

/-! ## Stored policies -/

/-- A stored policy among the sources. -/
def storedSource (entry : Bytes × Bytes) : Bytes × Bytes :=
  (storedPolicyKey entry.1, entry.2)

/-- The map has valid IDs, and each text passes the check against the files. -/
def PassesEach (parse : Bytes → Except Bytes (List (ParsedPolicy π)))
    (render : SourceError → Bytes) (engine : Engine) (stored : TextMap) : Prop :=
  ∀ entry ∈ stored.rows, validatePolicyID entry.1 = true ∧
    ∃ ids, engine.checkStored (sourceIDs parse render) entry.1 entry.2 = .ok ids

theorem notMem_of_validatePolicyID {id : Bytes} (valid : validatePolicyID id = true) : 58 ∉ id := by
  intro member
  simp only [validatePolicyID, Bool.decide_and, Bool.and_eq_true, decide_eq_true_eq,
    List.all_eq_true] at valid
  exact absurd (valid.2.2.2 58 member) (by decide)

/-- The IDs of a stored policy begin with its key. -/
theorem id_of_storedSource {stored : Bytes × Bytes} {policy : Bytes × π}
    (member : policy ∈ ownPolicies parse (storedSource stored)) :
    ∃ rest, policy.1 = ascii "api/" ++ (stored.1 ++ 58 :: 58 :: rest) := by
  have isStoredKey : isStored (storedPolicyKey stored.1) = true := by
    rw [isStored, storedPolicyKey, List.isPrefixOf_iff_prefix]
    exact List.prefix_append _ _
  unfold ownPolicies sourcePolicies storedSource at member
  dsimp only at member
  cases parsed : parse stored.2 with
  | error => simp [parsed, Except.toOption] at member
  | ok =>
  simp only [parsed, Except.toOption, Option.getD_some, List.mem_map] at member
  obtain ⟨p, -, rfl⟩ := member
  simp only [policyID, isStoredKey, stem, if_true]
  split
  · exact ⟨p.annotation, by simp [storedPolicyKey, ascii]⟩
  · exact ⟨p.autoID, by simp [storedPolicyKey, ascii]⟩

theorem parseSources_singleton {source : Bytes × Bytes}
    (parsed : parseSources parse [source] = .ok own) :
    (sourcePolicies parse source).isOk = true ∧ own = ownPolicies parse source ∧
      (own.map Prod.fst).Nodup := by
  obtain ⟨allParse, same, distinct⟩ := parseSources_eq_ok.mp parsed
  exact ⟨allParse source (by simp), by simpa [sortOn] using same, distinct⟩

theorem sourceIDs_eq_ok :
    sourceIDs parse render sources = .ok ids ↔
      ∃ ps, parseSources parse sources = .ok ps ∧ ps.map Prod.fst = ids := by
  rw [sourceIDs, mapError_eq_ok]
  cases parseSources parse sources <;> simp [Except.map]

theorem checkStored_eq_ok {entry : Bytes × Bytes}
    (checked : engine.checkStored (sourceIDs parse render) entry.1 entry.2 = .ok ids) :
    (sourcePolicies parse (storedSource entry)).isOk = true ∧
      ((ownPolicies parse (storedSource entry)).map Prod.fst).Nodup ∧
      ∀ policy ∈ ownPolicies parse (storedSource entry), policy.1 ∉ engine.fileIDs := by
  unfold Engine.checkStored at checked
  cases parsed : sourceIDs parse render [(storedPolicyKey entry.1, entry.2)] with
  | error => simp [parsed] at checked
  | ok own =>
  rw [parsed] at checked
  obtain ⟨ps, isPs, rfl⟩ := sourceIDs_eq_ok.mp parsed
  obtain ⟨isOk, rfl, distinct⟩ := parseSources_singleton isPs
  refine ⟨isOk, distinct, ?_⟩
  dsimp only at checked
  split at checked
  · cases checked
  split at checked
  · cases checked
  rename_i free
  intro policy member taken
  have absent := List.find?_eq_none.mp free policy.1
    (List.mem_insertionSort _ |>.mpr (List.mem_map_of_mem member))
  simp [taken] at absent

theorem loadSources_eq_ok {before : Engine} {files : TextMap}
    (loaded : before.loadSources parse files = .ok engine) :
    (∀ source ∈ files.rows, 47 ∉ source.1) ∧ engine.files = files ∧
      ∃ own, parseSources parse files.rows = .ok own ∧ engine.fileIDs = own.map Prod.fst := by
  unfold Engine.loadSources at loaded
  split at loaded
  · cases loaded
  rename_i noSlash
  obtain ⟨_, -, loaded⟩ := bind_eq_ok.mp loaded
  obtain ⟨own, isOwn, same⟩ := bind_eq_ok.mp loaded
  cases same
  refine ⟨fun source member slash => ?_, rfl, own, isOwn, rfl⟩
  exact List.find?_eq_none.mp noSlash source member (by simpa using slash)

theorem storedPolicyKey_inj {first second : Bytes}
    (same : storedPolicyKey first = storedPolicyKey second) : first = second :=
  List.append_cancel_left same

section Loaded

variable {before engine : Engine} {files stored : TextMap}

/-- The sources of the files and of the stored policies do not meet. -/
theorem rows_unionSources (plain : ∀ source ∈ files.rows, 47 ∉ source.1) :
    (unionSources files stored).rows.Perm (files.rows ++ stored.rows.map storedSource) := by
  have keys : (stored.rows.map storedSource).map Prod.fst =
      (stored.rows.map Prod.fst).map storedPolicyKey := by
    simp [storedSource, Function.comp_def]
  have apart : ((stored.rows.map storedSource).map Prod.fst).Nodup := by
    rw [keys]
    exact stored.distinct.map fun _ _ => storedPolicyKey_inj
  have slashed : ∀ id, 47 ∈ storedPolicyKey id := fun id => List.mem_append_left _ (by decide)
  have fresh : ∀ other ∈ stored.rows.map storedSource, files.lookup other.1 = none := by
    intro other member
    obtain ⟨entry, -, rfl⟩ := List.mem_map.mp member
    refine Table.lookup_eq_none_iff.mpr fun source isSource same => ?_
    exact plain source isSource (same ▸ slashed entry.1)
  refine (List.perm_ext_iff_of_nodup (unionSources files stored).distinct.of_map ?_).mpr
    fun source => ?_
  · refine List.nodup_append.mpr ⟨files.distinct.of_map, apart.of_map, ?_⟩
    rintro source isFile other isStored rfl
    exact Table.lookup_eq_none_iff.mp (fresh source isStored) source isFile rfl
  · rw [List.mem_append]
    exact Table.mem_putAll_of_fresh apart fresh

/-- No two stored policies share an ID. -/
theorem ids_apart (passes : PassesEach parse render engine stored) {first second : Bytes × Bytes}
    (isFirst : first ∈ stored.rows) (isSecond : second ∈ stored.rows) {one two : Bytes × π}
    (inFirst : one ∈ ownPolicies parse (storedSource first))
    (inSecond : two ∈ ownPolicies parse (storedSource second)) (same : one.1 = two.1) :
    first = second := by
  obtain ⟨rest, isOne⟩ := id_of_storedSource inFirst
  obtain ⟨other, isTwo⟩ := id_of_storedSource inSecond
  rw [isOne, isTwo] at same
  obtain ⟨sameID, -⟩ := Separated.eq_of_first_sep
    (notMem_of_validatePolicyID (passes first isFirst).1)
    (notMem_of_validatePolicyID (passes second isSecond).1) (List.append_cancel_left same)
  exact Table.eq_of_key_eq isFirst isSecond sameID

section

variable (loaded : before.loadSources parse files = .ok engine)
include loaded

/-- Each text alone having passed, the whole set parses. -/
theorem union_parses (passes : PassesEach parse render engine stored) :
    ∃ ps, parseSources parse (unionSources files stored).rows = .ok ps := by
  obtain ⟨plain, -, filePS, isFilePS, fileIDs⟩ := loadSources_eq_ok loaded
  obtain ⟨filesParse, rfl, distinct⟩ := parseSources_eq_ok.mp isFilePS
  refine parseSources_of_distinct (rows_unionSources plain) ?_ ?_
  · intro source member
    rcases List.mem_append.mp member with isFile | isStored
    · exact filesParse source isFile
    · obtain ⟨entry, isEntry, rfl⟩ := List.mem_map.mp isStored
      obtain ⟨ids, checked⟩ := (passes entry isEntry).2
      exact (checkStored_eq_ok checked).1
  · rw [List.flatMap_append, List.map_append, List.nodup_append]
    refine ⟨?_, ?_, ?_⟩
    · exact (((sortOn_perm _ _).flatMap_right _).map _).nodup_iff.mp distinct
    · rw [List.flatMap_map, List.map_flatMap, List.nodup_flatMap]
      refine ⟨fun entry isEntry => ?_, ?_⟩
      · obtain ⟨ids, checked⟩ := (passes entry isEntry).2
        exact (checkStored_eq_ok checked).2.1
      · refine stored.distinct.of_map.pairwise_of_forall_ne fun first isFirst second isSecond
          differ => ?_
        intro id inFirst inSecond
        obtain ⟨one, isOne, rfl⟩ := List.mem_map.mp inFirst
        obtain ⟨two, isTwo, same⟩ := List.mem_map.mp inSecond
        exact differ (ids_apart passes isFirst isSecond isOne isTwo same.symm)
    · rintro id isFile other isStored rfl
      obtain ⟨policy, isPolicy, rfl⟩ := List.mem_map.mp isStored
      obtain ⟨source, isSource, inSource⟩ := List.mem_flatMap.mp isPolicy
      obtain ⟨entry, isEntry, rfl⟩ := List.mem_map.mp isSource
      obtain ⟨ids, checked⟩ := (passes entry isEntry).2
      refine (checkStored_eq_ok checked).2.2 policy inSource ?_
      rw [fileIDs]
      exact (((sortOn_perm _ _).flatMap_right _).map _).mem_iff.mpr isFile

/-- The set is taken, and the engine evaluates it next to the files. -/
theorem setStoredPolicies_taken (passes : PassesEach parse render engine stored) :
    ∃ after, engine.setStoredPolicies (sourceIDs parse render) stored = .ok after ∧
      after.files = files ∧ ∃ texts, after.stored = some texts ∧
        ∀ entry, entry ∈ texts.rows ↔ entry ∈ stored.rows := by
  have isFiles := (loadSources_eq_ok loaded).2.1
  unfold Engine.setStoredPolicies
  split
  · rename_i unchanged
    cases isTexts : engine.stored with
    | none => simp [isTexts] at unchanged
    | some texts =>
      have same : texts.same stored = true := by simpa [isTexts] using unchanged
      refine ⟨engine, rfl, isFiles, texts, isTexts, fun entry => ?_⟩
      rw [Table.mem_rows_iff, Table.mem_rows_iff, Table.lookup_eq_of_same same]
  · obtain ⟨ps, isPs⟩ := union_parses loaded passes
    rw [isFiles, sourceIDs_eq_ok.mpr ⟨ps, isPs, rfl⟩]
    exact ⟨_, rfl, rfl, stored, rfl, fun _ => Iff.rfl⟩

/-- What the engine evaluates are the policies of the files and those of each stored
text. -/
theorem mem_union_iff {filePS ps : List (Bytes × π)}
    (isFilePS : parseSources parse files.rows = .ok filePS)
    (isPs : parseSources parse (unionSources files stored).rows = .ok ps) (policy : Bytes × π) :
    policy ∈ ps ↔ policy ∈ filePS ∨
      ∃ entry ∈ stored.rows, policy ∈ ownPolicies parse (storedSource entry) := by
  rw [mem_parseSources isPs, mem_parseSources isFilePS]
  simp only [(rows_unionSources (loadSources_eq_ok loaded).1).mem_iff, List.mem_append,
    List.mem_map, or_and_right, exists_or]
  grind

end

/-- Stored policies that pass the check one by one load together: each keeps the IDs of
its own text, the files keep theirs, and no ID is shared, before and after one stored
policy is removed or replaced. -/
theorem checks_suffice (loaded : before.loadSources parse files = .ok engine)
    (passes : PassesEach parse render engine stored) :
    ∃ filePS, parseSources parse files.rows = .ok filePS ∧
      (∃ after texts ps, engine.setStoredPolicies (sourceIDs parse render) stored = .ok after ∧
        after.files = files ∧ after.stored = some texts ∧
        (∀ entry, entry ∈ texts.rows ↔ entry ∈ stored.rows) ∧
        parseSources parse (unionSources files texts).rows = .ok ps ∧
        ∀ policy, policy ∈ ps ↔ policy ∈ filePS ∨
          ∃ entry ∈ stored.rows, policy ∈ ownPolicies parse (storedSource entry)) ∧
      (∀ entry ∈ stored.rows, ∀ policy ∈ ownPolicies parse (storedSource entry),
        (∀ file ∈ filePS, file.1 ≠ policy.1) ∧
        ∀ other ∈ stored.rows, other ≠ entry →
          ∀ theirs ∈ ownPolicies parse (storedSource other), theirs.1 ≠ policy.1) ∧
      ∀ (id : Bytes) (changed : TextMap), PassesEach parse render engine changed →
        (∀ other, other ≠ id → changed.lookup other = stored.lookup other) →
        ∃ after texts ps, engine.setStoredPolicies (sourceIDs parse render) changed = .ok after ∧
          after.stored = some texts ∧
          parseSources parse (unionSources files texts).rows = .ok ps ∧
          (∀ file ∈ filePS, file ∈ ps) ∧
          ∀ entry ∈ stored.rows, entry.1 ≠ id → entry ∈ texts.rows ∧
            ∀ policy ∈ ownPolicies parse (storedSource entry), policy ∈ ps := by
  obtain ⟨-, -, filePS, isFilePS, fileIDs⟩ := loadSources_eq_ok loaded
  -- every set that passes is taken, and evaluated with the files
  have taken : ∀ set : TextMap, PassesEach parse render engine set →
      ∃ after texts ps, engine.setStoredPolicies (sourceIDs parse render) set = .ok after ∧
        after.files = files ∧ after.stored = some texts ∧
        (∀ entry, entry ∈ texts.rows ↔ entry ∈ set.rows) ∧
        parseSources parse (unionSources files texts).rows = .ok ps ∧
        ∀ policy, policy ∈ ps ↔ policy ∈ filePS ∨
          ∃ entry ∈ set.rows, policy ∈ ownPolicies parse (storedSource entry) := by
    intro set setPasses
    obtain ⟨after, isAfter, isFiles, texts, isTexts, same⟩ :=
      setStoredPolicies_taken loaded setPasses
    obtain ⟨ps, isPs⟩ := union_parses loaded fun entry member =>
      setPasses entry ((same entry).mp member)
    refine ⟨after, texts, ps, isAfter, isFiles, isTexts, same, isPs, fun policy => ?_⟩
    simp only [mem_union_iff loaded isFilePS isPs, same]
  refine ⟨filePS, isFilePS, taken stored passes, ?_, ?_⟩
  · intro entry isEntry policy isPolicy
    obtain ⟨ids, checked⟩ := (passes entry isEntry).2
    refine ⟨fun file isFile same => ?_, fun other isOther differ theirs isTheirs same => ?_⟩
    · refine (checkStored_eq_ok checked).2.2 policy isPolicy ?_
      rw [fileIDs, ← same]
      exact List.mem_map_of_mem isFile
    · exact differ (ids_apart passes isOther isEntry isTheirs isPolicy same)
  · intro id changed changedPasses others
    obtain ⟨after, texts, ps, isAfter, -, isTexts, same, isPs, members⟩ :=
      taken changed changedPasses
    refine ⟨after, texts, ps, isAfter, isTexts, isPs,
      fun file isFile => (members file).mpr (.inl isFile), ?_⟩
    intro entry isEntry otherID
    have kept : entry ∈ changed.rows := by
      rw [Table.mem_rows_iff, others entry.1 otherID]
      exact Table.mem_rows_iff.mp isEntry
    exact ⟨(same entry).mpr kept, fun policy isPolicy =>
      (members policy).mpr (.inr ⟨entry, kept, isPolicy⟩)⟩

end Loaded

/-- A parser of texts that are one policy each, with the text as annotation. -/
def oneLine (text : Bytes) : Except Bytes (List (ParsedPolicy Unit)) :=
  if text = [] then .error (ascii "empty") else .ok [⟨ascii "policy0", text, ()⟩]

def baseFile : TextMap :=
  ⟨[(ascii "base.cedar", ascii "x")], by decide⟩

def twoPolicies : TextMap :=
  ⟨[(ascii "a", ascii "x"), (ascii "b", ascii "x")], by decide⟩

/-- A file and two stored policies have the same annotation. -/
theorem checks_suffice_oneLine :
    ∃ after, (Engine.mk baseFile [ascii "x"] none).setStoredPolicies
      (sourceIDs oneLine fun _ => []) twoPolicies = .ok after := by
  have loaded : (Engine.mk .empty [] none).loadSources oneLine baseFile =
      .ok ⟨baseFile, [ascii "x"], none⟩ := rfl
  have passes : PassesEach oneLine (fun _ => []) ⟨baseFile, [ascii "x"], none⟩ twoPolicies := by
    simp only [PassesEach, twoPolicies, List.forall_mem_cons]
    exact ⟨⟨by decide, [ascii "api/a::x"], by decide⟩,
      ⟨by decide, [ascii "api/b::x"], by decide⟩, by simp⟩
  obtain ⟨-, -, ⟨after, -, -, isAfter, -⟩, -⟩ := checks_suffice loaded passes
  exact ⟨after, isAfter⟩

end Parse

end OmegaPlane.Policies
