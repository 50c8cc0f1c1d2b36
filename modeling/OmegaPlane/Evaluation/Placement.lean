import Mathlib.Data.List.TakeWhile
import Mathlib.Logic.Relation
import OmegaPlane.Evaluation.Directory

/-!
# Where the directory places an entity

A SPIFFE principal or resource gets the deepest domain that its path names, and
its groups, as parents; from the domain the tree leads up to every domain whose
labels begin the path.  Whatever the static entities are, these are exactly the
domains and the groups it is in because of the directory.
-/

namespace OmegaPlane.Evaluation

open OmegaPlane.Directory Relation

/-! ## Names and labels -/

theorem labelSegments_clean {path seg : Bytes} (member : seg ∈ labelSegments path) : 46 ∉ seg := by
  have kept := List.mem_takeWhile_imp member
  simpa using kept

/-- Labels are read back from the name they make. -/
theorem splitOn_join (labels : List Bytes) (nonempty : labels ≠ [])
    (clean : ∀ label ∈ labels, 46 ∉ label) : (Separated.join 46 labels).splitOn 46 = labels :=
  List.splitOn_intercalate 46 clean nonempty

theorem join_splitOn (name : Bytes) : Separated.join 46 (name.splitOn 46) = name :=
  List.intercalate_splitOn 46

/-- The parent of a name has one label less. -/
theorem parentOf_join {labels : List Bytes} {label : Bytes} (nonempty : labels ≠ [])
    (clean : 46 ∉ label) :
    parentOf (Separated.join 46 (labels ++ [label])) = Separated.join 46 labels := by
  have stops : ∀ byte ∈ label.reverse, decide (byte ≠ (46 : UInt8)) = true := by
    intro byte member
    have inLabel := List.mem_reverse.mp member
    exact decide_eq_true fun same => clean (same ▸ inLabel)
  rw [Separated.join_append 46 nonempty (by simp), Separated.join_singleton, parentOf,
    List.reverse_append, List.reverse_cons, List.append_assoc,
    List.dropWhile_append_of_pos stops]
  simp

theorem parentOf_label {label : Bytes} (clean : 46 ∉ label) : parentOf label = [] := by
  have stops : ∀ byte ∈ label.reverse, decide (byte ≠ (46 : UInt8)) = true := by
    intro byte member
    have inLabel := List.mem_reverse.mp member
    exact decide_eq_true fun same => clean (same ▸ inLabel)
  rw [parentOf, List.dropWhile_eq_nil_iff.mpr stops]
  rfl

/-- The search finds the longest prefix of the segments that names a domain. -/
theorem deepestDomain_spec {domains segs : List Bytes} {n : Nat} :
    (deepestDomain domains segs n = [] ∧ ∀ k, 0 < k → k ≤ n →
        Separated.join 46 (segs.take k) ∈ domains → Separated.join 46 (segs.take k) = []) ∨
      ∃ k, 0 < k ∧ k ≤ n ∧ deepestDomain domains segs n = Separated.join 46 (segs.take k) ∧
        Separated.join 46 (segs.take k) ∈ domains ∧
        ∀ j, k < j → j ≤ n → Separated.join 46 (segs.take j) ∉ domains := by
  induction n with
  | zero => exact .inl ⟨rfl, fun k positive small => absurd small (by omega)⟩
  | succ n ih =>
  by_cases known : Separated.join 46 (segs.take (n + 1)) ∈ domains
  · refine .inr ⟨n + 1, by omega, le_rfl, ?_, known, fun j above small => ?_⟩
    · simp [deepestDomain, known]
    · omega
  · have skip : deepestDomain domains segs (n + 1) = deepestDomain domains segs n := by
      simp [deepestDomain, known]
    rw [skip]
    rcases ih with ⟨none, absent⟩ | ⟨k, positive, small, found, member, longest⟩
    · refine .inl ⟨none, fun k positive small named => ?_⟩
      rcases Nat.lt_or_ge n k with above | below
      · obtain rfl : k = n + 1 := by omega
        exact absurd named known
      · exact absent k positive below named
    · refine .inr ⟨k, positive, by omega, found, member, fun j above small => ?_⟩
      rcases Nat.lt_or_ge n j with last | before
      · obtain rfl : j = n + 1 := by omega
        exact known
      · exact longest j above before

/-! ## Parents -/

section Parents

variable {α : Type} [Inhabited α]

/-- An entity of the store has this parent. -/
def Parent (ents : EntityMap α) (uid parent : EntityUID) : Prop :=
  ∃ ent, ents.lookup uid = some ent ∧ parent ∈ ent.parents

variable {ents static : EntityMap α} {uid parent : EntityUID} {snap : DirectorySnapshot}
  {directory : Directory} {now : Int} {request : Subjects α} {raw trustDomain : Bytes}

theorem parent_addParents {other : EntityUID} {add : List EntityUID} :
    Parent (addParents ents uid add) other parent ↔
      Parent ents other parent ∨ other = uid ∧ parent ∈ add := by
  unfold addParents
  split_ifs with nothing
  · simp [nothing]
  set ent := (ents.lookup uid).getD ⟨uid, [], default⟩ with isEnt
  have uidEq : ent.uid = uid := by
    cases found : ents.lookup uid with
    | none => simp [isEnt, found]
    | some =>
      rw [isEnt, found]
      exact (Table.lookup_eq_some_iff.mp found).2
  have parentsEq : parent ∈ ent.parents ↔ Parent ents uid parent := by
    cases found : ents.lookup uid with
    | none | some => simp [isEnt, found, Parent]
  simp only [Parent, Table.lookup_put, uidEq]
  by_cases same : uid = other
  · subst same
    rw [if_pos rfl]
    simp only [Option.some.injEq, exists_eq_left', List.mem_dedup, List.mem_append, true_and,
      parentsEq, Parent]
  · simp [same, Ne.symm same]

theorem parent_foldl_addParents {uids : List EntityUID} {added : EntityUID → List EntityUID} :
    Parent (uids.foldl (fun ents uid => addParents ents uid (added uid)) ents) uid parent ↔
      Parent ents uid parent ∨ uid ∈ uids ∧ parent ∈ added uid := by
  induction uids generalizing ents with
  | nil => simp
  | cons first rest ih =>
  rw [List.foldl_cons, ih, parent_addParents, List.mem_cons]
  constructor
  · rintro ((old | ⟨rfl, new⟩) | ⟨member, new⟩)
    · exact .inl old
    · exact .inr ⟨.inl rfl, new⟩
    · exact .inr ⟨.inr member, new⟩
  · rintro (old | ⟨rfl | member, new⟩)
    · exact .inl (.inl old)
    · exact .inl (.inr ⟨rfl, new⟩)
    · exact .inr ⟨member, new⟩

theorem deepestDomain_nil (segs : List Bytes) (n : Nat) : deepestDomain [] segs n = [] := by
  induction n with
  | zero => rfl
  | succ n ih => simpa [deepestDomain] using ih

theorem domainOfSPIFFEID_nil (raw trustDomain : Bytes) :
    domainOfSPIFFEID raw [] trustDomain = [] := by
  unfold domainOfSPIFFEID
  split
  · rfl
  · split_ifs
    · rfl
    · exact deepestDomain_nil _ _

/-- An empty directory adds nothing. -/
theorem addedParents_nil (domains : snap.domains = []) (memberships : snap.memberships.rows = [])
    (now : Int) (uid : EntityUID) :
    addedParents snap now uid = [] := by
  have none : snap.memberships.of uid.id = [] := by
    simp [Memberships.of, Table.lookup, memberships]
  unfold addedParents
  split_ifs <;> simp [domains, domainOfSPIFFEID_nil, none]

/-- What an evaluation adds to the parents of an entity. -/
theorem parent_withSPIFFEParents {now : Int} {uids : List EntityUID} :
    Parent (withSPIFFEParents ents snap now uids) uid parent ↔
      Parent ents uid parent ∨ uid ∈ uids ∧ parent ∈ addedParents snap now uid := by
  unfold withSPIFFEParents
  split_ifs with empty
  · simp [addedParents_nil empty.1 empty.2]
  · exact parent_foldl_addParents

omit [Inhabited α] in
/-- The entities of a request bring no parents. -/
theorem parent_overlay {overlays : List (Entity α)} (orphans : ∀ ent ∈ overlays, ent.parents = []) :
    Parent (overlay ents overlays) uid parent ↔ Parent ents uid parent := by
  unfold overlay
  induction overlays generalizing ents with
  | nil => rfl
  | cons ent rest ih =>
  rw [List.foldl_cons, ih fun other member => orphans other (List.mem_cons_of_mem _ member)]
  cases taken : ents.lookup ent.uid with
  | some => rw [Table.insert_of_some taken]
  | none =>
  have none := orphans ent List.mem_cons_self
  simp only [Parent, Table.lookup_insert_of_none taken]
  by_cases same : ent.uid = uid
  · subst same
    simp [taken, none]
  · simp [same]

omit [Inhabited α] in
theorem orphan_requestEntities {principal resource : EntityUID}
    {subjectAttrs resourceAttrs : Option α} :
    ∀ ent ∈ requestEntities principal subjectAttrs resource resourceAttrs, ent.parents = [] := by
  intro ent member
  unfold requestEntities at member
  rcases List.mem_append.mp member with member | member
  · obtain ⟨attrs, -, rfl⟩ := Option.map_eq_some_iff.mp (Option.mem_toList.mp member)
    rfl
  · split_ifs at member
    · obtain ⟨attrs, -, rfl⟩ := Option.map_eq_some_iff.mp (Option.mem_toList.mp member)
      rfl
    · cases member

omit [Inhabited α] in
/-- The directory wins over the static entities. -/
theorem lookup_rebuild (static directory : EntityMap α) (uid : EntityUID) :
    (rebuild static directory).lookup uid = (directory.lookup uid).or (static.lookup uid) :=
  Table.lookup_putAll_rows static directory uid

/-! ## The entities of the directory -/

theorem lookup_directory_domain (directory : Directory) (name : Bytes) :
    (buildDirectory directory : EntityMap α × _).1.lookup (domainUID name) =
      (directory.domains.lookup name).map domainEntity := by
  have groups : (directory.groups.map (groupEntity : Bytes → Entity α)).filter
      (fun ent => ent.uid = domainUID name) = [] := by
    rw [List.filter_eq_nil_iff]
    intro ent member
    obtain ⟨id, -, rfl⟩ := List.mem_map.mp member
    simp [groupEntity, groupUID, domainUID, groupEntityType, domainEntityType, ascii]
  have domains : (directory.domains.rows.map (domainEntity : _ → Entity α)).filter
      (fun ent => ent.uid = domainUID name) =
        (directory.domains.rows.filter fun entry => entry.1 = name).map domainEntity := by
    rw [List.filter_map]
    congr 1
    apply List.filter_congr
    intro entry _
    simp [domainEntity, domainUID]
  rw [buildDirectory, Table.lookup_putAll, groups, Table.lookup_putAll, domains, List.getLast?_map,
    Table.getLast?_filter_rows]
  simp [Table.lookup, Table.empty]

theorem lookup_directory_group {directory : Directory} {id : Bytes}
    (member : id ∈ directory.groups) :
    (buildDirectory directory : EntityMap α × _).1.lookup (groupUID id) =
      some (groupEntity id) := by
  have only : ∀ ent ∈ (directory.groups.map (groupEntity : Bytes → Entity α)).filter
      (fun ent => ent.uid = groupUID id), ent = groupEntity id := by
    intro ent kept
    obtain ⟨mapped, named⟩ := List.mem_filter.mp kept
    obtain ⟨other, -, rfl⟩ := List.mem_map.mp mapped
    have same : other = id := by simpa [groupEntity, groupUID] using named
    rw [same]
  rw [buildDirectory, Table.lookup_putAll]
  cases last : ((directory.groups.map (groupEntity : Bytes → Entity α)).filter
      (fun ent => ent.uid = groupUID id)).getLast? with
  | none =>
    have absent := List.filter_eq_nil_iff.mp (List.getLast?_eq_none_iff.mp last)
      (groupEntity id) (List.mem_map_of_mem member)
    simp [groupEntity] at absent
  | some ent => rw [only ent (List.mem_of_getLast? last), Option.some_or]

theorem lookup_directory_spiffe (directory : Directory) (spiffe : uid.type = spiffeEntityType) :
    (buildDirectory directory : EntityMap α × _).1.lookup uid = none := by
  have groups : (directory.groups.map (groupEntity : Bytes → Entity α)).filter
      (fun ent => ent.uid = uid) = [] := by
    rw [List.filter_eq_nil_iff]
    intro ent member
    obtain ⟨id, -, rfl⟩ := List.mem_map.mp member
    have differs : groupEntityType ≠ uid.type := spiffe ▸ by decide
    exact fun same => differs (congrArg EntityUID.type (of_decide_eq_true same))
  have domains : (directory.domains.rows.map (domainEntity : _ → Entity α)).filter
      (fun ent => ent.uid = uid) = [] := by
    rw [List.filter_eq_nil_iff]
    intro ent member
    obtain ⟨entry, -, rfl⟩ := List.mem_map.mp member
    have differs : domainEntityType ≠ uid.type := spiffe ▸ by decide
    exact fun same => differs (congrArg EntityUID.type (of_decide_eq_true same))
  rw [buildDirectory, Table.lookup_putAll, groups, Table.lookup_putAll, domains]
  rfl

theorem lookup_projectDomains (names : List Bytes) (name : Bytes) :
    (projectDomains names).lookup name =
      if name ∈ names ∧ validateDomainName name = true then some (name, parentOf name) else none := by
  rw [projectDomains, Table.lookup_putAll]
  set entries := ((names.filter validateDomainName).map fun name => (name, parentOf name)).filter
    (fun entry => entry.1 = name) with isEntries
  have only : ∀ entry ∈ entries, entry = (name, parentOf name) ∧ name ∈ names ∧
      validateDomainName name = true := by
    intro entry kept
    obtain ⟨mapped, named⟩ := List.mem_filter.mp kept
    obtain ⟨other, filtered, rfl⟩ := List.mem_map.mp mapped
    obtain rfl : other = name := by simpa using named
    obtain ⟨member, valid⟩ := List.mem_filter.mp filtered
    exact ⟨rfl, member, valid⟩
  cases last : entries.getLast? with
  | some entry =>
    obtain ⟨rfl, known⟩ := only entry (List.mem_of_getLast? last)
    rw [if_pos known]
    rfl
  | none =>
    rw [if_neg]
    · rfl
    rintro ⟨member, valid⟩
    have absent := List.filter_eq_nil_iff.mp (List.getLast?_eq_none_iff.mp last)
      (name, parentOf name)
      (List.mem_map.mpr ⟨name, List.mem_filter.mpr ⟨member, valid⟩, rfl⟩)
    simp at absent

/-- The memberships of a principal are those the groups list. -/
theorem mem_projectMemberships {groups : List Group} {principal : Bytes} {membership : Membership} :
    membership ∈ (projectMemberships groups).of principal ↔
      ∃ group ∈ groups, ∃ member ∈ group.members, member.principal = principal ∧
        membership = ⟨groupID group, member.expiresAt⟩ := by
  have added : ∀ (entries : List (Bytes × Membership)) (memberships : Memberships),
      membership ∈ (entries.foldl (fun memberships entry => memberships.add entry.1 entry.2)
          memberships).of principal ↔
        membership ∈ memberships.of principal ∨ (principal, membership) ∈ entries := by
    intro entries
    induction entries with
    | nil => simp
    | cons entry rest ih =>
    intro memberships
    rw [List.foldl_cons, ih, List.mem_cons]
    have one : membership ∈ (memberships.add entry.1 entry.2).of principal ↔
        membership ∈ memberships.of principal ∨ (principal, membership) = entry := by
      rw [Memberships.of, Memberships.add, Table.lookup_put]
      by_cases same : entry.1 = principal
      · rw [if_pos same]
        subst same
        simp [Prod.ext_iff]
      · rw [if_neg same]
        have differs : (principal, membership) ≠ entry := fun equal =>
          same (congrArg Prod.fst equal).symm
        simp [differs, Memberships.of]
    rw [one, or_assoc]
  rw [projectMemberships, added]
  have none : membership ∉ Memberships.of .empty principal := by
    simp [Memberships.of, Table.lookup, Table.empty]
  simp only [none, false_or, List.mem_flatMap, List.mem_map, Prod.mk.injEq]
  constructor <;>
  · rintro ⟨group, isGroup, member, isMember, isPrincipal, rfl⟩
    exact ⟨group, isGroup, member, isMember, isPrincipal, rfl⟩

/-! ## Placement -/

/-- The store of an evaluation after a reload. -/
def storeOf (static : EntityMap α) (directory : Directory) (now : Int) (request : Subjects α) :
    EntityMap α :=
  evaluationEntities (rebuild static (buildDirectory directory).1)
    (buildDirectory directory : EntityMap α × _).2 now request

/-- The entity is in another because of the directory: a parent that the
directory adds to it is the other, or has it above. -/
def Placed (static : EntityMap α) (directory : Directory) (now : Int) (request : Subjects α)
    (uid target : EntityUID) : Prop :=
  ∃ parent ∈ addedParents (buildDirectory directory : EntityMap α × _).2 now uid,
    ReflTransGen (Parent (storeOf static directory now request)) parent target

theorem parent_storeOf :
    Parent (storeOf static directory now request) uid parent ↔
      Parent (rebuild static (buildDirectory directory).1) uid parent ∨
        uid ∈ [request.principal, request.resource] ∧
          parent ∈ addedParents (buildDirectory directory : EntityMap α × _).2 now uid := by
  rw [storeOf, evaluationEntities, parent_withSPIFFEParents, parent_overlay orphan_requestEntities]

theorem addedParents_of_ne (other : uid.type ≠ spiffeEntityType) :
    addedParents snap now uid = [] := by
  rw [addedParents, if_pos other]

/-- A projected domain has its parent above it and nothing else, whatever the
static entities say. -/
theorem parent_domain {name parent : Bytes}
    (known : directory.domains.lookup name = some (name, parent)) :
    Parent (storeOf static directory now request) (domainUID name) uid ↔
      parent ≠ [] ∧ uid = domainUID parent := by
  rw [parent_storeOf, addedParents_of_ne (by simp [domainUID]; decide)]
  simp only [Parent, lookup_rebuild, lookup_directory_domain, known, Option.map_some,
    Option.some_or, Option.some.injEq, exists_eq_left', domainEntity]
  by_cases top : parent = []
  · simp [top]
  · simp [top]

/-- A projected group has nothing above it. -/
theorem not_parent_group {id : Bytes} (known : id ∈ directory.groups) :
    ¬ Parent (storeOf static directory now request) (groupUID id) uid := by
  rw [parent_storeOf, addedParents_of_ne (by simp [groupUID]; decide)]
  simp [Parent, lookup_rebuild, lookup_directory_group known, groupEntity]

section Tree

variable {names segs : List Bytes} (valid : ∀ name ∈ names, validateDomainName name = true)
  (closed : ∀ name ∈ names, parentOf name ≠ [] → parentOf name ∈ names)
  (projected : directory.domains = projectDomains names) (clean : ∀ seg ∈ segs, 46 ∉ seg)

include valid in
theorem nonempty_of_known {name label : Bytes} (known : name ∈ names)
    (member : label ∈ name.splitOn 46) : label ≠ [] := by
  have checked := valid name known
  simp only [validateDomainName, Bool.and_eq_true, List.all_eq_true] at checked
  rintro rfl
  simpa [matchesLabel] using checked.2 [] member

include valid projected in
theorem lookup_known {name : Bytes} (known : name ∈ names) :
    directory.domains.lookup name = some (name, parentOf name) := by
  rw [projected, lookup_projectDomains, if_pos ⟨known, valid name known⟩]

include clean in
/-- The parent of a name made of segments is made of one segment less. -/
theorem parentOf_take {n : Nat} (positive : 0 < n) (short : n < segs.length) :
    parentOf (Separated.join 46 (segs.take (n + 1))) = Separated.join 46 (segs.take n) := by
  have nonempty : segs.take n ≠ [] := by
    rw [Ne, List.take_eq_nil_iff]
    rintro (rfl | rfl)
    · exact absurd positive (by omega)
    · exact absurd short (by simp)
  rw [List.take_succ_eq_append_getElem short]
  exact parentOf_join nonempty (clean _ (List.getElem_mem short))

include clean in
theorem parentOf_take_one (some : 0 < segs.length) :
    parentOf (Separated.join 46 (segs.take 1)) = [] := by
  rw [List.take_succ_eq_append_getElem some, List.take_zero, List.nil_append,
    Separated.join_singleton]
  exact parentOf_label (clean _ (List.getElem_mem some))

include valid closed projected clean in
/-- From a domain made of segments the tree leads to every shorter one, and they
are all known. -/
theorem reach_shorter {n k : Nat} (positive : 0 < k) (order : k ≤ n) (short : n ≤ segs.length)
    (known : Separated.join 46 (segs.take n) ∈ names) :
    Separated.join 46 (segs.take k) ∈ names ∧
      ReflTransGen (Parent (storeOf static directory now request))
        (domainUID (Separated.join 46 (segs.take n)))
        (domainUID (Separated.join 46 (segs.take k))) := by
  induction n with
  | zero => exact absurd (positive.trans_le order) (by omega)
  | succ n ih =>
  rcases Nat.lt_or_ge n k with last | deeper
  · obtain rfl : k = n + 1 := by omega
    exact ⟨known, .refl⟩
  · have more : 0 < n := positive.trans_le deeper
    have parent := parentOf_take clean more (by omega : n < segs.length)
    have labels := splitOn_join (segs.take (n + 1)) (by
      rw [Ne, List.take_eq_nil_iff]
      rintro (zero | rfl)
      · omega
      · simp at short) fun label member => clean label (List.mem_of_mem_take member)
    -- The first label of a known name is not empty, so neither is its parent.
    have named : parentOf (Separated.join 46 (segs.take (n + 1))) ≠ [] := by
      rw [parent]
      intro empty
      cases segs with
      | nil => simp at short
      | cons first rest =>
      have filled : first ≠ [] := nonempty_of_known valid known (by
        rw [labels]
        simp)
      obtain ⟨n, rfl⟩ : ∃ m, n = m + 1 := ⟨n - 1, by omega⟩
      rw [List.take_succ_cons] at empty
      cases tail : rest.take n with
      | nil =>
        rw [tail, Separated.join_singleton] at empty
        exact filled empty
      | cons =>
        rw [tail, Separated.join_cons_cons] at empty
        simp at empty
    have knownParent := closed _ known named
    rw [parent] at knownParent
    obtain ⟨knownShorter, path⟩ := ih deeper (by omega) knownParent
    refine ⟨knownShorter, .head ?_ path⟩
    rw [parent_domain (lookup_known valid projected known), parent]
    exact ⟨parent ▸ named, rfl⟩

include valid closed projected clean in
/-- Everything above a domain made of segments is a shorter one. -/
theorem shorter_of_reach {n : Nat} {target : EntityUID} (positive : 0 < n)
    (short : n ≤ segs.length) (known : Separated.join 46 (segs.take n) ∈ names)
    (path : ReflTransGen (Parent (storeOf static directory now request))
      (domainUID (Separated.join 46 (segs.take n))) target) :
    ∃ k, 0 < k ∧ k ≤ n ∧ Separated.join 46 (segs.take k) ∈ names ∧
      target = domainUID (Separated.join 46 (segs.take k)) := by
  induction n with
  | zero => exact absurd positive (by omega)
  | succ n ih =>
  rcases ReflTransGen.cases_head path with same | ⟨middle, step, rest⟩
  · exact ⟨n + 1, positive, le_rfl, known, same.symm⟩
  rw [parent_domain (lookup_known valid projected known)] at step
  obtain ⟨named, rfl⟩ := step
  rcases Nat.eq_zero_or_pos n with rfl | more
  · exact absurd (parentOf_take_one clean (by omega)) named
  have parent := parentOf_take clean more (by omega : n < segs.length)
  have knownParent := closed _ known named
  rw [parent] at knownParent rest
  obtain ⟨k, kPositive, kShort, kKnown, same⟩ := ih more (by omega) knownParent rest
  exact ⟨k, kPositive, by omega, kKnown, same⟩

end Tree

theorem trustDomain_ne_nil {id : SpiffeId} (read : SpiffeId.fromString raw = some id) :
    id.trustDomain ≠ [] := by
  unfold SpiffeId.fromString at read
  split at read
  case isFalse => cases read
  case isTrue =>
    dsimp only at read
    split at read
    case isFalse => cases read
    case isTrue wellFormed =>
      cases read
      exact wellFormed.1

/-- What the projection puts into the directory. -/
theorem projectDirectory_eq {names : List Bytes} {groups : List Group}
    (projected : projectDirectory trustDomain names groups = some directory) :
    directory.trustDomain = trustDomain ∧ directory.domains = projectDomains names ∧
      directory.groups = groups.map groupID ∧
      directory.memberships = projectMemberships groups := by
  unfold projectDirectory at projected
  split_ifs at projected
  cases projected
  exact ⟨rfl, rfl, rfl, rfl⟩

/-- The parents the directory adds: the domain of the ID, and the groups with a
membership in force. -/
theorem mem_addedParents (spiffe : uid.type = spiffeEntityType) :
    parent ∈ addedParents snap now uid ↔
      (snap.trustDomain ≠ [] ∧ domainOfSPIFFEID uid.id snap.domains snap.trustDomain ≠ [] ∧
        parent = domainUID (domainOfSPIFFEID uid.id snap.domains snap.trustDomain)) ∨
      ∃ membership ∈ snap.memberships.of uid.id, membership.active now = true ∧
        parent = groupUID membership.group := by
  rw [addedParents, if_neg (not_not.mpr spiffe), List.mem_append]
  refine or_congr ?_ ?_
  · by_cases none : snap.trustDomain = []
    · simp [none]
    · by_cases nowhere : domainOfSPIFFEID uid.id snap.domains snap.trustDomain = []
      · simp [none, nowhere]
      · simp [none, nowhere]
  · rw [List.mem_map]
    constructor
    · rintro ⟨membership, kept, rfl⟩
      obtain ⟨member, active⟩ := List.mem_filter.mp kept
      exact ⟨membership, member, active, rfl⟩
    · rintro ⟨membership, member, active, rfl⟩
      exact ⟨membership, List.mem_filter.mpr ⟨member, active⟩, rfl⟩

/-- The domain of an ID: the longest known prefix of its segments. -/
theorem domainOfSPIFFEID_spec {domains : List Bytes}
    (found : domainOfSPIFFEID raw domains trustDomain ≠ []) :
    ∃ id k, SpiffeId.fromString raw = some id ∧ id.trustDomain = trustDomain ∧ 0 < k ∧
      k ≤ (labelSegments id.path).length ∧
      domainOfSPIFFEID raw domains trustDomain =
        Separated.join 46 ((labelSegments id.path).take k) ∧
      Separated.join 46 ((labelSegments id.path).take k) ∈ domains := by
  unfold domainOfSPIFFEID at found ⊢
  cases read : SpiffeId.fromString raw with
  | none => simp [read] at found
  | some id =>
  rw [read] at found
  dsimp only at found ⊢
  split_ifs at found ⊢ with outside
  · exact absurd rfl found
  rw [not_or, not_not] at outside
  rcases @deepestDomain_spec domains (labelSegments id.path) (labelSegments id.path).length with
    ⟨none, -⟩ | ⟨k, positive, short, isName, member, -⟩
  · exact absurd none found
  · exact ⟨id, k, rfl, outside.1, positive, short, isName, member⟩

/-- A known name that begins the path of an ID is at or above its domain. -/
theorem domainOfSPIFFEID_longest {domains : List Bytes} {id : SpiffeId} {n : Nat}
    (read : SpiffeId.fromString raw = some id) (local' : id.trustDomain = trustDomain)
    (path : id.path ≠ []) (positive : 0 < n) (short : n ≤ (labelSegments id.path).length)
    (known : Separated.join 46 ((labelSegments id.path).take n) ∈ domains)
    (named : Separated.join 46 ((labelSegments id.path).take n) ≠ []) :
    ∃ k, n ≤ k ∧ k ≤ (labelSegments id.path).length ∧
      domainOfSPIFFEID raw domains trustDomain =
        Separated.join 46 ((labelSegments id.path).take k) ∧
      Separated.join 46 ((labelSegments id.path).take k) ∈ domains := by
  have value : domainOfSPIFFEID raw domains trustDomain =
      deepestDomain domains (labelSegments id.path) (labelSegments id.path).length := by
    simp [domainOfSPIFFEID, read, local', path]
  rw [value]
  rcases @deepestDomain_spec domains (labelSegments id.path) (labelSegments id.path).length with
    ⟨-, absent⟩ | ⟨k, -, kShort, isName, member, longest⟩
  · exact absurd (absent n positive short known) named
  · refine ⟨k, ?_, kShort, isName, member⟩
    by_contra above
    exact longest n (by omega) short known

theorem domainUID_ne_groupUID (name id : Bytes) : domainUID name ≠ groupUID id := by
  intro same
  have types : domainEntityType = groupEntityType := congrArg EntityUID.type same
  exact absurd types (by decide)

section Projected

variable {names : List Bytes} {trustDomain : Bytes} {groups : List Group} {uid : EntityUID}
  (valid : ∀ name ∈ names, validateDomainName name = true)
  (closed : ∀ name ∈ names, parentOf name ≠ [] → parentOf name ∈ names)
  (projected : projectDirectory trustDomain names groups = some directory)
  (spiffe : uid.type = spiffeEntityType)

include valid projected in
/-- The domains of the snapshot are the names that were projected. -/
theorem mem_snapshot_domains (name : Bytes) :
    name ∈ directory.domains.rows.map Prod.fst ↔ name ∈ names := by
  rw [(projectDirectory_eq projected).2.1, List.mem_map]
  constructor
  · rintro ⟨entry, member, rfl⟩
    have found := Table.mem_rows_iff.mp member
    rw [lookup_projectDomains] at found
    split_ifs at found with member
    exact member.1
  · intro member
    refine ⟨(name, parentOf name), Table.mem_rows_iff.mpr ?_, rfl⟩
    rw [lookup_projectDomains, if_pos ⟨member, valid name member⟩]

include projected spiffe in
/-- What an entity is in because of the directory: what its domain leads to, and
its groups, which lead nowhere. -/
theorem placed_iff {target : EntityUID} :
    Placed static directory now request uid target ↔
      (trustDomain ≠ [] ∧
        domainOfSPIFFEID uid.id (directory.domains.rows.map Prod.fst) trustDomain ≠ [] ∧
        ReflTransGen (Parent (storeOf static directory now request)) (domainUID
          (domainOfSPIFFEID uid.id (directory.domains.rows.map Prod.fst) trustDomain)) target) ∨
      ∃ group ∈ groups, target = groupUID (groupID group) ∧ ∃ member ∈ group.members,
        member.principal = uid.id ∧
          (⟨groupID group, member.expiresAt⟩ : Membership).active now = true := by
  obtain ⟨isTrustDomain, -, isGroups, isMemberships⟩ := projectDirectory_eq projected
  have snapshot : (buildDirectory directory : EntityMap α × _).2 =
      ⟨trustDomain, directory.domains.rows.map Prod.fst, projectMemberships groups⟩ := by
    rw [buildDirectory, isTrustDomain, isMemberships]
  rw [Placed, snapshot]
  constructor
  · rintro ⟨parent, member, path⟩
    rcases (mem_addedParents spiffe).mp member with ⟨some, found, rfl⟩ | ⟨membership, listed, active, rfl⟩
    · exact .inl ⟨some, found, path⟩
    obtain ⟨group, isGroup, groupMember, isMember, isPrincipal, rfl⟩ :=
      mem_projectMemberships.mp listed
    have isListed : groupID group ∈ directory.groups := isGroups ▸ List.mem_map_of_mem isGroup
    rcases ReflTransGen.cases_head path with same | ⟨middle, step, -⟩
    · exact .inr ⟨group, isGroup, same.symm, groupMember, isMember, isPrincipal, active⟩
    · exact absurd step (not_parent_group isListed)
  · rintro (⟨some, found, path⟩ | ⟨group, isGroup, rfl, member, isMember, isPrincipal, active⟩)
    · exact ⟨_, (mem_addedParents spiffe).mpr (.inl ⟨some, found, rfl⟩), path⟩
    · have listed := mem_projectMemberships.mpr ⟨group, isGroup, member, isMember, isPrincipal, rfl⟩
      exact ⟨_, (mem_addedParents spiffe).mpr (.inr ⟨_, listed, active, rfl⟩), .refl⟩

include valid closed projected in
/-- The domain of an ID leads to the domains that begin its path. -/
theorem reach_of_domain {target : EntityUID}
    (found : domainOfSPIFFEID uid.id (directory.domains.rows.map Prod.fst) trustDomain ≠ [])
    (path : ReflTransGen (Parent (storeOf static directory now request)) (domainUID
      (domainOfSPIFFEID uid.id (directory.domains.rows.map Prod.fst) trustDomain)) target) :
    ∃ name ∈ names, target = domainUID name ∧ ∃ id, SpiffeId.fromString uid.id = some id ∧
      id.trustDomain = trustDomain ∧ name.splitOn 46 <+: labelSegments id.path := by
  obtain ⟨id, n, read, local', positive, short, isName, member⟩ := domainOfSPIFFEID_spec found
  rw [isName] at path
  obtain ⟨k, kPositive, kShort, kKnown, same⟩ := shorter_of_reach valid closed
    (projectDirectory_eq projected).2.1 (fun seg member => labelSegments_clean member) positive short
    ((mem_snapshot_domains valid projected _).mp member) path
  refine ⟨_, kKnown, same, id, read, local', ?_⟩
  have nonempty : (labelSegments id.path).take k ≠ [] := by
    rw [Ne, List.take_eq_nil_iff]
    rintro (zero | empty)
    · omega
    · rw [empty, List.length_nil] at short
      omega
  rw [splitOn_join _ nonempty fun label member =>
    labelSegments_clean (List.mem_of_mem_take member)]
  exact List.take_prefix _ _

include valid closed projected in
/-- And to all of them. -/
theorem domain_reaches {name : Bytes} {id : SpiffeId} (member : name ∈ names)
    (read : SpiffeId.fromString uid.id = some id) (local' : id.trustDomain = trustDomain)
    (labels : name.splitOn 46 <+: labelSegments id.path) :
    domainOfSPIFFEID uid.id (directory.domains.rows.map Prod.fst) trustDomain ≠ [] ∧
      ReflTransGen (Parent (storeOf static directory now request)) (domainUID
        (domainOfSPIFFEID uid.id (directory.domains.rows.map Prod.fst) trustDomain))
        (domainUID name) := by
  have named : name ≠ [] := ne_nil_of_validateDomainName (valid name member)
  have positive : 0 < (name.splitOn 46).length := List.length_pos_iff.mpr (List.splitOn_ne_nil _ _)
  have isTake : (labelSegments id.path).take (name.splitOn 46).length = name.splitOn 46 :=
    (List.prefix_iff_eq_take.mp labels).symm
  have path : id.path ≠ [] := by
    intro empty
    -- The only segment of an empty path is empty, and no label is.
    have segments : ∀ seg ∈ labelSegments id.path, seg = [] := by
      rw [empty]
      decide
    obtain ⟨label, first⟩ := List.exists_mem_of_length_pos positive
    exact nonempty_of_known valid member first (segments label (labels.subset first))
  have nameEq : Separated.join 46 ((labelSegments id.path).take (name.splitOn 46).length) = name := by
    rw [isTake, join_splitOn]
  have known := mem_snapshot_domains valid projected
  obtain ⟨k, longer, kShort, isName, kKnown⟩ := domainOfSPIFFEID_longest read local' path positive
    labels.length_le ((known _).mpr (nameEq.symm ▸ member)) (nameEq.symm ▸ named)
  obtain ⟨-, leads⟩ := @reach_shorter α _ static directory now request _ _ valid closed
    (projectDirectory_eq projected).2.1 (fun seg member => labelSegments_clean member) _ _ positive
    longer kShort ((known _).mp kKnown)
  rw [isName]
  rw [nameEq] at leads
  exact ⟨ne_nil_of_validateDomainName (valid _ ((known _).mp kKnown)), leads⟩

end Projected

/-- Where the directory places a SPIFFE entity.  Its parents in the store of an
evaluation are its static ones and those the directory adds.  Because of the
latter it is in a domain exactly if the domain exists, the entity is a SPIFFE ID
of the trust domain and the labels of the domain begin its path, and in a group
exactly if the group lists a membership of it that is in force. -/
theorem placement_exact {names : List Bytes}
    (valid : ∀ name ∈ names, validateDomainName name = true)
    (closed : ∀ name ∈ names, parentOf name ≠ [] → parentOf name ∈ names) {trustDomain : Bytes}
    {groups : List Group} {directory : Directory}
    (projected : projectDirectory trustDomain names groups = some directory)
    (static : EntityMap α) (now : Int) (request : Subjects α) {uid : EntityUID}
    (asked : uid = request.principal ∨ uid = request.resource)
    (spiffe : uid.type = spiffeEntityType) :
    (∀ parent, Parent (storeOf static directory now request) uid parent ↔
      Parent static uid parent ∨
        parent ∈ addedParents (buildDirectory directory : EntityMap α × _).2 now uid) ∧
    (∀ name, Placed static directory now request uid (domainUID name) ↔
      name ∈ names ∧ ∃ id, SpiffeId.fromString uid.id = some id ∧ id.trustDomain = trustDomain ∧
        name.splitOn 46 <+: labelSegments id.path) ∧
    (∀ id, Placed static directory now request uid (groupUID id) ↔
      ∃ group ∈ groups, groupID group = id ∧ ∃ member ∈ group.members,
        member.principal = uid.id ∧ (⟨id, member.expiresAt⟩ : Membership).active now = true) := by
  have fromDomain := @reach_of_domain α _ static directory now request names trustDomain groups uid
    valid closed projected
  refine ⟨fun parent => ?_, fun name => ⟨?_, ?_⟩, fun id => ⟨?_, ?_⟩⟩
  · have listed : uid ∈ [request.principal, request.resource] := by
      simpa using asked
    rw [parent_storeOf]
    simp [Parent, lookup_rebuild, lookup_directory_spiffe directory spiffe, listed]
  · intro placed
    rcases (placed_iff projected spiffe).mp placed with ⟨-, found, path⟩ | ⟨_, _, same, _⟩
    · obtain ⟨other, member, same, rest⟩ := fromDomain found path
      obtain rfl : name = other := congrArg EntityUID.id same
      exact ⟨member, rest⟩
    · exact absurd same (domainUID_ne_groupUID _ _)
  · rintro ⟨member, id, read, local', labels⟩
    have reaches := @domain_reaches α _ static directory now request names trustDomain groups uid
      valid closed projected name id member read local' labels
    exact (placed_iff projected spiffe).mpr
      (.inl ⟨local' ▸ trustDomain_ne_nil read, reaches.1, reaches.2⟩)
  · intro placed
    rcases (placed_iff projected spiffe).mp placed with
      ⟨-, found, path⟩ | ⟨group, isGroup, same, member⟩
    · obtain ⟨_, _, same, _⟩ := fromDomain found path
      exact absurd same.symm (domainUID_ne_groupUID _ _)
    · obtain rfl : id = groupID group := congrArg EntityUID.id same
      exact ⟨group, isGroup, rfl, member⟩
  · rintro ⟨group, isGroup, rfl, member⟩
    exact (placed_iff projected spiffe).mpr (.inr ⟨group, isGroup, rfl, member⟩)

/-- Two domains of one tree, and a group with a membership that ends. -/
def mediaNames : List Bytes := [ascii "media", ascii "media.news"]

def mediaWorkload : EntityUID := ⟨spiffeEntityType, ascii "spiffe://omega.local/media/news/web"⟩

def mediaGroups : List Group :=
  [⟨ascii "media", ascii "editors", [], [⟨mediaWorkload.id, some 10⟩], 0⟩]

def mediaDirectory : Directory where
  trustDomain := ascii "omega.local"
  domains := projectDomains mediaNames
  groups := mediaGroups.map groupID
  memberships := projectMemberships mediaGroups

/-- The workload is in the upper domain too, and no longer in the group once the
membership has ended. -/
theorem placement_exact_media :
    projectDirectory (ascii "omega.local") mediaNames mediaGroups = some mediaDirectory ∧
    Placed (.empty : EntityMap Unit) mediaDirectory 10 ⟨mediaWorkload, none, mediaWorkload, none⟩
      mediaWorkload (domainUID (ascii "media")) ∧
    ¬ Placed (.empty : EntityMap Unit) mediaDirectory 10 ⟨mediaWorkload, none, mediaWorkload, none⟩
      mediaWorkload (groupUID (ascii "media:editors")) := by
  have projected :
      projectDirectory (ascii "omega.local") mediaNames mediaGroups = some mediaDirectory :=
    if_neg (by decide)
  obtain ⟨-, domains, groups⟩ := placement_exact (by decide) (by decide) projected
    (.empty : EntityMap Unit) 10 ⟨mediaWorkload, none, mediaWorkload, none⟩ (.inl rfl) rfl
  refine ⟨projected, (domains _).mpr ⟨by decide, ⟨ascii "omega.local", ascii "/media/news/web"⟩,
    by decide, rfl, by decide⟩, fun placed => ?_⟩
  exact absurd ((groups _).mp placed) (by decide)

end Parents

end OmegaPlane.Evaluation
