import OmegaPlane.Data.Separated
import OmegaPlane.Data.SpiffeId
import OmegaPlane.Directory.Store

/-!
# The directory in the policy engine

The domain tree, the groups and the memberships are projected into the entity
store that policies are evaluated against.  Domains and groups become entities
that win over static ones; the parents of a SPIFFE principal or resource are
added for each evaluation, at the time of the evaluation.
-/

namespace OmegaPlane.Evaluation

open OmegaPlane.Directory

/-! ## Entities -/

structure EntityUID where
  type : Bytes
  id : Bytes
  deriving DecidableEq

/-- An entity: its parents, and the attributes and tags as Cedar keeps them. -/
structure Entity (α : Type) where
  uid : EntityUID
  parents : List EntityUID
  attributes : α
  deriving DecidableEq

abbrev EntityMap (α : Type) := Table (Entity.uid : Entity α → EntityUID)

def domainEntityType : Bytes := ascii "Domain"
def groupEntityType : Bytes := ascii "Group"
def spiffeEntityType : Bytes := ascii "Spiffe"

def domainUID (name : Bytes) : EntityUID := ⟨domainEntityType, name⟩
def groupUID (id : Bytes) : EntityUID := ⟨groupEntityType, id⟩

/-! ## The projection -/

/-- A principal's place in a group until the expiry, if there is one. -/
structure Membership where
  group : Bytes
  expiresAt : Option Int
  deriving DecidableEq

/-- A map from domains to their parents. -/
abbrev DomainTree := Table (Prod.fst : Bytes × Bytes → Bytes)

/-- A map from members to their groups. -/
abbrev Memberships := Table (Prod.fst : Bytes × List Membership → Bytes)

/-- Control-plane state as it is projected; no trust domain is the empty name. -/
structure Directory where
  trustDomain : Bytes
  domains : DomainTree
  groups : List Bytes
  memberships : Memberships

/-- The projected state that one evaluation reads. -/
structure DirectorySnapshot where
  trustDomain : Bytes
  domains : List Bytes
  memberships : Memberships

def groupID (group : Group) : Bytes :=
  group.domain ++ [58] ++ group.name

/-- The groups of a principal. -/
def Memberships.of (memberships : Memberships) (principal : Bytes) : List Membership :=
  ((memberships.lookup principal).map Prod.snd).getD []

def Memberships.add (memberships : Memberships) (principal : Bytes) (membership : Membership) :
    Memberships :=
  memberships.put (principal, memberships.of principal ++ [membership])

/-- The domains with a valid name, each with the parent its name has. -/
def projectDomains (names : List Bytes) : DomainTree :=
  Table.empty.putAll ((names.filter validateDomainName).map fun name => (name, parentOf name))

def projectMemberships (groups : List Group) : Memberships :=
  (groups.flatMap fun group => group.members.map fun member =>
    (member.principal, (⟨groupID group, member.expiresAt⟩ : Membership))).foldl
      (fun memberships entry => memberships.add entry.1 entry.2) .empty

/-- What a reload projects from the domains and groups it has read.  Without a
trust domain no workload would be in any domain, so it refuses. -/
def projectDirectory (trustDomain : Bytes) (names : List Bytes) (groups : List Group) :
    Option Directory :=
  if trustDomain = [] ∧ (projectDomains names).rows ≠ [] then none
  else
    some
      { trustDomain
        domains := projectDomains names
        groups := groups.map groupID
        memberships := projectMemberships groups }

/-! ## The entity store -/

section Entities

variable {α : Type} [Inhabited α]

def domainEntity (entry : Bytes × Bytes) : Entity α :=
  { uid := domainUID entry.1
    parents := if entry.2 ≠ [] then [domainUID entry.2] else []
    attributes := default }

def groupEntity (id : Bytes) : Entity α :=
  ⟨groupUID id, [], default⟩

/-- The entities of the directory and what an evaluation looks up. -/
def buildDirectory (directory : Directory) : EntityMap α × DirectorySnapshot :=
  ((Table.empty.putAll (directory.domains.rows.map domainEntity)).putAll
      (directory.groups.map groupEntity),
    ⟨directory.trustDomain, directory.domains.rows.map Prod.fst, directory.memberships⟩)

/-- The static entities with those of the directory, which win. -/
def rebuild (static directory : EntityMap α) : EntityMap α :=
  static.putAll directory.rows

/-- The longest prefix of the segments, of at most this length, that names a
domain. -/
def deepestDomain (domains : List Bytes) (segs : List Bytes) : Nat → Bytes
  | 0 => []
  | n + 1 =>
    let name := Separated.join 46 (segs.take (n + 1))
    if domains.contains name then name else deepestDomain domains segs n

/-- The segments of a path that can be labels: a segment with a dot is none, and
nothing after it is. -/
def labelSegments (path : Bytes) : List Bytes :=
  ((path.drop 1).splitOn 47).takeWhile fun seg => !seg.contains 46

/-- The deepest domain whose labels are a prefix of the path of the ID. -/
def domainOfSPIFFEID (raw : Bytes) (domains : List Bytes) (trustDomain : Bytes) : Bytes :=
  match SpiffeId.fromString raw with
  | none => []
  | some id =>
    if id.trustDomain ≠ trustDomain ∨ id.path = [] then []
    else
      let segs := labelSegments id.path
      deepestDomain domains segs segs.length

def Membership.active (now : Int) (membership : Membership) : Bool :=
  membership.expiresAt.all fun expiresAt => now < expiresAt

/-- The parents an evaluation adds to an entity. -/
def addedParents (snap : DirectorySnapshot) (now : Int) (uid : EntityUID) : List EntityUID :=
  if uid.type ≠ spiffeEntityType then []
  else
    let dom :=
      if snap.trustDomain ≠ [] then domainOfSPIFFEID uid.id snap.domains snap.trustDomain else []
    (if dom ≠ [] then [domainUID dom] else []) ++
      (((snap.memberships.of uid.id).filter (Membership.active now)).map fun membership =>
        groupUID membership.group)

def addParents (ents : EntityMap α) (uid : EntityUID) (add : List EntityUID) : EntityMap α :=
  if add = [] then ents
  else
    let ent := (ents.lookup uid).getD ⟨uid, [], default⟩
    ents.put { ent with parents := (ent.parents ++ add).dedup }

def withSPIFFEParents (ents : EntityMap α) (snap : DirectorySnapshot) (now : Int)
    (uids : List EntityUID) : EntityMap α :=
  if snap.domains = [] ∧ snap.memberships.rows = [] then ents
  else uids.foldl (fun ents uid => addParents ents uid (addedParents snap now uid)) ents

/-- At most two entities that carry the attributes of a request, where it has
any. -/
def requestEntities (principal : EntityUID) (subjectAttrs : Option α) (resource : EntityUID)
    (resourceAttrs : Option α) : List (Entity α) :=
  (subjectAttrs.map fun attrs => ⟨principal, [], attrs⟩).toList ++
    if resource ≠ principal then (resourceAttrs.map fun attrs => ⟨resource, [], attrs⟩).toList
    else []

/-- Add the entities of the request where the store has none. -/
def overlay (ents : EntityMap α) (overlays : List (Entity α)) : EntityMap α :=
  overlays.foldl (fun ents ent => (ents.insert ent).2) ents

/-- What a request asks about, with the attributes it brings. -/
structure Subjects (α : Type) where
  principal : EntityUID
  subjectAttrs : Option α
  resource : EntityUID
  resourceAttrs : Option α

/-- The entities an evaluation hands to Cedar. -/
def evaluationEntities (entities : EntityMap α) (snap : DirectorySnapshot) (now : Int)
    (request : Subjects α) : EntityMap α :=
  let overlays :=
    requestEntities request.principal request.subjectAttrs request.resource request.resourceAttrs
  withSPIFFEParents (overlay entities overlays) snap now [request.principal, request.resource]

end Entities

end OmegaPlane.Evaluation
