import Mathlib.Logic.Function.Basic
import OmegaPlane.Evaluation.Directory
import OmegaPlane.Policies.Load

/-!
# Reloads, writes and evaluations on one replica

A write commits, reloads the engine and is answered.  A reload takes the reload
lock, reads the domains, the groups and the stored policies in separate queries,
and swaps the directory and the policies of the engine separately; it can fail
anywhere.  A reload that fails after a write marks the directory as broken, and
only a complete reload clears the mark.  Writes, periodic reloads and commits of
other replicas interleave freely.

Since reloads exclude each other, every reload that is under way once a write has
reloaded started after the write, so an engine that is fresh for a write stays
so, and the mark is cleared only by a reload that read the write.
-/

namespace OmegaPlane.Evaluation

open OmegaPlane.Directory (Group)
open Storage (StoreError Policy)
open Policies (Tables LoadError)

/-! ## The replica -/

/-- What a reload reads of the database. -/
structure Database where
  domains : List Bytes
  groups : List Group
  tables : Tables

/-- Who reloads: the handler of a write, with the version its commit made, or
the periodic sync. -/
inductive Caller where
  | write (version : Nat)
  | sync
  deriving DecidableEq

inductive Task where
  | idle
  | waiting (caller : Caller)
  | reloading (caller : Caller)
  /-- The reload after a write has failed; the mark is still to be set. -/
  | stale (version : Nat)
  | reloaded (version : Nat)
  deriving DecidableEq

/-- How far the holder of the reload lock is.  A reload that is still to read
remembers the version the database had when it took the lock. -/
inductive Phase where
  | acquired (since : Nat)
  | projected (since : Nat)
  | loaded (since : Nat)
  | unusable
  | failed

structure Server where
  /-- The database before the first commit, and after each one. -/
  initial : Database
  commits : List Database
  directory : Directory
  engine : Policies.Engine
  broken : Bool
  loadedAt : Int
  interval : Int
  now : Int
  reload : Option (Nat × Phase)
  tasks : Nat → Task
  acked : List Nat

namespace Server

/-- The current version of the database. -/
def version (server : Server) : Nat :=
  server.commits.length

/-- A version of the database. -/
def database (server : Server) (version : Nat) : Database :=
  (server.initial :: server.commits).getD version server.initial

/-- A read that falls somewhere between a version and now. -/
def readIndex (server : Server) (since pick : Nat) : Nat :=
  max since (min pick server.version)

@[simp]
def setTask (server : Server) (task : Nat) (state : Task) : Server :=
  { server with tasks := Function.update server.tasks task state }

end Server

/-- What can happen.  The version each query of a reload meets is picked between
the start of the reload and now; a query of the policies may fail. -/
inductive Event where
  | commit (task : Nat) (db : Database)
  | remote (db : Database)
  | sync (task : Nat)
  | lock (task : Nat)
  | fail (task : Nat)
  | project (task : Nat) (domainsAt groupsAt : Nat)
  | load (task : Nat) (queries : Nat → Except StoreError Nat)
  | finish (task : Nat)
  | mark (task : Nat)
  | answer (task : Nat)
  | files (files : Policies.TextMap) (fileIDs : List Bytes)
  | tick (now : Int)
  | configure (interval : Int)

/-- A set in the database that this replica cannot enforce, as opposed to a read
that failed. -/
def isStoredPolicySet : LoadError → Bool
  | .rowUnverified _ _ => true
  | .differs _ _ _ => true
  | .missing _ => true
  | .engine _ => true
  | .query _ => false
  | .keptChanging => false

section Steps

variable (sha256 : Bytes → Bytes) (keyring : Option Audit.AuditKeyring)
  (parseSources : List (Bytes × Bytes) → Except Bytes (List Bytes)) (trustDomain : Bytes)

/-- What the queries of a load meet. -/
def Server.view (server : Server) (since : Nat) (queries : Nat → Except StoreError Nat)
    (query : Nat) : Except StoreError Tables :=
  match queries query with
  | .error err => .error err
  | .ok pick => .ok (server.database (server.readIndex since pick)).tables

/-- The state of a task once its reload has returned. -/
def Caller.after (caller : Caller) (ok : Bool) : Task :=
  match caller with
  | .sync => .idle
  | .write version => if ok then .reloaded version else .stale version

/-- `SetDirectory`, unless the projection is refused. -/
def Server.project (server : Server) (task since domainsAt groupsAt : Nat) : Server :=
  let domains := (server.database (server.readIndex since domainsAt)).domains
  let groups := (server.database (server.readIndex since groupsAt)).groups
  match projectDirectory trustDomain domains groups with
  | none => { server with reload := some (task, .failed) }
  | some directory => { server with directory, reload := some (task, .projected since) }

/-- `loadStoredPolicies`, and what its error means. -/
def Server.load (server : Server) (task since : Nat)
    (queries : Nat → Except StoreError Nat) : Server :=
  match Policies.loadStoredPolicies sha256 (server.view since queries) keyring parseSources
      server.engine with
  | .ok engine => { server with engine, reload := some (task, .loaded since) }
  | .error err =>
    { server with reload := some (task, if isStoredPolicySet err then .unusable else .failed) }

/-- The end of a reload: the mark, the lock and the result. -/
def Server.finish (server : Server) (task : Nat) (phase : Phase) (caller : Caller) : Server :=
  match phase with
  | .loaded _ =>
    { server with loadedAt := server.now, broken := false, reload := none }.setTask task
      (caller.after true)
  | .unusable =>
    { server with broken := true, reload := none }.setTask task (caller.after false)
  | .failed => { server with reload := none }.setTask task (caller.after false)
  | _ => server

/-- One step; what cannot happen changes nothing. -/
def step (server : Server) : Event → Server
  | .commit task db =>
    match server.tasks task with
    | .idle =>
      { server with commits := server.commits ++ [db] }.setTask task
        (.waiting (.write (server.version + 1)))
    | _ => server
  | .remote db => { server with commits := server.commits ++ [db] }
  | .sync task =>
    match server.tasks task with
    | .idle => server.setTask task (.waiting .sync)
    | _ => server
  | .lock task =>
    match server.reload, server.tasks task with
    | none, .waiting caller =>
      { server with reload := some (task, .acquired server.version) }.setTask task
        (.reloading caller)
    | _, _ => server
  | .fail task =>
    match server.reload with
    | some (holder, .acquired _) =>
      if holder = task then { server with reload := some (task, .failed) } else server
    | _ => server
  | .project task domainsAt groupsAt =>
    match server.reload with
    | some (holder, .acquired since) =>
      if holder = task then server.project trustDomain task since domainsAt groupsAt else server
    | _ => server
  | .load task queries =>
    match server.reload with
    | some (holder, .projected since) =>
      if holder = task then server.load sha256 keyring parseSources task since queries
      else server
    | _ => server
  | .finish task =>
    match server.reload, server.tasks task with
    | some (holder, phase), .reloading caller =>
      if holder = task then server.finish task phase caller else server
    | _, _ => server
  | .mark task =>
    match server.tasks task with
    | .stale version => { server with broken := true }.setTask task (.reloaded version)
    | _ => server
  | .answer task =>
    match server.tasks task with
    | .reloaded version =>
      { server with acked := version :: server.acked }.setTask task .idle
    | _ => server
  | .files files fileIDs => { server with engine := { server.engine with files, fileIDs } }
  | .tick now => { server with now }
  | .configure interval => { server with interval }

def run (server : Server) (events : List Event) : Server :=
  events.foldl (step sha256 keyring parseSources trustDomain) server

end Steps

/-! ## Freshness -/

section Freshness

variable {sha256 : Bytes → Bytes} {keyring : Option Audit.AuditKeyring}
  {parseSources : List (Bytes × Bytes) → Except Bytes (List Bytes)} {trustDomain : Bytes}
  {server later : Server} {earlier task : Nat} {queries : Nat → Except StoreError Nat}
  {caller : Caller}

variable (trustDomain) in
/-- The directory was projected from domains and groups that were read at this
version or later. -/
def DirectoryFrom (version : Nat) (server : Server) : Prop :=
  ∃ domainsAt groupsAt, version ≤ domainsAt ∧ domainsAt ≤ server.version ∧
    version ≤ groupsAt ∧ groupsAt ≤ server.version ∧
    projectDirectory trustDomain (server.database domainsAt).domains
      (server.database groupsAt).groups = some server.directory

/-- The stored policies are those of this version or a later one. -/
def StoredFrom (version : Nat) (server : Server) : Prop :=
  ∃ policiesAt, version ≤ policiesAt ∧ policiesAt ≤ server.version ∧
    ∀ id, server.engine.storedText id =
      ((server.database policiesAt).tables.policies.lookup id).map Policy.text

variable (trustDomain) in
/-- The engine was loaded from database states that include the commit of a
version. -/
def Fresh (version : Nat) (server : Server) : Prop :=
  DirectoryFrom trustDomain version server ∧ StoredFrom version server

theorem readIndex_bounds {since : Nat} (bound : since ≤ server.version) (pick : Nat) :
    since ≤ server.readIndex since pick ∧ server.readIndex since pick ≤ server.version := by
  unfold Server.readIndex
  omega

/-- The database has moved on, if at all. -/
structure Extends (server later : Server) : Prop where
  initial : later.initial = server.initial
  commits : ∃ more, later.commits = server.commits ++ more

theorem Extends.refl (server : Server) : Extends server server :=
  ⟨rfl, [], by simp⟩

theorem Extends.version_le (extends' : Extends server later) : server.version ≤ later.version := by
  obtain ⟨more, commits⟩ := extends'.commits
  simp [Server.version, commits]

/-- Versions do not change once they are there. -/
theorem Extends.database (extends' : Extends server later) {version : Nat}
    (known : version ≤ server.version) : later.database version = server.database version := by
  obtain ⟨more, commits⟩ := extends'.commits
  have inside : version < (server.initial :: server.commits).length := Nat.lt_succ_iff.mpr known
  rw [Server.database, Server.database, extends'.initial, commits, ← List.cons_append,
    List.getD_eq_getElem?_getD, List.getD_eq_getElem?_getD, List.getElem?_append_left inside]

theorem DirectoryFrom.mono {version : Nat} (fresh : DirectoryFrom trustDomain version server)
    (order : earlier ≤ version) : DirectoryFrom trustDomain earlier server := by
  obtain ⟨i, j, iLow, iHigh, jLow, jHigh, same⟩ := fresh
  exact ⟨i, j, order.trans iLow, iHigh, order.trans jLow, jHigh, same⟩

theorem StoredFrom.mono {version : Nat} (fresh : StoredFrom version server)
    (order : earlier ≤ version) : StoredFrom earlier server := by
  obtain ⟨i, low, high, same⟩ := fresh
  exact ⟨i, order.trans low, high, same⟩

theorem DirectoryFrom.extends {version : Nat} (fresh : DirectoryFrom trustDomain version server)
    (extends' : Extends server later) (directory : later.directory = server.directory) :
    DirectoryFrom trustDomain version later := by
  obtain ⟨i, j, iLow, iHigh, jLow, jHigh, same⟩ := fresh
  refine ⟨i, j, iLow, iHigh.trans extends'.version_le, jLow, jHigh.trans extends'.version_le, ?_⟩
  rw [extends'.database iHigh, extends'.database jHigh, directory]
  exact same

theorem StoredFrom.extends {version : Nat} (fresh : StoredFrom version server)
    (extends' : Extends server later) (stored : later.engine.stored = server.engine.stored) :
    StoredFrom version later := by
  obtain ⟨i, low, high, same⟩ := fresh
  refine ⟨i, low, high.trans extends'.version_le, fun id => ?_⟩
  rw [extends'.database high, ← same id, Policies.Engine.storedText, Policies.Engine.storedText,
    stored]

theorem Fresh.mono {version : Nat} (fresh : Fresh trustDomain version server)
    (order : earlier ≤ version) : Fresh trustDomain earlier server :=
  ⟨fresh.1.mono order, fresh.2.mono order⟩

/-- A load takes the policies of one version it met. -/
theorem loadStoredPolicies_from {since : Nat} {engine : Policies.Engine}
    (bound : since ≤ server.version)
    (loaded : Policies.loadStoredPolicies sha256 (server.view since queries) keyring parseSources
      server.engine = .ok engine) :
    ∃ policiesAt, since ≤ policiesAt ∧ policiesAt ≤ server.version ∧
      ∀ id, engine.storedText id =
        ((server.database policiesAt).tables.policies.lookup id).map Policy.text := by
  unfold Policies.loadStoredPolicies at loaded
  split at loaded
  · cases loaded
  next items recorded read =>
  split at loaded
  · cases loaded
  split at loaded
  · cases loaded
  next set =>
  cases loaded
  unfold Policies.policySet at read
  split at read
  · cases read
  obtain ⟨query, listed, -⟩ := Policies.policySetFrom_spec read
  simp only [Policies.listPolicies, Server.view] at listed
  cases met : queries query with
  | error => simp [met] at listed
  | ok pick =>
  rw [met] at listed
  have sorted := Except.ok.inj listed
  have bounds := readIndex_bounds bound pick
  refine ⟨_, bounds.1, bounds.2, fun id => ?_⟩
  rw [Policies.setStoredPolicies_spec set id]
  exact Policies.lookup_storedSet (sorted ▸ List.perm_insertionSort _ _) id

/-! ## The invariant -/

/-- The version a reload read from, as long as it may still change the engine. -/
def Phase.since : Phase → Option Nat
  | .acquired since | .projected since | .loaded since => some since
  | .unusable | .failed => none

/-- The write of a version has reloaded, or has been answered. -/
def Settled (server : Server) (version : Nat) : Prop :=
  (∃ task, server.tasks task = .stale version ∨ server.tasks task = .reloaded version) ∨
    version ∈ server.acked

/-- The write of a version is about to be answered, or has been. -/
def Done (server : Server) (version : Nat) : Prop :=
  (∃ task, server.tasks task = .reloaded version) ∨ version ∈ server.acked

/-- The version a task has committed. -/
def Task.versions : Task → List Nat
  | .waiting (.write version) | .reloading (.write version) | .stale version
  | .reloaded version => [version]
  | _ => []

variable (trustDomain) in
/-- What holds of every reachable state. -/
structure Ordered (server : Server) : Prop where
  known : ∀ task version, version ∈ (server.tasks task).versions → version ≤ server.version
  ackedKnown : ∀ version ∈ server.acked, version ≤ server.version
  /-- A reload reads from a version of the database, at or after its own write. -/
  holder : ∀ task phase since, server.reload = some (task, phase) → phase.since = some since →
    since ≤ server.version ∧ ∀ version, server.tasks task = .reloading (.write version) →
      version ≤ since
  projected : ∀ task phase since, server.reload = some (task, phase) →
    phase = .projected since ∨ phase = .loaded since → DirectoryFrom trustDomain since server
  loaded : ∀ task since, server.reload = some (task, .loaded since) → StoredFrom since server
  /-- A reload that is under way started after every write that has settled. -/
  settled : ∀ version, Settled server version → ∀ task phase since,
    server.reload = some (task, phase) → phase.since = some since → version ≤ since
  /-- A write that is about to be answered, or has been, is in the engine, unless
  the mark is set. -/
  fresh : ∀ version, Done server version → server.broken = true ∨ Fresh trustDomain version server

theorem Fresh.extends {version : Nat} (fresh : Fresh trustDomain version server)
    (extends' : Extends server later) (directory : later.directory = server.directory)
    (stored : later.engine.stored = server.engine.stored) : Fresh trustDomain version later :=
  ⟨fresh.1.extends extends' directory, fresh.2.extends extends' stored⟩

theorem tasks_setTask (server : Server) (task other : Nat) (state : Task) :
    (server.setTask task state).tasks other = if other = task then state else server.tasks other :=
  Function.update_apply _ _ _ _

/-- A task of the later state is an old one, or it is the one that was set. -/
theorem tasks_cases {server : Server} {other : Nat} {state found : Task}
    (isTask : (server.setTask task state).tasks other = found) :
    other = task ∧ found = state ∨ other ≠ task ∧ server.tasks other = found := by
  rw [tasks_setTask] at isTask
  by_cases same : other = task
  · rw [if_pos same] at isTask
    exact .inl ⟨same, isTask.symm⟩
  · rw [if_neg same] at isTask
    exact .inr ⟨same, isTask⟩

/-- A step that leaves the engine and the reload alone. -/
theorem Ordered.retask (ordered : Ordered trustDomain server) (extends' : Extends server later)
    (directory : later.directory = server.directory)
    (stored : later.engine.stored = server.engine.stored) (reload : later.reload = server.reload)
    (known : ∀ task version, version ∈ (later.tasks task).versions → version ≤ later.version)
    (reloading : ∀ task caller, later.tasks task = .reloading caller →
      server.tasks task = .reloading caller)
    (settled : ∀ version, Settled later version → Settled server version)
    (done : ∀ version, Done later version → later.broken = true ∨
      Done server version ∧ later.broken = server.broken)
    (ackedKnown : ∀ version ∈ later.acked, version ≤ later.version) :
    Ordered trustDomain later := by
  refine ⟨known, ackedKnown, ?_, ?_, ?_, ?_, ?_⟩
  · intro task phase since holds isSince
    obtain ⟨bound, own⟩ := ordered.holder task phase since (reload ▸ holds) isSince
    exact ⟨bound.trans extends'.version_le, fun version isTask =>
      own version (reloading task _ isTask)⟩
  · intro task phase since holds isPhase
    exact (ordered.projected task phase since (reload ▸ holds) isPhase).extends extends' directory
  · intro task since holds
    exact (ordered.loaded task since (reload ▸ holds)).extends extends' stored
  · intro version isSettled task phase since holds isSince
    exact ordered.settled version (settled version isSettled) task phase since (reload ▸ holds)
      isSince
  · intro version isDone
    rcases done version isDone with marked | ⟨before, broken⟩
    · exact .inl marked
    · rcases ordered.fresh version before with marked | fresh
      · exact .inl (broken.trans marked)
      · exact .inr (fresh.extends extends' directory stored)

/-- A step that leaves the engine, the reload and the answers alone and only lets
tasks start waiting. -/
theorem Ordered.quiet (ordered : Ordered trustDomain server) (extends' : Extends server later)
    (directory : later.directory = server.directory)
    (stored : later.engine.stored = server.engine.stored) (reload : later.reload = server.reload)
    (acked : later.acked = server.acked) (broken : later.broken = server.broken)
    (tasks : ∀ task, later.tasks task = server.tasks task ∨
      ∃ caller, later.tasks task = .waiting caller ∧
        ∀ version ∈ (later.tasks task).versions, version ≤ later.version) :
    Ordered trustDomain later := by
  have old : ∀ task found, later.tasks task = found → (∀ caller, found ≠ .waiting caller) →
      server.tasks task = found := by
    intro task found isTask notWaiting
    rcases tasks task with same | ⟨caller, waits, -⟩
    · exact same.symm.trans isTask
    · exact absurd (isTask.symm.trans waits) (notWaiting caller)
  apply ordered.retask extends' directory stored reload
  · intro task version member
    rcases tasks task with same | ⟨-, -, bound⟩
    · exact (ordered.known task version (same ▸ member)).trans extends'.version_le
    · exact bound version member
  · exact fun task caller isTask => old task _ isTask nofun
  · rintro version (⟨task, isStale | isReloaded⟩ | isAcked)
    · exact .inl ⟨task, .inl (old task _ isStale nofun)⟩
    · exact .inl ⟨task, .inr (old task _ isReloaded nofun)⟩
    · exact .inr (acked ▸ isAcked)
  · rintro version (⟨task, isReloaded⟩ | isAcked)
    · exact .inr ⟨.inl ⟨task, old task _ isReloaded nofun⟩, broken⟩
    · exact .inr ⟨.inr (acked ▸ isAcked), broken⟩
  · intro version member
    exact (ordered.ackedKnown version (acked ▸ member)).trans extends'.version_le

/-- A reload starts after everything that has been committed. -/
theorem Ordered.lock (ordered : Ordered trustDomain server)
    (waits : server.tasks task = .waiting caller) :
    Ordered trustDomain
      ({ server with reload := some (task, .acquired server.version) }.setTask task
        (.reloading caller)) := by
  have old : ∀ other found, (server.setTask task (.reloading caller)).tasks other = found →
      (∀ caller, found ≠ .reloading caller) → server.tasks other = found := by
    intro other found isTask notReloading
    rcases tasks_cases isTask with ⟨-, rfl⟩ | ⟨-, before⟩
    · exact absurd rfl (notReloading caller)
    · exact before
  refine ⟨?_, ordered.ackedKnown, ?_, ?_, ?_, ?_, ?_⟩
  · intro other version member
    rcases tasks_cases rfl with ⟨-, isTask⟩ | ⟨-, before⟩
    · rw [isTask] at member
      refine ordered.known task version ?_
      rw [waits]
      cases caller <;> exact member
    · exact ordered.known other version (before ▸ member)
  · rintro other phase since ⟨⟩ ⟨⟩
    refine ⟨le_rfl, fun version isTask => ?_⟩
    rcases tasks_cases isTask with ⟨-, isCaller⟩ | ⟨differs, -⟩
    · refine ordered.known task version ?_
      cases isCaller
      rw [waits]
      exact List.mem_singleton_self _
    · exact absurd rfl differs
  · rintro other phase since ⟨⟩ (⟨⟨⟩⟩ | ⟨⟨⟩⟩)
  · rintro other since ⟨⟩
  · rintro version (⟨other, isStale | isReloaded⟩ | isAcked) holder phase since ⟨⟩ ⟨⟩
    · refine ordered.known other version ?_
      rw [old other _ isStale nofun]
      exact List.mem_singleton_self _
    · refine ordered.known other version ?_
      rw [old other _ isReloaded nofun]
      exact List.mem_singleton_self _
    · exact ordered.ackedKnown version isAcked
  · rintro version (⟨other, isReloaded⟩ | isAcked)
    · exact ordered.fresh version (.inl ⟨other, old other _ isReloaded nofun⟩)
    · exact ordered.fresh version (.inr isAcked)

variable {phase : Phase}

/-- A reload that has failed changes nothing any more. -/
theorem Ordered.abandon (ordered : Ordered trustDomain server) (ended : phase.since = none) :
    Ordered trustDomain { server with reload := some (task, phase) } := by
  refine ⟨ordered.known, ordered.ackedKnown, ?_, ?_, ?_, ?_, ordered.fresh⟩
  · rintro other phase since ⟨⟩ isSince
    exact absurd (ended.symm.trans isSince) nofun
  · rintro other phase since ⟨⟩ (rfl | rfl) <;> cases ended
  · rintro other since ⟨⟩
    cases ended
  · rintro version - other phase since ⟨⟩ isSince
    exact absurd (ended.symm.trans isSince) nofun

/-- A write that has settled by now is in what a reload under way reads. -/
theorem Ordered.settled_of_done (ordered : Ordered trustDomain server) {since version : Nat}
    (holds : server.reload = some (task, phase)) (isSince : phase.since = some since)
    (done : Done server version) : version ≤ since := by
  refine ordered.settled version ?_ task phase since holds isSince
  rcases done with ⟨other, isReloaded⟩ | isAcked
  · exact .inl ⟨other, .inr isReloaded⟩
  · exact .inr isAcked

/-- A projection leaves the directory or reads it anew. -/
theorem project_from {task since : Nat} (bound : since ≤ server.version)
    (domainsAt groupsAt : Nat) :
    (server.project trustDomain task since domainsAt groupsAt =
        { server with reload := some (task, .failed) }) ∨
      ∃ directory, server.project trustDomain task since domainsAt groupsAt =
          { server with directory, reload := some (task, .projected since) } ∧
        DirectoryFrom trustDomain since
          { server with directory, reload := some (task, .projected since) } := by
  unfold Server.project
  dsimp only
  split
  · exact .inl rfl
  next directory projected =>
    have first := readIndex_bounds bound domainsAt
    have second := readIndex_bounds bound groupsAt
    exact .inr ⟨directory, rfl, _, _, first.1, first.2, second.1, second.2, projected⟩

/-- A load leaves the stored policies or reads them anew. -/
theorem load_from {task since : Nat} (bound : since ≤ server.version)
    (queries : Nat → Except StoreError Nat) :
    (∃ phase, phase.since = none ∧
      server.load sha256 keyring parseSources task since queries =
        { server with reload := some (task, phase) }) ∨
      ∃ engine, server.load sha256 keyring parseSources task since queries =
          { server with engine, reload := some (task, .loaded since) } ∧
        StoredFrom since { server with engine, reload := some (task, .loaded since) } := by
  unfold Server.load
  split
  next engine loaded =>
    have met := loadStoredPolicies_from bound loaded
    exact .inr ⟨engine, rfl, met⟩
  next err refused =>
    refine .inl ⟨_, ?_, rfl⟩
    split <;> rfl

section

variable (ordered : Ordered trustDomain server)
include ordered

theorem Ordered.project {since domainsAt groupsAt : Nat}
    (holds : server.reload = some (task, .acquired since)) :
    Ordered trustDomain (server.project trustDomain task since domainsAt groupsAt) := by
  obtain ⟨bound, own⟩ := ordered.holder task _ since holds rfl
  rcases @project_from trustDomain server task since bound domainsAt groupsAt with
    failed | ⟨directory, projected, fromSince⟩
  · rw [failed]
    exact ordered.abandon rfl
  rw [projected]
  refine ⟨ordered.known, ordered.ackedKnown, ?_, ?_, ?_, ?_, ?_⟩
  · rintro other phase since ⟨⟩ ⟨⟩
    exact ⟨bound, own⟩
  · rintro other phase since ⟨⟩ (⟨⟨⟩⟩ | ⟨⟨⟩⟩)
    exact fromSince
  · rintro other since ⟨⟩
  · rintro version isSettled other phase since ⟨⟩ ⟨⟩
    exact ordered.settled version isSettled task _ _ holds rfl
  · intro version done
    rcases ordered.fresh version done with marked | fresh
    · exact .inl marked
    · exact .inr ⟨fromSince.mono (ordered.settled_of_done holds rfl done), fresh.2⟩

theorem Ordered.load {since : Nat} (holds : server.reload = some (task, .projected since)) :
    Ordered trustDomain (server.load sha256 keyring parseSources task since queries) := by
  obtain ⟨bound, own⟩ := ordered.holder task _ since holds rfl
  have directory := ordered.projected task _ since holds (.inl rfl)
  rcases @load_from sha256 keyring parseSources server task since bound queries with
    ⟨phase, ended, refused⟩ | ⟨engine, loaded, fromSince⟩
  · rw [refused]
    exact ordered.abandon ended
  rw [loaded]
  refine ⟨ordered.known, ordered.ackedKnown, ?_, ?_, ?_, ?_, ?_⟩
  · rintro other phase since ⟨⟩ ⟨⟩
    exact ⟨bound, own⟩
  · rintro other phase since ⟨⟩ (⟨⟨⟩⟩ | ⟨⟨⟩⟩)
    exact directory
  · rintro other since ⟨⟩
    exact fromSince
  · rintro version isSettled other phase since ⟨⟩ ⟨⟩
    exact ordered.settled version isSettled task _ _ holds rfl
  · intro version done
    rcases ordered.fresh version done with marked | fresh
    · exact .inl marked
    · exact .inr ⟨fresh.1, fromSince.mono (ordered.settled_of_done holds rfl done)⟩

/-- The end of a reload: the lock is free, the task goes on, and what is about to
be answered is in the engine or the mark is set. -/
theorem Ordered.release {ok broken : Bool} {loadedAt : Int}
    (reloads : server.tasks task = .reloading caller)
    (fresh : ∀ version, (ok = true ∧ caller = .write version) ∨ Done server version →
      broken = true ∨ Fresh trustDomain version server) :
    Ordered trustDomain
      ({ server with loadedAt, broken, reload := none }.setTask task (caller.after ok)) := by
  refine ⟨?_, ordered.ackedKnown, nofun, nofun, nofun, fun _ _ _ _ _ => nofun, ?_⟩
  · intro other version member
    rcases tasks_cases rfl with ⟨-, isTask⟩ | ⟨-, before⟩
    · rw [isTask] at member
      refine ordered.known task version ?_
      rw [reloads]
      cases caller with
      | sync => exact member
      | write => cases ok <;> exact member
    · exact ordered.known other version (before ▸ member)
  · intro version done
    apply (fresh version ?_).imp_right fun isFresh => isFresh.extends ⟨rfl, [], by
      simp⟩ rfl rfl
    rcases done with ⟨other, isReloaded⟩ | isAcked
    · rcases tasks_cases isReloaded with ⟨-, isTask⟩ | ⟨-, before⟩
      · cases caller with
        | sync => cases isTask
        | write =>
          cases ok with
          | false => cases isTask
          | true =>
            cases isTask
            exact .inl ⟨rfl, rfl⟩
      · exact .inr (.inl ⟨other, before⟩)
    · exact .inr (.inr isAcked)

theorem Ordered.finish (holds : server.reload = some (task, phase))
    (reloads : server.tasks task = .reloading caller) :
    Ordered trustDomain (server.finish task phase caller) := by
  cases phase with
  | acquired _ | projected _ => exact ordered
  | loaded since =>
    refine ordered.release reloads fun version done => .inr ?_
    have engine : Fresh trustDomain since server :=
      ⟨ordered.projected task _ since holds (.inr rfl), ordered.loaded task since holds⟩
    rcases done with ⟨-, rfl⟩ | done
    · exact engine.mono ((ordered.holder task _ since holds rfl).2 version reloads)
    · exact engine.mono (ordered.settled_of_done holds rfl done)
  | unusable => exact ordered.release reloads fun version done => .inl rfl
  | failed =>
    refine ordered.release reloads fun version done => ?_
    rcases done with ⟨impossible, -⟩ | done
    · cases impossible
    · exact ordered.fresh version done

/-- Setting the mark after a failed reload. -/
theorem Ordered.mark {version : Nat} (isStale : server.tasks task = .stale version) :
    Ordered trustDomain ({ server with broken := true }.setTask task (.reloaded version)) := by
  refine ordered.retask ⟨rfl, [], by simp⟩ rfl rfl rfl ?_ ?_ ?_
    (fun _ _ => .inl rfl) ordered.ackedKnown
  · intro other found member
    rcases tasks_cases rfl with ⟨-, isTask⟩ | ⟨-, before⟩
    · rw [isTask] at member
      exact ordered.known task found (isStale ▸ member)
    · exact ordered.known other found (before ▸ member)
  · intro other caller isTask
    rcases tasks_cases isTask with ⟨-, impossible⟩ | ⟨-, before⟩
    · cases impossible
    · exact before
  · rintro found (⟨other, isTask | isTask⟩ | isAcked)
    · rcases tasks_cases isTask with ⟨-, impossible⟩ | ⟨-, before⟩
      · cases impossible
      · exact .inl ⟨other, .inl before⟩
    · rcases tasks_cases isTask with ⟨-, same⟩ | ⟨-, before⟩
      · cases same
        exact .inl ⟨task, .inl isStale⟩
      · exact .inl ⟨other, .inr before⟩
    · exact .inr isAcked

theorem Ordered.answer {task version : Nat} (isReloaded : server.tasks task = .reloaded version) :
    Ordered trustDomain ({ server with acked := version :: server.acked }.setTask task .idle) := by
  have old : ∀ other found,
      (Server.setTask { server with acked := version :: server.acked } task .idle).tasks other =
        found → found ≠ .idle → server.tasks other = found := by
    intro other found isTask busy
    rcases tasks_cases isTask with ⟨-, idle⟩ | ⟨-, before⟩
    · exact absurd idle busy
    · exact before
  refine ordered.retask ⟨rfl, [], by simp⟩ rfl rfl rfl ?_
    (fun other caller isTask => old other _ isTask nofun) ?_ ?_ ?_
  · intro other found member
    rcases tasks_cases rfl with ⟨-, isTask⟩ | ⟨-, before⟩
    · rw [isTask] at member
      cases member
    · exact ordered.known other found (before ▸ member)
  · rintro found (⟨other, isTask | isTask⟩ | isAcked)
    · exact .inl ⟨other, .inl (old other _ isTask nofun)⟩
    · exact .inl ⟨other, .inr (old other _ isTask nofun)⟩
    · rcases List.mem_cons.mp isAcked with rfl | isAcked
      · exact .inl ⟨task, .inr isReloaded⟩
      · exact .inr isAcked
  · rintro found (⟨other, isTask⟩ | isAcked)
    · exact .inr ⟨.inl ⟨other, old other _ isTask nofun⟩, rfl⟩
    · rcases List.mem_cons.mp isAcked with rfl | isAcked
      · exact .inr ⟨.inl ⟨task, isReloaded⟩, rfl⟩
      · exact .inr ⟨.inr isAcked, rfl⟩
  · intro found member
    rcases List.mem_cons.mp member with rfl | member
    · exact ordered.known task found (by rw [isReloaded]; exact List.mem_singleton_self _)
    · exact ordered.ackedKnown found member

/-- Every step keeps the invariant. -/
theorem Ordered.step (event : Event) :
    Ordered trustDomain (step sha256 keyring parseSources trustDomain server event) := by
  cases event with
  | commit task db =>
    dsimp only [Evaluation.step]
    split
    · refine ordered.quiet ⟨rfl, [db], rfl⟩ rfl rfl rfl rfl rfl fun other => ?_
      rcases tasks_cases rfl with ⟨-, isTask⟩ | ⟨-, before⟩
      · refine .inr ⟨_, isTask, ?_⟩
        rw [isTask]
        intro version member
        rw [List.mem_singleton.mp member]
        simp [Server.version]
      · exact .inl before.symm
    · exact ordered
  | remote db => exact ordered.quiet ⟨rfl, [db], rfl⟩ rfl rfl rfl rfl rfl fun _ => .inl rfl
  | sync =>
    dsimp only [Evaluation.step]
    split
    · refine ordered.quiet ⟨rfl, [], by simp⟩ rfl rfl rfl rfl rfl fun other => ?_
      rcases tasks_cases rfl with ⟨-, isTask⟩ | ⟨-, before⟩
      · exact .inr ⟨_, isTask, by rw [isTask]; nofun⟩
      · exact .inl before.symm
    · exact ordered
  | lock =>
    dsimp only [Evaluation.step]
    split
    next waits => exact ordered.lock waits
    · exact ordered
  | fail =>
    dsimp only [Evaluation.step]
    split
    · split
      · exact ordered.abandon rfl
      · exact ordered
    · exact ordered
  | project =>
    dsimp only [Evaluation.step]
    split
    next holds =>
      split
      next same =>
        subst same
        exact ordered.project holds
      · exact ordered
    · exact ordered
  | load =>
    dsimp only [Evaluation.step]
    split
    next holds =>
      split
      next same =>
        subst same
        exact ordered.load holds
      · exact ordered
    · exact ordered
  | finish =>
    dsimp only [Evaluation.step]
    split
    next holds reloads =>
      split
      next same =>
        subst same
        exact ordered.finish holds reloads
      · exact ordered
    · exact ordered
  | mark =>
    dsimp only [Evaluation.step]
    split
    next isStale => exact ordered.mark isStale
    · exact ordered
  | answer =>
    dsimp only [Evaluation.step]
    split
    next isReloaded => exact ordered.answer isReloaded
    · exact ordered
  | files files fileIDs | tick now | configure interval =>
    exact ordered.quiet ⟨rfl, [], by simp [Evaluation.step]⟩ rfl rfl rfl rfl rfl fun _ => .inl rfl

end

/-! ## Runs -/

/-- Only a projection and a load change what the engine evaluates. -/
theorem step_engine (server : Server) (event : Event) :
    let later := step sha256 keyring parseSources trustDomain server event
    (Extends server later ∧ later.directory = server.directory ∧
      later.engine.stored = server.engine.stored) ∨
    (∃ task since domainsAt groupsAt, server.reload = some (task, .acquired since) ∧
      later = server.project trustDomain task since domainsAt groupsAt) ∨
    (∃ task since queries, server.reload = some (task, .projected since) ∧
      later = server.load sha256 keyring parseSources task since queries) := by
  have same : Extends server server ∧ server.directory = server.directory ∧
      server.engine.stored = server.engine.stored := ⟨.refl server, rfl, rfl⟩
  cases event with
  | commit task db =>
    dsimp only [Evaluation.step]
    split
    · exact .inl ⟨⟨rfl, [db], rfl⟩, rfl, rfl⟩
    · exact .inl same
  | remote db => exact .inl ⟨⟨rfl, [db], rfl⟩, rfl, rfl⟩
  | sync task | mark task | answer task | lock =>
    dsimp only [Evaluation.step]
    split
    · exact .inl ⟨⟨rfl, [], by simp⟩, rfl, rfl⟩
    · exact .inl same
  | fail =>
    dsimp only [Evaluation.step]
    split
    · split
      · exact .inl ⟨⟨rfl, [], by simp⟩, rfl, rfl⟩
      · exact .inl same
    · exact .inl same
  | project task domainsAt groupsAt =>
    dsimp only [Evaluation.step]
    split
    next holder since holds =>
      split
      next isHolder =>
        subst isHolder
        exact .inr (.inl ⟨holder, since, domainsAt, groupsAt, holds, rfl⟩)
      · exact .inl same
    · exact .inl same
  | load task queries =>
    dsimp only [Evaluation.step]
    split
    next holder since holds =>
      split
      next isHolder =>
        subst isHolder
        exact .inr (.inr ⟨holder, since, queries, holds, rfl⟩)
      · exact .inl same
    · exact .inl same
  | finish =>
    dsimp only [Evaluation.step]
    split
    next holder phase caller holds reloads =>
      split
      · cases phase <;> exact .inl ⟨⟨rfl, [], by simp [Server.finish]⟩, rfl, rfl⟩
      · exact .inl same
    · exact .inl same
  | files files fileIDs | tick now | configure interval =>
    exact .inl ⟨⟨rfl, [], by simp [Evaluation.step]⟩, rfl, rfl⟩

/-- An engine that is fresh for a write that has been answered stays so. -/
theorem Fresh.step {version : Nat} (fresh : Fresh trustDomain version server)
    (ordered : Ordered trustDomain server) (done : Done server version) (event : Event) :
    Fresh trustDomain version (step sha256 keyring parseSources trustDomain server event) := by
  rcases step_engine server event with ⟨extends', directory, stored⟩ |
    ⟨task, since, domainsAt, groupsAt, holds, isStep⟩ | ⟨task, since, queries, holds, isStep⟩
  · exact fresh.extends extends' directory stored
  · have bound := (ordered.holder task _ since holds rfl).1
    rw [isStep]
    rcases @project_from trustDomain server task since bound domainsAt groupsAt with
      failed | ⟨directory, projected, fromSince⟩
    · rw [failed]
      exact fresh
    · rw [projected]
      exact ⟨fromSince.mono (ordered.settled_of_done holds rfl done), fresh.2⟩
  · have bound := (ordered.holder task _ since holds rfl).1
    rw [isStep]
    rcases @load_from sha256 keyring parseSources server task since bound queries with
      ⟨phase, -, refused⟩ | ⟨engine, loaded, fromSince⟩
    · rw [refused]
      exact fresh
    · rw [loaded]
      exact ⟨fresh.1, fromSince.mono (ordered.settled_of_done holds rfl done)⟩

/-- What has been answered stays answered. -/
theorem acked_step {version : Nat} (acked : version ∈ server.acked) (event : Event) :
    version ∈ (step sha256 keyring parseSources trustDomain server event).acked := by
  cases event with
  | answer =>
    dsimp only [Evaluation.step]
    split
    · exact List.mem_cons_of_mem _ acked
    · exact acked
  | project =>
    dsimp only [Evaluation.step]
    split
    · split
      · dsimp only [Server.project]
        split <;> exact acked
      · exact acked
    · exact acked
  | load =>
    dsimp only [Evaluation.step]
    split
    · split
      · dsimp only [Server.load]
        split <;> exact acked
      · exact acked
    · exact acked
  | finish =>
    dsimp only [Evaluation.step]
    split
    next phase caller holds reloads =>
      split
      · cases phase <;> exact acked
      · exact acked
    · exact acked
  | commit task db | sync task | mark task | lock task =>
    dsimp only [Evaluation.step]
    split <;> exact acked
  | fail =>
    dsimp only [Evaluation.step]
    split
    · split <;> exact acked
    · exact acked
  | remote db | files files fileIDs | tick now | configure interval => exact acked

/-- A replica that has started: nothing is under way and nothing has been
answered. -/
structure Starting (server : Server) : Prop where
  free : server.reload = none
  idle : ∀ task, server.tasks task = .idle
  unanswered : server.acked = []

theorem Starting.ordered (starting : Starting server) : Ordered trustDomain server := by
  refine ⟨?_, ?_, ?_, ?_, ?_, ?_, ?_⟩
  · intro task version member
    rw [starting.idle task] at member
    cases member
  · simp [starting.unanswered]
  · simp [starting.free]
  · simp [starting.free]
  · simp [starting.free]
  · simp [starting.free]
  · rintro version (⟨task, isTask⟩ | isAcked)
    · rw [starting.idle task] at isTask
      cases isTask
    · rw [starting.unanswered] at isAcked
      cases isAcked

theorem Ordered.run (ordered : Ordered trustDomain server) (events : List Event) :
    Ordered trustDomain (run sha256 keyring parseSources trustDomain server events) := by
  induction events generalizing server with
  | nil => exact ordered
  | cons event events ih => exact ih (ordered.step event)

theorem Fresh.run {version : Nat} (fresh : Fresh trustDomain version server)
    (ordered : Ordered trustDomain server) (acked : version ∈ server.acked) (events : List Event) :
    Fresh trustDomain version (run sha256 keyring parseSources trustDomain server events) := by
  induction events generalizing server with
  | nil => exact fresh
  | cons event events ih =>
    exact ih (fresh.step ordered (.inr acked) event) (ordered.step event) (acked_step acked event)

end Freshness

end OmegaPlane.Evaluation
