import OmegaPlane.Directory.Reach

/-!
# Domain administration is confined

Principals that are no root admins cannot leave the subtrees of the domains they
administer, whatever requests they make, in whatever order the calls of the
requests reach the store and whatever calls fail.
-/

namespace OmegaPlane.Directory

open Transaction

/-- The store lets the caller administer the domain. -/
def Administers (config : Config) (db : Database) (caller domain : Bytes) : Prop :=
  ((mayAdminister config caller domain).exec Row.slots db).1 = .ok true

instance (config : Config) (db : Database) (caller domain : Bytes) :
    Decidable (Administers config db caller domain) :=
  inferInstanceAs (Decidable (_ = _))

/-- The names in the subtrees of the domains that somebody of `insiders`
administers. -/
def Territory (config : Config) (db : Database) (insiders : Bytes → Prop) (name : Bytes) : Prop :=
  ∃ root ∈ chain name, ∃ caller, insiders caller ∧ Administers config db caller root

/-! ## Administration by grants -/

variable {db : Database} {domain principal caller : Bytes} {config : Config}

theorem grant_of_lookup {row : Row} (found : db.lookup (.grant domain principal) = some row) :
    row = .grant domain principal := by
  have named := (Table.lookup_eq_some_iff.mp found).2
  cases row <;> simp_all [Row.key]

theorem mem_rows_grant_iff :
    Row.grant domain principal ∈ db.rows ↔ (db.lookup (.grant domain principal)).isSome = true := by
  constructor
  · intro member
    have found : db.lookup (.grant domain principal) = some (.grant domain principal) :=
      Table.lookup_eq_some_iff.mpr ⟨member, rfl⟩
    simp [found]
  · intro present
    obtain ⟨row, found⟩ := Option.isSome_iff_exists.mp present
    rw [grant_of_lookup found] at found
    exact (Table.lookup_eq_some_iff.mp found).1

/-- Under `--require-auth`, who is no root admin administers by a grant on the
domain or above it. -/
theorem administers_iff (requireAuth : config.requireAuth = true)
    (notRoot : caller ∉ config.rootAdmins) :
    Administers config db caller domain ↔
      caller ≠ [] ∧ ∃ name ∈ chain domain, (db.lookup (.grant name caller)).isSome = true := by
  unfold Administers mayAdminister
  by_cases anonymous : caller = []
  · simp [requireAuth, anonymous]
  simp only [requireAuth, anonymous, notRoot, Store.adminsOf, Program.query, reduceCtorEq,
    if_false, Program.run_bind, Program.exec_run, exec_select, Program.done_bind,
    Program.pure_eq, Program.exec_done, Except.ok.injEq, List.any_eq_true,
    List.contains_iff_mem, List.mem_filterMap, List.mem_filter, ne_eq, not_false_eq_true,
    true_and]
  constructor
  · rintro ⟨name, above, row, ⟨member, _⟩, rowEq⟩
    refine ⟨name, above, mem_rows_grant_iff.mp ?_⟩
    cases row <;> simp_all
  · rintro ⟨name, above, present⟩
    refine ⟨name, above, .grant name caller, ⟨mem_rows_grant_iff.mpr present, ?_⟩, rfl⟩
    simpa using above

theorem administers_of_rootAdmin (isRoot : caller ∈ config.rootAdmins) (named : caller ≠ [])
    (db : Database) (domain : Bytes) :
    Administers config db caller domain := by
  unfold Administers mayAdminister
  split
  · rfl
  · rfl

theorem not_administers_nil (requireAuth : config.requireAuth = true) (db : Database)
    (domain : Bytes) : ¬ Administers config db [] domain := by
  simp [Administers, mayAdminister, requireAuth]

variable {name : Bytes} {insiders : Bytes → Prop}

theorem Territory.below {root : Bytes} (within : Territory config db insiders root)
    (below : root ∈ chain name) :
    Territory config db insiders name := by
  obtain ⟨top, above, caller, inside, administers⟩ := within
  exact ⟨top, mem_chain_trans below above, caller, inside, administers⟩

theorem not_territory_nil : ¬ Territory config db insiders [] := by
  rintro ⟨root, above, _⟩
  simp at above

/-! ## What a request may reach -/

/-- Everything the call reaches lies in the subtree of `root`, and a domain row
strictly below it. -/
def Access.Below (root : Bytes) (access : Access) : Prop :=
  root ≠ [] → ∀ key, access.Reach key → ∃ name, key.owner = some name ∧ root ∈ chain name ∧
    ∀ domain, key = .domain domain → root ∈ chain (parentOf domain)

theorem mem_chain_self (nonempty : name ≠ []) : name ∈ chain name := by
  rw [chain_of_ne_nil nonempty]
  exact List.mem_cons_self

theorem parentOf_mem_chain (nonempty : parentOf name ≠ []) : parentOf name ∈ chain name := by
  have named : name ≠ [] := by
    rintro rfl
    exact nonempty rfl
  rw [chain_of_ne_nil named]
  exact List.mem_cons_of_mem _ (mem_chain_self nonempty)

namespace Access

theorem below_createDomain (d : Domain) : (createDomain d).Below (parentOf d.name) := by
  rintro nonempty key (rfl | ⟨principal, rfl⟩)
  · refine ⟨d.name, rfl, parentOf_mem_chain nonempty, ?_⟩
    rintro domain ⟨⟩
    exact mem_chain_self nonempty
  · exact ⟨d.name, rfl, parentOf_mem_chain nonempty, by simp⟩

theorem below_deleteDomain (name : Bytes) : (deleteDomain name).Below (parentOf name) := by
  rintro nonempty key (rfl | ⟨principal, rfl⟩)
  · refine ⟨name, rfl, parentOf_mem_chain nonempty, ?_⟩
    rintro domain ⟨⟩
    exact mem_chain_self nonempty
  · exact ⟨name, rfl, parentOf_mem_chain nonempty, by simp⟩

variable {access : Access}

/-- The calls that reach grants, groups and members of one domain only. -/
theorem below_of_reach {root : Bytes}
    (owned : ∀ key, access.Reach key → key.owner = some root ∧ ∀ domain, key ≠ .domain domain) :
    access.Below root := by
  intro nonempty key reached
  obtain ⟨owner, noDomain⟩ := owned key reached
  exact ⟨root, owner, mem_chain_self nonempty, fun domain isDomain =>
    absurd isDomain (noDomain domain)⟩

/-- What an answer says about the arguments of the call. -/
def Answers : Access → Reply → Prop
  | getDomainRow name, .domainRow row => row.name = name
  | deleteGroup domain name, .group group => group.domain = domain ∧ group.name = name
  | _, _ => True

theorem answers_of_run {config : Config} {weather : Weather} {db after : Database} {reply : Reply}
    (succeeded : access.run config weather db = (.ok reply, after)) : access.Answers reply := by
  have finished := exec_of_run_eq_ok succeeded
  cases access with
  | getDomainRow name =>
    obtain ⟨row, between, rowRead, replied⟩ := Program.exec_bind_eq_ok.mp finished
    obtain ⟨rfl, rfl⟩ := Program.exec_done_eq_ok.mp replied
    obtain ⟨found, _, queried, matched⟩ := Program.exec_bind_eq_ok.mp rowRead
    rw [Program.exec_query] at queried
    obtain ⟨foundEq, rfl⟩ := Prod.mk.inj queried
    obtain rfl := Except.ok.inj foundEq
    split at matched
    · rename_i first rest foundRows
      obtain ⟨rfl, -⟩ := Program.exec_done_eq_ok.mp matched
      have member : Row.domain first ∈ db.rows.filter (Row.named (.domain name)) := by
        rw [foundRows]
        exact List.mem_cons_self
      have named := key_of_named (List.mem_filter.mp member).2
      simpa [Row.key, Answers] using named
    · cases matched
  | deleteGroup =>
    obtain ⟨group, between, deleted, replied⟩ := Program.exec_bind_eq_ok.mp finished
    obtain ⟨rfl, rfl⟩ := Program.exec_done_eq_ok.mp replied
    obtain ⟨_, _, _, rest⟩ := Program.exec_bind_eq_ok.mp deleted
    obtain ⟨_, _, _, rest⟩ := Program.exec_bind_eq_ok.mp rest
    obtain ⟨_, _, _, matched⟩ := Program.exec_bind_eq_ok.mp rest
    split at matched
    · obtain ⟨_, _, _, rest⟩ := Program.exec_bind_eq_ok.mp matched
      obtain ⟨_, _, _, rest⟩ := Program.exec_bind_eq_ok.mp rest
      obtain ⟨_, _, _, rest⟩ := Program.exec_bind_eq_ok.mp rest
      obtain ⟨groupEq, -⟩ := Prod.mk.inj rest
      obtain rfl := Except.ok.inj groupEq
      exact ⟨rfl, rfl⟩
    · cases matched
  | _ => trivial

end Access

/-- The calls of a plan keep to the subtree of the domain it is authorized for. -/
structure Plan.Confined (plan : Plan) : Prop where
  inspects : ∀ access ∈ plan.inspect, ∀ key, ¬ access.Reach key
  changes : plan.change.Below plan.domain
  undoes : ∀ seen reply access, List.Forall₂ Access.Answers plan.inspect seen →
    plan.change.Answers reply → plan.undo seen reply = some access → access.Below plan.domain

/-! ## Every handler keeps to the domain it authorizes -/

variable {plan : Plan} {group : Bytes} {now : Int} {access : Access}

theorem createDomain_confined {d : Domain} (accepted : createDomain caller d = .ok plan) :
    plan.Confined := by
  simp only [createDomain, ite_error_eq_ok] at accepted
  obtain rfl := Except.ok.inj accepted.2.2
  refine ⟨by simp, Access.below_createDomain _, ?_⟩
  rintro seen reply access - - ⟨⟩
  exact Access.below_deleteDomain d.name

theorem deleteDomain_confined (accepted : deleteDomain name = .ok plan) : plan.Confined := by
  obtain ⟨name', _, planned⟩ := bind_eq_ok.mp accepted
  obtain rfl := Except.ok.inj planned
  refine ⟨by simp [Access.Reach], Access.below_deleteDomain _, ?_⟩
  rintro seen reply access answers - undone
  obtain ⟨kept, keptEq, rfl⟩ := Option.map_eq_some_iff.mp undone
  -- The kept domain has the name that was read.
  have keptName : kept.name = name' := by
    unfold before at keptEq
    split at keptEq
    · obtain rfl := Option.some.inj keptEq
      cases answers with
      | cons named => exact named
    · cases keptEq
  rw [← keptName]
  exact Access.below_createDomain kept

theorem addDomainAdmin_confined (accepted : addDomainAdmin name principal = .ok plan) :
    plan.Confined := by
  obtain ⟨name', _, planned⟩ := bind_eq_ok.mp accepted
  obtain ⟨_, planned⟩ := ite_error_eq_ok.mp planned
  obtain rfl := Except.ok.inj planned
  refine ⟨by simp, Access.below_of_reach ?_, ?_⟩
  · rintro key rfl
    exact ⟨rfl, by simp⟩
  rintro seen reply access - - undone
  dsimp only at undone
  split at undone
  · obtain rfl := Option.some.inj undone
    refine Access.below_of_reach ?_
    rintro key rfl
    exact ⟨rfl, by simp⟩
  · cases undone

theorem removeDomainAdmin_confined (accepted : removeDomainAdmin name principal = .ok plan) :
    plan.Confined := by
  obtain ⟨name', _, planned⟩ := bind_eq_ok.mp accepted
  obtain ⟨_, planned⟩ := ite_error_eq_ok.mp planned
  obtain rfl := Except.ok.inj planned
  refine ⟨by simp, Access.below_of_reach ?_, ?_⟩
  · rintro key rfl
    exact ⟨rfl, by simp⟩
  · rintro seen reply access - - undone
    obtain rfl := Option.some.inj undone
    refine Access.below_of_reach ?_
    rintro key rfl
    exact ⟨rfl, by simp⟩

theorem createGroup_confined {description : Bytes}
    (accepted : createGroup domain name description = .ok plan) : plan.Confined := by
  obtain ⟨domain', _, planned⟩ := bind_eq_ok.mp accepted
  obtain ⟨_, planned⟩ := ite_error_eq_ok.mp planned
  obtain rfl := Except.ok.inj planned
  refine ⟨by simp, Access.below_of_reach ?_, ?_⟩
  · rintro key (rfl | ⟨principal, rfl⟩) <;> exact ⟨rfl, by simp⟩
  rintro seen reply access - - undone
  obtain rfl := Option.some.inj undone
  refine Access.below_of_reach ?_
  rintro key rfl
  exact ⟨rfl, by simp⟩

theorem deleteGroup_confined (accepted : deleteGroup domain group = .ok plan) : plan.Confined := by
  obtain ⟨⟨domain', group'⟩, _, planned⟩ := bind_eq_ok.mp accepted
  obtain rfl := Except.ok.inj planned
  refine ⟨by simp [Access.Reach], Access.below_of_reach ?_, ?_⟩
  · rintro key (rfl | ⟨principal, rfl⟩) <;> exact ⟨rfl, by simp⟩
  rintro seen reply access - answers undone
  dsimp only at undone
  split at undone
  · rename_i before
    obtain rfl := Option.some.inj undone
    obtain ⟨rfl, rfl⟩ := answers
    refine Access.below_of_reach ?_
    rintro key (rfl | ⟨principal, rfl⟩) <;> exact ⟨rfl, by simp⟩
  · cases undone

theorem below_swapGroupMember (domain group principal : Bytes)
    (expect want : Option GroupMember) :
    (Access.swapGroupMember domain group principal expect want).Below domain := by
  refine Access.below_of_reach ?_
  rintro key rfl
  exact ⟨rfl, by simp⟩

theorem putGroupMember_confined {expiresAt : Option Int}
    (accepted : putGroupMember now domain group principal expiresAt = .ok plan) :
    plan.Confined := by
  obtain ⟨⟨domain', group'⟩, _, planned⟩ := bind_eq_ok.mp accepted
  simp only [ite_error_eq_ok] at planned
  obtain rfl := Except.ok.inj planned.2.2
  refine ⟨by simp [Access.Reach], Access.below_of_reach ?_, ?_⟩
  · rintro key rfl
    exact ⟨rfl, by simp⟩
  · rintro seen reply access - - undone
    dsimp only at undone
    split at undone
    · obtain rfl := Option.some.inj undone
      apply below_swapGroupMember
    · cases undone

theorem removeGroupMember_confined
    (accepted : removeGroupMember domain group principal = .ok plan) :
    plan.Confined := by
  obtain ⟨⟨domain', group'⟩, _, planned⟩ := bind_eq_ok.mp accepted
  obtain ⟨_, planned⟩ := ite_error_eq_ok.mp planned
  obtain rfl := Except.ok.inj planned
  refine ⟨by simp [Access.Reach], Access.below_of_reach ?_, ?_⟩
  · rintro key rfl
    exact ⟨rfl, by simp⟩
  · rintro seen reply access - - undone
    dsimp only at undone
    split at undone
    · obtain rfl := Option.some.inj undone
      apply below_swapGroupMember
    · cases undone

theorem Body.confined {body : Body} (accepted : body.plan caller now = .ok plan) :
    plan.Confined := by
  cases body with
  | createDomain => exact createDomain_confined accepted
  | deleteDomain => exact deleteDomain_confined accepted
  | addDomainAdmin => exact addDomainAdmin_confined accepted
  | removeDomainAdmin => exact removeDomainAdmin_confined accepted
  | createGroup => exact createGroup_confined accepted
  | deleteGroup => exact deleteGroup_confined accepted
  | putGroupMember => exact putGroupMember_confined accepted
  | removeGroupMember => exact removeGroupMember_confined accepted

/-! ## Requests under way -/

/-- What a request has read and been answered fits its plan. -/
def Request.Consistent (request : Request) : Prop :=
  match request.stage with
  | .inspect seen now todo =>
    ∃ done, request.plan.inspect = done ++ now :: todo ∧ List.Forall₂ Access.Answers done seen
  | .change seen => List.Forall₂ Access.Answers request.plan.inspect seen
  | .record seen reply =>
    List.Forall₂ Access.Answers request.plan.inspect seen ∧ request.plan.change.Answers reply
  | .undo access =>
    ∃ seen reply, List.Forall₂ Access.Answers request.plan.inspect seen ∧
      request.plan.change.Answers reply ∧ request.plan.undo seen reply = some access
  | _ => True

/-- A request past its authorization that may still call the store. -/
def Stage.Trusted : Stage → Prop
  | .authorize => False
  | .answered _ _ => False
  | _ => True

theorem Request.consistent_inspecting (caller : Bytes) {seen : List Reply} (done todo : List Access)
    (split : plan.inspect = done ++ todo) (answers : List.Forall₂ Access.Answers done seen) :
    (⟨caller, plan, Request.inspecting seen todo⟩ : Request).Consistent := by
  cases todo with
  | nil =>
    simp only [List.append_nil] at split
    rw [← split] at answers
    exact answers
  | cons => exact ⟨done, split, answers⟩

variable {request : Request}

/-- The answer of its call keeps a request consistent. -/
theorem Request.consistent_advance {result : Except StoreError Reply}
    (consistent : request.Consistent) (calls : request.next = some access)
    (answers : ∀ reply, result = .ok reply → access.Answers reply) :
    ({ request with stage := request.advance result } : Request).Consistent := by
  obtain ⟨caller, plan, stage⟩ := request
  unfold Request.advance
  dsimp only [Request.Consistent] at consistent
  dsimp only
  split
  · exact consistent_inspecting caller [] plan.inspect rfl .nil
  · trivial
  · trivial
  · trivial
  · rename_i seen now todo reply _
    obtain ⟨done, split, before⟩ := consistent
    obtain rfl := Option.some.inj calls
    refine consistent_inspecting caller (done ++ [now]) todo (by simp [split]) ?_
    exact List.rel_append before (.cons (answers reply rfl) .nil)
  · trivial
  · rename_i seen reply
    obtain rfl := Option.some.inj calls
    exact ⟨consistent, answers reply rfl⟩
  · trivial
  · trivial
  · rename_i seen reply err
    cases undone : plan.undo seen reply with
    | none => trivial
    | some => exact ⟨seen, reply, consistent.1, consistent.2, undone⟩
  · trivial
  · trivial
  · trivial
  · trivial

/-- A call that can change something comes after the authorization and stays in
the subtree it was given for. -/
theorem Request.below_of_next {key : Key} (confined : request.plan.Confined)
    (consistent : request.Consistent) (calls : request.next = some access)
    (reached : access.Reach key) :
    request.stage.Trusted ∧ access.Below request.plan.domain := by
  obtain ⟨caller, plan, stage⟩ := request
  cases stage with
  | authorize | record | revert =>
    obtain rfl := Option.some.inj calls
    cases reached
  | inspect seen now =>
    obtain rfl := Option.some.inj calls
    obtain ⟨done, split, _⟩ := consistent
    have member : now ∈ plan.inspect := by
      dsimp only at split
      simp [split]
    exact absurd reached (confined.inspects now member key)
  | change =>
    obtain rfl := Option.some.inj calls
    exact ⟨trivial, confined.changes⟩
  | undo undone =>
    obtain rfl := Option.some.inj calls
    obtain ⟨seen, reply, answers, answered, undoes⟩ := consistent
    exact ⟨trivial, confined.undoes seen reply undone answers answered undoes⟩
  | answered => cases calls

/-- A request is trusted from the moment the store lets its caller administer the
domain. -/
theorem administers_of_advance {weather : Weather} (calls : request.next = some access)
    (earlier : ¬ request.stage.Trusted)
    (later : (request.advance (access.run config weather db).1).Trusted) :
    Administers config db request.caller request.plan.domain := by
  obtain ⟨caller, plan, stage⟩ := request
  cases stage with
  | authorize =>
    obtain rfl := Option.some.inj calls
    cases answered : (Access.mayAdminister caller plan.domain).run config weather db with
    | mk result =>
      rw [answered] at later
      cases result with
      | error => cases later
      | ok =>
      have finished := Access.exec_of_run_eq_ok answered
      obtain ⟨allowed, between, decided, replied⟩ := Program.exec_bind_eq_ok.mp finished
      obtain ⟨rfl, rfl⟩ := Program.exec_done_eq_ok.mp replied
      cases allowed with
      | false => cases later
      | true =>
        unfold Administers
        rw [decided]
  | answered => cases calls
  | _ => exact absurd trivial earlier

/-! ## Runs -/

section Runs

variable {config : Config} {start : Database} {insiders : Bytes → Prop} {ι : Type}
  {system : System ι}

/-- What holds all along a run of requests of insiders. -/
structure Inside (config : Config) (start : Database) (insiders : Bytes → Prop)
    (system : System ι) : Prop where
  outside : ∀ key name, key.owner = some name → ¬ Territory config start insiders name →
    system.db.lookup key = start.lookup key
  tops : ∀ name, ¬ Territory config start insiders (parentOf name) →
    system.db.lookup (.domain name) = start.lookup (.domain name)
  requests : ∀ who request, system.requests who = .ok request →
    insiders request.caller ∧ request.plan.Confined ∧ request.Consistent ∧
      (request.stage.Trusted → Territory config start insiders request.plan.domain)

/-- An insider that is let through now is let through for a name in the
territory. -/
theorem Inside.territory (inside : Inside config start insiders system)
    (requireAuth : config.requireAuth = true)
    (noRoot : ∀ caller, insiders caller → caller ∉ config.rootAdmins) {caller domain : Bytes}
    (insider : insiders caller) (administers : Administers config system.db caller domain) :
    Territory config start insiders domain := by
  obtain ⟨named, root, above, granted⟩ :=
    (administers_iff requireAuth (noRoot caller insider)).mp administers
  by_contra out
  have rootOut : ¬ Territory config start insiders root := fun within => out (within.below above)
  rw [inside.outside _ root rfl rootOut] at granted
  have rootNamed : root ≠ [] := fun empty => nil_notMem_chain domain (empty ▸ above)
  have atStart : Administers config start caller root :=
    (administers_iff requireAuth (noRoot caller insider)).mpr
      ⟨named, root, mem_chain_self rootNamed, granted⟩
  exact rootOut ⟨root, mem_chain_self rootNamed, caller, insider, atStart⟩

/-- A call of a request of an insider touches nothing outside, and no domain row
at the top of the territory. -/
theorem Inside.lookup_run (inside : Inside config start insiders system) {who : ι}
    {request : Request} (underWay : system.requests who = .ok request) {access : Access}
    (calls : request.next = some access) (weather : Weather) :
    (∀ key name, key.owner = some name → ¬ Territory config start insiders name →
        (access.run config weather system.db).2.lookup key = system.db.lookup key) ∧
      ∀ name, ¬ Territory config start insiders (parentOf name) →
        (access.run config weather system.db).2.lookup (.domain name) =
          system.db.lookup (.domain name) := by
  obtain ⟨_, confined, consistent, trusted⟩ := inside.requests who request underWay
  have within : ∀ key, access.Reach key → ∃ name, key.owner = some name ∧
      Territory config start insiders name ∧
      ∀ domain, key = .domain domain → Territory config start insiders (parentOf domain) := by
    intro key reached
    obtain ⟨isTrusted, below⟩ := Request.below_of_next confined consistent calls reached
    have territory := trusted isTrusted
    have rootNamed : request.plan.domain ≠ [] := fun empty =>
      not_territory_nil (empty ▸ territory)
    obtain ⟨name, owner, above, strictly⟩ := below rootNamed key reached
    exact ⟨name, owner, territory.below above, fun domain isDomain =>
      territory.below (strictly domain isDomain)⟩
  constructor
  · intro key name owner out
    refine Access.lookup_run (fun reached => out ?_) config weather system.db
    obtain ⟨name', owner', territory, _⟩ := within key reached
    obtain rfl := Option.some.inj (owner'.symm.trans owner)
    exact territory
  · intro name out
    refine Access.lookup_run (fun reached => out ?_) config weather system.db
    obtain ⟨_, _, _, strictly⟩ := within _ reached
    exact strictly name rfl

variable [DecidableEq ι]

theorem Inside.step (inside : Inside config start insiders system)
    (requireAuth : config.requireAuth = true)
    (noRoot : ∀ caller, insiders caller → caller ∉ config.rootAdmins) (turn : Turn ι) :
    Inside config start insiders (system.step config turn) := by
  unfold System.step
  cases calling : system.next turn.who with
  | none => exact inside
  | some call =>
  obtain ⟨request, access⟩ := call
  obtain ⟨underWay, calls⟩ : system.requests turn.who = .ok request ∧
      request.next = some access := by
    unfold System.next at calling
    split at calling
    · cases calling
    rename_i other found
    obtain ⟨_, called, same⟩ := Option.map_eq_some_iff.mp calling
    obtain ⟨rfl, rfl⟩ := Prod.mk.inj same
    exact ⟨found, called⟩
  obtain ⟨outside, tops⟩ := inside.lookup_run underWay calls turn.weather
  obtain ⟨insider, confined, consistent, trusted⟩ :=
    inside.requests turn.who request underWay
  refine ⟨?_, ?_, ?_⟩
  · intro key name owner out
    exact (outside key name owner out).trans (inside.outside key name owner out)
  · intro name out
    exact (tops name out).trans (inside.tops name out)
  intro who other found
  dsimp only at found
  by_cases same : who = turn.who
  · subst same
    rw [Function.update_self] at found
    obtain rfl := Except.ok.inj found
    refine ⟨insider, confined, ?_, ?_⟩
    · refine Request.consistent_advance consistent calls fun reply succeeded => ?_
      exact Access.answers_of_run (Prod.ext succeeded rfl)
    · intro isTrusted
      by_cases earlier : request.stage.Trusted
      · exact trusted earlier
      · exact inside.territory requireAuth noRoot insider
          (administers_of_advance calls earlier isTrusted)
  · rw [Function.update_of_ne same] at found
    exact inside.requests who other found

theorem Inside.run (inside : Inside config start insiders system)
    (requireAuth : config.requireAuth = true)
    (noRoot : ∀ caller, insiders caller → caller ∉ config.rootAdmins) (schedule : List (Turn ι)) :
    Inside config start insiders (system.run config schedule) := by
  induction schedule generalizing system with
  | nil => exact inside
  | cons turn schedule ih => exact ih (inside.step requireAuth noRoot turn)

omit [DecidableEq ι] in
/-- Requests that have just arrived. -/
theorem Inside.of_received (config : Config)
    (made : ∀ who, ∃ caller now body, insiders caller ∧
      system.requests who = receive caller now body) :
    Inside config system.db insiders system := by
  refine ⟨fun _ _ _ _ => rfl, fun _ _ => rfl, ?_⟩
  intro who request underWay
  obtain ⟨caller, now, body, insider, received⟩ := made who
  obtain ⟨plan, planned, answered⟩ := bind_eq_ok.mp (received.symm.trans underWay)
  obtain rfl := Except.ok.inj answered
  exact ⟨insider, body.confined planned, trivial, False.elim⟩

/-- Administration is confined.  The requests of `insiders`, none of which is a
root admin, leave every row outside their subtrees and the domain rows at the top
of them as they were, and give nobody a domain outside, whatever the order of
their calls of the store and whichever calls fail. -/
theorem administration_confined (requireAuth : config.requireAuth = true)
    (noRoot : ∀ caller, insiders caller → caller ∉ config.rootAdmins) (system : System ι)
    (made : ∀ who, ∃ caller now body, insiders caller ∧
      system.requests who = receive caller now body) (schedule : List (Turn ι)) :
    (∀ key name, key.owner = some name → ¬ Territory config system.db insiders name →
        (system.run config schedule).db.lookup key = system.db.lookup key) ∧
      (∀ name, Territory config system.db insiders name →
        ¬ Territory config system.db insiders (parentOf name) →
        (system.run config schedule).db.lookup (.domain name) =
          system.db.lookup (.domain name)) ∧
      ∀ caller name, ¬ Territory config system.db insiders name →
        Administers config (system.run config schedule).db caller name →
        Administers config system.db caller name := by
  have inside := (Inside.of_received config made).run requireAuth noRoot schedule
  refine ⟨inside.outside, fun name _ => inside.tops name, ?_⟩
  intro caller name out administers
  by_cases isRoot : caller ∈ config.rootAdmins
  · by_cases named : caller = []
    · subst named
      exact absurd administers (not_administers_nil requireAuth _ name)
    · exact administers_of_rootAdmin isRoot named system.db name
  · obtain ⟨named, root, above, granted⟩ := (administers_iff requireAuth isRoot).mp administers
    rw [inside.outside _ root rfl fun within => out (within.below above)] at granted
    exact (administers_iff requireAuth isRoot).mpr ⟨named, root, above, granted⟩

end Runs

/-- An administrator of `apps` creates `apps.web` in a directory that also holds
`infra`. -/
theorem administration_confined_apps :
    let config : Config := ⟨true, []⟩
    let alice := ascii "spiffe://omega/alice"
    let system : System Unit :=
      { requests := fun _ => receive alice 0
          (.createDomain ⟨ascii "apps.web", [], [], [], none⟩)
        db := Table.empty.putAll
          [.domain ⟨ascii "apps", [], [], 0⟩, .grant (ascii "apps") alice,
            .domain ⟨ascii "infra", [], [], 0⟩] }
    let after := (system.run config (List.replicate 3 ⟨(), ⟨5, .acknowledged⟩⟩)).db
    (after.lookup (.domain (ascii "apps.web"))).isSome = true ∧
      Territory config system.db (· = alice) (ascii "apps") ∧
      ∀ key name, key.owner = some name → ¬ Territory config system.db (· = alice) name →
        after.lookup key = system.db.lookup key := by
  intro config alice system after
  refine ⟨by decide, ⟨ascii "apps", by decide, alice, rfl, by decide⟩, ?_⟩
  have requireAuth : config.requireAuth = true := rfl
  have made : ∀ who, ∃ caller now body, caller = alice ∧
      system.requests who = receive caller now body :=
    fun _ => ⟨alice, 0, _, rfl, rfl⟩
  have noRoot : ∀ caller, caller = alice → caller ∉ config.rootAdmins :=
    fun _ _ => List.not_mem_nil
  exact (administration_confined requireAuth noRoot system made _).1

end OmegaPlane.Directory
