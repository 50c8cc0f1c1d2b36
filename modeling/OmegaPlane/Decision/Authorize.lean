import OmegaPlane.Decision.Conversion

/-!
# Evaluation of a request

Cedar decides from what each policy comes to: satisfied, unsatisfied or failed.  The
engine denies where a forbid failed, so that a failure never widens access.
-/

namespace OmegaPlane.Decision.Cedar

open Evaluation (EntityUID EntityMap DirectorySnapshot Subjects)

inductive Effect where
  | permit
  | forbid
  deriving DecidableEq

inductive Outcome where
  | satisfied
  | unsatisfied
  | failed (message : Bytes)

/-- A policy under its ID, with the effect and the conditions Cedar evaluates. -/
structure Policy (π : Type) where
  id : Bytes
  effect : Effect
  conditions : π

abbrev PolicySet (π : Type) := Table (Policy.id : Policy π → Bytes)

/-- What Cedar reads of an entity: its attributes and parents.  An entity that has none
is like an absent one. -/
def view (ents : EntityMap Record) (uid : EntityUID) : Record × List EntityUID :=
  ((ents.lookup uid).map fun ent => (ent.attributes, ent.parents)).getD (0, [])

structure Request where
  principal : EntityUID
  action : EntityUID
  resource : EntityUID
  context : Record

/-- What the engine evaluates with. -/
structure Engine (π : Type) where
  policies : PolicySet π
  entities : EntityMap Record
  snap : DirectorySnapshot
  revision : Bytes

structure Diagnostic where
  reasons : List Bytes
  errors : List PolicyError

section Evaluate

variable {π : Type}

-- what Cedar's evaluation of the conditions of a policy comes to
variable (outcome : π → (EntityUID → Record × List EntityUID) → Request → Outcome)

section Authorize

variable (ps : PolicySet π) (ents : EntityUID → Record × List EntityUID) (request : Request)

/-- The satisfied policies of an effect. -/
def satisfied (effect : Effect) : List Bytes :=
  ps.rows.filterMap fun policy =>
    match outcome policy.conditions ents request with
    | .satisfied => if policy.effect = effect then some policy.id else none
    | _ => none

def failures : List PolicyError :=
  ps.rows.filterMap fun policy =>
    match outcome policy.conditions ents request with
    | .failed message => some ⟨policy.id, message⟩
    | _ => none

/-- `cedar.Authorize`. -/
def authorize : Bool × Diagnostic :=
  let forbids := satisfied outcome ps ents request .forbid
  let permits := satisfied outcome ps ents request .permit
  (forbids.isEmpty && !permits.isEmpty,
    ⟨if forbids.isEmpty then permits else forbids, failures outcome ps ents request⟩)

/-- The failed policies that are forbids, or whose effect cannot be told. -/
def erroredForbids (errors : List PolicyError) : List Bytes :=
  (errors.filter fun err => (ps.lookup err.policy).all fun p => p.effect = .forbid).map
    PolicyError.policy

/-- The response of a decision of Cedar. -/
def respond (decided : Bool × Diagnostic) : EvalResponse :=
  let errored := erroredForbids ps decided.2.errors
  let decision := decided.1 && errored.isEmpty
  let reasons :=
    if errored.isEmpty then decided.2.reasons
    else (if decided.1 then [] else decided.2.reasons) ++ errored
  { decision
    context :=
      if decided.2.reasons.isEmpty && decided.2.errors.isEmpty then none
      else some (reasons, decided.2.errors)
    reasons }

end Authorize

/-- The entities as Cedar reads them. -/
def Engine.view (engine : Engine π) (now : Int) (prepared : Prepared) :
    EntityUID → Record × List EntityUID :=
  Cedar.view (Evaluation.evaluationEntities engine.entities engine.snap now prepared.subjects)

def Prepared.request (prepared : Prepared) : Request :=
  ⟨prepared.subjects.principal, prepared.action, prepared.subjects.resource, prepared.context⟩

variable (marshal : Decision.Value → Bytes)

/-- The decision, and the revision of the bundle it was made with. -/
def evaluateRevision (engine : Engine π) (now : Int) (r : EvalRequest) :
    Except RequestError (EvalResponse × Bytes) := do
  let prepared ← prepare marshal r
  let decided :=
    authorize outcome engine.policies (engine.view now prepared) prepared.request
  return (respond engine.policies decided, engine.revision)

/-! ## Failures -/

variable {outcome} {ps : PolicySet π} {ents : EntityUID → Record × List EntityUID}
  {request : Request}

variable {id : Bytes}

theorem mem_satisfied {effect : Effect} :
    id ∈ satisfied outcome ps ents request effect ↔
      ∃ policy ∈ ps.rows, policy.id = id ∧ policy.effect = effect ∧
        outcome policy.conditions ents request = .satisfied := by
  rw [satisfied, List.mem_filterMap]
  refine exists_congr fun policy => and_congr_right fun _ => ?_
  cases outcome policy.conditions ents request <;> simp [and_comm]

theorem mem_failures {err : PolicyError} :
    err ∈ failures outcome ps ents request ↔
      ∃ policy ∈ ps.rows, policy.id = err.policy ∧
        outcome policy.conditions ents request = .failed err.message := by
  rw [failures, List.mem_filterMap]
  refine exists_congr fun policy => and_congr_right fun _ => ?_
  obtain ⟨id, message⟩ := err
  cases outcome policy.conditions ents request <;> simp

/-- A forbid among the failed policies denies. -/
theorem mem_erroredForbids :
    id ∈ erroredForbids ps (failures outcome ps ents request) ↔
      ∃ policy ∈ ps.rows, policy.id = id ∧ policy.effect = .forbid ∧
        ∃ message, outcome policy.conditions ents request = .failed message := by
  simp only [erroredForbids, List.mem_map, List.mem_filter]
  constructor
  · rintro ⟨err, ⟨failed, isForbid⟩, rfl⟩
    obtain ⟨policy, member, same, isFailed⟩ := mem_failures.mp failed
    rw [← same, Table.lookup_eq_some_iff.mpr ⟨member, rfl⟩] at isForbid
    exact ⟨policy, member, same, by simpa using isForbid, _, isFailed⟩
  · rintro ⟨policy, member, rfl, isForbid, message, isFailed⟩
    refine ⟨⟨policy.id, message⟩, ⟨mem_failures.mpr ⟨policy, member, rfl, isFailed⟩, ?_⟩, rfl⟩
    rw [Table.lookup_eq_some_iff.mpr ⟨member, rfl⟩]
    simp [isForbid]

theorem isEmpty_iff_forall {α : Type} {items : List α} :
    items.isEmpty = true ↔ ∀ item, item ∉ items := by
  rw [List.isEmpty_iff, List.eq_nil_iff_forall_not_mem]

/-- With more forbids there is less to permit. -/
theorem decision_of_more {more : PolicySet π}
    (kept : ∀ policy ∈ ps.rows, policy ∈ more.rows)
    (added : ∀ policy ∈ more.rows, policy ∈ ps.rows ∨ policy.effect = .forbid)
    (permits : (respond more (authorize outcome more ents request)).decision = true) :
    (respond ps (authorize outcome ps ents request)).decision = true := by
  simp only [respond, authorize, Bool.and_eq_true, Bool.not_eq_true', isEmpty_iff_forall,
    ← Bool.not_eq_true, not_forall, not_not, mem_satisfied, mem_erroredForbids] at permits ⊢
  obtain ⟨⟨noForbid, id, policy, member, same, isPermit, isSatisfied⟩, noFailure⟩ := permits
  refine ⟨⟨?_, id, policy, ?_, same, isPermit, isSatisfied⟩, ?_⟩
  · rintro other ⟨forbid, inPs, rest⟩
    exact noForbid other ⟨forbid, kept forbid inPs, rest⟩
  · refine (added policy member).resolve_right fun isForbid => ?_
    rw [isPermit] at isForbid
    cases isForbid
  · rintro other ⟨forbid, inPs, rest⟩
    exact noFailure other ⟨forbid, kept forbid inPs, rest⟩

theorem respond_decision :
    (respond ps (authorize outcome ps ents request)).decision = true ↔
      (authorize outcome ps ents request).1 = true ∧
        ∀ err ∈ failures outcome ps ents request,
          ∃ policy, ps.lookup err.policy = some policy ∧ policy.effect = .permit := by
  simp only [respond, Bool.and_eq_true, and_congr_right_iff]
  intro _
  simp only [authorize, erroredForbids, List.isEmpty_map, List.isEmpty_iff, List.filter_eq_nil_iff]
  refine forall₂_congr fun err failed => ?_
  cases ps.lookup err.policy with
  | none => simp
  | some policy => cases same : policy.effect <;> simp [same]

theorem respond_reasons_permit
    (permits : (respond ps (authorize outcome ps ents request)).decision = true) :
    (respond ps (authorize outcome ps ents request)).reasons =
      satisfied outcome ps ents request .permit := by
  simp only [respond, authorize, Bool.and_eq_true] at permits
  simp [respond, authorize, permits]

theorem respond_reasons_deny
    (denies : (respond ps (authorize outcome ps ents request)).decision = false) :
    (respond ps (authorize outcome ps ents request)).reasons =
      satisfied outcome ps ents request .forbid ++
        erroredForbids ps (failures outcome ps ents request) := by
  simp only [respond, authorize] at denies ⊢
  by_cases noForbid : satisfied outcome ps ents request .forbid = []
  · by_cases noPermit : satisfied outcome ps ents request .permit = []
    · simp [noForbid, noPermit]
    · have errored : erroredForbids ps (failures outcome ps ents request) ≠ [] := by
        simpa [noForbid, noPermit] using denies
      simp [noForbid, noPermit, errored]
  · by_cases noError : erroredForbids ps (failures outcome ps ents request) = []
    · simp [noForbid, noError]
    · simp [noForbid, noError]

/-- The engine permits where Cedar does and no failed policy is a forbid or of unknown
effect; it names the permits, or the forbids that were satisfied or failed.  Forbids that
are added, failing or not, turn no deny into a permit. -/
theorem failures_never_widen {marshal : Decision.Value → Bytes} (engine : Engine π) (now : Int)
    {r : EvalRequest} {prepared : Prepared} (accepted : prepare marshal r = .ok prepared) :
    ∃ response : EvalResponse,
      evaluateRevision outcome marshal engine now r = .ok (response, engine.revision) ∧
      (response.decision = true ↔
        (authorize outcome engine.policies (engine.view now prepared) prepared.request).1 = true ∧
          ∀ err ∈ failures outcome engine.policies (engine.view now prepared) prepared.request,
            ∃ policy, engine.policies.lookup err.policy = some policy ∧
              policy.effect = .permit) ∧
      (response.decision = true → ∀ id, id ∈ response.reasons ↔
        ∃ policy ∈ engine.policies.rows, policy.id = id ∧ policy.effect = .permit ∧
          outcome policy.conditions (engine.view now prepared) prepared.request = .satisfied) ∧
      (response.decision = false → ∀ id, id ∈ response.reasons ↔
        ∃ policy ∈ engine.policies.rows, policy.id = id ∧ policy.effect = .forbid ∧
          outcome policy.conditions (engine.view now prepared) prepared.request ≠ .unsatisfied) ∧
      ∀ more : PolicySet π, (∀ policy ∈ engine.policies.rows, policy ∈ more.rows) →
        (∀ policy ∈ more.rows, policy ∈ engine.policies.rows ∨ policy.effect = .forbid) →
        ∀ other, evaluateRevision outcome marshal { engine with policies := more } now r =
            .ok (other, engine.revision) →
          other.decision = true → response.decision = true := by
  refine ⟨_, by rw [evaluateRevision, accepted]; rfl, respond_decision, ?_, ?_, ?_⟩
  · intro permits id
    rw [respond_reasons_permit permits, mem_satisfied]
  · intro denies id
    rw [respond_reasons_deny denies, List.mem_append, mem_satisfied, mem_erroredForbids,
      ← exists_or]
    refine exists_congr fun policy => ?_
    cases outcome policy.conditions (engine.view now prepared) prepared.request <;> simp
  · intro more kept added other evaluated permits
    rw [evaluateRevision, accepted] at evaluated
    cases evaluated
    exact decision_of_more kept added permits

/-- The request of `accountRequest` against a permit and a forbid that fails. -/
def guardedEngine : Engine Outcome where
  policies := ⟨[⟨ascii "p", .permit, .satisfied⟩, ⟨ascii "f", .forbid, .failed (ascii "e")⟩],
    by decide⟩
  entities := .empty
  snap := ⟨[], [], .empty⟩
  revision := []

/-- The failed forbid denies. -/
theorem failures_never_widen_guarded :
    ∃ response : EvalResponse,
      evaluateRevision (fun outcome _ _ => outcome) (fun _ => []) guardedEngine 0
        (accountRequest 5).floats = .ok (response, []) ∧ response.decision = false := by
  have accepted := @prepare_accountRequest (fun _ => []) 5 5
    (roundTo_eq_self ⟨5, 0, by decide, by norm_num⟩) (by decide) (by decide)
  obtain ⟨response, evaluated, permits, -⟩ :=
    @failures_never_widen _ (fun outcome _ _ => outcome) _ guardedEngine 0 _ _ accepted
  refine ⟨response, evaluated, Bool.eq_false_iff.mpr fun isPermit => ?_⟩
  obtain ⟨policy, isPolicy, effect⟩ := (permits.mp isPermit).2 ⟨ascii "f", ascii "e"⟩ (by
    exact List.mem_singleton_self _)
  cases isPolicy
  cases effect

/-! ## Nulls -/

theorem lookup_overlay (ents : EntityMap Record) (overlays : List (Evaluation.Entity Record))
    (uid : EntityUID) :
    (Evaluation.overlay ents overlays).lookup uid =
      (ents.lookup uid).or (overlays.find? fun ent => ent.uid = uid) := by
  induction overlays generalizing ents with
  | nil => simp [Evaluation.overlay]
  | cons ent rest ih =>
  rw [Evaluation.overlay, List.foldl_cons]
  refine (ih _).trans ?_
  rw [Table.lookup_insert, List.find?_cons, Option.or_assoc]
  by_cases same : ent.uid = uid <;> simp [same]

/-- A request without properties is read like one whose properties come to nothing. -/
theorem view_overlay (ents : EntityMap Record) (subjects : Subjects Record) (uid : EntityUID) :
    view (Evaluation.overlay ents (Evaluation.requestEntities subjects.principal
        subjects.subjectAttrs subjects.resource subjects.resourceAttrs)) uid =
      ((ents.lookup uid).map fun ent => (ent.attributes, ent.parents)).getD
        (if uid = subjects.principal then subjects.subjectAttrs.getD 0
          else if uid = subjects.resource then subjects.resourceAttrs.getD 0 else 0, []) := by
  rw [view, lookup_overlay]
  cases ents.lookup uid with
  | some => rfl
  | none =>
  obtain ⟨principal, subjectAttrs, resource, resourceAttrs⟩ := subjects
  by_cases both : resource = principal <;> by_cases isPrincipal : uid = principal <;>
    by_cases isResource : uid = resource <;> cases subjectAttrs <;> cases resourceAttrs <;>
    simp_all [Evaluation.requestEntities, eq_comm]

theorem view_addParents (ents : EntityMap Record) (uid : EntityUID) (add : List EntityUID)
    (other : EntityUID) :
    view (Evaluation.addParents ents uid add) other =
      if add ≠ [] ∧ uid = other then ((view ents uid).1, ((view ents uid).2 ++ add).dedup)
      else view ents other := by
  unfold Evaluation.addParents
  by_cases none : add = []
  · simp [none]
  by_cases same : uid = other
  · subst same
    cases found : ents.lookup uid with
    | none => simp [view, Table.lookup_put, none, found, default]
    | some =>
      have uidOf := (Table.lookup_eq_some_iff.mp found).2
      simp [view, Table.lookup_put, none, found, uidOf]
  · cases found : ents.lookup uid with
    | none => simp [view, Table.lookup_put, none, same]
    | some =>
      have uidOf := (Table.lookup_eq_some_iff.mp found).2
      simp [view, Table.lookup_put, none, same, uidOf]

/-- Entities that Cedar reads alike are read alike with the parents added. -/
theorem view_withSPIFFEParents {first second : EntityMap Record} (same : view first = view second)
    (snap : DirectorySnapshot) (now : Int) (uids : List EntityUID) :
    view (Evaluation.withSPIFFEParents first snap now uids) =
      view (Evaluation.withSPIFFEParents second snap now uids) := by
  unfold Evaluation.withSPIFFEParents
  split
  · exact same
  induction uids generalizing first second with
  | nil => exact same
  | cons uid rest ih =>
    refine ih (funext fun other => ?_)
    rw [view_addParents, view_addParents, same]

/-- The requests differ in properties with a null only. -/
structure EvalRequest.SameButNulls (first second : EvalRequest) : Prop where
  subject : uidOf first.subject = uidOf second.subject
  action : first.actionName = second.actionName
  resource : uidOf first.resource = uidOf second.resource
  part : ∀ part, Cedar.SameButNulls (first.part part) (second.part part)

variable {first second : EvalRequest}

theorem EvalRequest.SameButNulls.symm (same : EvalRequest.SameButNulls first second) :
    EvalRequest.SameButNulls second first :=
  ⟨same.subject.symm, same.action.symm, same.resource.symm, fun part => (same.part part).symm⟩

theorem prepare_congr {marshal : Decision.Value → Bytes}
    (same : EvalRequest.SameButNulls first second) {prepared : Prepared}
    (accepted : prepare marshal first = .ok prepared) :
    ∃ other, prepare marshal second = .ok other ∧ other.request = prepared.request ∧
      other.subjects.subjectAttrs.getD 0 = prepared.subjects.subjectAttrs.getD 0 ∧
      other.subjects.resourceAttrs.getD 0 = prepared.subjects.resourceAttrs.getD 0 := by
  obtain ⟨fields, context, subject, resource, isContext, isSubject, isResource, rfl⟩ :=
    prepare_eq_ok.mp accepted
  obtain ⟨otherSubject, isOther, sameSubject⟩ := properties_congr (same.part .subject) isSubject
  obtain ⟨otherResource, isOtherResource, sameResource⟩ : ∃ other,
      resourceProperties marshal second = .ok other ∧ other.getD 0 = resource.getD 0 := by
    unfold resourceProperties at isResource ⊢
    rw [← same.resource, ← same.subject]
    by_cases both : uidOf first.resource = uidOf first.subject
    · rw [if_pos both] at isResource ⊢
      exact ⟨resource, isResource, rfl⟩
    · rw [if_neg both] at isResource ⊢
      exact properties_congr (same.part .resource) isResource
  refine ⟨_, prepare_eq_ok.mpr ⟨?_, context, otherSubject, otherResource,
    recordFromMap_congr (same.part .context) isContext, isOther, isOtherResource, rfl⟩, ?_,
    sameSubject, sameResource⟩
  · obtain ⟨subjectType, subjectID⟩ := EntityUID.mk.inj same.subject
    obtain ⟨resourceType, resourceID⟩ := EntityUID.mk.inj same.resource
    rwa [validateFields, subjectType, subjectID, resourceType, resourceID, same.action] at fields
  · simp [Prepared.request, same.subject, same.resource, same.action]

theorem evaluateRevision_congr {marshal : Decision.Value → Bytes} (engine : Engine π) (now : Int)
    (same : EvalRequest.SameButNulls first second) {result : EvalResponse × Bytes}
    (evaluated : evaluateRevision outcome marshal engine now first = .ok result) :
    evaluateRevision outcome marshal engine now second = .ok result := by
  obtain ⟨prepared, accepted, isResult⟩ := bind_eq_ok.mp evaluated
  obtain ⟨other, isOther, sameRequest, sameSubject, sameResource⟩ := prepare_congr same accepted
  have sameView : engine.view now other = engine.view now prepared := by
    obtain ⟨principal, -, resource, -⟩ := Request.mk.inj sameRequest
    unfold Engine.view Evaluation.evaluationEntities
    rw [principal, resource]
    refine view_withSPIFFEParents (funext fun uid => ?_) _ _ _
    have overlaid := view_overlay engine.entities other.subjects uid
    rw [principal, resource, sameSubject, sameResource] at overlaid
    rw [overlaid, view_overlay]
  refine bind_eq_ok.mpr ⟨other, isOther, ?_⟩
  rw [sameView, sameRequest]
  exact isResult

/-- Nulls are absent. -/
theorem nulls_absent (marshal : Decision.Value → Bytes) (engine : Engine π) (now : Int) :
    (∀ attrs record, recordFromMap marshal attrs = .ok record → ∀ key,
      (∃ val, (key, val) ∈ record) ↔ ∃ value, (key, value) ∈ attrs ∧ containsNull value = false) ∧
    (∀ attrs key, recordFromMap marshal attrs ≠ .error (key, .null)) ∧
    ∀ first second, EvalRequest.SameButNulls first second →
      (∃ err other, evaluateRevision outcome marshal engine now first = .error err ∧
        evaluateRevision outcome marshal engine now second = .error other) ∨
      ∃ result, evaluateRevision outcome marshal engine now first = .ok result ∧
        evaluateRevision outcome marshal engine now second = .ok result := by
  refine ⟨?_, recordFromMap_ne_null, ?_⟩
  · intro attrs record converted key
    constructor
    · rintro ⟨val, member⟩
      obtain ⟨value, given, plain, -⟩ := (mem_record converted).mp member
      exact ⟨value, given, plain⟩
    · rintro ⟨value, given, plain⟩
      obtain ⟨val, isVal⟩ := converts_of_mem converted given plain
      exact ⟨val, (mem_record converted).mpr ⟨value, given, plain, isVal⟩⟩
  · intro first second same
    cases evaluated : evaluateRevision outcome marshal engine now first with
    | ok result => exact .inr ⟨result, rfl, evaluateRevision_congr engine now same evaluated⟩
    | error err =>
    cases other : evaluateRevision outcome marshal engine now second with
    | ok =>
      have back := evaluateRevision_congr engine now same.symm other
      rw [evaluated] at back
      cases back
    | error otherErr => exact .inl ⟨err, otherErr, rfl, rfl⟩

end Evaluate

end OmegaPlane.Decision.Cedar
