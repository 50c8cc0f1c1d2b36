import Mathlib.Data.Multiset.ZeroCons
import OmegaPlane.Data.Checks
import OmegaPlane.Data.Significand
import OmegaPlane.Decision.Batch
import OmegaPlane.Evaluation.Directory

/-!
# Requests as Cedar reads them

What `encoding/json` makes of the numbers of a request, and the records and entities
that an evaluation converts its properties to.
-/

namespace OmegaPlane.Decision

open Evaluation (EntityUID Subjects)

/-! ## Decoded numbers -/

mutual

/-- Decoding into `any`: the number of a literal becomes the nearest 64-bit float. -/
@[simp]
def floats : Value → Value
  | .number literal => .number (roundTo 53 literal)
  | .arr items => .arr (floatsAll items)
  | .obj fields => .obj (floatsFields fields)
  | value => value

def floatsAll : List Value → List Value
  | [] => []
  | item :: rest => floats item :: floatsAll rest

def floatsFields : List (Bytes × Value) → List (Bytes × Value)
  | [] => []
  | (key, value) :: rest => (key, floats value) :: floatsFields rest

end

/-- The request of a body. -/
def EvalRequest.floats (r : EvalRequest) : EvalRequest where
  subject := { r.subject with attrs := floatsFields r.subject.attrs }
  actionName := r.actionName
  resource := { r.resource with attrs := floatsFields r.resource.attrs }
  context := floatsFields r.context

/-- The value at a place within arrays. -/
def Value.at : Value → List Nat → Option Value
  | value, [] => some value
  | .arr items, i :: path => items[i]?.bind fun item => item.at path
  | _, _ :: _ => none

theorem floatsAll_eq_map (items : List Value) : floatsAll items = items.map floats := by
  induction items with
  | nil => rfl
  | cons item rest ih => rw [floatsAll, ih, List.map_cons]

theorem floatsFields_eq_map (fields : List (Bytes × Value)) :
    floatsFields fields = fields.map fun field => (field.1, floats field.2) := by
  induction fields with
  | nil => rfl
  | cons field rest ih => rw [floatsFields, ih, List.map_cons]

theorem at_floats (value : Value) (path : List Nat) :
    (floats value).at path = (value.at path).map floats := by
  induction path generalizing value with
  | nil => rfl
  | cons i path ih =>
  cases value with
  | arr items =>
    rw [floats, Value.at, Value.at, floatsAll_eq_map, List.getElem?_map]
    cases items[i]? with
    | none => rfl
    | some item => exact ih item
  | _ => rfl

mutual

theorem containsNull_floats : ∀ value, containsNull (floats value) = containsNull value
  | .null | .bool _ | .number _ | .str _ => rfl
  | .arr items => anyContainsNull_floats items
  | .obj fields => anyFieldContainsNull_floats fields

theorem anyContainsNull_floats :
    ∀ items, anyContainsNull (floatsAll items) = anyContainsNull items
  | [] => rfl
  | item :: rest => by
    rw [floatsAll, anyContainsNull, anyContainsNull, containsNull_floats item,
      anyContainsNull_floats rest]

theorem anyFieldContainsNull_floats :
    ∀ fields, anyFieldContainsNull (floatsFields fields) = anyFieldContainsNull fields
  | [] => rfl
  | (key, value) :: rest => by
    rw [floatsFields, anyFieldContainsNull, anyFieldContainsNull, containsNull_floats value,
      anyFieldContainsNull_floats rest]

end

/-- The parts of a request that hold properties. -/
inductive Part where
  | context
  | subject
  | resource

def EvalRequest.part (r : EvalRequest) : Part → List (Bytes × Value)
  | .context => r.context
  | .subject => r.subject.attrs
  | .resource => r.resource.attrs

theorem EvalRequest.part_floats (r : EvalRequest) (part : Part) :
    r.floats.part part = floatsFields (r.part part) := by
  cases part <;> rfl

/-! ## Cedar values -/

namespace Cedar

/-- The Cedar values of request data.  A set is given by its elements, in any order and
with repetitions. -/
inductive Value where
  | bool (value : Bool)
  | long (value : Int)
  | str (text : Bytes)
  | set (items : List Value)

/-- A record is its attributes, in no order. -/
abbrev Record := Multiset (Bytes × Value)

def Value.at : Value → List Nat → Option Value
  | value, [] => some value
  | .set items, i :: path => items[i]?.bind fun item => item.at path
  | _, _ :: _ => none

section Convert

-- `json.Marshal`, which writes an object as a string
variable (marshal : Decision.Value → Bytes)

mutual

def valueOf : Decision.Value → Except ValueError Value
  | .null => .error .null
  | .bool value => .ok (.bool value)
  | .str text => .ok (.str text)
  | .number x =>
    if x.den ≠ 1 then .error (.fractional x)
    else if x ≥ 2 ^ 63 ∨ x < -2 ^ 63 then .error (.outOfRange x)
    else .ok (.long x.num)
  | .arr items => (valuesOf items).map .set
  | .obj fields => .ok (.str (marshal (.obj fields)))

def valuesOf : List Decision.Value → Except ValueError (List Value)
  | [] => .ok []
  | item :: rest => do
    let value ← valueOf item
    let values ← valuesOf rest
    return value :: values

end

/-- A property that is null or holds one is left out. -/
@[simp]
def recordFromMap : List (Bytes × Decision.Value) → Except (Bytes × ValueError) Record
  | [] => .ok 0
  | (key, value) :: rest =>
    if containsNull value then recordFromMap rest
    else
      match valueOf marshal value with
      | .error err => .error (key, err)
      | .ok val => (recordFromMap rest).map ((key, val) ::ₘ ·)

/-- The attributes of an entity of the request, if it brings properties. -/
def properties (attrs : List (Bytes × Decision.Value)) :
    Except (Bytes × ValueError) (Option Record) :=
  if attrs = [] then .ok none else (recordFromMap marshal attrs).map some

/-- The request for Cedar, with the entities that carry the request's properties. -/
structure Prepared where
  subjects : Subjects Record
  action : EntityUID
  context : Record

def uidOf (entity : Entity) : EntityUID :=
  ⟨entity.type, entity.id⟩

/-- The properties of a resource that is the subject are not read. -/
def resourceProperties (r : EvalRequest) : Except (Bytes × ValueError) (Option Record) :=
  if uidOf r.resource = uidOf r.subject then .ok none else properties marshal r.resource.attrs

/-- Every input check of an evaluation, and what it evaluates. -/
def prepare (r : EvalRequest) : Except RequestError Prepared := do
  validateFields r
  let context ← (recordFromMap marshal r.context).mapError fun err => .context err.1 err.2
  let subjectAttrs ← (properties marshal r.subject.attrs).mapError fun err =>
    .subjectProperties err.1 err.2
  let resourceAttrs ← (resourceProperties marshal r).mapError fun err =>
    .resourceProperties err.1 err.2
  return ⟨⟨uidOf r.subject, subjectAttrs, uidOf r.resource, resourceAttrs⟩,
    ⟨ascii "Action", r.actionName⟩, context⟩

def validate (r : EvalRequest) : Except RequestError Unit :=
  (prepare marshal r).map fun _ => ()

/-! ## What the conversion yields -/

variable {marshal}

mutual

/-- The checks of a value are those of its conversion. -/
theorem valueOf_check :
    ∀ value, Decision.valueOf value = (valueOf marshal value).map fun _ => ()
  | .null | .bool _ | .str _ | .obj _ => rfl
  | .number x => by
    simp only [Decision.valueOf, valueOf]
    split
    · rfl
    · split <;> rfl
  | .arr items => by
    rw [Decision.valueOf, valueOf, valuesOf_check items]
    cases valuesOf marshal items <;> rfl

theorem valuesOf_check :
    ∀ items, Decision.valuesOf items = (valuesOf marshal items).map fun _ => ()
  | [] => rfl
  | item :: rest => by
    rw [Decision.valuesOf, valuesOf, valueOf_check item, valuesOf_check rest]
    cases valueOf marshal item <;> cases valuesOf marshal rest <;> rfl

end

theorem recordFromMap_check (attrs : List (Bytes × Decision.Value)) :
    Decision.recordFromMap attrs = (recordFromMap marshal attrs).map fun _ => () := by
  induction attrs with
  | nil => rfl
  | cons attr rest ih =>
  rw [Decision.recordFromMap, recordFromMap, @valueOf_check marshal, ih]
  split
  · rfl
  · cases valueOf marshal attr.2 <;> cases recordFromMap marshal rest <;> rfl

/-- The checks of a recorded decision are those of an evaluation. -/
theorem validate_check (r : EvalRequest) : Decision.validate r = validate marshal r := by
  have mk : ∀ first second : Entity, uidOf first = uidOf second ↔
      (first.type, first.id) = (second.type, second.id) := by simp [uidOf]
  simp only [Decision.validate, validate, prepare, Decision.requestEntities, properties,
    resourceProperties, @recordFromMap_check marshal, mk]
  cases validateFields r <;> [rfl; skip]
  cases recordFromMap marshal r.context <;> [rfl; skip]
  by_cases noSubject : r.subject.attrs = [] <;> by_cases noResource : r.resource.attrs = [] <;>
    by_cases same : (r.resource.type, r.resource.id) = (r.subject.type, r.subject.id) <;>
    cases recordFromMap marshal r.subject.attrs <;>
    cases recordFromMap marshal r.resource.attrs <;>
    simp [noSubject, noResource, same] <;> rfl

theorem valuesOf_getElem? {items : List Decision.Value} {values : List Value}
    (converted : valuesOf marshal items = .ok values) {i : Nat} {item : Decision.Value}
    (here : items[i]? = some item) :
    ∃ value, values[i]? = some value ∧ valueOf marshal item = .ok value := by
  induction items generalizing values i with
  | nil => simp at here
  | cons first rest ih =>
  obtain ⟨value, isValue, tail⟩ := bind_eq_ok.mp converted
  obtain ⟨others, isOthers, same⟩ := bind_eq_ok.mp tail
  cases same
  cases i with
  | zero =>
    cases here
    exact ⟨value, rfl, isValue⟩
  | succ => exact ih isOthers here

variable {value : Decision.Value} {cedar : Value}

/-- The conversion keeps the places of values within arrays. -/
theorem valueOf_at (converted : valueOf marshal value = .ok cedar) {path : List Nat}
    {inner : Decision.Value} (here : value.at path = some inner) :
    ∃ found, cedar.at path = some found ∧ valueOf marshal inner = .ok found := by
  induction path generalizing value cedar with
  | nil =>
    obtain rfl : value = inner := Option.some.inj here
    exact ⟨cedar, rfl, converted⟩
  | cons i path ih =>
  cases value with
  | arr items =>
    obtain ⟨item, isItem, inItem⟩ := Option.bind_eq_some_iff.mp here
    cases all : valuesOf marshal items with
    | error =>
      rw [valueOf, all] at converted
      cases converted
    | ok =>
      rw [valueOf, all] at converted
      cases converted
      obtain ⟨at_, isAt, convertedAt⟩ := valuesOf_getElem? all isItem
      obtain ⟨found, isFound, convertedInner⟩ := ih convertedAt inItem
      exact ⟨found, Option.bind_eq_some_iff.mpr ⟨at_, isAt, isFound⟩, convertedInner⟩
  | _ => cases here

theorem valueOf_number {x : Rat} (converted : valueOf marshal (.number x) = .ok cedar) :
    cedar = .long x.num ∧ x.den = 1 := by
  simp only [valueOf, ite_error_eq_ok, not_not] at converted
  obtain ⟨whole, -, same⟩ := converted
  cases same
  exact ⟨rfl, whole⟩

variable {key : Bytes} {attrs : List (Bytes × Decision.Value)} {r : EvalRequest}
  {prepared : Prepared}

theorem recordFromMap_cons_eq_ok {rest : List (Bytes × Decision.Value)} {record : Record} :
    recordFromMap marshal ((key, value) :: rest) = .ok record ↔
      containsNull value = true ∧ recordFromMap marshal rest = .ok record ∨
      containsNull value = false ∧ ∃ val others, valueOf marshal value = .ok val ∧
        recordFromMap marshal rest = .ok others ∧ record = (key, val) ::ₘ others := by
  rw [recordFromMap]
  cases containsNull value with
  | true => simp
  | false =>
    cases valueOf marshal value with
    | error => simp
    | ok => cases recordFromMap marshal rest <;> simp [Except.map, eq_comm]

theorem converts_of_mem {record : Record} (converted : recordFromMap marshal attrs = .ok record)
    (member : (key, value) ∈ attrs) (plain : containsNull value = false) :
    ∃ val, valueOf marshal value = .ok val := by
  induction attrs generalizing record with
  | nil => cases member
  | cons attr rest ih =>
  rcases recordFromMap_cons_eq_ok.mp converted with ⟨null, same⟩ |
    ⟨-, val, others, isVal, same, -⟩ <;> rcases List.mem_cons.mp member with rfl | later
  · rw [plain] at null
    cases null
  · exact ih same later
  · exact ⟨val, isVal⟩
  · exact ih same later

/-- The record has the properties without a null. -/
theorem mem_record {record : Record} (converted : recordFromMap marshal attrs = .ok record)
    {val : Value} :
    (key, val) ∈ record ↔
      ∃ value, (key, value) ∈ attrs ∧ containsNull value = false ∧
        valueOf marshal value = .ok val := by
  induction attrs generalizing record with
  | nil =>
    cases converted
    simp
  | cons attr rest ih =>
    obtain ⟨name, value⟩ := attr
    rcases recordFromMap_cons_eq_ok.mp converted with ⟨null, same⟩ |
      ⟨plain, here, others, isHere, same, rfl⟩
    · rw [ih same]
      simp only [List.mem_cons, Prod.mk.injEq]
      grind
    · rw [Multiset.mem_cons, ih same]
      simp only [List.mem_cons, Prod.mk.injEq]
      grind

theorem properties_eq_ok_some {record : Record}
    (brought : properties marshal attrs = .ok (some record)) :
    recordFromMap marshal attrs = .ok record := by
  unfold properties at brought
  split at brought
  · cases brought
  · cases isRecord : recordFromMap marshal attrs with
    | error => simp [isRecord, Except.map] at brought
    | ok => simpa [isRecord, Except.map] using brought

theorem prepare_eq_ok :
    prepare marshal r = .ok prepared ↔
      validateFields r = .ok () ∧ ∃ context subject resource,
        recordFromMap marshal r.context = .ok context ∧
        properties marshal r.subject.attrs = .ok subject ∧
        resourceProperties marshal r = .ok resource ∧
        prepared = ⟨⟨uidOf r.subject, subject, uidOf r.resource, resource⟩,
          ⟨ascii "Action", r.actionName⟩, context⟩ := by
  simp only [prepare, bind_eq_ok, mapError_eq_ok, pure, Except.pure, Except.ok.injEq]
  constructor
  · rintro ⟨_, fields, context, isContext, subject, isSubject, resource, isResource, rfl⟩
    exact ⟨fields, context, subject, resource, isContext, isSubject, isResource, rfl⟩
  · rintro ⟨fields, context, subject, resource, isContext, isSubject, isResource, rfl⟩
    exact ⟨(), fields, context, isContext, subject, isSubject, resource, isResource, rfl⟩

/-- The record that Cedar is given of a part of the request, if it is given one. -/
def Prepared.record (prepared : Prepared) : Part → Option Record
  | .context => some prepared.context
  | .subject => prepared.subjects.subjectAttrs
  | .resource => prepared.subjects.resourceAttrs

theorem recordFromMap_of_prepare (accepted : prepare marshal r = .ok prepared) {part : Part}
    {record : Record} (used : prepared.record part = some record) :
    recordFromMap marshal (r.part part) = .ok record := by
  obtain ⟨-, context, subject, resource, isContext, isSubject, isResource, rfl⟩ :=
    prepare_eq_ok.mp accepted
  cases part with
  | context =>
    cases used
    exact isContext
  | subject =>
    cases used
    exact properties_eq_ok_some isSubject
  | resource =>
    cases used
    unfold resourceProperties at isResource
    split at isResource
    · cases isResource
    · exact properties_eq_ok_some isResource

/-- The integer of a literal reaches Cedar as it is exactly if it has no more significant
bits than a 64-bit float. -/
theorem long_exact_iff {r : EvalRequest} {prepared : Prepared}
    (accepted : prepare marshal r.floats = .ok prepared) {part : Part} {record : Record}
    (used : prepared.record part = some record) {key : Bytes} {value : Decision.Value}
    (given : (key, value) ∈ r.part part) (kept : containsNull value = false) {path : List Nat}
    {n : Int} (literal : value.at path = some (.number n)) :
    ∃ cedar, (key, cedar) ∈ record ∧ (cedar.at path = some (.long n) ↔ Significant 53 n) := by
  have converted := recordFromMap_of_prepare accepted used
  rw [EvalRequest.part_floats] at converted
  have present : (key, floats value) ∈ floatsFields (r.part part) := by
    rw [floatsFields_eq_map]
    exact List.mem_map_of_mem given
  obtain ⟨cedar, isCedar⟩ := converts_of_mem converted present (containsNull_floats value ▸ kept)
  have rounded : (floats value).at path = some (.number (roundTo 53 n)) := by
    rw [at_floats, literal, Option.map_some, floats]
  obtain ⟨found, isFound, isLong⟩ := valueOf_at isCedar rounded
  obtain ⟨rfl, whole⟩ := valueOf_number isLong
  refine ⟨cedar, (mem_record converted).mpr ⟨_, present, containsNull_floats value ▸ kept,
    isCedar⟩, ?_⟩
  rw [isFound, ← roundTo_eq_self_iff (by decide), Option.some.injEq, Value.long.injEq]
  constructor
  · intro same
    rw [← Rat.num_div_den (roundTo 53 n), whole, same]
    simp
  · intro same
    rw [same, Rat.num_intCast]

/-- A request about an account number. -/
def accountRequest (n : Int) : EvalRequest where
  subject := { type := ascii "User", id := ascii "alice" }
  actionName := ascii "read"
  resource := { type := ascii "Doc", id := ascii "1" }
  context := [(ascii "account", .arr [.str (ascii "x"), .number n])]

theorem prepare_accountRequest {n m : Int} (rounded : roundTo 53 n = m) (most : m < 2 ^ 63)
    (least : -2 ^ 63 ≤ m) :
    prepare marshal (accountRequest n).floats =
      .ok ⟨⟨⟨ascii "User", ascii "alice"⟩, none, ⟨ascii "Doc", ascii "1"⟩, none⟩,
        ⟨ascii "Action", ascii "read"⟩,
        {(ascii "account", .set [.str (ascii "x"), .long m])}⟩ := by
  have below : (m : Rat) < 2 ^ 63 := by exact_mod_cast most
  have above : -2 ^ 63 ≤ (m : Rat) := by exact_mod_cast least
  have fields : validateFields (accountRequest 0) = .ok () := by decide
  refine prepare_eq_ok.mpr ⟨fields, _, none, none, ?_, rfl, rfl, rfl⟩
  simp [accountRequest, EvalRequest.floats, floatsFields, floatsAll, containsNull, anyContainsNull,
    valueOf, valuesOf, rounded, not_le.mpr below, not_lt.mpr above, Except.map, bind, Except.bind,
    pure, Except.pure]

/-- `5` reaches Cedar as `5`. -/
theorem long_exact_five :
    ∃ cedar, (ascii "account", cedar) ∈
        ({(ascii "account", .set [.str (ascii "x"), .long (roundTo 53 (5 : Int)).num])} : Record) ∧
      (cedar.at [1] = some (.long 5) ↔ Significant 53 (5 : Int)) := by
  have rounded : roundTo 53 (5 : Int) = (5 : Int) := roundTo_eq_self ⟨5, 0, by decide, by norm_num⟩
  have accepted := @prepare_accountRequest (fun _ => []) 5 5 rounded (by decide) (by decide)
  have given : (ascii "account", .arr [.str (ascii "x"), .number (5 : Int)]) ∈
      (accountRequest 5).part .context := List.mem_singleton_self _
  rw [rounded, Rat.num_intCast]
  exact long_exact_iff accepted rfl given rfl rfl

/-- Two account numbers that differ are one to Cedar. -/
theorem accounts_collide :
    ∃ prepared : Prepared,
      prepare (fun _ => []) (accountRequest 9007199254740993).floats = .ok prepared ∧
      prepare (fun _ => []) (accountRequest 9007199254740992).floats = .ok prepared ∧
      prepared.context = {(ascii "account", .set [.str (ascii "x"), .long 9007199254740992])} := by
  have even : roundTo 53 (9007199254740992 : Int) = (9007199254740992 : Int) :=
    roundTo_eq_self ⟨1, 53, by decide, by norm_num⟩
  exact ⟨_, prepare_accountRequest roundTo_beyond (by decide) (by decide),
    prepare_accountRequest even (by decide) (by decide), rfl⟩

/-! ## Nulls -/

mutual

/-- Only a value with a null is refused for it. -/
theorem containsNull_of_valueOf : ∀ {value : Decision.Value},
    valueOf marshal value = .error .null → containsNull value = true
  | .null, _ => rfl
  | .number x, refused => by
    simp only [valueOf] at refused
    split at refused
    · cases refused
    · split at refused <;> cases refused
  | .arr items, refused => by
    have inner : valuesOf marshal items = .error .null := by
      cases all : valuesOf marshal items <;> simp_all [valueOf, Except.map]
    exact anyContainsNull_of_valuesOf inner
  | .bool _, refused | .str _, refused | .obj _, refused => by cases refused

theorem anyContainsNull_of_valuesOf : ∀ {items : List Decision.Value},
    valuesOf marshal items = .error .null → anyContainsNull items = true
  | [], refused => by cases refused
  | item :: rest, refused => by
    rw [anyContainsNull, Bool.or_eq_true]
    cases first : valueOf marshal item with
    | error =>
      simp only [valuesOf, first, bind, Except.bind, Except.error.injEq] at refused
      exact .inl (containsNull_of_valueOf (refused ▸ first))
    | ok =>
      refine .inr (anyContainsNull_of_valuesOf ?_)
      cases others : valuesOf marshal rest <;>
        simp_all [valuesOf, bind, Except.bind, pure, Except.pure]

end

theorem recordFromMap_ne_null (attrs : List (Bytes × Decision.Value)) (key : Bytes) :
    recordFromMap marshal attrs ≠ .error (key, .null) := by
  induction attrs with
  | nil => exact nofun
  | cons attr rest ih =>
  intro refused
  rw [recordFromMap] at refused
  split at refused
  · exact ih refused
  rename_i plain
  cases converted : valueOf marshal attr.2 with
  | error =>
    simp only [converted, Except.error.injEq, Prod.mk.injEq] at refused
    exact plain (containsNull_of_valueOf (refused.2 ▸ converted))
  | ok =>
    rw [converted] at refused
    cases others : recordFromMap marshal rest with
    | error =>
      simp only [others, Except.map, Except.error.injEq] at refused
      exact ih (refused ▸ others)
    | ok => simp [others, Except.map] at refused

theorem recordFromMap_filter (attrs : List (Bytes × Decision.Value)) :
    recordFromMap marshal (attrs.filter fun attr => !containsNull attr.2) =
      recordFromMap marshal attrs := by
  induction attrs with
  | nil => rfl
  | cons attr rest ih =>
    cases null : containsNull attr.2 with
    | true | false => simp [null, ih]

/-- The record of a map does not depend on the order the map is read in. -/
theorem recordFromMap_perm {first second : List (Bytes × Decision.Value)}
    (perm : first.Perm second) {record : Record}
    (converted : recordFromMap marshal first = .ok record) :
    recordFromMap marshal second = .ok record := by
  induction perm generalizing record with
  | nil => exact converted
  | cons attr _ ih =>
    rcases recordFromMap_cons_eq_ok.mp converted with ⟨null, same⟩ |
      ⟨plain, val, others, isVal, same, rfl⟩
    · exact recordFromMap_cons_eq_ok.mpr (.inl ⟨null, ih same⟩)
    · exact recordFromMap_cons_eq_ok.mpr (.inr ⟨plain, val, others, isVal, ih same, rfl⟩)
  | swap one two =>
    obtain ⟨nameOne, valueOne⟩ := one
    obtain ⟨nameTwo, valueTwo⟩ := two
    simp only [recordFromMap_cons_eq_ok] at converted ⊢
    grind [Multiset.cons_swap]
  | trans _ _ ih₁ ih₂ => exact ih₂ (ih₁ converted)

end Convert

/-- The properties without a null are the same. -/
def SameButNulls (first second : List (Bytes × Decision.Value)) : Prop :=
  (first.filter fun attr => !containsNull attr.2).Perm
    (second.filter fun attr => !containsNull attr.2)

section SameButNulls

variable {marshal : Decision.Value → Bytes} {first second : List (Bytes × Decision.Value)}
  {record : Record}

theorem recordFromMap_congr (same : SameButNulls first second)
    (converted : recordFromMap marshal first = .ok record) :
    recordFromMap marshal second = .ok record := by
  rw [← recordFromMap_filter] at converted ⊢
  exact recordFromMap_perm same converted

theorem properties_eq_ok {attrs : List (Bytes × Decision.Value)} :
    (∃ brought, properties marshal attrs = .ok brought ∧ brought.getD 0 = record) ↔
      recordFromMap marshal attrs = .ok record := by
  unfold properties
  by_cases none : attrs = []
  · simp [none, eq_comm]
  · cases recordFromMap marshal attrs <;> simp [none, Except.map, eq_comm]

theorem properties_congr (same : SameButNulls first second) {brought : Option Record}
    (isBrought : properties marshal first = .ok brought) :
    ∃ other, properties marshal second = .ok other ∧ other.getD 0 = brought.getD 0 :=
  properties_eq_ok.mpr (recordFromMap_congr same (properties_eq_ok.mp ⟨_, isBrought, rfl⟩))

end SameButNulls

end Cedar

end OmegaPlane.Decision
