import BackupHistory.Operation.Decoding
import BackupHistory.Proofs.Json.Members
import BackupHistory.Proofs.Operation.Decoding
import Mathlib.Logic.Relation

namespace BackupHistory

/-!
# The layout of an operation

What an object says of an operation does not hang on how it is laid out. Its
members may stand in any order, and so may those of its work; members of other
names may stand among them; a field with a default may be left out if it says
the default, and an absent value may be written as `null`. `Operation.Relaid`
is one such change, and `Operation.ofJson?_relaid` is the main statement: none
of them changes the operation that is read, while an object that repeats a field
or lacks one that has no default is never accepted.
-/

namespace Task

/-- What is known about work may be told in any order. -/
theorem ofFields?_eq_of_perm
    {left right : List (Json.Text × Json)}
    (same : left.Perm right)
    (work : Work) :
    ofFields? (.object left) work = ofFields? (.object right) work := by
  cases work <;>
    simp only [ofFields?, Json.fields?_eq_of_perm same, acceptsNoFields]

/-- The sort of work may stand anywhere among what is known about it. -/
theorem ofJson?_eq_of_perm
    {left right : List (Json.Text × Json)}
    (same : left.Perm right)
    (passage : Json.Passage) :
    ofJson? passage (.object left) = ofJson? passage (.object right) := by
  unfold ofJson?
  rw [Json.accepts_eq_of_perm same]
  obtain ⟨noLeft, noRight⟩ |
      ⟨tag, leftRest, rightRest, isLeft, isRight, others⟩ :=
    Json.splitTag?_of_perm same "type"
  · rw [noLeft, noRight]
  · simp only [isLeft, isRight, Option.bind_eq_bind, Option.bind_some,
      ofFields?_eq_of_perm others]

end Task

namespace Operation

/-- The fields that every operation must have. -/
def requiredNames : List String :=
  ["id", "start_time", "op"]

/-- The fields whose value may be absent. -/
def optionalNames : List String :=
  ["snapshot_id", "end_time", "display_message"]

/-- Whether a value says what a field stands for where it is missing. -/
def IsDefault (passage : Json.Passage) (value : Json) : String → Prop
  | "modno" => value.toInt64? = some 0
  | "flow_id" => value.toText? = some ""
  | "instance_id" => value.toText? = some ""
  | "plan_id" => value.toText? = some ""
  | "repo_id" => value.toText? = some ""
  | "status" => value.toNamed? passage Status.name Status.all = some .unknown
  | "snapshot_id" => value = .null
  | "end_time" => value = .null
  | "display_message" => value = .null
  | _ => False

/-- One change of layout, from the members of an object to those of another. -/
inductive Relaid (passage : Json.Passage) :
    List (Json.Text × Json) → List (Json.Text × Json) → Prop where
  | reorder {members other : List (Json.Text × Json)} :
      members.Perm other →
      Relaid passage members other
  | reorderTask {front back parts other : List (Json.Text × Json)} :
      parts.Perm other →
      Relaid passage
        (front ++ (some "op", .object parts) :: back)
        (front ++ (some "op", .object other) :: back)
  | add {front back : List (Json.Text × Json)} {name : String} {value : Json} :
      name ∉ fieldNames →
      Relaid passage (front ++ back) (front ++ (some name, value) :: back)
  | leaveOut
      {front back : List (Json.Text × Json)} {name : String} {value : Json} :
      IsDefault passage value name →
      Relaid passage (front ++ (some name, value) :: back) (front ++ back)
  | writeNull {front back : List (Json.Text × Json)} {name : String} :
      name ∈ optionalNames →
      some name ∉ (front ++ back).map Prod.fst →
      Relaid passage (front ++ back) (front ++ (some name, .null) :: back)

/--
How the fields are read: the name of each, what a value under the name, or the
lack of one, is read as, and where in the operation that is found.
-/
inductive HasField (passage : Json.Passage) :
    {α : Type} →
    String →
    (Option Json → Option α) →
    (Operation → α) →
    Prop where
  | id : HasField passage "id" (Json.required Json.toInt64?) Operation.id
  | version :
      HasField passage "modno" (Json.orDefault 0 Json.toInt64?)
        Operation.version
  | flowId :
      HasField passage "flow_id" (Json.orDefault "" Json.toText?)
        Operation.flowId
  | instanceId :
      HasField passage "instance_id" (Json.orDefault "" Json.toText?)
        Operation.instanceId
  | planId :
      HasField passage "plan_id" (Json.orDefault "" Json.toText?)
        Operation.planId
  | repoId :
      HasField passage "repo_id" (Json.orDefault "" Json.toText?)
        Operation.repoId
  | snapshotId :
      HasField passage "snapshot_id"
        (Json.orDefault none (Json.nullable Json.toText?))
        Operation.snapshotId
  | status :
      HasField passage "status"
        (Json.orDefault .unknown
          (Json.toNamed? passage Status.name Status.all))
        Operation.status
  | startTime :
      HasField passage "start_time" (Json.required Instant.ofJson?)
        Operation.startTime
  | endTime :
      HasField passage "end_time"
        (Json.orDefault none (Json.nullable Instant.ofJson?))
        Operation.endTime
  | displayMessage :
      HasField passage "display_message"
        (Json.orDefault none (Json.nullable Json.toText?))
        Operation.displayMessage
  | task :
      HasField passage "op" (Json.required (Task.ofJson? passage.inside))
        Operation.task

/-- An operation every field of which is read from the members of an object. -/
structure IsReadFrom
    (passage : Json.Passage)
    (members : List (Json.Text × Json))
    (operation : Operation) :
    Prop where
  named : Json.allNamed members = true
  field :
    ∀ {α : Type} {name : String} {read : Option Json → Option α}
      {field : Operation → α},
      HasField passage name read field →
      (Json.member? members name).bind read = some (field operation)

section Fields

variable {passage : Json.Passage} {members : List (Json.Text × Json)}
  {operation : Operation}

theorem ofJson?_of_isReadFrom
    (reads : IsReadFrom passage members operation) :
    ofJson? passage (.object members) = some operation := by
  obtain ⟨id, hasId, isId⟩ := Option.bind_eq_some_iff.1 (reads.field .id)
  obtain ⟨version, hasVersion, isVersion⟩ :=
    Option.bind_eq_some_iff.1 (reads.field .version)
  obtain ⟨flowId, hasFlowId, isFlowId⟩ :=
    Option.bind_eq_some_iff.1 (reads.field .flowId)
  obtain ⟨instanceId, hasInstanceId, isInstanceId⟩ :=
    Option.bind_eq_some_iff.1 (reads.field .instanceId)
  obtain ⟨planId, hasPlanId, isPlanId⟩ :=
    Option.bind_eq_some_iff.1 (reads.field .planId)
  obtain ⟨repoId, hasRepoId, isRepoId⟩ :=
    Option.bind_eq_some_iff.1 (reads.field .repoId)
  obtain ⟨snapshotId, hasSnapshotId, isSnapshotId⟩ :=
    Option.bind_eq_some_iff.1 (reads.field .snapshotId)
  obtain ⟨status, hasStatus, isStatus⟩ :=
    Option.bind_eq_some_iff.1 (reads.field .status)
  obtain ⟨startTime, hasStartTime, isStartTime⟩ :=
    Option.bind_eq_some_iff.1 (reads.field .startTime)
  obtain ⟨endTime, hasEndTime, isEndTime⟩ :=
    Option.bind_eq_some_iff.1 (reads.field .endTime)
  obtain ⟨message, hasMessage, isMessage⟩ :=
    Option.bind_eq_some_iff.1 (reads.field .displayMessage)
  obtain ⟨task, hasTask, isTask⟩ :=
    Option.bind_eq_some_iff.1 (reads.field .task)
  have found :
      Json.fields? fieldNames (.object members) =
        some [id, version, flowId, instanceId, planId, repoId, snapshotId,
          status, startTime, endTime, message, task] := by
    refine Json.fields?_object_eq_some_iff.2 ⟨reads.named, ?_⟩
    simp only [fieldNames, List.map_cons, List.map_nil, hasId, hasVersion,
      hasFlowId, hasInstanceId, hasPlanId, hasRepoId, hasSnapshotId,
      hasStatus, hasStartTime, hasEndTime, hasMessage, hasTask]
  simp only [ofJson?, found, isId, isVersion, isFlowId, isInstanceId,
    isPlanId, isRepoId, isSnapshotId, isStatus, isStartTime, isEndTime,
    isMessage, isTask, Option.bind_eq_bind, Option.bind_some]

theorem isReadFrom_of_ofJson?
    (accepted : ofJson? passage (.object members) = some operation) :
    IsReadFrom passage members operation := by
  obtain ⟨fields, found, decoded⟩ := Option.bind_eq_some_iff.1 accepted
  obtain ⟨named, lookups⟩ := Json.fields?_object_eq_some_iff.1 found
  split at decoded
  next =>
    simp only [fieldNames, List.map_cons, List.map_nil, List.cons.injEq,
      and_true] at lookups
    obtain ⟨hasId, hasVersion, hasFlowId, hasInstanceId, hasPlanId,
      hasRepoId, hasSnapshotId, hasStatus, hasStartTime, hasEndTime,
      hasMessage, hasTask⟩ := lookups
    simp only [Option.bind_eq_bind, Option.bind_eq_some_iff,
      Option.some.injEq] at decoded
    obtain ⟨_, isId, _, isVersion, _, isFlowId, _, isInstanceId, _, isPlanId,
      _, isRepoId, _, isSnapshotId, _, isStatus, _, isStartTime, _,
      isEndTime, _, isMessage, _, isTask, rfl⟩ := decoded
    refine ⟨named, fun isField => ?_⟩
    cases isField with
    | id => rw [hasId]; exact isId
    | version => rw [hasVersion]; exact isVersion
    | flowId => rw [hasFlowId]; exact isFlowId
    | instanceId => rw [hasInstanceId]; exact isInstanceId
    | planId => rw [hasPlanId]; exact isPlanId
    | repoId => rw [hasRepoId]; exact isRepoId
    | snapshotId => rw [hasSnapshotId]; exact isSnapshotId
    | status => rw [hasStatus]; exact isStatus
    | startTime => rw [hasStartTime]; exact isStartTime
    | endTime => rw [hasEndTime]; exact isEndTime
    | displayMessage => rw [hasMessage]; exact isMessage
    | task => rw [hasTask]; exact isTask
  next => cases decoded

theorem HasField.mem_fieldNames
    {name : String}
    {read : Option Json → Option α}
    {field : Operation → α}
    (isField : HasField passage name read field) :
    name ∈ fieldNames := by
  cases isField <;> decide

theorem exists_hasField
    (passage : Json.Passage)
    {name : String}
    (isName : name ∈ fieldNames) :
    ∃ (α : Type) (read : Option Json → Option α) (field : Operation → α),
      HasField passage name read field := by
  simp only [fieldNames, List.mem_cons, List.not_mem_nil, or_false] at isName
  obtain rfl | rfl | rfl | rfl | rfl | rfl | rfl | rfl | rfl | rfl | rfl |
    rfl := isName
  exacts [⟨_, _, _, .id⟩, ⟨_, _, _, .version⟩, ⟨_, _, _, .flowId⟩,
    ⟨_, _, _, .instanceId⟩, ⟨_, _, _, .planId⟩, ⟨_, _, _, .repoId⟩,
    ⟨_, _, _, .snapshotId⟩, ⟨_, _, _, .status⟩, ⟨_, _, _, .startTime⟩,
    ⟨_, _, _, .endTime⟩, ⟨_, _, _, .displayMessage⟩, ⟨_, _, _, .task⟩]

/-- A value that says the default is read as the lack of a value is. -/
theorem HasField.read_default
    {name : String}
    {read : Option Json → Option α}
    {field : Operation → α}
    (isField : HasField passage name read field)
    {value : Json}
    (isDefault : IsDefault passage value name) :
    read (some value) = read none := by
  cases isField with
  | id => exact isDefault.elim
  | version => exact isDefault
  | flowId => exact isDefault
  | instanceId => exact isDefault
  | planId => exact isDefault
  | repoId => exact isDefault
  | snapshotId =>
      obtain rfl : value = .null := isDefault
      rfl
  | status => exact isDefault
  | startTime => exact isDefault.elim
  | endTime =>
      obtain rfl : value = .null := isDefault
      rfl
  | displayMessage =>
      obtain rfl : value = .null := isDefault
      rfl
  | task => exact isDefault.elim

/-- The lack of a value is the default where the value may be absent. -/
theorem isDefault_null {name : String} (isOptional : name ∈ optionalNames) :
    IsDefault passage .null name := by
  unfold optionalNames at isOptional
  simp only [List.mem_cons, List.not_mem_nil, or_false] at isOptional
  obtain rfl | rfl | rfl := isOptional <;> rfl

/-- The work is read as before if what it says is told in another order. -/
theorem HasField.read_task
    {name : String}
    {read : Option Json → Option α}
    {field : Operation → α}
    (isField : HasField passage name read field)
    (isTask : name = "op")
    {parts other : List (Json.Text × Json)}
    (same : parts.Perm other) :
    read (some (.object other)) = read (some (.object parts)) := by
  cases isField
  case task => exact (Task.ofJson?_eq_of_perm same passage.inside).symm
  all_goals exact absurd isTask (by decide)

end Fields

namespace IsReadFrom

variable {passage : Json.Passage} {members other : List (Json.Text × Json)}
  {operation : Operation} {name : String} {value : Json}

theorem of_perm
    (same : members.Perm other)
    (reads : IsReadFrom passage members operation) :
    IsReadFrom passage other operation where
  named := Json.allNamed_eq_of_perm same ▸ reads.named
  field isField := by
    rw [← Json.member?_eq_of_perm same]
    exact reads.field isField

theorem add
    (fresh : name ∉ fieldNames)
    (value : Json)
    (reads : IsReadFrom passage members operation) :
    IsReadFrom passage ((some name, value) :: members) operation where
  named := reads.named
  field isField := by
    have differs : some name ≠ some _ := fun same =>
      fresh (Option.some.inj same ▸ isField.mem_fieldNames)
    rw [Json.member?_cons_of_ne differs]
    exact reads.field isField

/-- What the field of a member is read from, and that no other has its name. -/
theorem exists_read
    {read : Option Json → Option α}
    {field : Operation → α}
    (reads : IsReadFrom passage ((some name, value) :: members) operation)
    (isField : HasField passage name read field) :
    read (some value) = some (field operation) ∧
      Json.member? members name = some none := by
  obtain ⟨found, isFound, isRead⟩ :=
    Option.bind_eq_some_iff.1 (reads.field isField)
  obtain ⟨rfl, absent⟩ := Json.member?_cons_self_eq_some_iff.1 isFound
  exact ⟨isRead, absent⟩

theorem leaveOut
    (isDefault : IsDefault passage value name)
    (reads : IsReadFrom passage ((some name, value) :: members) operation) :
    IsReadFrom passage members operation where
  named := reads.named
  field {α other read field} isField := by
    by_cases same : name = other
    · subst same
      obtain ⟨isRead, absent⟩ := reads.exists_read isField
      rw [absent, Option.bind_some, ← isField.read_default isDefault]
      exact isRead
    · have isRead := reads.field isField
      rwa [Json.member?_cons_of_ne fun isName =>
        same (Option.some.inj isName)] at isRead

theorem writeNull
    (isOptional : name ∈ optionalNames)
    (absent : some name ∉ members.map Prod.fst)
    (reads : IsReadFrom passage members operation) :
    IsReadFrom passage ((some name, .null) :: members) operation where
  named := reads.named
  field {α other read field} isField := by
    by_cases same : name = other
    · subst same
      have notFound := Json.member?_eq_some_none_iff.2 absent
      have found :
          Json.member? ((some name, .null) :: members) name =
            some (some .null) :=
        Json.member?_cons_self_eq_some_iff.2 ⟨rfl, notFound⟩
      have isRead := reads.field isField
      rw [notFound, Option.bind_some] at isRead
      rw [found, Option.bind_some,
        isField.read_default (isDefault_null isOptional)]
      exact isRead
    · rw [Json.member?_cons_of_ne fun isName => same (Option.some.inj isName)]
      exact reads.field isField

theorem reorderTask
    {parts other : List (Json.Text × Json)}
    (same : parts.Perm other)
    (reads :
      IsReadFrom passage ((some "op", .object parts) :: members)
        operation) :
    IsReadFrom passage ((some "op", .object other) :: members)
      operation where
  named := reads.named
  field {α name read field} isField := by
    by_cases isTask : "op" = name
    · subst isTask
      obtain ⟨isRead, absent⟩ := reads.exists_read isField
      rw [Json.member?_cons_self_eq_some_iff.2 ⟨rfl, absent⟩,
        Option.bind_some, isField.read_task rfl same]
      exact isRead
    · have differs : some "op" ≠ some name := fun isName =>
        isTask (Option.some.inj isName)
      have isRead := reads.field isField
      rw [Json.member?_cons_of_ne differs] at isRead ⊢
      exact isRead

/-- A change of layout leaves what is read. -/
theorem of_relaid
    (relaid : Relaid passage members other)
    (reads : IsReadFrom passage members operation) :
    IsReadFrom passage other operation := by
  cases relaid with
  | reorder same => exact reads.of_perm same
  | reorderTask same =>
      exact ((reads.of_perm List.perm_middle).reorderTask same).of_perm
        List.perm_middle.symm
  | add fresh => exact (reads.add fresh _).of_perm List.perm_middle.symm
  | leaveOut isDefault =>
      exact (reads.of_perm List.perm_middle).leaveOut isDefault
  | writeNull isOptional absent =>
      exact (reads.writeNull isOptional absent).of_perm
        List.perm_middle.symm

/-- An operation has every field without a default. -/
theorem mem_of_required
    (reads : IsReadFrom passage members operation)
    (isRequired : name ∈ requiredNames) :
    some name ∈ members.map Prod.fst := by
  by_contra absent
  have notFound := Json.member?_eq_some_none_iff.2 absent
  have unread
      {α : Type}
      {read : Option Json → Option α}
      {field : Operation → α}
      (isField : HasField passage name read field) :
      read none = some (field operation) := by
    have isRead := reads.field isField
    rwa [notFound] at isRead
  simp only [requiredNames, List.mem_cons, List.not_mem_nil,
    or_false] at isRequired
  obtain rfl | rfl | rfl := isRequired
  · cases unread .id
  · cases unread .startTime
  · cases unread .task

/-- No field of an operation is repeated. -/
theorem count_le_one
    (reads : IsReadFrom passage members operation)
    (isField : name ∈ fieldNames) :
    (members.map Prod.fst).count (some name) ≤ 1 := by
  by_contra repeated
  have notFound := Json.member?_eq_none_iff.2 (Nat.not_le.1 repeated)
  obtain ⟨α, read, field, isField⟩ := exists_hasField passage isField
  have isRead := reads.field isField
  rw [notFound] at isRead
  cases isRead

end IsReadFrom

/--
The layout of an object makes no difference to the operation that is read from
it, and an object that lacks a field without a default or repeats a field is not
accepted as an operation.
-/
theorem ofJson?_relaid
    (passage : Json.Passage)
    (members : List (Json.Text × Json)) :
    (∀ operation other,
      ofJson? passage (.object members) = some operation →
      Relation.ReflTransGen (Relaid passage) members other →
      ofJson? passage (.object other) = some operation) ∧
    (∀ name ∈ requiredNames,
      some name ∉ members.map Prod.fst →
      ofJson? passage (.object members) = none) ∧
    (∀ name ∈ fieldNames,
      1 < (members.map Prod.fst).count (some name) →
      ofJson? passage (.object members) = none) := by
  refine ⟨?_, ?_, ?_⟩
  · intro operation other accepted relaid
    apply ofJson?_of_isReadFrom
    induction relaid with
    | refl => exact isReadFrom_of_ofJson? accepted
    | tail _ step reads => exact reads.of_relaid step
  · intro name isRequired absent
    rw [Option.eq_none_iff_forall_ne_some]
    intro operation accepted
    have reads := isReadFrom_of_ofJson? accepted
    exact absent (reads.mem_of_required isRequired)
  · intro name isField repeated
    rw [Option.eq_none_iff_forall_ne_some]
    intro operation accepted
    have reads := isReadFrom_of_ofJson? accepted
    exact Nat.not_lt.2 (reads.count_le_one isField) repeated

section Sample

/-- A check of which most fields have nothing to say. -/
def plainCheck : Operation where
  id := 3
  version := 0
  flowId := "nightly"
  instanceId := ""
  planId := "daily"
  repoId := "archive"
  snapshotId := none
  status := .success
  startTime := ⟨3600, 0, by decide, by decide⟩
  endTime := none
  displayMessage := none
  task := .check "no errors"

/-- What is written of it between its version and its work. -/
def plainCheckMembers : List (Json.Text × Json) :=
  [(some "flow_id", .ofString "nightly"),
    (some "instance_id", .ofString ""),
    (some "plan_id", .ofString "daily"),
    (some "repo_id", .ofString "archive"),
    (some "snapshot_id", .null),
    (some "status", .ofString "success"),
    (some "start_time", plainCheck.startTime.toJson),
    (some "end_time", .null),
    (some "display_message", .null)]

/-- What is written of its work. -/
def plainCheckParts : List (Json.Text × Json) :=
  [(some "type", .ofString "check"), (some "output", .ofString "no errors")]

/-- A check is read from another layout, but not without its id or with two. -/
theorem ofJson?_relaid_plainCheck :
    let passage := Json.Passage.direct Json.nestingLimit
    let id : Json.Text × Json := (some "id", .ofInt64 3)
    let version : Json.Text × Json := (some "modno", .ofInt64 0)
    let task : Json.Text × Json := (some "op", .object plainCheckParts)
    let turned : Json.Text × Json :=
      (some "op", .object plainCheckParts.reverse)
    let host : Json.Text × Json := (some "host", .ofString "nas")
    let written := id :: version :: (plainCheckMembers ++ [task])
    let other := host :: turned :: id :: plainCheckMembers
    plainCheck.toJson = .object written ∧
      Relation.ReflTransGen (Relaid passage) written other ∧
      ofJson? passage (.object other) = some plainCheck ∧
      ofJson? passage (.object (turned :: plainCheckMembers)) = none ∧
      ofJson? passage (.object (id :: written)) = none := by
  intro passage id version task turned host written other
  have accepted : ofJson? passage (.object written) = some plainCheck :=
    plainCheck.ofJson?_toJson (plainCheck.task.isSound_toJson 123)
  have isDefault : IsDefault passage version.2 "modno" :=
    Json.toInt64?_ofInt64 0
  have leftOut :
      Relaid passage
        ([id] ++ (some "modno", version.2) :: (plainCheckMembers ++ [task]))
        ([id] ++ (plainCheckMembers ++ [task])) :=
    .leaveOut isDefault
  have reordered :
      Relaid passage
        (id :: plainCheckMembers ++ [task])
        ([task] ++ id :: plainCheckMembers) :=
    .reorder List.perm_append_comm
  have taskReordered :
      Relaid passage
        ([] ++ (some "op", .object plainCheckParts) :: id ::
          plainCheckMembers)
        ([] ++ (some "op", .object plainCheckParts.reverse) :: id ::
          plainCheckMembers) :=
    .reorderTask (List.reverse_perm plainCheckParts).symm
  have added :
      Relaid passage
        ([] ++ turned :: id :: plainCheckMembers)
        ([] ++ (some "host", host.2) :: turned :: id ::
          plainCheckMembers) :=
    .add (by decide)
  have relaid : Relation.ReflTransGen (Relaid passage) written other :=
    .tail (.tail (.tail (.single leftOut) reordered) taskReordered) added
  refine ⟨rfl, relaid, ?_, ?_, ?_⟩
  · exact (ofJson?_relaid passage written).1 plainCheck other accepted relaid
  · exact (ofJson?_relaid passage _).2.1 "id" (by decide) (by decide)
  · exact (ofJson?_relaid passage _).2.2 "id" (by decide) (by decide)

end Sample

end Operation

end BackupHistory
