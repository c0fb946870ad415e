import BackupHistory.Binary64.Basic
import BackupHistory.Instant.Basic
import BackupHistory.Operation.Status

namespace BackupHistory

/-!
# Operations

An operation is one unit of work that the backup engine has done or is doing.
Operations with the same flow id belong to one logical run, for instance a
backup and the hooks that it triggered. An operation without a flow id is
malformed and no view can place it.

Two operations have the same content when they agree in every field, measured
numbers being compared by their amount. Measured numbers are finite, so every
operation has the same content as itself.
-/

/-- The engine's number for an operation. -/
abbrev OperationId :=
  Int64

/-- The name of a flow, the empty one marking a malformed operation. -/
abbrev FlowId :=
  String

/-- The instance or plan of operations that carry no tag of an owner. -/
def unassociatedId : String :=
  "_unassociated_"

/-- The plan of operations on a whole repository. -/
def systemPlanId : String :=
  "_system_"

/-- The last progress report of a backup. -/
inductive BackupProgress where
  | running (percentDone : Binary64) (bytesDone totalBytes : UInt64)
  | finished (totalBytesProcessed : UInt64) (snapshotId : String)
  deriving Repr, DecidableEq

/-- What the creation of a snapshot took. -/
structure SnapshotSummary where
  totalBytesProcessed : UInt64
  totalDurationSecs : Binary64
  deriving Repr, DecidableEq

/-- A snapshot as the repository lists it. -/
structure Snapshot where
  id : String
  summary : Option SnapshotSummary
  deriving Repr, DecidableEq

/-- Whether a restore reports on its way or at its end. -/
inductive RestoreStage where
  | running
  | finished
  deriving Repr, DecidableEq

/-- The last progress report of a restore. -/
structure RestoreProgress where
  stage : RestoreStage
  percentDone : Binary64
  totalBytes : UInt64
  deriving Repr, DecidableEq

/-- The sort of work that an operation does. -/
inductive Work where
  | backup
  | indexSnapshot
  | forget
  | prune
  | check
  | restore
  | stats
  | runCommand
  | runHook
  deriving Repr, DecidableEq

namespace Work

def all : List Work :=
  [.backup, .indexSnapshot, .forget, .prune, .check, .restore, .stats,
    .runCommand, .runHook]

/-- The name of a sort of work in a log. -/
def name : Work → String
  | .backup => "backup"
  | .indexSnapshot => "index_snapshot"
  | .forget => "forget"
  | .prune => "prune"
  | .check => "check"
  | .restore => "restore"
  | .stats => "stats"
  | .runCommand => "run_command"
  | .runHook => "run_hook"

end Work

/-- The work of an operation with what is known about it. -/
inductive Task where
  | backup (progress : Option BackupProgress)
  /-- A snapshot is entered; it is marked once it has been forgotten. -/
  | indexSnapshot (snapshot : Option Snapshot) (forgotten : Bool)
  | forget
  | prune (output : String)
  | check (output : String)
  | restore (progress : Option RestoreProgress) (target : String)
  | stats
  | runCommand (command : String)
  /-- A hook runs on behalf of the operation that triggered it. -/
  | runHook
      (name condition : String)
      (trigger : Option OperationId)
  deriving Repr, DecidableEq

namespace Task

def work : Task → Work
  | .backup _ => .backup
  | .indexSnapshot _ _ => .indexSnapshot
  | .forget => .forget
  | .prune _ => .prune
  | .check _ => .check
  | .restore _ _ => .restore
  | .stats => .stats
  | .runCommand _ => .runCommand
  | .runHook _ _ _ => .runHook

def isHook (task : Task) : Bool :=
  task.work == .runHook

/-- The work with every measured number replaced by its amount. -/
def amounts : Task → Task
  | .backup (some (.running percentDone bytesDone totalBytes)) =>
      .backup (some (.running percentDone.amount bytesDone totalBytes))
  | .indexSnapshot (some ⟨id, some summary⟩) forgotten =>
      .indexSnapshot
        (some ⟨id, some { summary with
          totalDurationSecs := summary.totalDurationSecs.amount }⟩)
        forgotten
  | .restore (some progress) target =>
      .restore
        (some { progress with percentDone := progress.percentDone.amount })
        target
  | task => task

end Task

/-- One unit of work as the backup engine last reported it. -/
structure Operation where
  id : OperationId
  /-- The engine's version of the report; a higher one replaces a lower one. -/
  version : Int64
  flowId : FlowId
  instanceId : String
  planId : String
  repoId : String
  snapshotId : Option String
  status : Status
  startTime : Instant
  endTime : Option Instant
  displayMessage : Option String
  task : Task
  deriving Repr, DecidableEq

namespace Operation

/-- Why an operation cannot be placed in a view. -/
inductive Defect where
  | missingFlow (id : OperationId)
  deriving Repr, DecidableEq

/-- The words in which a defect is reported. -/
def Defect.message : Defect → String
  | .missingFlow id => s!"invalid record {id.toInt}: missing flow id"

/-- The defect of an operation, if it has one. -/
def defect? (operation : Operation) : Option Defect :=
  if operation.flowId = "" then
    some (.missingFlow operation.id)
  else
    none

/-- Whether an operation can be placed in a view. -/
def IsWellFormed (operation : Operation) : Prop :=
  operation.flowId ≠ ""

instance (operation : Operation) : Decidable operation.IsWellFormed :=
  inferInstanceAs (Decidable (_ ≠ _))

/-- The well-formed operations are those without a defect. -/
theorem defect?_eq_none_iff (operation : Operation) :
    operation.defect? = none ↔ operation.IsWellFormed := by
  unfold defect? IsWellFormed
  split <;> simp_all

/-- The operation with every measured number replaced by its amount. -/
def amounts (operation : Operation) : Operation :=
  { operation with task := operation.task.amounts }

/-- Whether two operations agree in every field. -/
def sameContent (left right : Operation) : Bool :=
  left.amounts == right.amounts

/-- Agreement is equality of what the operations amount to. -/
theorem sameContent_iff (left right : Operation) :
    left.sameContent right = true ↔ left.amounts = right.amounts := by
  simp [sameContent]

/-- The milliseconds that an operation took, none before it has ended. -/
def durationMillis (operation : Operation) : Nat :=
  match operation.endTime with
  | none => 0
  | some endTime => endTime.millisSince operation.startTime

/--
Whether a view leaves an operation out: a run of statistics, a hook that
succeeded and whatever the system cancelled before it ran.
-/
def isUnremarkable (operation : Operation) : Bool :=
  match operation.task with
  | .stats => true
  | .runHook _ _ _ =>
      operation.status == .success || operation.status == .systemCancelled
  | _ => operation.status == .systemCancelled

end Operation

end BackupHistory
