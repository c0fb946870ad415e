import BackupHistory.Flow.Measure
import BackupHistory.Operation.Encoding

namespace BackupHistory

/-!
# Flows

A flow is shown by a summary of its operations. The operation with the lowest
id started the run, and everything after it was triggered by it: it gives the
flow its type, time and subtitle. The status is the most severe one of all
operations, so a failed hook still marks the whole run. The snapshot is the one
that the last operation to name a snapshot names.
-/

/-- How a flow is classified. -/
inductive Flow.Category where
  | unknown
  | backup
  | snapshot
  | forget
  | prune
  | check
  | restore
  | stats
  | runHook
  | runCommand
  deriving Repr, DecidableEq

namespace Flow.Category

/-- The category of a flow that was started by a sort of work. -/
def ofWork : Work → Category
  | .backup => .backup
  | .indexSnapshot => .snapshot
  | .forget => .forget
  | .prune => .prune
  | .check => .check
  | .restore => .restore
  | .stats => .stats
  | .runHook => .runHook
  | .runCommand => .runCommand

/-- The name of a category in a written tree. -/
def name : Category → String
  | .unknown => "unknown"
  | .backup => "backup"
  | .snapshot => "snapshot"
  | .forget => "forget"
  | .prune => "prune"
  | .check => "check"
  | .restore => "restore"
  | .stats => "stats"
  | .runHook => "run_hook"
  | .runCommand => "run_command"

/-- The words in which a category is shown. -/
def label : Category → String
  | .unknown => "Unknown"
  | .backup => "Backup"
  | .snapshot => "Snapshot"
  | .forget => "Forget"
  | .prune => "Prune"
  | .check => "Check"
  | .restore => "Restore"
  | .stats => "Stats"
  | .runHook => "Run Hook"
  | .runCommand => "Run Command"

end Flow.Category

/-- A flow as it is shown. -/
structure Flow where
  id : FlowId
  instanceId : String
  planId : String
  repoId : String
  snapshotId : Option String
  /-- The most severe status of all operations. -/
  status : Status
  time : Instant
  category : Flow.Category
  subtitle : List String
  hidden : Bool
  /-- In the order of their ids. -/
  operations : List Operation
  /-- The state of the ledger that the flow was derived in, zero outside one. -/
  revision : Nat
  deriving Repr, DecidableEq

namespace Flow

/-- A duration up to this count of milliseconds is not reported. -/
def unreportedMillis : Nat :=
  100

/-- What a subtitle says about how an operation stands or ended. -/
def outcomeText (operation : Operation) : List String :=
  match operation.status with
  | .inProgress => ["running"]
  | .userCancelled => ["cancelled by user"]
  | .systemCancelled => ["cancelled by system"]
  | _ =>
      if unreportedMillis < operation.durationMillis then
        ["took " ++ Measure.durationText operation.durationMillis]
      else
        []

/-- An amount of data and the time in which it was processed. -/
def throughputText (bytes : UInt64) (millis : Int) : String :=
  Measure.sizeText bytes.toNat ++ " in " ++ Measure.durationText millis

def snapshotText (snapshot : Snapshot) : List String :=
  (match snapshot.summary with
    | some summary =>
        if summary.totalBytesProcessed = 0 then
          []
        else
          [throughputText summary.totalBytesProcessed
            (Measure.secondsToMillis summary.totalDurationSecs)]
    | none => []) ++
    ["ID: " ++ Measure.shortSnapshotId snapshot.id]

/-- The parts of the subtitle of a flow that an operation started. -/
def subtitleOf (operation : Operation) : List String :=
  match operation.task with
  | .backup (some (.running percentDone bytesDone totalBytes)) =>
      [Measure.percentText percentDone ++ "% processed",
        Measure.sizeText bytesDone.toNat ++ "/" ++
          Measure.sizeText totalBytes.toNat]
  | .backup (some (.finished totalBytesProcessed snapshotId)) =>
      [throughputText totalBytesProcessed operation.durationMillis,
        "ID: " ++ Measure.shortSnapshotId snapshotId]
  | .backup none => []
  | .restore none _ => []
  | .restore (some progress) _ =>
      match progress.stage with
      | .finished =>
          [throughputText progress.totalBytes operation.durationMillis]
      | .running =>
          [Measure.percentText progress.percentDone ++ "% processed"]
  | .indexSnapshot (some snapshot) _ =>
      snapshotText snapshot ++ outcomeText operation
  | _ => outcomeText operation

/-- The snapshot that an operation names, its own before an entered one. -/
def snapshotOf (operation : Operation) : Option String :=
  match operation.snapshotId, operation.task with
  | some snapshotId, _ => some snapshotId
  | none, .indexSnapshot (some snapshot) _ => some snapshot.id
  | none, _ => none

/-- Whether an operation enters a snapshot that has been forgotten. -/
def marksForgotten (operation : Operation) : Bool :=
  match operation.task with
  | .indexSnapshot _ forgotten => forgotten
  | _ => false

def inIdOrder (operations : List Operation) : List Operation :=
  operations.mergeSort fun left right => decide (left.id ≤ right.id)

/-- The most severe status, the given one included. -/
def worstStatus (start : Status) (operations : List Operation) : Status :=
  operations.foldl
    (fun status operation => status.worst operation.status) start

/-- The snapshot that the last operation to name one names. -/
def lastSnapshot (operations : List Operation) : Option String :=
  operations.foldl
    (fun found operation => (snapshotOf operation).or found) none

/-- The flow of operations in the order of their ids, unless there are none. -/
def ofOrdered? : List Operation → Option Flow
  | [] => none
  | first :: rest =>
      let operations := first :: rest
      some {
        id := first.flowId
        instanceId := first.instanceId
        planId := first.planId
        repoId := first.repoId
        snapshotId := lastSnapshot operations
        status := worstStatus first.status operations
        time := first.startTime
        category := .ofWork first.task.work
        subtitle := subtitleOf first
        hidden :=
          first.task.isHook || operations.any marksForgotten
        operations := operations
        revision := 0 }

/-- The flow of operations in any order, unless there are none. -/
def ofOperations? (operations : List Operation) : Option Flow :=
  ofOrdered? (inIdOrder operations)

def primary? (flow : Flow) : Option Operation :=
  flow.operations.head?

/-- The operation that entered a flow's snapshot. -/
def snapshotOperation? (flow : Flow) : Option Operation :=
  flow.operations.find? fun operation =>
    operation.task.work == .indexSnapshot

def toJson (flow : Flow) : Json :=
  .ofMembers
    [("flow_id", .ofString flow.id),
      ("instance_id", .ofString flow.instanceId),
      ("plan_id", .ofString flow.planId),
      ("repo_id", .ofString flow.repoId),
      ("snapshot_id", .ofOption .ofString flow.snapshotId),
      ("status", .ofString flow.status.name),
      ("display_time", flow.time.toJson),
      ("display_type", .ofString flow.category.name),
      ("subtitle_components", .array (flow.subtitle.map Json.ofString)),
      ("hidden", .bool flow.hidden),
      ("operations", .array (flow.operations.map Operation.toJson)),
      ("revision", .ofInt flow.revision)]

end Flow

end BackupHistory
