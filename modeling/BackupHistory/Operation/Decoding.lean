import BackupHistory.Instant.Reader
import BackupHistory.Json.Fields
import BackupHistory.Operation.Encoding

namespace BackupHistory

/-!
# Operations from JSON

The work of an operation is held until its sort is known, so everything in it
is checked, also members that no sort of work has. Outside it a member of
another name is passed over.
-/

def Instant.ofJson? (value : Json) : Option Instant :=
  value.toText?.bind fun text => Instant.read? text.toList

/-- What a backup's progress report is about. -/
inductive BackupProgress.Entry where
  | status
  | summary
  deriving Repr, DecidableEq

namespace BackupProgress

/-- The name of what a report is about. -/
def Entry.name : Entry → String
  | .status => "status"
  | .summary => "summary"

def ofJson? (value : Json) : Option BackupProgress := do
  let (tag, body) ← value.splitTag? "entry"
  let entry ← tag.toTag? .held Entry.name [.status, .summary]
  match entry with
  | .status =>
      match ← body.fields? ["percent_done", "bytes_done", "total_bytes"] with
      | [percentDone, bytesDone, totalBytes] =>
          some (.running
            (← Json.required Json.toBinary64? percentDone)
            (← Json.required Json.toUInt64? bytesDone)
            (← Json.required Json.toUInt64? totalBytes))
      | _ => none
  | .summary =>
      match ← body.fields? ["total_bytes_processed", "snapshot_id"] with
      | [totalBytesProcessed, snapshotId] =>
          some (.finished
            (← Json.required Json.toUInt64? totalBytesProcessed)
            (← Json.required Json.toText? snapshotId))
      | _ => none

end BackupProgress

def SnapshotSummary.ofJson? (value : Json) : Option SnapshotSummary := do
  match ← value.fields? ["total_bytes_processed", "total_duration_secs"] with
  | [totalBytesProcessed, totalDurationSecs] =>
      some {
        totalBytesProcessed :=
          ← Json.required Json.toUInt64? totalBytesProcessed
        totalDurationSecs :=
          ← Json.required Json.toBinary64? totalDurationSecs }
  | _ => none

def Snapshot.ofJson? (value : Json) : Option Snapshot := do
  match ← value.fields? ["id", "summary"] with
  | [id, summary] =>
      some {
        id := ← Json.required Json.toText? id
        summary :=
          ← Json.orDefault none (Json.nullable SnapshotSummary.ofJson?)
            summary }
  | _ => none

def RestoreProgress.ofJson? (value : Json) : Option RestoreProgress := do
  match ← value.fields? ["message_type", "percent_done", "total_bytes"] with
  | [stage, percentDone, totalBytes] =>
      some {
        stage :=
          ← Json.required
            (Json.toNamed? .held RestoreStage.name [.running, .finished])
            stage
        percentDone := ← Json.required Json.toBinary64? percentDone
        totalBytes := ← Json.required Json.toUInt64? totalBytes }
  | _ => none

namespace Task

/-- Whether what remains beside a tag may stand where there are no fields. -/
def acceptsNoFields : Json → Bool
  | .object _ => true
  | .array [] => true
  | _ => false

/-- What is known about work of a given sort. -/
def ofFields? (body : Json) : Work → Option Task
  | .backup => do
      match ← body.fields? ["last_status"] with
      | [progress] =>
          some (.backup
            (← Json.orDefault none (Json.nullable BackupProgress.ofJson?)
              progress))
      | _ => none
  | .indexSnapshot => do
      match ← body.fields? ["snapshot", "forgot"] with
      | [snapshot, forgotten] =>
          some (.indexSnapshot
            (← Json.orDefault none (Json.nullable Snapshot.ofJson?)
              snapshot)
            (← Json.orDefault false Json.toBool? forgotten))
      | _ => none
  | .forget => if acceptsNoFields body then some .forget else none
  | .prune => do
      match ← body.fields? ["output"] with
      | [output] => some (.prune (← Json.orDefault "" Json.toText? output))
      | _ => none
  | .check => do
      match ← body.fields? ["output"] with
      | [output] => some (.check (← Json.orDefault "" Json.toText? output))
      | _ => none
  | .restore => do
      match ← body.fields? ["last_status", "target"] with
      | [progress, target] =>
          some (.restore
            (← Json.orDefault none (Json.nullable RestoreProgress.ofJson?)
              progress)
            (← Json.orDefault "" Json.toText? target))
      | _ => none
  | .stats => if acceptsNoFields body then some .stats else none
  | .runCommand => do
      match ← body.fields? ["command"] with
      | [command] =>
          some (.runCommand (← Json.required Json.toText? command))
      | _ => none
  | .runHook => do
      match ← body.fields? ["name", "condition", "parent_op"] with
      | [name, condition, trigger] =>
          some (.runHook
            (← Json.required Json.toText? name)
            (← Json.orDefault "" Json.toText? condition)
            (← Json.orDefault none (Json.nullable Json.toInt64?) trigger))
      | _ => none

/-- A piece of work, checked as a whole before its sort is looked at. -/
def ofJson? (passage : Json.Passage) (value : Json) : Option Task :=
  if passage.accepts value then do
    let (tag, body) ← value.splitTag? "type"
    let work ← tag.toTag? passage Work.name Work.all
    ofFields? body work
  else
    none

end Task

namespace Operation

/-- The names of an operation's fields in order. -/
def fieldNames : List String :=
  ["id", "modno", "flow_id", "instance_id", "plan_id", "repo_id",
    "snapshot_id", "status", "start_time", "end_time", "display_message",
    "op"]

def ofJson? (passage : Json.Passage) (value : Json) : Option Operation := do
  match ← value.fields? fieldNames with
  | [id, version, flowId, instanceId, planId, repoId, snapshotId, status,
      startTime, endTime, displayMessage, task] =>
      some {
        id := ← Json.required Json.toInt64? id
        version := ← Json.orDefault 0 Json.toInt64? version
        flowId := ← Json.orDefault "" Json.toText? flowId
        instanceId := ← Json.orDefault "" Json.toText? instanceId
        planId := ← Json.orDefault "" Json.toText? planId
        repoId := ← Json.orDefault "" Json.toText? repoId
        snapshotId :=
          ← Json.orDefault none (Json.nullable Json.toText?) snapshotId
        status :=
          ← Json.orDefault .unknown
            (Json.toNamed? passage Status.name Status.all) status
        startTime := ← Json.required Instant.ofJson? startTime
        endTime :=
          ← Json.orDefault none (Json.nullable Instant.ofJson?) endTime
        displayMessage :=
          ← Json.orDefault none (Json.nullable Json.toText?) displayMessage
        task := ← Json.required (Task.ofJson? passage.inside) task }
  | _ => none

end Operation

/-- The containers that may be nested in a text that is read. -/
def Json.nestingLimit : Nat :=
  127

end BackupHistory
