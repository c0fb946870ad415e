import BackupHistory.Binary64.Shortest
import BackupHistory.Instant.Writer
import BackupHistory.Json.Basic
import BackupHistory.Operation.Basic

namespace BackupHistory

/-!
# Operations as JSON

An operation is written as an object of all its fields in a fixed order, absent
values as `null`. Work and backup progress are tagged: their first member says
which fields follow.
-/

def Json.ofInt64 (number : Int64) : Json :=
  .ofInt number.toInt

def Json.ofUInt64 (number : UInt64) : Json :=
  .ofInt number.toNat

def Json.ofBinary64 (number : Binary64) : Json :=
  .number number.toNumeral

def Instant.toJson (instant : Instant) : Json :=
  .ofString (String.ofList instant.toText)

def BackupProgress.toJson : BackupProgress → Json
  | .running percentDone bytesDone totalBytes =>
      .ofMembers
        [("entry", .ofString "status"),
          ("percent_done", .ofBinary64 percentDone),
          ("bytes_done", .ofUInt64 bytesDone),
          ("total_bytes", .ofUInt64 totalBytes)]
  | .finished totalBytesProcessed snapshotId =>
      .ofMembers
        [("entry", .ofString "summary"),
          ("total_bytes_processed", .ofUInt64 totalBytesProcessed),
          ("snapshot_id", .ofString snapshotId)]

def SnapshotSummary.toJson (summary : SnapshotSummary) : Json :=
  .ofMembers
    [("total_bytes_processed", .ofUInt64 summary.totalBytesProcessed),
      ("total_duration_secs", .ofBinary64 summary.totalDurationSecs)]

def Snapshot.toJson (snapshot : Snapshot) : Json :=
  .ofMembers
    [("id", .ofString snapshot.id),
      ("summary", .ofOption SnapshotSummary.toJson snapshot.summary)]

def RestoreStage.name : RestoreStage → String
  | .running => "status"
  | .finished => "summary"

def RestoreProgress.toJson (progress : RestoreProgress) : Json :=
  .ofMembers
    [("message_type", .ofString progress.stage.name),
      ("percent_done", .ofBinary64 progress.percentDone),
      ("total_bytes", .ofUInt64 progress.totalBytes)]

namespace Task

/-- The members that say what is known about a piece of work. -/
def members : Task → List (String × Json)
  | .backup progress =>
      [("last_status", .ofOption BackupProgress.toJson progress)]
  | .indexSnapshot snapshot forgotten =>
      [("snapshot", .ofOption Snapshot.toJson snapshot),
        ("forgot", .bool forgotten)]
  | .forget => []
  | .prune output => [("output", .ofString output)]
  | .check output => [("output", .ofString output)]
  | .restore progress target =>
      [("last_status", .ofOption RestoreProgress.toJson progress),
        ("target", .ofString target)]
  | .stats => []
  | .runCommand command => [("command", .ofString command)]
  | .runHook name condition trigger =>
      [("name", .ofString name),
        ("condition", .ofString condition),
        ("parent_op", .ofOption .ofInt64 trigger)]

/-- A piece of work as JSON, its sort first. -/
def toJson (task : Task) : Json :=
  .ofMembers (("type", .ofString task.work.name) :: task.members)

end Task

def Operation.toJson (operation : Operation) : Json :=
  .ofMembers
    [("id", .ofInt64 operation.id),
      ("modno", .ofInt64 operation.version),
      ("flow_id", .ofString operation.flowId),
      ("instance_id", .ofString operation.instanceId),
      ("plan_id", .ofString operation.planId),
      ("repo_id", .ofString operation.repoId),
      ("snapshot_id", .ofOption .ofString operation.snapshotId),
      ("status", .ofString operation.status.name),
      ("start_time", operation.startTime.toJson),
      ("end_time", .ofOption Instant.toJson operation.endTime),
      ("display_message", .ofOption .ofString operation.displayMessage),
      ("op", operation.task.toJson)]

end BackupHistory
