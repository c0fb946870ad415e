import BackupHistory.Operation.Decoding
import BackupHistory.Proofs.Instant.Reading
import BackupHistory.Proofs.Json.Fields

namespace BackupHistory

/-!
# Reading operations back

Each part of an operation is read from the value that it is written as: its
times, its progress and its snapshot, its work and itself. Work is held until
its sort is known, for which it must be sound and may not be nested too deeply.
-/

/-- A time is read from the string that it is written as. -/
@[simp] theorem Instant.ofJson?_toJson (instant : Instant) :
    ofJson? instant.toJson = some instant := by
  unfold ofJson? toJson
  rw [Json.toText?_ofString, Option.bind_some, String.toList_ofList,
    read?_toText]

section Reports

@[simp] theorem BackupProgress.ofJson?_toJson (progress : BackupProgress) :
    ofJson? progress.toJson = some progress := by
  cases progress with
  | running percentDone bytesDone totalBytes =>
      have entryRead :
          (Json.ofString "status").toTag? .held Entry.name
              [.status, .summary] =
            some .status :=
        rfl
      -- A step left to computation would be checked by counting up to the
      -- bound of `UInt64`, so each one is kept as an equation.
      simp -implicitDefEqProofs [ofJson?, toJson, entryRead]
  | finished totalBytesProcessed snapshotId =>
      have entryRead :
          (Json.ofString "summary").toTag? .held Entry.name
              [.status, .summary] =
            some .summary :=
        rfl
      simp -implicitDefEqProofs [ofJson?, toJson, entryRead]

@[simp] theorem SnapshotSummary.ofJson?_toJson (summary : SnapshotSummary) :
    ofJson? summary.toJson = some summary := by
  simp -implicitDefEqProofs [ofJson?, toJson]

theorem Snapshot.ofJson?_toJson (snapshot : Snapshot) :
    ofJson? snapshot.toJson = some snapshot := by
  have summaryRead :=
    Json.nullable_ofOption SnapshotSummary.ofJson?_toJson
      (fun _ => Json.ofMembers_ne_null _) snapshot.summary
  simp -implicitDefEqProofs [ofJson?, toJson, summaryRead]

theorem RestoreProgress.ofJson?_toJson (progress : RestoreProgress) :
    ofJson? progress.toJson = some progress := by
  have stageRead :
      (Json.ofString progress.stage.name).toNamed? .held RestoreStage.name
          [.running, .finished] =
        some progress.stage := by
    cases progress.stage <;> rfl
  simp -implicitDefEqProofs [ofJson?, toJson, stageRead]

end Reports

namespace Task

/-- What is known about work is read from the members that say it. -/
theorem ofFields?_members (task : Task) :
    ofFields? (.ofMembers task.members) task.work = some task := by
  cases task with
  | backup progress =>
      have progressRead :=
        Json.nullable_ofOption BackupProgress.ofJson?_toJson
          (fun progress => by
            cases progress <;> exact Json.ofMembers_ne_null _)
          progress
      simp -implicitDefEqProofs [ofFields?, members, work, progressRead]
  | indexSnapshot snapshot forgotten =>
      have snapshotRead :=
        Json.nullable_ofOption Snapshot.ofJson?_toJson
          (fun _ => Json.ofMembers_ne_null _) snapshot
      simp -implicitDefEqProofs [ofFields?, members, work, snapshotRead]
  | forget => rfl
  | prune output => simp [ofFields?, members, work]
  | check output => simp [ofFields?, members, work]
  | restore progress target =>
      have progressRead :=
        Json.nullable_ofOption RestoreProgress.ofJson?_toJson
          (fun _ => Json.ofMembers_ne_null _) progress
      simp -implicitDefEqProofs [ofFields?, members, work, progressRead]
  | stats => rfl
  | runCommand command => simp [ofFields?, members, work]
  | runHook name condition trigger =>
      have triggerRead :=
        Json.nullable_ofOption Json.toInt64?_ofInt64 Json.ofInt64_ne_null
          trigger
      simp -implicitDefEqProofs [ofFields?, members, work, triggerRead]

/-- Work is read where its sort stands first, held or not. -/
theorem ofJson?_toJson
    (task : Task)
    {passage : Json.Passage}
    (accepts : passage.accepts task.toJson = true) :
    ofJson? passage task.toJson = some task := by
  have fresh : "type" ∉ task.members.map Prod.fst := by
    cases task <;> simp [members]
  have workRead :
      (Json.ofString task.work.name).toTag? passage Work.name Work.all =
        some task.work := by
    apply Json.toTag?_ofString (by decide)
    cases task.work <;> decide
  unfold ofJson?
  rw [if_pos accepts]
  unfold toJson
  rw [Json.splitTag?_ofMembers fresh, Option.bind_eq_bind, Option.bind_some]
  dsimp only
  rw [workRead, Option.bind_eq_bind, Option.bind_some, ofFields?_members]

end Task

section Soundness

variable (room : Nat)

theorem BackupProgress.isSound_toJson (progress : BackupProgress) :
    progress.toJson.isSound (room + 1) = true := by
  cases progress with
  | running percentDone bytesDone totalBytes =>
      apply Json.isSound_ofMembers
      simp
  | finished totalBytesProcessed snapshotId =>
      apply Json.isSound_ofMembers
      simp

theorem SnapshotSummary.isSound_toJson (summary : SnapshotSummary) :
    summary.toJson.isSound (room + 1) = true := by
  apply Json.isSound_ofMembers
  simp

theorem Snapshot.isSound_toJson (snapshot : Snapshot) :
    snapshot.toJson.isSound (room + 2) = true := by
  have summarySound :=
    Json.isSound_ofOption (SnapshotSummary.isSound_toJson room)
      snapshot.summary
  apply Json.isSound_ofMembers
  simp [summarySound]

theorem RestoreProgress.isSound_toJson (progress : RestoreProgress) :
    progress.toJson.isSound (room + 1) = true := by
  apply Json.isSound_ofMembers
  simp

/-- Around any value inside a piece of work there are three containers. -/
theorem Task.isSound_toJson (task : Task) :
    task.toJson.isSound (room + 3) = true := by
  apply Json.isSound_ofMembers
  cases task with
  | backup progress =>
      have progressSound :=
        Json.isSound_ofOption (BackupProgress.isSound_toJson (room + 1))
          progress
      simp [members, progressSound]
  | indexSnapshot snapshot forgotten =>
      have snapshotSound :=
        Json.isSound_ofOption (Snapshot.isSound_toJson room) snapshot
      simp [members, snapshotSound]
  | forget => simp [members]
  | prune output => simp [members]
  | check output => simp [members]
  | restore progress target =>
      have progressSound :=
        Json.isSound_ofOption (RestoreProgress.isSound_toJson (room + 1))
          progress
      simp [members, progressSound]
  | stats => simp [members]
  | runCommand command => simp [members]
  | runHook name condition trigger =>
      have triggerSound :
          (Json.ofOption Json.ofInt64 trigger).isSound (room + 2) = true :=
        Json.isSound_ofOption (fun _ => Json.isSound_ofInt64 _) trigger
      simp [members, triggerSound]

end Soundness

namespace Operation

/-- An operation is read where there is room for what its work holds. -/
theorem ofJson?_toJson
    (operation : Operation)
    {passage : Json.Passage}
    (accepts : passage.inside.accepts operation.task.toJson = true) :
    ofJson? passage operation.toJson = some operation := by
  have statusRead :
      (Json.ofString operation.status.name).toNamed? passage Status.name
          Status.all =
        some operation.status := by
    apply Json.toNamed?_ofString (by decide)
    cases operation.status <;> decide
  have snapshotRead :=
    Json.nullable_ofOption Json.toText?_ofString Json.ofString_ne_null
      operation.snapshotId
  have endRead :=
    Json.nullable_ofOption Instant.ofJson?_toJson
      (fun _ => Json.ofString_ne_null _) operation.endTime
  have messageRead :=
    Json.nullable_ofOption Json.toText?_ofString Json.ofString_ne_null
      operation.displayMessage
  have taskRead := Task.ofJson?_toJson operation.task accepts
  simp -implicitDefEqProofs [ofJson?, toJson, fieldNames, statusRead,
    snapshotRead, endRead, messageRead, taskRead]

end Operation

end BackupHistory
