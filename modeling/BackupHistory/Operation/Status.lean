namespace BackupHistory

/-!
# Operation statuses

The status that the backup engine reports for an operation. Statuses are ranked
by severity, so that the status of a run is the most severe one of its parts.
-/

/-- The status of an operation. -/
inductive Status where
  | unknown
  /-- Queued and not started. -/
  | pending
  | inProgress
  | success
  /-- Finished with problems that can be recovered from. -/
  | warning
  | error
  | userCancelled
  | systemCancelled
  deriving Repr, DecidableEq

namespace Status

def all : List Status :=
  [.unknown, .pending, .inProgress, .success, .warning, .error,
    .userCancelled, .systemCancelled]

/-- The name of a status in a log. -/
def name : Status → String
  | .unknown => "unknown"
  | .pending => "pending"
  | .inProgress => "in_progress"
  | .success => "success"
  | .warning => "warning"
  | .error => "error"
  | .userCancelled => "user_cancelled"
  | .systemCancelled => "system_cancelled"

/-- The words in which a status is shown. -/
def words : Status → String
  | .unknown => "unknown"
  | .pending => "pending"
  | .inProgress => "in progress"
  | .success => "success"
  | .warning => "warning"
  | .error => "error"
  | .userCancelled => "cancelled by user"
  | .systemCancelled => "cancelled by system"

/-- The rank of a status; a higher one hides a lower one. -/
def severity : Status → Nat
  | .unknown => 0
  | .success => 1
  | .pending => 2
  | .inProgress => 3
  | .systemCancelled => 4
  | .userCancelled => 5
  | .warning => 6
  | .error => 7

/-- The more severe of two statuses. -/
def worst (left right : Status) : Status :=
  if left.severity < right.severity then
    right
  else
    left

/-- Whether an operation of this status has not finished. -/
def isActive : Status → Bool
  | .pending
  | .inProgress => true
  | _ => false

/-- The worse of two statuses has the higher rank. -/
@[simp] theorem severity_worst (left right : Status) :
    (left.worst right).severity = max left.severity right.severity := by
  unfold worst
  split <;> omega

end Status

end BackupHistory
