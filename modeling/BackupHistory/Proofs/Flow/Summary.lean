import BackupHistory.Proofs.Flow
import BackupHistory.Proofs.Lookup
import Mathlib.Data.List.Induction

namespace BackupHistory

/-!
# What a flow says of its operations

A flow is derived by sorting operations and folding them one after another.
Operations with different ids have one order, so the order that they came in is
lost, and each part of the flow is described by the operations alone: the first
one, the most severe status, the last one that carries a snapshot.
-/

namespace Operation

/-- The snapshot of an operation: its own, or else the one that it enters. -/
def Carries (operation : Operation) (snapshotId : String) : Prop :=
  operation.snapshotId = some snapshotId ∨
    operation.snapshotId = none ∧
      ∃ snapshot forgotten,
        operation.task = .indexSnapshot (some snapshot) forgotten ∧
          snapshot.id = snapshotId

/-- An operation that enters a snapshot which has been forgotten. -/
def EntersForgotten (operation : Operation) : Prop :=
  ∃ snapshot, operation.task = .indexSnapshot snapshot true

def RunsHook (operation : Operation) : Prop :=
  ∃ name condition trigger,
    operation.task = .runHook name condition trigger

end Operation

namespace Flow

section Parts

theorem snapshotOf_eq_some_iff {operation : Operation} {snapshotId : String} :
    snapshotOf operation = some snapshotId ↔
      operation.Carries snapshotId := by
  unfold snapshotOf Operation.Carries
  cases own : operation.snapshotId with
  | some ownId => simp
  | none =>
      cases operation.task with
      | indexSnapshot snapshot forgotten =>
          cases snapshot <;> simp
      | _ => simp

theorem snapshotOf_eq_none_iff {operation : Operation} :
    snapshotOf operation = none ↔
      ∀ snapshotId, ¬ operation.Carries snapshotId := by
  simp only [Option.eq_none_iff_forall_ne_some, ne_eq,
    snapshotOf_eq_some_iff]

theorem marksForgotten_iff {operation : Operation} :
    marksForgotten operation = true ↔ operation.EntersForgotten := by
  unfold marksForgotten Operation.EntersForgotten
  cases operation.task <;> simp

theorem isHook_iff {operation : Operation} :
    operation.task.isHook = true ↔ operation.RunsHook := by
  unfold Task.isHook Operation.RunsHook
  cases operation.task <;> simp [Task.work]

end Parts

section Worst

/-- The worst status is one of those that it is the worst of. -/
theorem worstStatus_mem (start : Status) (operations : List Operation) :
    worstStatus start operations = start ∨
      ∃ operation ∈ operations,
        operation.status = worstStatus start operations := by
  induction operations generalizing start with
  | nil => exact .inl rfl
  | cons first rest inductionHypothesis =>
      rcases inductionHypothesis (start.worst first.status) with
        isStart | ⟨operation, member, same⟩
      · have either :
            start.worst first.status = start ∨
              start.worst first.status = first.status := by
          unfold Status.worst
          split
          · exact .inr rfl
          · exact .inl rfl
        rcases either with kept | replaced
        · exact .inl (isStart.trans kept)
        · exact .inr
            ⟨first, List.mem_cons_self, (isStart.trans replaced).symm⟩
      · exact .inr ⟨operation, List.mem_cons_of_mem first member, same⟩

/-- None is more severe than the worst status. -/
theorem severity_le_worstStatus (start : Status) (operations : List Operation) :
    start.severity ≤ (worstStatus start operations).severity ∧
      ∀ operation ∈ operations,
        operation.status.severity ≤
          (worstStatus start operations).severity := by
  induction operations generalizing start with
  | nil =>
      refine ⟨Nat.le_refl _, ?_⟩
      intro operation member
      cases member
  | cons first rest inductionHypothesis =>
      obtain ⟨startBelow, restBelow⟩ :=
        inductionHypothesis (start.worst first.status)
      rw [Status.severity_worst] at startBelow
      refine ⟨Nat.le_trans (Nat.le_max_left _ _) startBelow, ?_⟩
      intro operation member
      rcases List.mem_cons.1 member with rfl | inRest
      · exact Nat.le_trans (Nat.le_max_right _ _) startBelow
      · exact restBelow operation inRest

end Worst

section Last

theorem lastSnapshot_append_singleton
    (earlier : List Operation)
    (last : Operation) :
    lastSnapshot (earlier ++ [last]) =
      (snapshotOf last).or (lastSnapshot earlier) := by
  simp only [lastSnapshot, List.foldl_append, List.foldl_cons,
    List.foldl_nil]

/-- There is no last snapshot only if no operation carries one. -/
theorem lastSnapshot_eq_none_iff (operations : List Operation) :
    lastSnapshot operations = none ↔
      ∀ operation ∈ operations,
        ∀ snapshotId, ¬ operation.Carries snapshotId := by
  induction operations using List.reverseRecOn with
  | nil => simp [lastSnapshot]
  | append_singleton earlier last inductionHypothesis =>
      simp only [lastSnapshot_append_singleton, Option.or_eq_none_iff,
        snapshotOf_eq_none_iff, inductionHypothesis, List.forall_mem_append,
        List.forall_mem_singleton, and_comm]

/-- The last snapshot is that of the operation with the highest id of those
that carry one. -/
theorem lastSnapshot_eq_some_iff
    {operations : List Operation}
    (ascending :
      operations.Pairwise fun left right => left.id < right.id)
    (snapshotId : String) :
    lastSnapshot operations = some snapshotId ↔
      ∃ operation ∈ operations,
        operation.Carries snapshotId ∧
          ∀ other ∈ operations,
            operation.id < other.id →
            ∀ otherId, ¬ other.Carries otherId := by
  induction operations using List.reverseRecOn with
  | nil => simp [lastSnapshot]
  | append_singleton earlier last inductionHypothesis =>
      obtain ⟨earlierAscending, _, below⟩ := List.pairwise_append.1 ascending
      have lastAbove (operation : Operation) (member : operation ∈ earlier) :
          operation.id < last.id :=
        below operation member last (List.mem_singleton_self last)
      have isLast : last ∈ earlier ++ [last] :=
        List.mem_append_right earlier (List.mem_singleton_self last)
      rw [lastSnapshot_append_singleton]
      cases carried : snapshotOf last with
      | some lastId =>
          have lastCarries := snapshotOf_eq_some_iff.1 carried
          constructor
          · rintro ⟨⟩
            refine ⟨last, isLast, lastCarries, ?_⟩
            intro other member above
            rcases List.mem_append.1 member with inEarlier | isOther
            · exact absurd (lastAbove other inEarlier) (Int64.lt_asymm above)
            · rw [List.mem_singleton.1 isOther] at above
              exact absurd above Int64.lt_irrefl
          · rintro ⟨operation, member, carries, latest⟩
            rcases List.mem_append.1 member with inEarlier | isOperation
            · exact absurd lastCarries
                (latest last isLast (lastAbove operation inEarlier) lastId)
            · rw [List.mem_singleton.1 isOperation] at carries
              rw [Option.some_or, ← carried]
              exact snapshotOf_eq_some_iff.2 carries
      | none =>
          have carriesNone := snapshotOf_eq_none_iff.1 carried
          rw [Option.none_or, inductionHypothesis earlierAscending]
          constructor
          · rintro ⟨operation, member, carries, latest⟩
            refine
              ⟨operation, List.mem_append_left _ member, carries, ?_⟩
            intro other isOther above
            rcases List.mem_append.1 isOther with inEarlier | isLast
            · exact latest other inEarlier above
            · rw [List.mem_singleton.1 isLast]
              exact carriesNone
          · rintro ⟨operation, member, carries, latest⟩
            rcases List.mem_append.1 member with inEarlier | isOperation
            · exact ⟨operation, inEarlier, carries, fun other isOther =>
                latest other (List.mem_append_left _ isOther)⟩
            · rw [List.mem_singleton.1 isOperation] at carries
              exact absurd carries (carriesNone snapshotId)

end Last

section Sorted

theorem inIdOrder_perm (operations : List Operation) :
    (inIdOrder operations).Perm operations :=
  List.mergeSort_perm operations _

/-- Operations with different ids are put in strictly ascending order. -/
theorem inIdOrder_pairwise {operations : List Operation}
    (ids : (operations.map Operation.id).Nodup) :
    (inIdOrder operations).Pairwise fun left right => left.id < right.id := by
  refine (mergeSort_pairwise_of_nodup ?_ ?_ ids).imp ?_
  · intro first second third firstBelow secondBelow
    exact decide_eq_true
      (Int64.le_trans (of_decide_eq_true firstBelow)
        (of_decide_eq_true secondBelow))
  · intro first second
    rw [Bool.or_eq_true, decide_eq_true_eq, decide_eq_true_eq]
    exact Int64.le_total first.id second.id
  · rintro left right ⟨below, differs⟩
    exact Int64.lt_of_le_of_ne (of_decide_eq_true below) differs

/-- The order in which operations with different ids came in is lost. -/
theorem ofOperations?_eq_of_perm {left right : List Operation}
    (perm : left.Perm right)
    (ids : (left.map Operation.id).Nodup) :
    ofOperations? left = ofOperations? right := by
  have permuted : (inIdOrder left).Perm (inIdOrder right) :=
    (inIdOrder_perm left).trans
      (perm.trans (inIdOrder_perm right).symm)
  have same : inIdOrder left = inIdOrder right :=
    permuted.eq_of_pairwise
      (fun _ _ _ _ below above => absurd above (Int64.lt_asymm below))
      (inIdOrder_pairwise ids)
      (inIdOrder_pairwise ((perm.map Operation.id).nodup_iff.1 ids))
  unfold ofOperations?
  rw [same]

end Sorted

/-- A flow that has from an operation what it has from one operation alone. -/
structure StartedBy (flow : Flow) (first : Operation) : Prop where
  id : flow.id = first.flowId
  instanceId : flow.instanceId = first.instanceId
  planId : flow.planId = first.planId
  repoId : flow.repoId = first.repoId
  time : flow.time = first.startTime
  category : flow.category = .ofWork first.task.work
  subtitle : flow.subtitle = subtitleOf first

/-- A flow that says of operations what is so, whatever their order. -/
structure Summarises (flow : Flow) (operations : List Operation) : Prop where
  perm : flow.operations.Perm operations
  ascending :
    flow.operations.Pairwise fun left right => left.id < right.id
  /-- The status occurs, and none that occurs is more severe. -/
  status :
    (∃ operation ∈ operations, operation.status = flow.status) ∧
      ∀ operation ∈ operations,
        operation.status.severity ≤ flow.status.severity
  /-- What the operation with the lowest id settles. -/
  started :
    ∃ first ∈ operations,
      (∀ operation ∈ operations, first.id ≤ operation.id) ∧
        flow.StartedBy first ∧
        (flow.hidden = true ↔
          first.RunsHook ∨
            ∃ operation ∈ operations, operation.EntersForgotten)
  /-- The snapshot is that of the operation with the highest id of those that
  carry one. -/
  snapshot :
    ∀ snapshotId,
      flow.snapshotId = some snapshotId ↔
        ∃ operation ∈ operations,
          operation.Carries snapshotId ∧
            ∀ other ∈ operations,
              operation.id < other.id →
              ∀ otherId, ¬ other.Carries otherId
  noSnapshot :
    flow.snapshotId = none ↔
      ∀ operation ∈ operations,
        ∀ snapshotId, ¬ operation.Carries snapshotId

/-- A flow of operations in strictly ascending order summarises them. -/
theorem summarises_of_ofOrdered?
    {operations : List Operation}
    (ascending :
      operations.Pairwise fun left right => left.id < right.id)
    {flow : Flow}
    (derived : ofOrdered? operations = some flow) :
    flow.Summarises operations := by
  cases operations with
  | nil => cases derived
  | cons first rest =>
      cases derived
      obtain ⟨firstBelow, _⟩ := List.pairwise_cons.1 ascending
      have lowest :
          ∀ operation ∈ first :: rest, first.id ≤ operation.id := by
        intro operation member
        rcases List.mem_cons.1 member with rfl | inRest
        · exact Int64.le_refl _
        · exact Int64.le_of_lt (firstBelow operation inRest)
      exact {
        perm := .refl _
        ascending := ascending
        status := by
          refine ⟨?_, (severity_le_worstStatus first.status _).2⟩
          rcases worstStatus_mem first.status (first :: rest) with
            isFirst | occurs
          · exact ⟨first, List.mem_cons_self, isFirst.symm⟩
          · exact occurs
        started := by
          refine
            ⟨first, List.mem_cons_self, lowest,
              ⟨rfl, rfl, rfl, rfl, rfl, rfl, rfl⟩, ?_⟩
          simp only [Bool.or_eq_true, isHook_iff, List.any_eq_true,
            marksForgotten_iff]
        snapshot := lastSnapshot_eq_some_iff ascending
        noSnapshot := lastSnapshot_eq_none_iff (first :: rest) }

/-- What is said of operations is said of them in any order. -/
theorem Summarises.of_perm
    {flow : Flow}
    {left right : List Operation}
    (summarises : flow.Summarises left)
    (perm : left.Perm right) :
    flow.Summarises right where
  perm := summarises.perm.trans perm
  ascending := summarises.ascending
  status := by simpa only [perm.mem_iff] using summarises.status
  started := by simpa only [perm.mem_iff] using summarises.started
  snapshot := by simpa only [perm.mem_iff] using summarises.snapshot
  noSnapshot := by simpa only [perm.mem_iff] using summarises.noSnapshot

/--
Operations with different ids, one at least, give one and the same flow in
whichever order they come, and it summarises them.
-/
theorem exists_summary_of_nodup
    {operations : List Operation}
    (inhabited : operations ≠ [])
    (ids : (operations.map Operation.id).Nodup) :
    ∃ flow : Flow,
      (∀ arranged : List Operation,
          arranged.Perm operations → ofOperations? arranged = some flow) ∧
        flow.Summarises operations := by
  obtain ⟨flow, derived⟩ :=
    Option.ne_none_iff_exists'.1
      (mt (ofOperations?_eq_none_iff operations).1 inhabited)
  refine ⟨flow, ?_, ?_⟩
  · intro arranged perm
    rw [← derived]
    exact (ofOperations?_eq_of_perm perm.symm ids).symm
  · exact
      (summarises_of_ofOrdered? (inIdOrder_pairwise ids) derived).of_perm
        (inIdOrder_perm operations)

end Flow

/-- A part of a backup that runs every night. -/
def Operation.nightlyPart
    (id : OperationId)
    (status : Status)
    (snapshotId : Option String)
    (task : Task) :
    Operation where
  id := id
  version := 3
  flowId := "night"
  instanceId := "home"
  planId := "daily"
  repoId := "repository"
  snapshotId := snapshotId
  status := status
  startTime := ⟨7200, 0, by decide, by decide⟩
  endTime := none
  displayMessage := none
  task := task

/--
Reports of a night in no order: a hook that failed, two snapshots that were
entered, of which one names itself twice and has been forgotten, and the backup
that all of them belong to.
-/
def Operation.nightlyRun : List Operation :=
  [nightlyPart 9 .error none (.runHook "notify" "" (some 4)),
    nightlyPart 7 .success (some "kept")
      (.indexSnapshot (some ⟨"entered", none⟩) true),
    nightlyPart 4 .success none (.backup none),
    nightlyPart 5 .warning none (.indexSnapshot (some ⟨"early", none⟩) false)]

namespace Flow

theorem exists_summary_nightlyRun :
    Operation.nightlyRun ≠ [] ∧
      (Operation.nightlyRun.map Operation.id).Nodup ∧
      ∃ flow : Flow,
        (∀ arranged : List Operation,
            arranged.Perm Operation.nightlyRun →
            ofOperations? arranged = some flow) ∧
          flow.Summarises Operation.nightlyRun := by
  have inhabited : Operation.nightlyRun ≠ [] := List.cons_ne_nil _ _
  have ids : (Operation.nightlyRun.map Operation.id).Nodup := by decide
  exact ⟨inhabited, ids, exists_summary_of_nodup inhabited ids⟩

end Flow

end BackupHistory
