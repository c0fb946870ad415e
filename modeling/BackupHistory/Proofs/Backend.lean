import BackupHistory.Proofs.Follower

namespace BackupHistory

/-!
# Keeping up with a backend

A backend records reports and deletions in a table and announces each of its
changes. A session fetches the table when some of the changes it will hear of
have already been made, so it goes through old reports over newer ones. It ends
with the backend's final table nonetheless: an orderly history settles what is
tracked just as it settles the table, and going through a part of it again
changes nothing.
-/

namespace Backend

/-- What a backend holds of an operation after an item about it. -/
def held : Event.Item → Option Operation
  | .report operation => some operation
  | .deletion _ => none

/-- The table of a backend after an item. -/
def store
    (table : Table OperationId Operation) :
    Event.Item → Table OperationId Operation
  | .report operation => table.insert operation.id operation
  | .deletion id => table.erase id

/-- The table of a backend after items. -/
def storeAll
    (table : Table OperationId Operation)
    (items : List Event.Item) :
    Table OperationId Operation :=
  items.foldl store table

/-- The table of a backend after all the changes that it has announced. -/
def after (history : List Event) : Table OperationId Operation :=
  storeAll .empty (Event.itemsOf history)

/--
Whether a backend may record an item.

A report has a flow, and it is newer than the one that it replaces. A report of
an operation that has been deleted may be of any version.
-/
def admits (table : Table OperationId Operation) : Event.Item → Bool
  | .report operation =>
      decide operation.IsWellFormed &&
        (table.get? operation.id).all fun existing =>
          existing.version < operation.version
  | .deletion _ => true

/-- Whether a backend may record items one after another. -/
def isOrderly
    (table : Table OperationId Operation) :
    List Event.Item → Bool
  | [] => true
  | item :: rest => admits table item && isOrderly (store table item) rest

/-- A history in which a selector accepts all reports of an operation or none. -/
def Uniform (selector : Selector) (history : List Event) : Prop :=
  ∀ left ∈ Event.reportsOf history,
    ∀ right ∈ Event.reportsOf history,
      left.id = right.id →
      selector.accepts left = selector.accepts right

variable {table : Table OperationId Operation} {items : List Event.Item}

@[simp] theorem get?_store
    (table : Table OperationId Operation)
    (item : Event.Item)
    (id : OperationId) :
    (store table item).get? id =
      if id = item.target then held item else table.get? id := by
  cases item with
  | report operation => exact Table.get?_insert ..
  | deletion other => exact Table.get?_erase ..

theorem storeAll_append (first second : List Event.Item) :
    storeAll table (first ++ second) =
      storeAll (storeAll table first) second :=
  List.foldl_append ..

theorem isOrderly_append (first second : List Event.Item) :
    isOrderly table (first ++ second) =
      (isOrderly table first &&
        isOrderly (storeAll table first) second) := by
  induction first generalizing table with
  | nil => rfl
  | cons item rest inductionHypothesis =>
      simp only [List.cons_append, isOrderly, inductionHypothesis,
        Bool.and_assoc]
      rfl

/-- What a backend holds was reported in an orderly way. -/
theorem reported_of_get?_storeAll
    (orderly : isOrderly table items = true)
    {id : OperationId}
    {operation : Operation}
    (found : (storeAll table items).get? id = some operation) :
    table.get? id = some operation ∨
      operation.id = id ∧
        operation.IsWellFormed ∧
        Event.Item.report operation ∈ items := by
  induction items generalizing table with
  | nil => exact .inl found
  | cons item rest inductionHypothesis =>
      simp only [isOrderly, Bool.and_eq_true] at orderly
      rcases inductionHypothesis orderly.2 found with before | later
      · rw [get?_store] at before
        by_cases same : id = item.target
        · rw [if_pos same] at before
          cases item with
          | deletion other => cases before
          | report reported =>
              cases before
              have admitted := orderly.1
              simp only [admits, Bool.and_eq_true,
                decide_eq_true_eq] at admitted
              exact .inr ⟨same.symm, admitted.1, List.mem_cons_self⟩
        · rw [if_neg same] at before
          exact .inl before
      · exact .inr
          ⟨later.1, later.2.1, List.mem_cons_of_mem item later.2.2⟩

/-- An item that may be recorded is not ignored where the table is followed. -/
theorem settle_filter_of_admits
    {item : Event.Item}
    (admitted : admits table item = true)
    (accepts : Operation → Bool) :
    item.settle accepts ((table.get? item.target).filter accepts) =
      (held item).filter accepts := by
  have verdict : item.verdict accepts = (held item).filter accepts := by
    cases item with
    | deletion id => rfl
    | report operation => simp [Event.Item.verdict, held, Option.filter]
  rw [← verdict]
  apply Event.Item.settle_of_not_isIgnored
  cases item with
  | deletion id => simp [Event.Item.isIgnored]
  | report operation =>
      simp only [admits, Bool.and_eq_true, decide_eq_true_eq] at admitted
      obtain ⟨wellFormed, newer⟩ := admitted
      simp only [Event.Item.isIgnored, Event.Item.target, wellFormed,
        decide_true, Bool.not_true, Bool.false_or, Bool.not_eq_true,
        Option.any_eq_false]
      intro existing kept
      rw [(Option.filter_eq_some_iff.1 kept).1, Option.all_some,
        decide_eq_true_eq] at newer
      have notOlder := Int64.not_lt.2 (Int64.le_of_lt newer)
      have notSame : existing.sameContent operation = false := by
        rw [Bool.eq_false_iff, Ne, Operation.sameContent_iff]
        intro same
        rw [Operation.version_eq_of_amounts same] at newer
        exact Int64.lt_irrefl newer
      simp [notOlder, notSame]

/-- An orderly history settles what is tracked as it settles the table. -/
theorem settleAll_filter_of_isOrderly
    (orderly : isOrderly table items = true)
    (accepts : Operation → Bool)
    (id : OperationId) :
    Event.Item.settleAll accepts (Event.Item.about id items)
        ((table.get? id).filter accepts) =
      ((storeAll table items).get? id).filter accepts := by
  induction items generalizing table with
  | nil => rfl
  | cons item rest inductionHypothesis =>
      simp only [isOrderly, Bool.and_eq_true] at orderly
      have later := inductionHypothesis orderly.2
      rw [get?_store] at later
      by_cases same : id = item.target
      · rw [if_pos same, ← settle_filter_of_admits orderly.1 accepts,
          ← same] at later
        unfold Event.Item.about
        rw [List.filter_cons_of_pos (by simp [same])]
        exact later
      · have other : ¬ item.target = id := fun equal => same equal.symm
        rw [if_neg same] at later
        unfold Event.Item.about
        rw [List.filter_cons_of_neg (by simp [other])]
        exact later

/-- What a backend answers are its reports of an operation, one at most. -/
theorem reports_about_fetched
    {fetched : List Operation}
    (selector : Selector)
    (own :
      ∀ {id operation},
        table.get? id = some operation → operation.id = id)
    (answered : fetched.Perm table.values)
    (id : OperationId) :
    Event.Item.about id
        ((fetched.filter selector.accepts).map Event.Item.report) =
      ((table.get? id).filter selector.accepts).toList.map
        Event.Item.report := by
  have members :
      (fetched.filter fun operation => operation.id = id).Perm
        (table.get? id).toList := by
    rw [← table.values_filter_eq Operation.id own]
    exact answered.filter _
  have only :
      (fetched.filter fun operation => operation.id = id) =
        (table.get? id).toList := by
    cases shape : table.get? id with
    | none =>
        rw [shape] at members
        exact members.eq_nil
    | some operation =>
        rw [shape] at members
        exact List.perm_singleton.1 members
  have targets :
      (fun item : Event.Item => decide (item.target = id)) ∘
          Event.Item.report =
        fun operation => decide (operation.id = id) := rfl
  unfold Event.Item.about
  rw [List.filter_map, targets, List.filter_comm, only]
  cases table.get? id with
  | none => rfl
  | some operation =>
      by_cases accepted : selector.accepts operation = true
      · simp [accepted, Option.filter]
      · simp [accepted, Option.filter]

/-- Items leave nothing tracked if no report of the operation is within. -/
theorem settleAll_about_filter_isWithin_eq_none
    (accepts : Operation → Bool)
    {selector : Selector}
    {id : OperationId}
    (rejected :
      ∀ operation,
        Event.Item.report operation ∈ items →
        operation.id = id →
        selector.accepts operation = false) :
    Event.Item.settleAll accepts
        (Event.Item.about id
          (items.filter (Event.Item.isWithin selector))) none =
      none := by
  have deletions :
      ∀ item ∈ Event.Item.about id
          (items.filter (Event.Item.isWithin selector)),
        item = .deletion id := by
    intro item member
    obtain ⟨within, target⟩ := List.mem_filter.1 member
    obtain ⟨inside, kept⟩ := List.mem_filter.1 within
    simp only [decide_eq_true_eq] at target
    cases item with
    | deletion other => exact congrArg Event.Item.deletion target
    | report operation =>
        have isRejected := rejected operation inside target
        simp [Event.Item.isWithin, isRejected] at kept
  rw [List.eq_replicate_of_mem deletions]
  generalize List.length _ = count
  induction count with
  | zero => rfl
  | succ count inductionHypothesis => exact inductionHypothesis

/-- Nothing about an operation is left out if all its reports are within. -/
theorem about_filter_isWithin
    {selector : Selector}
    {id : OperationId}
    (accepted :
      ∀ operation,
        Event.Item.report operation ∈ items →
        operation.id = id →
        selector.accepts operation = true) :
    Event.Item.about id (items.filter (Event.Item.isWithin selector)) =
      Event.Item.about id items := by
  unfold Event.Item.about
  rw [List.filter_filter]
  apply List.filter_congr
  intro item member
  cases item with
  | deletion other => simp [Event.Item.isWithin]
  | report operation =>
      by_cases same : operation.id = id
      · simp [Event.Item.isWithin, accepted operation member same]
      · simp [Event.Item.target, same]

/-- A part of an orderly history that is gone through again changes nothing. -/
theorem settleAll_again
    {during later : List Event.Item}
    (orderly : isOrderly table (during ++ later) = true)
    (accepts : Operation → Bool)
    (id : OperationId) :
    Event.Item.settleAll accepts (Event.Item.about id (during ++ later))
        (((storeAll table during).get? id).filter accepts) =
      ((storeAll table (during ++ later)).get? id).filter accepts := by
  rw [isOrderly_append, Bool.and_eq_true] at orderly
  have first := settleAll_filter_of_isOrderly orderly.1 accepts id
  have second := settleAll_filter_of_isOrderly orderly.2 accepts id
  rw [Event.Item.about_append, Event.Item.settleAll_append,
    storeAll_append, ← second, ← first]
  exact congrArg _ (Event.Item.settleAll_settleAll ..)

/-- Where nothing is tracked, a report with a flow is tracked if accepted. -/
theorem settleAll_reports_toList
    (accepts : Operation → Bool)
    {slot : Option Operation}
    (wellFormed :
      ∀ operation, slot = some operation → operation.IsWellFormed) :
    Event.Item.settleAll accepts
        (slot.toList.map Event.Item.report) none =
      slot.filter accepts := by
  cases slot with
  | none => rfl
  | some operation =>
      have hasFlow := wellFormed operation rfl
      simp [Event.Item.settleAll, Event.Item.settle,
        Event.Item.isIgnored, Event.Item.verdict, hasFlow,
        Option.filter]

theorem reported_of_empty
    (orderly : isOrderly .empty items = true)
    {id : OperationId}
    {operation : Operation}
    (found : (storeAll .empty items).get? id = some operation) :
    operation.id = id ∧
      operation.IsWellFormed ∧
      Event.Item.report operation ∈ items := by
  rcases reported_of_get?_storeAll orderly found with before | reported
  · cases before
  · exact reported

/-- A selector with one verdict on an operation keeps all of it or nothing. -/
theorem filter_of_verdict
    {slot : Option Operation}
    {selector : Selector}
    {verdict : Bool}
    (uniform :
      ∀ operation,
        slot = some operation → selector.accepts operation = verdict)
    (accepts : Operation → Bool) :
    (slot.filter fun operation =>
        selector.accepts operation && accepts operation) =
      if verdict then slot.filter accepts else none := by
  cases slot with
  | none => cases verdict <;> rfl
  | some operation =>
      have accepted := uniform operation rfl
      cases verdict <;> simp [Option.filter, accepted]

theorem Uniform.exists_verdict
    {selector : Selector}
    {history : List Event}
    (uniform : Uniform selector history)
    (id : OperationId) :
    ∃ verdict,
      ∀ operation,
        Event.Item.report operation ∈ Event.itemsOf history →
        operation.id = id →
        selector.accepts operation = verdict := by
  by_cases reported :
      ∃ operation,
        Event.Item.report operation ∈ Event.itemsOf history ∧
          operation.id = id
  · obtain ⟨first, firstMember, firstSame⟩ := reported
    refine ⟨selector.accepts first, ?_⟩
    intro operation member same
    exact uniform operation (Event.mem_reportsOf_iff.2 member)
      first (Event.mem_reportsOf_iff.2 firstMember)
      (same.trans firstSame.symm)
  · refine ⟨true, ?_⟩
    intro operation member same
    exact (reported ⟨operation, member, same⟩).elim

/-- What is fetched leaves tracked what the backend holds by then. -/
theorem settleAll_about_fetched
    (orderly : isOrderly .empty items = true)
    {selector : Selector}
    {id : OperationId}
    {verdict : Bool}
    (uniform :
      ∀ operation,
        Event.Item.report operation ∈ items →
        operation.id = id →
        selector.accepts operation = verdict)
    (accepts : Operation → Bool)
    {fetched : List Operation}
    (answered : fetched.Perm (storeAll .empty items).values) :
    Event.Item.settleAll accepts
        (Event.Item.about id
          ((fetched.filter selector.accepts).map Event.Item.report))
        none =
      if verdict then
        ((storeAll .empty items).get? id).filter accepts
      else
        none := by
  have wellFormed :
      ∀ operation,
        ((storeAll .empty items).get? id).filter selector.accepts =
          some operation →
        operation.IsWellFormed := by
    intro operation found
    have present := (Option.filter_eq_some_iff.1 found).1
    exact (reported_of_empty orderly present).2.1
  rw [reports_about_fetched selector
      (fun found => (reported_of_empty orderly found).1) answered,
    settleAll_reports_toList accepts wellFormed, Option.filter_filter]
  refine filter_of_verdict (fun operation found => ?_) accepts
  obtain ⟨same, _, member⟩ := reported_of_empty orderly found
  exact uniform operation member same

/-- What a session leaves tracked is what the backend holds in the end. -/
theorem settleAll_session
    {earlier during later : List Event.Item}
    (orderly : isOrderly .empty (earlier ++ during ++ later) = true)
    {selector : Selector}
    {id : OperationId}
    {verdict : Bool}
    (uniform :
      ∀ operation,
        Event.Item.report operation ∈ earlier ++ during ++ later →
        operation.id = id →
        selector.accepts operation = verdict)
    (accepts : Operation → Bool)
    {fetched : List Operation}
    (answered :
      fetched.Perm (storeAll .empty (earlier ++ during)).values) :
    Event.Item.settleAll accepts
        (Event.Item.about id
          ((fetched.filter selector.accepts).map Event.Item.report ++
            (during ++ later).filter (Event.Item.isWithin selector)))
        none =
      ((storeAll .empty (earlier ++ during ++ later)).get? id).filter
        fun operation =>
          selector.accepts operation && accepts operation := by
  have orderlyFetched : isOrderly .empty (earlier ++ during) = true := by
    rw [isOrderly_append, Bool.and_eq_true] at orderly
    exact orderly.1
  have orderlyStream :
      isOrderly (storeAll .empty earlier) (during ++ later) = true := by
    rw [List.append_assoc, isOrderly_append, Bool.and_eq_true] at orderly
    exact orderly.2
  have inFetched
      (operation : Operation)
      (member : Event.Item.report operation ∈ earlier ++ during)
      (same : operation.id = id) :
      selector.accepts operation = verdict :=
    uniform operation (List.mem_append_left _ member) same
  have inStream
      (operation : Operation)
      (member : Event.Item.report operation ∈ during ++ later)
      (same : operation.id = id) :
      selector.accepts operation = verdict := by
    refine uniform operation ?_ same
    rw [List.append_assoc]
    exact List.mem_append_right _ member
  have inTheEnd
      (operation : Operation)
      (found :
        (storeAll .empty (earlier ++ during ++ later)).get? id =
          some operation) :
      selector.accepts operation = verdict := by
    obtain ⟨same, _, member⟩ := reported_of_empty orderly found
    exact uniform operation member same
  rw [Event.Item.about_append, Event.Item.settleAll_append,
    settleAll_about_fetched orderlyFetched inFetched accepts answered,
    filter_of_verdict inTheEnd accepts]
  cases verdict with
  | true =>
      have again := settleAll_again orderlyStream accepts id
      rw [← storeAll_append, ← storeAll_append, ← List.append_assoc]
        at again
      rw [about_filter_isWithin inStream]
      exact again
  | false =>
      exact settleAll_about_filter_isWithin_eq_none accepts inStream

/--
A session that starts with nothing tracked ends with what the backend holds in
the end, as far as the selector and the filter accept it.

The backend lists its table, in any order, after the changes `before` and
`during`, while the stream delivers those of `during` and `later`.
-/
theorem operation?_attend_ofBackend
    (accepts : Operation → Bool)
    (actions : List Ledger.Action)
    (selector : Selector)
    (before during later : List Event)
    (listed : List Operation)
    (untracked :
      ((Ledger.new accepts).performAll actions).tracked = .empty)
    (orderly :
      isOrderly .empty (Event.itemsOf (before ++ during ++ later)) = true)
    (uniform : Uniform selector (before ++ during ++ later))
    (answered : listed.Perm (after (before ++ during)).values)
    (id : OperationId) :
    (Follower.attend selector
        ⟨(Ledger.new accepts).performAll actions, []⟩
        (.ofBackend selector listed
          ((during ++ later).map .event))).ledger.operation? id =
      ((after (before ++ during ++ later)).get? id).filter
        fun operation =>
          selector.accepts operation && accepts operation := by
  obtain ⟨consistent, sameFilter⟩ :=
    (Ledger.consistent_new accepts).performAll actions
  have nothing :
      ((Ledger.new accepts).performAll actions).operation? id = none := by
    unfold Ledger.operation?
    rw [untracked]
    rfl
  have items (first second : List Event) :
      Event.itemsOf (first ++ second) =
        Event.itemsOf first ++ Event.itemsOf second :=
    List.flatMap_append
  obtain ⟨verdict, isVerdict⟩ := uniform.exists_verdict id
  unfold after at answered ⊢
  simp only [items] at orderly isVerdict answered ⊢
  unfold Session.ofBackend
  rw [Follower.operation?_attend consistent, sameFilter, nothing,
    StreamItem.delivered_map_event, items]
  exact settleAll_session orderly isVerdict accepts answered

/-- A backup of a repository as it stands at a version. -/
def backupReport
    (id : OperationId)
    (version : Int64)
    (repoId : String)
    (status : Status) :
    Operation where
  id := id
  version := version
  flowId := "flow"
  instanceId := "instance"
  planId := "plan"
  repoId := repoId
  snapshotId := none
  status := status
  startTime := ⟨0, 0, by decide, by decide⟩
  endTime := none
  displayMessage := none
  task := .backup none

/-- Two backups of a repository and one of another one. -/
def announcedBefore : List Event :=
  [.created [backupReport 1 5 "home" .inProgress],
    .created [backupReport 2 1 "home" .inProgress],
    .created [backupReport 3 1 "away" .inProgress]]

/-- The first is deleted and starts anew, the second is cancelled. -/
def announcedDuring : List Event :=
  [.deleted [1],
    .created [backupReport 1 2 "home" .inProgress],
    .updated [backupReport 2 2 "home" .systemCancelled]]

/-- The first comes to its end. -/
def announcedLater : List Event :=
  [.updated [backupReport 1 3 "home" .success]]

/--
Of the first repository's backups the one that started anew is kept and the
cancelled one is not, and none of the other repository is.
-/
theorem operation?_attend_announced :
    let ledger :=
      (Follower.attend (.forRepo "home") ⟨.trackingRemarkable, []⟩
        (.ofBackend (.forRepo "home")
          (after (announcedBefore ++ announcedDuring)).values
          ((announcedDuring ++ announcedLater).map .event))).ledger
    isOrderly .empty
        (Event.itemsOf
          (announcedBefore ++ announcedDuring ++ announcedLater)) =
        true ∧
      Uniform (.forRepo "home")
        (announcedBefore ++ announcedDuring ++ announcedLater) ∧
      ledger.operation? 1 = some (backupReport 1 3 "home" .success) ∧
      ledger.operation? 2 = none ∧
      ledger.operation? 3 = none := by
  intro ledger
  have orderly :
      isOrderly .empty
          (Event.itemsOf
            (announcedBefore ++ announcedDuring ++ announcedLater)) =
        true := by
    decide +kernel
  have uniform :
      Uniform (.forRepo "home")
        (announcedBefore ++ announcedDuring ++ announcedLater) := by
    unfold Uniform
    decide +kernel
  have inTheEnd (id : OperationId) :=
    operation?_attend_ofBackend
      (fun operation => !operation.isUnremarkable) [] (.forRepo "home")
      announcedBefore announcedDuring announcedLater
      (after (announcedBefore ++ announcedDuring)).values rfl orderly
      uniform (.refl _) id
  refine ⟨orderly, uniform, (inTheEnd 1).trans ?_,
    (inTheEnd 2).trans ?_, (inTheEnd 3).trans ?_⟩
  · decide +kernel
  · decide +kernel
  · decide +kernel

end Backend

end BackupHistory
