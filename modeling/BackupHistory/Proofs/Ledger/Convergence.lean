import BackupHistory.Proofs.Ledger.Tracking

namespace BackupHistory

/-!
# Deliveries that converge

Events reach a ledger in batches and in an order that nobody controls. What the
ledger holds in the end depends only on what was said about each operation, in
the order in which it was said: that is `alike_of_sameHistories`. If nothing is
deleted and every report is accepted, not even that order matters, since the
newest report wins: that is `tracksNewest_of_deliver`.
-/

namespace Event

/-- Events that say the same about every operation, in the same order. -/
def SameHistories (first second : List Event) : Prop :=
  ∀ id,
    Item.about id (itemsOf first) = Item.about id (itemsOf second)

/-- Histories are the same if they are for the operations in question. -/
theorem sameHistories_iff (first second : List Event) :
    SameHistories first second ↔
      ∀ item ∈ itemsOf first ++ itemsOf second,
        Item.about item.target (itemsOf first) =
          Item.about item.target (itemsOf second) := by
  constructor
  · intro same item _
    exact same item.target
  · intro same id
    by_cases mentioned :
        ∃ item ∈ itemsOf first ++ itemsOf second, item.target = id
    · obtain ⟨item, member, rfl⟩ := mentioned
      exact same item member
    · have unmentioned :
          ∀ item ∈ itemsOf first ++ itemsOf second,
            item.target ≠ id := by
        intro item member isTarget
        exact mentioned ⟨item, member, isTarget⟩
      have nothingFirst : Item.about id (itemsOf first) = [] :=
        Item.about_eq_nil fun item member =>
          unmentioned item (List.mem_append_left _ member)
      have nothingSecond : Item.about id (itemsOf second) = [] :=
        Item.about_eq_nil fun item member =>
          unmentioned item (List.mem_append_right _ member)
      rw [nothingFirst, nothingSecond]

instance (first second : List Event) :
    Decidable (SameHistories first second) :=
  decidable_of_iff' _ (sameHistories_iff first second)

/-- Events that bring reports, each at least once, and nothing else. -/
structure Deliver
    (events : List Event)
    (reports : List Operation) : Prop where
  undeleted :
    ∀ event ∈ events, event.kind ≠ .deleted
  complete :
    ∀ operation ∈ reports, Item.report operation ∈ itemsOf events
  genuine :
    ∀ item ∈ itemsOf events,
      ∃ operation ∈ reports, item = .report operation

end Event

namespace Operation

/-- Reports of which no two well-formed ones share an id and a version. -/
def Versioned (reports : List Operation) : Prop :=
  ∀ first ∈ reports, ∀ second ∈ reports,
    first.IsWellFormed →
    second.IsWellFormed →
    first.id = second.id →
    first.version = second.version →
    first = second

/-- The well-formed report of an operation with the highest version. -/
structure IsNewest
    (reports : List Operation)
    (operation : Operation) : Prop where
  reported : operation ∈ reports
  wellFormed : operation.IsWellFormed
  version_le :
    ∀ other ∈ reports,
      other.IsWellFormed →
      other.id = operation.id →
      other.version ≤ operation.version

/-- An operation has one newest report at most. -/
theorem IsNewest.unique
    {reports : List Operation}
    (versioned : Versioned reports)
    {first second : Operation}
    (firstNewest : IsNewest reports first)
    (secondNewest : IsNewest reports second)
    (sameId : first.id = second.id) :
    first = second := by
  have below : first.version ≤ second.version :=
    secondNewest.version_le first firstNewest.reported
      firstNewest.wellFormed sameId
  have above : second.version ≤ first.version :=
    firstNewest.version_le second secondNewest.reported
      secondNewest.wellFormed sameId.symm
  exact versioned first firstNewest.reported second
    secondNewest.reported firstNewest.wellFormed
    secondNewest.wellFormed sameId (Int64.le_antisymm below above)

end Operation

namespace Event.Item

/-- What is tracked is the highest version among reports of an operation. -/
structure Leads
    (slot : Option Operation)
    (items : List Item) : Prop where
  reported :
    ∀ {operation},
      slot = some operation →
      Item.report operation ∈ items ∧ operation.IsWellFormed
  version_le :
    ∀ {other},
      Item.report other ∈ items →
      other.IsWellFormed →
      ∃ operation,
        slot = some operation ∧ other.version ≤ operation.version

theorem leads_nil : Leads none [] where
  reported absent := by cases absent
  version_le member := by cases member

/-- A report that is settled where everything is accepted takes the lead. -/
theorem Leads.settle
    {slot : Option Operation}
    {items : List Item}
    (leads : Leads slot items)
    (operation : Operation) :
    Leads (settle (fun _ => true) slot (.report operation))
      (items ++ [.report operation]) := by
  have later {other : Operation}
      (member : Item.report other ∈ items ++ [.report operation]) :
      Item.report other ∈ items ∨ other = operation := by
    simpa using member
  by_cases ignored :
      (Item.report operation).isIgnored (fun _ => true) slot = true
  · rw [settle_of_isIgnored ignored]
    constructor
    · intro tracked isTracked
      obtain ⟨member, wellFormed⟩ := leads.reported isTracked
      exact ⟨List.mem_append_left _ member, wellFormed⟩
    · intro other member wellFormed
      rcases later member with before | rfl
      · exact leads.version_le before wellFormed
      · -- A well-formed report is ignored for the one that is tracked.
        simp only [isIgnored, wellFormed, decide_true, Bool.not_true,
          Bool.false_or, Bool.true_and] at ignored
        obtain ⟨tracked, isTracked, covered⟩ :=
          (Option.any_eq_true ..).1 ignored
        refine ⟨tracked, isTracked, ?_⟩
        rcases (Bool.or_eq_true ..).mp covered with older | same
        · exact Int64.le_of_lt (of_decide_eq_true older)
        · have equal := (Operation.sameContent_iff ..).1 same
          rw [Operation.version_eq_of_amounts equal]
          exact Int64.le_refl _
  · rw [settle_of_not_isIgnored ignored]
    have verdict :
        (Item.report operation).verdict (fun _ => true) =
          some operation := rfl
    have wellFormed := wellFormed_of_not_isIgnored ignored
    rw [verdict]
    constructor
    · rintro _ ⟨⟩
      exact ⟨by simp, wellFormed⟩
    · intro other member otherWellFormed
      refine ⟨operation, rfl, ?_⟩
      rcases later member with before | rfl
      · obtain ⟨tracked, isTracked, below⟩ :=
          leads.version_le before otherWellFormed
        have notOlder : ¬ operation.version < tracked.version := by
          intro older
          exact ignored (by simp [isIgnored, isTracked, older])
        exact Int64.le_trans below (Int64.not_lt.1 notOlder)
      · exact Int64.le_refl _

/-- Reports that are all accepted leave the highest version tracked. -/
theorem leads_settleAll
    (items : List Item)
    (reports : ∀ item ∈ items, ∃ operation, item = .report operation) :
    Leads (settleAll (fun _ => true) items none) items := by
  induction items using List.reverseRecOn with
  | nil => exact leads_nil
  | append_singleton earlier item inductionHypothesis =>
      have leads :=
        inductionHypothesis fun item member =>
          reports item (List.mem_append_left _ member)
      obtain ⟨operation, rfl⟩ := reports item (by simp)
      rw [settleAll_append]
      exact leads.settle operation

end Event.Item

namespace Ledger

theorem Consistent.alike_ingestAll
    {left right : Ledger}
    (leftConsistent : left.Consistent)
    (rightConsistent : right.Consistent)
    (accepts : left.accepts = right.accepts)
    (tracked : ∀ id, left.operation? id = right.operation? id)
    {first second : List Event}
    (same : Event.SameHistories first second) :
    (left.ingestAll first).Alike (right.ingestAll second) := by
  obtain ⟨leftAfter, _⟩ := leftConsistent.ingestAll first
  obtain ⟨rightAfter, _⟩ := rightConsistent.ingestAll second
  apply leftAfter.alike rightAfter
  intro id
  rw [leftConsistent.operation?_ingestAll,
    rightConsistent.operation?_ingestAll, accepts, tracked, same id]

/--
Events that say the same about every operation leave new ledgers alike, however
they are batched and however the operations take turns.
-/
theorem alike_of_sameHistories
    (accepts : Operation → Bool)
    {first second : List Event}
    (same : Event.SameHistories first second) :
    ((new accepts).ingestAll first).Alike
      ((new accepts).ingestAll second) :=
  (consistent_new accepts).alike_ingestAll (consistent_new accepts) rfl
    (fun _ => rfl) same

/-- Two checks change flows, one of them after it was deleted. -/
def sentTogether : List Event :=
  [.created
      [.checkReport 1 1 "nightly", .checkReport 2 1 "weekly",
        .checkReport 3 1 "weekly"],
    .updated [.checkReport 1 2 "weekly"],
    .deleted [2],
    .created [.checkReport 2 1 "nightly"]]

/-- The same, said of one check after the other. -/
def sentApart : List Event :=
  [.updated [.checkReport 3 1 "weekly", .checkReport 2 1 "weekly"],
    .deleted [2],
    .updated [.checkReport 2 1 "nightly", .checkReport 1 1 "nightly"],
    .created [.checkReport 1 2 "weekly"]]

theorem alike_sentTogether_sentApart :
    Event.SameHistories sentTogether sentApart ∧
      (trackingAll.ingestAll sentTogether).Alike
        (trackingAll.ingestAll sentApart) := by
  have same : Event.SameHistories sentTogether sentApart := by
    decide +kernel
  exact ⟨same, alike_of_sameHistories _ same⟩

/-- A delivery of reports leaves the newest ones tracked. -/
theorem operation?_eq_some_iff_isNewest
    {reports : List Operation}
    (versioned : Operation.Versioned reports)
    {events : List Event}
    (deliver : Event.Deliver events reports)
    (id : OperationId)
    (operation : Operation) :
    (trackingAll.ingestAll events).operation? id = some operation ↔
      operation.id = id ∧ Operation.IsNewest reports operation := by
  have member (other : Operation) :
      Event.Item.report other ∈
          Event.Item.about id (Event.itemsOf events) ↔
        other ∈ reports ∧ other.id = id := by
    have isReport :
        Event.Item.report other ∈ Event.itemsOf events ↔
          other ∈ reports := by
      constructor
      · intro delivered
        obtain ⟨_, reported, ⟨⟩⟩ := deliver.genuine _ delivered
        exact reported
      · exact deliver.complete other
    unfold Event.Item.about
    rw [List.mem_filter, isReport, decide_eq_true_eq]
    rfl
  have leads :
      Event.Item.Leads ((trackingAll.ingestAll events).operation? id)
        (Event.Item.about id (Event.itemsOf events)) := by
    rw [trackingAll, (consistent_new _).operation?_ingestAll]
    apply Event.Item.leads_settleAll
    intro item isAbout
    obtain ⟨reported, _, isReport⟩ :=
      deliver.genuine item (List.mem_filter.1 isAbout).1
    exact ⟨reported, isReport⟩
  have newest {tracked : Operation}
      (found :
        (trackingAll.ingestAll events).operation? id = some tracked) :
      tracked.id = id ∧ Operation.IsNewest reports tracked := by
    obtain ⟨isAbout, wellFormed⟩ := leads.reported found
    obtain ⟨reported, isTarget⟩ := (member tracked).1 isAbout
    refine ⟨isTarget, reported, wellFormed, ?_⟩
    intro other otherReported otherWellFormed sameId
    obtain ⟨leading, isLeading, below⟩ :=
      leads.version_le
        ((member other).2 ⟨otherReported, sameId.trans isTarget⟩)
        otherWellFormed
    rw [found] at isLeading
    cases isLeading
    exact below
  constructor
  · exact newest
  · rintro ⟨isTarget, isNewest⟩
    obtain ⟨leading, isLeading, _⟩ :=
      leads.version_le ((member operation).2 ⟨isNewest.reported, isTarget⟩)
        isNewest.wellFormed
    obtain ⟨leadingTarget, leadingNewest⟩ := newest isLeading
    rw [isLeading,
      leadingNewest.unique versioned isNewest
        (leadingTarget.trans isTarget.symm)]

/--
Reports that are delivered out of order, repeatedly and in any batches leave
just the newest ones tracked, each with the flow that it names, and whatever the
order was the ledger is the same, revisions apart.
-/
theorem tracksNewest_of_deliver
    {reports : List Operation}
    (versioned : Operation.Versioned reports)
    {events : List Event}
    (deliver : Event.Deliver events reports) :
    let ledger := trackingAll.ingestAll events
    (∀ id operation,
      ledger.operation? id = some operation ↔
        operation.id = id ∧ Operation.IsNewest reports operation) ∧
    (∀ flowId operation,
      operation ∈ ledger.operations flowId ↔
        operation.flowId = flowId ∧
          Operation.IsNewest reports operation) ∧
    (∀ others,
      Event.Deliver others reports →
      ledger.Alike (trackingAll.ingestAll others)) := by
  intro ledger
  have tracked := operation?_eq_some_iff_isNewest versioned deliver
  obtain ⟨consistent, _⟩ :=
    (consistent_new fun _ => true).ingestAll events
  refine ⟨tracked, ?_, ?_⟩
  · intro flowId operation
    have byFlow :
        operation ∈ ledger.operations flowId ↔
          ledger.operation? operation.id = some operation ∧
            operation.flowId = flowId :=
      consistent.indexed.mem_operations_iff
    rw [byFlow, tracked operation.id operation, and_comm]
    exact and_congr_right fun _ => and_iff_right rfl
  · intro others delivers
    obtain ⟨otherConsistent, _⟩ :=
      (consistent_new fun _ => true).ingestAll others
    apply consistent.alike otherConsistent
    intro id
    apply Option.ext
    intro operation
    exact (tracked id operation).trans
      (operation?_eq_some_iff_isNewest versioned delivers id operation).symm

/-- A check that goes to another flow and comes back, and one without a flow. -/
def checkReports : List Operation :=
  [.checkReport 1 1 "nightly", .checkReport 1 2 "weekly",
    .checkReport 1 3 "nightly", .checkReport 2 1 ""]

/-- The last report comes first and the others come twice. -/
def lateDelivery : List Event :=
  [.updated [.checkReport 1 3 "nightly"],
    .created [.checkReport 1 2 "weekly", .checkReport 2 1 ""],
    .updated [.checkReport 1 1 "nightly", .checkReport 1 2 "weekly"],
    .created [.checkReport 1 1 "nightly"]]

/-- The check is tracked as it came back and the weekly flow has nothing. -/
theorem tracksNewest_lateDelivery :
    Operation.Versioned checkReports ∧
      Event.Deliver lateDelivery checkReports ∧
      (trackingAll.ingestAll lateDelivery).operation? 1 =
        some (.checkReport 1 3 "nightly") ∧
      (trackingAll.ingestAll lateDelivery).operations "weekly" = [] := by
  have versioned : Operation.Versioned checkReports := by
    unfold Operation.Versioned
    decide +kernel
  have deliver : Event.Deliver lateDelivery checkReports :=
    ⟨by decide +kernel, by decide +kernel, by decide +kernel⟩
  have newest :
      Operation.IsNewest checkReports (.checkReport 1 3 "nightly") :=
    ⟨by decide +kernel, by decide +kernel, by decide +kernel⟩
  obtain ⟨tracked, byFlow, _⟩ := tracksNewest_of_deliver versioned deliver
  refine ⟨versioned, deliver, (tracked 1 _).2 ⟨rfl, newest⟩, ?_⟩
  rw [List.eq_nil_iff_forall_not_mem]
  intro operation member
  obtain ⟨isWeekly, isNewest⟩ := (byFlow "weekly" operation).1 member
  have notNewest :
      ∀ other ∈ checkReports,
        other.flowId = "weekly" →
        other.id = 1 ∧ other.version < 3 := by
    decide +kernel
  obtain ⟨isFirst, older⟩ :=
    notNewest operation isNewest.reported isWeekly
  have below : (3 : Int64) ≤ operation.version :=
    isNewest.version_le (.checkReport 1 3 "nightly") newest.reported
      newest.wellFormed isFirst.symm
  exact Int64.not_lt.2 below older

end Ledger

end BackupHistory
