import BackupHistory.Proofs.Follower

namespace BackupHistory

/-!
# Scoping against filtering

What a view is about can be restricted in two places: a selector scopes the
stream before it reaches the ledger, and the filter of the ledger decides what is
tracked. Scoping drops a report that the selector does not accept, so the ledger
never learns that the operation has left the selection, while a filter ends its
tracking. The scoped ledger therefore holds all that the filtering one holds, in
a version that is no older, and they agree on every operation that is never
taken out of the selection: that is `scopedView_agrees_unless_takenOut`.
-/

/-- A filter that requires a selector as well. -/
def Selector.narrow
    (selector : Selector)
    (accepts : Operation → Bool)
    (operation : Operation) :
    Bool :=
  accepts operation && selector.accepts operation

namespace Event

namespace Item

/-- The event that says one thing. -/
def alone : Item → Event
  | .report operation => .updated [operation]
  | .deletion id => .deleted [id]

theorem items_alone (item : Item) : item.alone.items = [item] := by
  cases item <;> rfl

theorem itemsOf_map_alone (items : List Item) :
    itemsOf (items.map alone) = items := by
  induction items with
  | nil => rfl
  | cons item rest inductionHypothesis =>
      unfold itemsOf at inductionHypothesis ⊢
      rw [List.map_cons, List.flatMap_cons, items_alone,
        inductionHypothesis]
      rfl

/--
Whether an item takes an operation out of a selection: it is a report that the
selector does not accept, and a report that is tracked is no newer.
-/
def takesOut (selector : Selector) (slot : Option Operation) : Item → Bool
  | .report operation =>
      decide operation.IsWellFormed &&
        !selector.accepts operation &&
        slot.any fun existing => existing.version ≤ operation.version
  | .deletion _ => false

/-- Whether any item takes an operation out, given what is tracked before. -/
def takeOut
    (accepts : Operation → Bool)
    (selector : Selector) :
    Option Operation → List Item → Bool
  | _, [] => false
  | slot, item :: rest =>
      item.takesOut selector slot ||
        takeOut accepts selector
          (settle (selector.narrow accepts) slot item) rest

variable {accepts : Operation → Bool} {selector : Selector}
  {slot : Option Operation} {item : Item}

/-- No item takes an operation out if none does after those before it. -/
theorem takeOut_eq_false_iff {items : List Item} :
    takeOut accepts selector slot items = false ↔
      ∀ before item since,
        items = before ++ item :: since →
        item.takesOut selector
            (settleAll (selector.narrow accepts) before slot) =
          false := by
  induction items generalizing slot with
  | nil => simp [takeOut]
  | cons first rest inductionHypothesis =>
      rw [takeOut, Bool.or_eq_false_iff, inductionHypothesis]
      constructor
      · rintro ⟨now, later⟩ before item since split
        cases before with
        | nil =>
            cases split
            exact now
        | cons other before =>
            cases split
            exact later before item since rfl
      · intro kept
        refine ⟨kept [] first rest rfl, ?_⟩
        rintro before item since rfl
        exact kept (first :: before) item since rfl

/-- Within the selection the narrowed filter settles as the other one. -/
theorem settle_narrow_of_isWithin
    (within : item.isWithin selector = true) :
    settle (selector.narrow accepts) slot item =
      settle accepts slot item := by
  cases item with
  | deletion id => rfl
  | report operation =>
      have accepted : selector.accepts operation = true := within
      simp [settle, isIgnored, Item.verdict, Selector.narrow, accepted]

/-- Outside the selection nothing is settled unless it takes out. -/
theorem settle_narrow_of_not_takesOut
    (outside : item.isWithin selector = false)
    (kept : item.takesOut selector slot = false) :
    settle (selector.narrow accepts) slot item = slot := by
  cases item with
  | deletion id => cases outside
  | report operation =>
      have rejected : selector.accepts operation = false := outside
      by_cases ignored :
          (Item.report operation).isIgnored (selector.narrow accepts)
              slot =
            true
      · exact settle_of_isIgnored ignored
      · rw [settle_of_not_isIgnored ignored]
        -- A heeded report leaves nothing tracked, and nothing was tracked.
        have wellFormed := wellFormed_of_not_isIgnored ignored
        cases slot with
        | none => simp [Item.verdict, Selector.narrow, rejected]
        | some existing =>
            have newer : operation.version < existing.version := by
              simpa [takesOut, wellFormed, rejected] using kept
            exact (ignored (by simp [isIgnored, newer])).elim

/-- A report that takes an operation out leaves nothing tracked. -/
theorem settle_narrow_of_takesOut
    (takes : item.takesOut selector slot = true) :
    settle (selector.narrow accepts) slot item = none := by
  cases item with
  | deletion id => cases takes
  | report operation =>
      simp only [takesOut, Bool.and_eq_true, decide_eq_true_eq,
        Bool.not_eq_true'] at takes
      obtain ⟨⟨wellFormed, rejected⟩, older⟩ := takes
      obtain ⟨existing, rfl, below⟩ := (Option.any_eq_true ..).1 older
      have notNewer : ¬ operation.version < existing.version :=
        Int64.not_lt.2 (of_decide_eq_true below)
      simp [settle, isIgnored, Item.verdict, Selector.narrow, wellFormed,
        rejected, notNewer]

/-- What is not within the selection is not what the narrowed filter tracks. -/
theorem eq_of_settle_narrow
    (outside : item.isWithin selector = false)
    {operation : Operation}
    (settled :
      settle (selector.narrow accepts) slot item = some operation) :
    slot = some operation := by
  by_cases ignored :
      item.isIgnored (selector.narrow accepts) slot = true
  · rw [settle_of_isIgnored ignored] at settled
    exact settled
  · rw [settle_of_not_isIgnored ignored] at settled
    cases item with
    | deletion id => cases outside
    | report reported =>
        have rejected : selector.accepts reported = false := outside
        simp [Item.verdict, Selector.narrow, rejected] at settled

/-- Items that take nothing out settle alike, scoped or filtered. -/
theorem settleAll_eq_of_not_takeOut
    {items : List Item}
    (kept : takeOut accepts selector slot items = false) :
    settleAll accepts (items.filter (isWithin selector)) slot =
      settleAll (selector.narrow accepts) items slot := by
  induction items generalizing slot with
  | nil => rfl
  | cons item rest inductionHypothesis =>
      simp only [takeOut, Bool.or_eq_false_iff] at kept
      obtain ⟨keptNow, keptLater⟩ := kept
      have filtered :
          settleAll (selector.narrow accepts) (item :: rest) slot =
            settleAll (selector.narrow accepts) rest
              (settle (selector.narrow accepts) slot item) := rfl
      rw [filtered, ← inductionHypothesis keptLater]
      cases within : item.isWithin selector with
      | true =>
          rw [List.filter_cons_of_pos within,
            settle_narrow_of_isWithin within]
          rfl
      | false =>
          rw [List.filter_cons_of_neg (by simp [within]),
            settle_narrow_of_not_takesOut within keptNow]

/-- What the narrowed filter leaves tracked is covered within the selection. -/
theorem covers_of_settleAll_narrow
    {items : List Item}
    {other : Option Operation}
    (starts :
      ∀ operation,
        slot = some operation →
        ∃ later, other = some later ∧ later.Covers operation)
    {operation : Operation}
    (ends :
      settleAll (selector.narrow accepts) items slot = some operation) :
    ∃ later,
      settleAll accepts (items.filter (isWithin selector)) other =
          some later ∧
        later.Covers operation := by
  induction items generalizing slot other with
  | nil => exact starts operation ends
  | cons item rest inductionHypothesis =>
      have restEnds :
          settleAll (selector.narrow accepts) rest
              (settle (selector.narrow accepts) slot item) =
            some operation := ends
      cases within : item.isWithin selector with
      | true =>
          rw [List.filter_cons_of_pos within]
          rw [settle_narrow_of_isWithin within] at restEnds
          refine inductionHypothesis ?_ restEnds
          intro settled isSettled
          by_cases ignored : item.isIgnored accepts slot = true
          · rw [settle_of_isIgnored ignored] at isSettled
            obtain ⟨later, rfl, covers⟩ := starts settled isSettled
            rw [isSettled] at ignored
            rw [settle_of_isIgnored (isIgnored_of_covers covers ignored)]
            exact ⟨later, rfl, covers⟩
          · rw [settle_of_not_isIgnored ignored] at isSettled
            exact settle_covers_of_heeded ignored isSettled
      | false =>
          rw [List.filter_cons_of_neg (by simp [within])]
          refine inductionHypothesis ?_ restEnds
          intro settled isSettled
          exact starts settled (eq_of_settle_narrow within isSettled)

end Item

end Event

namespace Ledger

variable {accepts : Operation → Bool} {selector : Selector}

/-- The ledger of a stream that is scoped before it is ingested. -/
def scopedView
    (accepts : Operation → Bool)
    (selector : Selector)
    (events : List Event) :
    Ledger :=
  (new accepts).ingestAll (events.filterMap (Event.scope? selector))

/-- The ledger of the whole stream with the selector in its filter. -/
def filteredView
    (accepts : Operation → Bool)
    (selector : Selector)
    (events : List Event) :
    Ledger :=
  (new (selector.narrow accepts)).ingestAll events

/--
No item of events takes an operation out of the selection, given what the
filtering ledger tracks by then.
-/
def Retains
    (accepts : Operation → Bool)
    (selector : Selector)
    (events : List Event)
    (id : OperationId) : Prop :=
  ∀ earlier item later,
    Event.itemsOf events = earlier ++ item :: later →
    item.target = id →
    item.takesOut selector
        ((filteredView accepts selector
          (earlier.map Event.Item.alone)).operation? id) =
      false

theorem operation?_scopedView (events : List Event) (id : OperationId) :
    (scopedView accepts selector events).operation? id =
      Event.Item.settleAll accepts
        ((Event.Item.about id (Event.itemsOf events)).filter
          (Event.Item.isWithin selector))
        none := by
  unfold scopedView
  rw [(consistent_new accepts).operation?_ingestAll,
    Event.itemsOf_filterMap_scope?]
  unfold Event.Item.about
  rw [List.filter_comm]
  rfl

theorem operation?_filteredView (events : List Event) (id : OperationId) :
    (filteredView accepts selector events).operation? id =
      Event.Item.settleAll (selector.narrow accepts)
        (Event.Item.about id (Event.itemsOf events)) none :=
  (consistent_new _).operation?_ingestAll events id

/-- Whether an operation is retained is said by the items about it. -/
theorem retains_iff (events : List Event) (id : OperationId) :
    Retains accepts selector events id ↔
      Event.Item.takeOut accepts selector none
          (Event.Item.about id (Event.itemsOf events)) =
        false := by
  unfold Retains
  simp only [operation?_filteredView, Event.Item.itemsOf_map_alone]
  rw [Event.Item.takeOut_eq_false_iff]
  constructor
  · intro retains before item since split
    obtain ⟨earlier, later, isSplit, rfl, _⟩ :=
      Event.Item.exists_of_about_eq_append split
    have isAbout : item ∈ Event.Item.about id (Event.itemsOf events) := by
      rw [split]
      simp
    exact retains earlier item later isSplit
      (of_decide_eq_true (List.mem_filter.1 isAbout).2)
  · intro kept earlier item later split isTarget
    refine kept (Event.Item.about id earlier) item
      (Event.Item.about id later) ?_
    rw [split, Event.Item.about_append,
      Event.Item.about_cons_of_target isTarget]

instance (events : List Event) (id : OperationId) :
    Decidable (Retains accepts selector events id) :=
  decidable_of_iff' _ (retains_iff events id)

/-- The scoped view has what the filtered one has, and nothing older. -/
theorem covers_of_filteredView
    (events : List Event)
    {id : OperationId}
    {operation : Operation}
    (found :
      (filteredView accepts selector events).operation? id =
        some operation) :
    ∃ later,
      (scopedView accepts selector events).operation? id = some later ∧
        later.Covers operation := by
  rw [operation?_filteredView] at found
  rw [operation?_scopedView]
  apply Event.Item.covers_of_settleAll_narrow _ found
  intro absent isAbsent
  cases isAbsent

/-- The views agree on an operation that is never taken out. -/
theorem operation?_eq_of_retains
    {events : List Event}
    {id : OperationId}
    (retains : Retains accepts selector events id) :
    (scopedView accepts selector events).operation? id =
      (filteredView accepts selector events).operation? id := by
  rw [operation?_scopedView, operation?_filteredView]
  exact Event.Item.settleAll_eq_of_not_takeOut
    ((retains_iff events id).1 retains)

/-- The views are alike if nothing that events speak of is taken out. -/
theorem alike_of_retains
    {events : List Event}
    (retains :
      ∀ item ∈ Event.itemsOf events,
        Retains accepts selector events item.target) :
    (scopedView accepts selector events).Alike
      (filteredView accepts selector events) := by
  obtain ⟨scopedConsistent, _⟩ :=
    (consistent_new accepts).ingestAll
      (events.filterMap (Event.scope? selector))
  obtain ⟨filteredConsistent, _⟩ :=
    (consistent_new (selector.narrow accepts)).ingestAll events
  apply scopedConsistent.alike filteredConsistent
  intro id
  apply operation?_eq_of_retains
  intro earlier item later split isTarget
  have member : item ∈ Event.itemsOf events := by
    rw [split]
    simp
  obtain rfl := isTarget
  exact retains item member earlier item later split rfl

/-- A report that takes an operation out is dropped by the selector. -/
theorem scope?_of_takesOut
    {operation : Operation}
    {slot : Option Operation}
    (takes :
      (Event.Item.report operation).takesOut selector slot = true) :
    (Event.updated [operation]).scope? selector = none := by
  simp only [Event.Item.takesOut, Bool.and_eq_true,
    Bool.not_eq_true'] at takes
  simp [Event.scope?, takes.1.2, Event.isEmpty, Event.length]

/--
Scoping a stream leaves tracked all that filtering by the selector does, at
versions that are no older, and both agree on every operation that no report
takes out of the selection. A report that takes an operation out ends its
tracking where the selector is part of the filter, and it leaves the scoped
ledger as it is, with the operation in it.
-/
theorem scopedView_agrees_unless_takenOut
    (accepts : Operation → Bool)
    (selector : Selector)
    (events : List Event) :
    let inScope := scopedView accepts selector events
    let filtered := filteredView accepts selector events
    (∀ id operation,
      filtered.operation? id = some operation →
      ∃ later,
        inScope.operation? id = some later ∧ later.Covers operation) ∧
    (∀ id,
      Retains accepts selector events id →
      inScope.operation? id = filtered.operation? id) ∧
    ((∀ item ∈ Event.itemsOf events,
        Retains accepts selector events item.target) →
      inScope.Alike filtered) ∧
    (∀ operation,
      (Event.Item.report operation).takesOut selector
          (filtered.operation? operation.id) =
        true →
      let leaving := events ++ [.updated [operation]]
      (filteredView accepts selector leaving).operation? operation.id =
          none ∧
        scopedView accepts selector leaving = inScope ∧
        ∃ kept, inScope.operation? operation.id = some kept) := by
  intro inScope filtered
  refine ⟨fun id operation found => covers_of_filteredView events found,
    fun id retains => operation?_eq_of_retains retains,
    fun retains => alike_of_retains retains, ?_⟩
  intro operation takes leaving
  refine ⟨?_, ?_, ?_⟩
  · have told :
        Event.Item.about operation.id (Event.itemsOf leaving) =
          Event.Item.about operation.id (Event.itemsOf events) ++
            [.report operation] := by
      unfold leaving
      rw [Event.itemsOf_append, Event.Item.about_append]
      simp [Event.itemsOf, Event.items, Event.Item.about,
        Event.Item.target]
    rw [operation?_filteredView, told, Event.Item.settleAll_append,
      ← operation?_filteredView]
    exact Event.Item.settle_narrow_of_takesOut takes
  · unfold inScope scopedView leaving
    rw [List.filterMap_append,
      List.filterMap_cons_none (scope?_of_takesOut takes)]
    simp
  · simp only [Event.Item.takesOut, Bool.and_eq_true] at takes
    obtain ⟨existing, found, _⟩ := (Option.any_eq_true ..).1 takes.2
    obtain ⟨later, kept, _⟩ :
        ∃ later,
          inScope.operation? operation.id = some later ∧
            later.Covers existing :=
      covers_of_filteredView events found
    exact ⟨later, kept⟩

/-- A check that is reported for a plan. -/
def planReport
    (id : OperationId)
    (version : Int64)
    (planId : String) :
    Operation :=
  { Operation.checkReport id version "nightly" with planId := planId }

/--
The first check leaves the plan after it was deleted, the second one enters the
plan, and an old report has the third one outside.
-/
def comingAndGoing : List Event :=
  [.created [planReport 1 1 "daily", planReport 2 1 "weekly"],
    .deleted [1],
    .updated [planReport 1 2 "weekly", planReport 2 2 "daily"],
    .created [planReport 3 5 "daily"],
    .updated [planReport 3 4 "weekly"]]

/-- None of the checks is taken out, so the views are alike. -/
theorem alike_comingAndGoing :
    let selector := Selector.forPlan "repository" "daily"
    (∀ item ∈ Event.itemsOf comingAndGoing,
        Retains (fun _ => true) selector comingAndGoing item.target) ∧
      (scopedView (fun _ => true) selector comingAndGoing).Alike
        (filteredView (fun _ => true) selector comingAndGoing) ∧
      (scopedView (fun _ => true) selector comingAndGoing).operation? 2 =
        some (planReport 2 2 "daily") := by
  intro selector
  have retains :
      ∀ item ∈ Event.itemsOf comingAndGoing,
        Retains (fun _ => true) selector comingAndGoing item.target := by
    decide +kernel
  obtain ⟨_, _, alike, _⟩ :=
    scopedView_agrees_unless_takenOut (fun _ => true) selector
      comingAndGoing
  refine ⟨retains, alike retains, ?_⟩
  rw [operation?_scopedView]
  decide +kernel

/-- A check that moves to another plan stays in the view of its old one. -/
theorem scopedView_keepsMovedCheck :
    let selector := Selector.forPlan "repository" "daily"
    let events : List Event :=
      [.created [planReport 1 1 "daily"],
        .updated [planReport 1 2 "weekly"]]
    (scopedView (fun _ => true) selector events).operation? 1 =
        some (planReport 1 1 "daily") ∧
      (scopedView (fun _ => true) selector events).flows.map Flow.id =
        ["nightly"] ∧
      (filteredView (fun _ => true) selector events).operation? 1 = none ∧
      (filteredView (fun _ => true) selector events).flows = [] := by
  intro selector events
  exact ⟨by decide +kernel, by decide +kernel, by decide +kernel,
    by decide +kernel⟩

end Ledger

end BackupHistory
