import BackupHistory.Proofs.Ledger.Report

namespace BackupHistory

/-!
# What listeners hear

A subscription lasts until it is ended or the ledger is disposed of, and while
it lasts its listener is told every change once. Ids of subscriptions are
counted over the whole life of a ledger, so an id stands for one subscription
only and an old one can do no harm. `Ledger.Serves` says what this means for a
whole run, and `Ledger.serves_performAll` is the main statement.
-/

/-- A listener that is told a change. -/
structure Notice where
  listener : SubscriptionId
  change : Change
  deriving Repr, DecidableEq

namespace Ledger

/-- Whether an action ends a subscription. -/
def Action.ends (id : SubscriptionId) (action : Action) : Bool :=
  decide (action = .dispose ∨ action = .unsubscribe id)

/-- The part of a run in which a subscription lasts that begins before it. -/
def lifetime (id : SubscriptionId) (actions : List Action) : List Action :=
  actions.takeWhile fun action => !action.ends id

/-- What is read off the actions of a run, each at its own ledger. -/
def along
    (read : Ledger → Action → List α)
    (ledger : Ledger) :
    List Action → List α
  | [] => []
  | action :: rest =>
      read ledger action ++ along read (ledger.perform action) rest

/-- What an action changes, which only an event does. -/
def changesOf (ledger : Ledger) : Action → List Change
  | .ingest event => (ledger.ingest event).change.toList
  | _ => []

/-- The calls of listeners that an action makes, in their order. -/
def noticesOf (ledger : Ledger) : Action → List Notice
  | .ingest event =>
      (ledger.ingest event).change.toList.flatMap fun change =>
        (ledger.ingest event).notified.map fun listener =>
          ⟨listener, change⟩
  | _ => []

/-- The id of the subscription that an action makes. -/
def handedOut (ledger : Ledger) : Action → List SubscriptionId
  | .subscribe => [ledger.subscribe.2]
  | _ => []

/-- The changes that a listener is told, in their order. -/
def told (id : SubscriptionId) (notices : List Notice) : List Change :=
  (notices.filter fun notice => notice.listener = id).map Notice.change

/-- Whether ending a subscription leaves fewer listeners than there were. -/
def removes (ledger : Ledger) (id : SubscriptionId) : Bool :=
  (ledger.unsubscribe id).listeners.length != ledger.listeners.length

/-- A subscription that was made and that no later action has ended. -/
def IsLive
    (accepts : Operation → Bool)
    (actions : List Action)
    (id : SubscriptionId) :
    Prop :=
  ∃ earlier later,
    actions = earlier ++ .subscribe :: later ∧
      ((new accepts).performAll earlier).subscribe.2 = id ∧
      ∀ action ∈ later, action.ends id = false

/-- What the listeners of a new ledger can rely on in the course of actions. -/
structure Serves
    (accepts : Operation → Bool)
    (actions : List Action) :
    Prop where
  /-- No id is handed out twice. -/
  handedOut_nodup : (along handedOut (new accepts) actions).Nodup
  /-- A listener is told the changes of its lifetime and nothing else. -/
  told_eq :
    ∀ earlier later,
      actions = earlier ++ .subscribe :: later →
      let subscribed := ((new accepts).performAll earlier).subscribe
      told subscribed.2 (along noticesOf (new accepts) actions) =
        along changesOf subscribed.1 (lifetime subscribed.2 later)
  /-- An event calls the live listeners in the order of their subscriptions. -/
  notified_sublist :
    ∀ event,
      (((new accepts).performAll actions).ingest event).notified.Sublist
        (along handedOut (new accepts) actions)
  /-- It calls all of them if it changes anything, and nobody otherwise. -/
  mem_notified_iff :
    ∀ event id,
      let outcome := ((new accepts).performAll actions).ingest event
      id ∈ outcome.notified ↔
        outcome.change.isSome ∧ IsLive accepts actions id
  /-- Ending a subscription succeeds if it is live. -/
  removes_iff :
    ∀ id,
      ((new accepts).performAll actions).removes id = true ↔
        IsLive accepts actions id
  /-- It removes one listener at most, and nothing else. -/
  unsubscribe_eq :
    ∀ id,
      let ledger := (new accepts).performAll actions
      ledger.unsubscribe id =
        { ledger with listeners := ledger.listeners.erase id }
  /-- It ends no other subscription. -/
  isLive_unsubscribe_iff :
    ∀ id other,
      IsLive accepts (actions ++ [.unsubscribe id]) other ↔
        IsLive accepts actions other ∧ other ≠ id

section Frame

variable {ledger : Ledger}

theorem listeners_subscribe :
    ledger.subscribe.1.listeners = ledger.listeners ++ [ledger.subscribe.2] :=
  rfl

theorem mem_listeners_unsubscribe {id other : SubscriptionId} :
    id ∈ (ledger.unsubscribe other).listeners ↔
      id ∈ ledger.listeners ∧ id ≠ other := by
  rw [unsubscribe, List.mem_filter, bne_iff_ne]

theorem unsubscribe_eq_of_not_mem
    {id : SubscriptionId}
    (absent : id ∉ ledger.listeners) :
    ledger.unsubscribe id = ledger := by
  have rest : ledger.listeners.filter (· != id) = ledger.listeners := by
    refine List.filter_eq_self.2 fun other listens => ?_
    exact bne_iff_ne.2 fun same => absent (same ▸ listens)
  rw [unsubscribe, rest]

/-- No event makes or ends a subscription. -/
theorem Indexed.listeners_ingest
    (indexed : ledger.Indexed)
    (event : Event) :
    (ledger.ingest event).ledger.listeners = ledger.listeners := by
  obtain ⟨progress, refreshed⟩ := indexed.ingested event
  exact refreshed.listeners.trans progress.listeners

theorem Indexed.subscriptionCount_ingest
    (indexed : ledger.Indexed)
    (event : Event) :
    (ledger.ingest event).ledger.subscriptionCount =
      ledger.subscriptionCount := by
  have refreshed (flowIds : List FlowId) (before : Ledger) :
      (flowIds.foldl Ledger.refresh before).subscriptionCount =
        before.subscriptionCount := by
    induction flowIds generalizing before with
    | nil => rfl
    | cons flowId rest inductionHypothesis =>
        rw [List.foldl_cons, inductionHypothesis]
        unfold Ledger.refresh
        repeat' split
        all_goals rfl
  have applied (items : List Event.Item) {batch : Batch}
      (progress : Batch.Progress ledger batch) :
      (items.foldl Batch.applyItem batch).ledger.subscriptionCount =
        batch.ledger.subscriptionCount := by
    induction items generalizing batch with
    | nil => rfl
    | cons item rest inductionHypothesis =>
        rw [List.foldl_cons, inductionHypothesis (progress.applyItem item)]
        rcases Batch.applyItem_cases progress.indexed item with
          ⟨unchanged, _⟩ | assigned
        · rw [unchanged]
        · exact assigned.subscriptionCount
  rw [ledger_ingest, refreshed, Batch.apply_eq_foldl,
    applied event.items (Batch.progress_start indexed)]
  rfl

end Frame

section Along

variable {read : Ledger → Action → List α}

theorem along_append (ledger : Ledger) (first second : List Action) :
    along read ledger (first ++ second) =
      along read ledger first ++
        along read (ledger.performAll first) second := by
  induction first generalizing ledger with
  | nil => rfl
  | cons action rest inductionHypothesis =>
      rw [List.cons_append, along, inductionHypothesis, along,
        List.append_assoc]
      rfl

end Along

/-- Listeners that stand in the order of their ids, all of them handed out. -/
structure Enrolled (ledger : Ledger) : Prop where
  ascending :
    ledger.listeners.Pairwise fun left right => left.number < right.number
  bounded :
    ∀ id ∈ ledger.listeners, id.number ≤ ledger.subscriptionCount

section Enrolled

variable {ledger : Ledger} {id : SubscriptionId}

theorem enrolled_new (accepts : Operation → Bool) :
    (new accepts).Enrolled where
  ascending := .nil
  bounded _ member := absurd member List.not_mem_nil

theorem Enrolled.nodup (enrolled : ledger.Enrolled) :
    ledger.listeners.Nodup := by
  refine enrolled.ascending.imp fun before same => ?_
  rw [same] at before
  exact Nat.lt_irrefl _ before

/-- Actions keep the listeners in order. -/
theorem Enrolled.perform
    (enrolled : ledger.Enrolled)
    (indexed : ledger.Indexed)
    (action : Action) :
    (ledger.perform action).Enrolled := by
  cases action with
  | ingest event =>
      refine ⟨?_, ?_⟩
      · rw [Ledger.perform, indexed.listeners_ingest]
        exact enrolled.ascending
      · rw [Ledger.perform, indexed.listeners_ingest,
          indexed.subscriptionCount_ingest]
        exact enrolled.bounded
  | subscribe =>
      refine ⟨?_, ?_⟩
      · refine List.pairwise_append.2
          ⟨enrolled.ascending, List.pairwise_singleton .., ?_⟩
        intro earlier isEarlier latest isLatest
        rw [List.mem_singleton.1 isLatest]
        exact Nat.lt_succ_of_le (enrolled.bounded earlier isEarlier)
      · intro other member
        rcases List.mem_append.1 member with isEarlier | isLatest
        · exact Nat.le_succ_of_le (enrolled.bounded other isEarlier)
        · rw [List.mem_singleton.1 isLatest]
          exact Nat.le_refl _
  | unsubscribe other =>
      refine ⟨enrolled.ascending.filter _, ?_⟩
      intro left member
      exact enrolled.bounded left (List.mem_filter.1 member).1
  | dispose =>
      exact ⟨.nil, fun _ member => absurd member List.not_mem_nil⟩

theorem Enrolled.performAll
    (enrolled : ledger.Enrolled)
    (consistent : ledger.Consistent)
    (actions : List Action) :
    (ledger.performAll actions).Enrolled := by
  induction actions generalizing ledger with
  | nil => exact enrolled
  | cons action rest inductionHypothesis =>
      exact inductionHypothesis
        (enrolled.perform consistent.indexed action)
        (consistent.perform action)

/-- A listener is there after an action if it was and the action did not end
its subscription, or if the action made it. -/
theorem Indexed.mem_listeners_perform
    (indexed : ledger.Indexed)
    (action : Action) :
    id ∈ (ledger.perform action).listeners ↔
      (id ∈ ledger.listeners ∧ action.ends id = false) ∨
        (action = .subscribe ∧ ledger.subscribe.2 = id) := by
  cases action with
  | ingest event =>
      rw [Ledger.perform, indexed.listeners_ingest]
      simp [Action.ends]
  | subscribe =>
      rw [Ledger.perform, subscribe, List.mem_append, List.mem_singleton]
      simp [Action.ends, eq_comm]
  | unsubscribe other =>
      rw [Ledger.perform, unsubscribe, List.mem_filter, bne_iff_ne]
      simp [Action.ends, eq_comm]
  | dispose => simp [Ledger.perform, dispose, Action.ends]

end Enrolled

section Live

variable {accepts : Operation → Bool} {actions : List Action}
  {id : SubscriptionId}

theorem performAll_append_singleton
    (ledger : Ledger)
    (actions : List Action)
    (action : Action) :
    ledger.performAll (actions ++ [action]) =
      (ledger.performAll actions).perform action :=
  List.foldl_append

/-- A subscription is live after an action if it was and the action did not end
it, or if the action made it. -/
theorem isLive_append_singleton {action : Action} :
    IsLive accepts (actions ++ [action]) id ↔
      (IsLive accepts actions id ∧ action.ends id = false) ∨
        (action = .subscribe ∧
          ((new accepts).performAll actions).subscribe.2 = id) := by
  constructor
  · rintro ⟨earlier, later, split, made, lasting⟩
    rcases List.eq_nil_or_concat later with rfl | ⟨since, last, rfl⟩
    · obtain ⟨rfl, same⟩ := List.append_inj' split rfl
      exact .inr ⟨List.head_eq_of_cons_eq same, made⟩
    · rw [List.concat_eq_append, ← List.cons_append,
        ← List.append_assoc] at split
      obtain ⟨rfl, same⟩ := List.append_inj' split rfl
      obtain rfl := List.head_eq_of_cons_eq same
      rw [List.concat_eq_append] at lasting
      refine .inl ⟨⟨earlier, since, rfl, made, ?_⟩, ?_⟩
      · intro between member
        exact lasting between (List.mem_append_left _ member)
      · exact lasting action (by simp)
  · rintro (⟨⟨earlier, later, rfl, made, lasting⟩, goesOn⟩ | ⟨rfl, made⟩)
    · refine ⟨earlier, later ++ [action], by simp, made, ?_⟩
      intro between member
      rcases List.mem_append.1 member with before | isLast
      · exact lasting between before
      · rw [List.mem_singleton.1 isLast]
        exact goesOn
    · exact ⟨actions, [], rfl, made, fun _ member => nomatch member⟩

/-- The listeners are those whose subscriptions are live. -/
theorem mem_listeners_iff :
    id ∈ ((new accepts).performAll actions).listeners ↔
      IsLive accepts actions id := by
  induction actions using List.reverseRecOn with
  | nil =>
      constructor
      · exact fun member => absurd member List.not_mem_nil
      · rintro ⟨earlier, later, split, _⟩
        cases earlier <;> cases split
  | append_singleton earlier action inductionHypothesis =>
      obtain ⟨consistent, _⟩ := (consistent_new accepts).performAll earlier
      rw [performAll_append_singleton,
        consistent.indexed.mem_listeners_perform, isLive_append_singleton,
        inductionHypothesis]

/-- The listeners stand in the order in which their ids were handed out. -/
theorem listeners_sublist_handedOut
    (accepts : Operation → Bool)
    (actions : List Action) :
    ((new accepts).performAll actions).listeners.Sublist
      (along handedOut (new accepts) actions) := by
  induction actions using List.reverseRecOn with
  | nil => exact .slnil
  | append_singleton earlier action inductionHypothesis =>
      obtain ⟨consistent, _⟩ := (consistent_new accepts).performAll earlier
      rw [performAll_append_singleton, along_append]
      cases action with
      | ingest event =>
          rw [perform, consistent.indexed.listeners_ingest]
          exact inductionHypothesis.trans (List.sublist_append_left ..)
      | subscribe => exact inductionHypothesis.append_right _
      | unsubscribe id =>
          exact List.filter_sublist.trans
            (inductionHypothesis.trans (List.sublist_append_left ..))
      | dispose => exact List.nil_sublist _

end Live

section HandedOut

variable {ledger : Ledger}

/-- Ids go on from those that have been handed out, one by one. -/
theorem Consistent.handedOut_ascending
    (consistent : ledger.Consistent)
    (actions : List Action) :
    (along handedOut ledger actions).Pairwise
        (fun left right => left.number < right.number) ∧
      ∀ id ∈ along handedOut ledger actions,
        ledger.subscriptionCount < id.number := by
  induction actions generalizing ledger with
  | nil => exact ⟨.nil, fun _ member => nomatch member⟩
  | cons action rest inductionHypothesis =>
      obtain ⟨ascending, above⟩ :=
        inductionHypothesis (consistent.perform action)
      cases action with
      | ingest event =>
          rw [Ledger.perform,
            consistent.indexed.subscriptionCount_ingest] at above
          exact ⟨ascending, above⟩
      | subscribe =>
          refine ⟨List.pairwise_cons.2 ⟨above, ascending⟩, ?_⟩
          intro id member
          rcases List.mem_cons.1 member with rfl | later
          · exact Nat.lt_succ_self _
          · exact Nat.lt_of_succ_lt (above id later)
      | unsubscribe id => exact ⟨ascending, above⟩
      | dispose => exact ⟨ascending, above⟩

end HandedOut

section Told

variable {ledger : Ledger} {id : SubscriptionId}

theorem told_append (first second : List Notice) :
    told id (first ++ second) = told id first ++ told id second := by
  unfold told
  rw [List.filter_append, List.map_append]

/-- A listener is told of a change as often as it is called. -/
theorem told_map (ids : List SubscriptionId) (change : Change) :
    told id (ids.map fun listener => ⟨listener, change⟩) =
      List.replicate (ids.count id) change := by
  unfold told
  rw [List.filter_map, List.map_map]
  have own :
      ids.filter ((fun notice => decide (notice.listener = id)) ∘
          fun listener => (⟨listener, change⟩ : Notice)) =
        List.replicate (ids.count id) id :=
    List.filter_eq id
  rw [own, List.map_replicate]
  rfl

/-- A listener hears of an action once, and only if it is registered. -/
theorem Enrolled.told_noticesOf
    (enrolled : ledger.Enrolled)
    (action : Action) :
    told id (ledger.noticesOf action) =
      if id ∈ ledger.listeners then ledger.changesOf action else [] := by
  cases action with
  | ingest event =>
      simp only [noticesOf, changesOf]
      cases reported : (ledger.ingest event).change with
      | none => simp [told]
      | some change =>
          obtain ⟨_, _, notified⟩ := touched_of_change reported
          rw [notified, Option.toList_some, List.flatMap_singleton,
            told_map, enrolled.nodup.count]
          split <;> rfl
  | subscribe => simp [noticesOf, changesOf, told]
  | unsubscribe other => simp [noticesOf, changesOf, told]
  | dispose => simp [noticesOf, changesOf, told]

/-- Whoever is not registered hears nothing until the id is handed out. -/
theorem told_along_of_not_mem
    (consistent : ledger.Consistent)
    (enrolled : ledger.Enrolled)
    {actions : List Action}
    (absent : id ∉ ledger.listeners)
    (never : id ∉ along handedOut ledger actions) :
    told id (along noticesOf ledger actions) = [] := by
  induction actions generalizing ledger with
  | nil => rfl
  | cons action rest inductionHypothesis =>
      rw [along, List.mem_append, not_or] at never
      have stillAbsent : id ∉ (ledger.perform action).listeners := by
        rw [consistent.indexed.mem_listeners_perform]
        rintro (⟨present, _⟩ | ⟨rfl, made⟩)
        · exact absent present
        · exact never.1 (List.mem_singleton.2 made.symm)
      rw [along, told_append, enrolled.told_noticesOf, if_neg absent,
        inductionHypothesis (consistent.perform action)
          (enrolled.perform consistent.indexed action) stillAbsent never.2]
      rfl

/-- Whoever is registered hears of all that changes in the lifetime of the
subscription. -/
theorem told_along_of_mem
    (consistent : ledger.Consistent)
    (enrolled : ledger.Enrolled)
    {actions : List Action}
    (present : id ∈ ledger.listeners)
    (never : id ∉ along handedOut ledger actions) :
    told id (along noticesOf ledger actions) =
      along changesOf ledger (lifetime id actions) := by
  induction actions generalizing ledger with
  | nil => rfl
  | cons action rest inductionHypothesis =>
      have laterConsistent := consistent.perform action
      have laterEnrolled := enrolled.perform consistent.indexed action
      rw [along, List.mem_append, not_or] at never
      rw [along, told_append, enrolled.told_noticesOf, if_pos present]
      by_cases ending : action.ends id = true
      · have absent : id ∉ (ledger.perform action).listeners := by
          rw [consistent.indexed.mem_listeners_perform]
          rintro (⟨_, goesOn⟩ | ⟨rfl, _⟩)
          · rw [ending] at goesOn
            cases goesOn
          · cases ending
        have quiet : ledger.changesOf action = [] := by
          cases action with
          | ingest event => cases ending
          | subscribe => rfl
          | unsubscribe other => rfl
          | dispose => rfl
        rw [quiet, told_along_of_not_mem laterConsistent laterEnrolled
          absent never.2]
        simp [lifetime, ending, along]
      · have stillPresent : id ∈ (ledger.perform action).listeners :=
          (consistent.indexed.mem_listeners_perform action).2
            (.inl ⟨present, Bool.eq_false_iff.2 ending⟩)
        rw [inductionHypothesis laterConsistent laterEnrolled stillPresent
          never.2]
        simp [lifetime, ending, along]

end Told

/-- An event calls all listeners if it changes anything, and else none. -/
theorem Indexed.notified_ingest
    {ledger : Ledger}
    (indexed : ledger.Indexed)
    (event : Event) :
    (ledger.ingest event).notified =
      if (ledger.ingest event).change.isSome then
        ledger.listeners
      else
        [] := by
  cases reported : (ledger.ingest event).change with
  | none => exact (indexed.ingest_of_change_eq_none reported).2
  | some change => exact (touched_of_change reported).2.2

/-- Ending a subscription leaves fewer listeners if it was registered. -/
theorem removes_iff_mem {ledger : Ledger} {id : SubscriptionId} :
    ledger.removes id = true ↔ id ∈ ledger.listeners := by
  unfold removes
  rw [bne_iff_ne, unsubscribe, Ne, List.length_filter_eq_length_iff]
  simp

/--
Whatever is done with a new ledger, every listener is told the changes of its
lifetime, each once and in order, and no others. An event that changes anything
calls the live listeners in the order in which they subscribed. Ending a
subscription succeeds if it is live and ends no other, and an id is handed out
once only, whether its ledger has been disposed of since or not.
-/
theorem serves_performAll
    (accepts : Operation → Bool)
    (actions : List Action) :
    Serves accepts actions := by
  have isNew := consistent_new accepts
  have enrolledNew := enrolled_new accepts
  obtain ⟨consistent, _⟩ := isNew.performAll actions
  have nodup : (along handedOut (new accepts) actions).Nodup := by
    refine (isNew.handedOut_ascending actions).1.imp fun before same => ?_
    rw [same] at before
    exact Nat.lt_irrefl _ before
  constructor
  case handedOut_nodup => exact nodup
  case told_eq =>
    rintro earlier later rfl subscribed
    obtain ⟨before, _⟩ := isNew.performAll earlier
    have beforeEnrolled := enrolledNew.performAll isNew earlier
    rw [along_append, along, List.nodup_append] at nodup
    obtain ⟨_, onceMore, apart⟩ := nodup
    have notEarlier :
        subscribed.2 ∉ along handedOut (new accepts) earlier :=
      fun made => apart _ made _ List.mem_cons_self rfl
    have notLater : subscribed.2 ∉ along handedOut subscribed.1 later :=
      (List.nodup_cons.1 onceMore).1
    rw [along_append, told_append,
      told_along_of_not_mem isNew enrolledNew List.not_mem_nil notEarlier,
      List.nil_append]
    exact
      told_along_of_mem (before.perform .subscribe)
        (beforeEnrolled.perform before.indexed .subscribe)
        (List.mem_append_right _ List.mem_cons_self) notLater
  case notified_sublist =>
    intro event
    rw [consistent.indexed.notified_ingest]
    split
    · exact listeners_sublist_handedOut accepts actions
    · exact List.nil_sublist _
  case mem_notified_iff =>
    intro event id outcome
    have calls := consistent.indexed.notified_ingest event
    rw [calls, ← mem_listeners_iff]
    by_cases changes : outcome.change.isSome = true
    · simp [outcome, changes]
    · simp [outcome, changes]
  case removes_iff =>
    intro id
    rw [removes_iff_mem, mem_listeners_iff]
  case unsubscribe_eq =>
    intro id ledger
    have enrolled := enrolledNew.performAll isNew actions
    rw [enrolled.nodup.erase_eq_filter]
    rfl
  case isLive_unsubscribe_iff =>
    intro id other
    rw [isLive_append_singleton]
    simp [Action.ends, eq_comm]

end Ledger

end BackupHistory
