import BackupHistory.Ledger.Ingest
import Mathlib.Data.List.Induction

namespace BackupHistory

/-!
# What an event says about one operation

An event is a list of items, each about one operation. What a ledger tracks of
an operation depends on the items about that operation alone: an item is either
ignored or it settles what is tracked, whatever was tracked before.

The main statement is `settleAll_settleAll`: going through a list of items for
the second time changes nothing.
-/

/-- What an event says about one operation. -/
inductive Event.Item where
  | report (operation : Operation)
  | deletion (id : OperationId)
  deriving Repr, DecidableEq

/-- The items of an event in order. -/
def Event.items : Event → List Event.Item
  | .created operations => operations.map Event.Item.report
  | .updated operations => operations.map Event.Item.report
  | .deleted ids => ids.map Event.Item.deletion

/-- A report that is newer than another one or says the same. -/
def Operation.Covers (later earlier : Operation) : Prop :=
  earlier.version < later.version ∨ earlier.amounts = later.amounts

namespace Operation

theorem version_eq_of_amounts {left right : Operation}
    (same : left.amounts = right.amounts) :
    left.version = right.version := by
  have versions := congrArg Operation.version same
  exact versions

theorem Covers.refl (operation : Operation) : operation.Covers operation :=
  .inr rfl

theorem Covers.version_le {later earlier : Operation}
    (covers : later.Covers earlier) :
    earlier.version ≤ later.version := by
  rcases covers with newer | same
  · exact Int64.le_of_lt newer
  · rw [version_eq_of_amounts same]
    exact Int64.le_refl _

end Operation

namespace Event.Item

/-- The operation that an item is about. -/
def target : Item → OperationId
  | .report operation => operation.id
  | .deletion id => id

/-- What an item that is not ignored leaves tracked. -/
def verdict (accepts : Operation → Bool) : Item → Option Operation
  | .report operation =>
      if accepts operation then
        some operation
      else
        none
  | .deletion _ => none

/--
Whether an item is ignored, given what is tracked of its operation.

A report is ignored if it has no flow, if a newer one is tracked or if it is
accepted and the tracked one says the same.
-/
def isIgnored
    (accepts : Operation → Bool)
    (slot : Option Operation) :
    Item → Bool
  | .report operation =>
      !decide operation.IsWellFormed ||
        slot.any fun existing =>
          decide (operation.version < existing.version) ||
            (accepts operation && existing.sameContent operation)
  | .deletion _ => false

/-- What is tracked of an operation after an item about it. -/
def settle
    (accepts : Operation → Bool)
    (slot : Option Operation)
    (item : Item) :
    Option Operation :=
  if item.isIgnored accepts slot then
    slot
  else
    item.verdict accepts

/-- What is tracked of an operation after items about it. -/
def settleAll
    (accepts : Operation → Bool)
    (items : List Item)
    (slot : Option Operation) :
    Option Operation :=
  items.foldl (settle accepts) slot

/-- The items about one operation in order. -/
def about (id : OperationId) (items : List Item) : List Item :=
  items.filter fun item => item.target = id

variable {accepts : Operation → Bool} {item : Item}

theorem id_of_verdict {operation : Operation}
    (verdict : item.verdict accepts = some operation) :
    operation.id = item.target := by
  cases item with
  | deletion id => cases verdict
  | report reported =>
      simp only [Item.verdict] at verdict
      split at verdict
      · cases verdict
        rfl
      · cases verdict

theorem about_append (id : OperationId) (first second : List Item) :
    about id (first ++ second) = about id first ++ about id second :=
  List.filter_append ..

theorem about_eq_nil
    {id : OperationId}
    {items : List Item}
    (unmentioned : ∀ item ∈ items, item.target ≠ id) :
    about id items = [] := by
  unfold about
  rw [List.filter_eq_nil_iff]
  intro item member
  have other : item.target ≠ id := unmentioned item member
  simp [other]

theorem about_cons_of_target {id : OperationId}
    (same : item.target = id)
    (rest : List Item) :
    about id (item :: rest) = item :: about id rest :=
  List.filter_cons_of_pos (decide_eq_true same)

/-- An item about an operation stands somewhere among all items. -/
theorem exists_of_about_eq_append
    {id : OperationId}
    {items before since : List Item}
    (split : about id items = before ++ item :: since) :
    ∃ earlier later,
      items = earlier ++ item :: later ∧
        about id earlier = before ∧
        about id later = since := by
  obtain ⟨first, second, rfl, isBefore, rest⟩ :=
    List.filter_eq_append_iff.1 split
  obtain ⟨skipped, later, rfl, others, _, isSince⟩ :=
    List.filter_eq_cons_iff.1 rest
  have nothing : about id skipped = [] := List.filter_eq_nil_iff.2 others
  refine ⟨first ++ skipped, later, by simp, ?_, isSince⟩
  rw [about_append, nothing, List.append_nil]
  exact isBefore

theorem settleAll_append
    (first second : List Item)
    (slot : Option Operation) :
    settleAll accepts (first ++ second) slot =
      settleAll accepts second (settleAll accepts first slot) :=
  List.foldl_append ..

theorem settle_of_isIgnored {slot : Option Operation}
    (ignored : item.isIgnored accepts slot = true) :
    settle accepts slot item = slot := by
  simp [settle, ignored]

theorem settle_of_not_isIgnored {slot : Option Operation}
    (heeded : ¬ item.isIgnored accepts slot = true) :
    settle accepts slot item = item.verdict accepts := by
  simp [settle, heeded]

theorem wellFormed_of_not_isIgnored {slot : Option Operation}
    {operation : Operation}
    (heeded :
      ¬ (Item.report operation).isIgnored accepts slot = true) :
    operation.IsWellFormed := by
  by_contra malformed
  exact heeded (by simp [isIgnored, malformed])

/-- What is tracked after an item was tracked before or just reported. -/
theorem settle_eq_some
    {slot : Option Operation}
    {operation : Operation}
    (settled : settle accepts slot item = some operation) :
    slot = some operation ∧ item.isIgnored accepts slot = true ∨
      item = .report operation := by
  by_cases ignored : item.isIgnored accepts slot = true
  · rw [settle_of_isIgnored ignored] at settled
    exact .inl ⟨settled, ignored⟩
  · rw [settle_of_not_isIgnored ignored] at settled
    cases item with
    | deletion id => cases settled
    | report reported =>
        simp only [Item.verdict] at settled
        split at settled
        · cases settled
          exact .inr rfl
        · cases settled

/--
What is tracked after items about an operation was reported, before them or
among them, and has not been deleted since.
-/
theorem exists_report_of_settleAll
    {items : List Item}
    {slot : Option Operation}
    {operation : Operation}
    (ends : settleAll accepts items slot = some operation) :
    (slot = some operation ∧ ∀ id, Item.deletion id ∉ items) ∨
      ∃ before since,
        items = before ++ .report operation :: since ∧
          ∀ id, Item.deletion id ∉ since := by
  induction items generalizing slot with
  | nil => exact .inl ⟨ends, fun _ => List.not_mem_nil⟩
  | cons item rest inductionHypothesis =>
      have restEnds :
          settleAll accepts rest (settle accepts slot item) =
            some operation := ends
      rcases inductionHypothesis restEnds with
        ⟨settled, undeleted⟩ | ⟨before, since, rfl, undeleted⟩
      · rcases settle_eq_some settled with ⟨tracked, ignored⟩ | rfl
        · refine .inl ⟨tracked, ?_⟩
          intro id member
          rcases List.mem_cons.1 member with rfl | later
          · cases ignored
          · exact undeleted id later
        · exact .inr ⟨[], rest, rfl, undeleted⟩
      · exact .inr ⟨item :: before, since, rfl, undeleted⟩

/-- What is ignored for one report is ignored for those that cover it. -/
theorem isIgnored_of_covers {later earlier : Operation}
    (covers : later.Covers earlier)
    (ignored : item.isIgnored accepts (some earlier) = true) :
    item.isIgnored accepts (some later) = true := by
  cases item with
  | deletion id => exact ignored
  | report operation =>
      simp only [isIgnored, Option.any_some, Bool.or_eq_true,
        Bool.and_eq_true, decide_eq_true_eq,
        Operation.sameContent_iff] at ignored ⊢
      rcases ignored with malformed | older | ⟨accepted, same⟩
      · exact .inl malformed
      · exact .inr (.inl (Int64.lt_of_lt_of_le older covers.version_le))
      · rcases covers with newer | equal
        · rw [Operation.version_eq_of_amounts same] at newer
          exact .inr (.inl newer)
        · exact .inr (.inr ⟨accepted, equal.symm.trans same⟩)

/-- What is ignored where nothing is tracked is always ignored. -/
theorem isIgnored_of_none
    (ignored : item.isIgnored accepts none = true)
    (slot : Option Operation) :
    item.isIgnored accepts slot = true := by
  cases item with
  | deletion id => exact ignored
  | report operation =>
      simp only [isIgnored, Option.any_none, Bool.or_false] at ignored
      simp [isIgnored, ignored]

/-- A report that is heeded somewhere is covered wherever it is settled. -/
theorem settle_covers_of_heeded {slot other : Option Operation}
    {operation : Operation}
    (heeded : ¬ item.isIgnored accepts slot = true)
    (verdict : item.verdict accepts = some operation) :
    ∃ later,
      settle accepts other item = some later ∧
        later.Covers operation := by
  by_cases ignored : item.isIgnored accepts other = true
  · rw [settle_of_isIgnored ignored]
    cases item with
    | deletion id => cases ignored
    | report reported =>
        have accepted : accepts reported = true := by
          simp only [Item.verdict] at verdict
          split at verdict
          · assumption
          · cases verdict
        have same : reported = operation := by
          simpa [Item.verdict, accepted] using verdict
        subst same
        cases other with
        | none => exact (heeded (isIgnored_of_none ignored slot)).elim
        | some existing =>
            refine ⟨existing, rfl, ?_⟩
            have wellFormed := wellFormed_of_not_isIgnored heeded
            simp only [isIgnored, wellFormed, decide_true, Bool.not_true,
              Option.any_some, Bool.false_or, Bool.or_eq_true,
              decide_eq_true_eq, accepted, Bool.true_and,
              Operation.sameContent_iff] at ignored
            exact ignored.imp id Eq.symm
  · rw [settle_of_not_isIgnored ignored, verdict]
    exact ⟨operation, rfl, .refl operation⟩

/-- An accepted report with a flow is covered wherever it is settled. -/
theorem settle_covers_report
    {operation : Operation}
    (wellFormed : operation.IsWellFormed)
    (accepted : accepts operation = true)
    (slot : Option Operation) :
    ∃ later,
      settle accepts slot (.report operation) = some later ∧
        later.Covers operation := by
  have heeded :
      ¬ (Item.report operation).isIgnored accepts none = true := by
    simp [isIgnored, wellFormed]
  have verdict :
      (Item.report operation).verdict accepts = some operation := by
    simp [Item.verdict, accepted]
  exact settle_covers_of_heeded heeded verdict

/--
A report that items leave tracked is covered after the same items whatever was
tracked before, unless they only kept it.
-/
theorem covers_settleAll {items : List Item}
    {slot : Option Operation} {operation : Operation}
    (ends : settleAll accepts items slot = some operation)
    (other : Option Operation)
    (starts :
      slot = some operation →
      ∃ later, other = some later ∧ later.Covers operation) :
    ∃ later,
      settleAll accepts items other = some later ∧
        later.Covers operation := by
  induction items generalizing slot other with
  | nil => exact starts ends
  | cons item rest inductionHypothesis =>
      have restEnds :
          settleAll accepts rest (settle accepts slot item) =
            some operation := ends
      refine inductionHypothesis restEnds (settle accepts other item) ?_
      intro settled
      by_cases ignored : item.isIgnored accepts slot = true
      · rw [settle_of_isIgnored ignored] at settled
        obtain ⟨later, otherShape, covers⟩ := starts settled
        subst settled otherShape
        rw [settle_of_isIgnored (isIgnored_of_covers covers ignored)]
        exact ⟨later, rfl, covers⟩
      · rw [settle_of_not_isIgnored ignored] at settled
        exact settle_covers_of_heeded ignored settled

/-- Going through items for the second time changes nothing. -/
theorem settleAll_settleAll (items : List Item)
    (slot : Option Operation) :
    settleAll accepts items (settleAll accepts items slot) =
      settleAll accepts items slot := by
  -- The last item is either ignored in the first pass, and then the items
  -- before it settle the matter, or its verdict is what the second pass
  -- starts from.
  induction items using List.reverseRecOn generalizing slot with
  | nil => rfl
  | append_singleton earlier item inductionHypothesis =>
      simp only [settleAll_append]
      generalize before : settleAll accepts earlier slot = first
      have kept : settleAll accepts earlier first = first := by
        rw [← before]
        exact inductionHypothesis slot
      change
        settle accepts
            (settleAll accepts earlier (settle accepts first item)) item =
          settle accepts first item
      by_cases ignored : item.isIgnored accepts first = true
      · rw [settle_of_isIgnored ignored, kept, settle_of_isIgnored ignored]
      · rw [settle_of_not_isIgnored ignored]
        generalize again :
          settleAll accepts earlier (item.verdict accepts) = second
        by_cases ignoredAgain : item.isIgnored accepts second = true
        · rw [settle_of_isIgnored ignoredAgain]
          cases second with
          | none => exact (ignored (isIgnored_of_none ignoredAgain _)).elim
          | some operation =>
              by_contra different
              obtain ⟨later, firstShape, covers⟩ :=
                covers_settleAll again slot
                  fun same => (different same.symm).elim
              rw [before] at firstShape
              subst firstShape
              exact ignored (isIgnored_of_covers covers ignoredAgain)
        · exact settle_of_not_isIgnored ignoredAgain

end Event.Item

end BackupHistory
