import BackupHistory.Proofs.Ledger.Report

namespace BackupHistory

/-!
# Events that come again

A backend that reconnects delivers again what it has delivered before. An event
that said one thing about an operation at most has settled the operations that
it mentions, and as long as nothing else is said about them it has nothing left
to change: it passes without a trace. The main statement is
`ingest_again_eq`.
-/

namespace Event.Item

variable {accepts : Operation → Bool}

/-- An item that comes again settles nothing anew. -/
theorem settle_settle (item : Item) (slot : Option Operation) :
    settle accepts (settle accepts slot item) item =
      settle accepts slot item :=
  settleAll_settleAll [item] slot

/-- An item that shares its operation with no other is all about it. -/
theorem about_eq_singleton
    {items : List Item}
    (distinct : (items.map target).Nodup)
    {item : Item}
    (member : item ∈ items) :
    about item.target items = [item] := by
  obtain ⟨earlier, later, rfl⟩ := List.append_of_mem member
  rw [List.map_append, List.map_cons, List.nodup_middle,
    List.nodup_cons, List.mem_append, not_or] at distinct
  obtain ⟨⟨notEarlier, notLater⟩, _⟩ := distinct
  have nothing {others : List Item}
      (unmentioned : item.target ∉ others.map target) :
      about item.target others = [] :=
    about_eq_nil fun other isOther same =>
      unmentioned (same ▸ List.mem_map_of_mem isOther)
  rw [about_append, nothing notEarlier, about_cons_of_target rfl,
    nothing notLater, List.nil_append]

end Event.Item

namespace Ledger

/-- An event has settled what is tracked if each of its items would leave it. -/
def HasSettled (ledger : Ledger) (event : Event) : Prop :=
  ∀ item ∈ event.items,
    item.settle ledger.accepts (ledger.operation? item.target) =
      ledger.operation? item.target

section Settled

variable {ledger : Ledger} {event : Event}

/-- An event that speaks once settles every operation that it mentions. -/
theorem Consistent.hasSettled_ingest
    (consistent : ledger.Consistent)
    (once : event.SpeaksOnce) :
    (ledger.ingest event).ledger.HasSettled event := by
  have accepts :
      (ledger.ingest event).ledger.accepts = ledger.accepts :=
    accepts_perform consistent (.ingest event)
  intro item member
  rw [accepts]
  rcases once.deletions_or_nodup with deletions | distinct
  · obtain ⟨_, refreshed⟩ := consistent.indexed.ingested event
    have mentioned : item.target ∈ event.items.map Event.Item.target :=
      List.mem_map_of_mem member
    have untracked :
        (ledger.ingest event).ledger.operation? item.target = none := by
      unfold operation?
      rw [refreshed.tracked, Batch.apply_eq_foldl]
      exact Batch.untracked_of_deletions consistent.indexed deletions
        mentioned
    obtain ⟨id, rfl⟩ := deletions item member
    rw [untracked]
    rfl
  · have settled :
        (ledger.ingest event).ledger.operation? item.target =
          item.settle ledger.accepts (ledger.operation? item.target) := by
      rw [consistent.operation?_ingest,
        Event.Item.about_eq_singleton distinct member]
      rfl
    rw [settled]
    exact item.settle_settle _

/-- What an event has settled stays so until its operations are mentioned. -/
theorem Consistent.hasSettled_ingestAll
    (consistent : ledger.Consistent)
    (settled : ledger.HasSettled event)
    {between : List Event}
    (unmentioned :
      ∀ item ∈ Event.itemsOf between,
        item.target ∉ event.items.map Event.Item.target) :
    (ledger.ingestAll between).HasSettled event := by
  obtain ⟨_, accepts⟩ := consistent.ingestAll between
  intro item member
  have nothing :
      Event.Item.about item.target (Event.itemsOf between) = [] := by
    apply Event.Item.about_eq_nil
    intro other isOther same
    exact unmentioned other isOther (same ▸ List.mem_map_of_mem member)
  have kept :
      (ledger.ingestAll between).operation? item.target =
        ledger.operation? item.target := by
    rw [consistent.operation?_ingestAll, nothing]
    rfl
  rw [accepts, kept]
  exact settled item member

/-- Items that settle nothing anew leave the whole batch as it is. -/
theorem HasSettled.apply_eq
    (settled : ledger.HasSettled event) :
    (Batch.start ledger).apply event = Batch.start ledger := by
  have unchanged :
      ∀ item ∈ event.items,
        (Batch.start ledger).applyItem item = Batch.start ledger := by
    intro item member
    apply Batch.applyItem_of_sameContent
    exact congrArg (Option.map Operation.amounts)
      (settled item member).symm
  rw [Batch.apply_eq_foldl]
  refine List.foldlRecOn event.items Batch.applyItem
    (motive := fun batch => batch = Batch.start ledger) rfl ?_
  rintro batch rfl item member
  exact unchanged item member

/-- An event that has settled what is tracked passes without a trace. -/
theorem HasSettled.ingest_eq
    (settled : ledger.HasSettled event) :
    ledger.ingest event = ⟨ledger, none, []⟩ := by
  unfold ingest
  rw [settled.apply_eq]
  rfl

end Settled

/--
After any actions on a new ledger, an event that deletes or reports no operation
more than once changes nothing when it comes again, as long as the events since
then have not mentioned its operations: nothing is reported, nobody is told and
the ledger is the same in all its parts, counts included. The reports may come
as created first and as updated later or the other way round.
-/
theorem ingest_again_eq
    (accepts : Operation → Bool)
    (actions : List Action)
    {event again : Event}
    (once : event.SpeaksOnce)
    (sameItems : again.items = event.items)
    {between : List Event}
    (unmentioned :
      ∀ item ∈ Event.itemsOf between,
        item.target ∉ event.items.map Event.Item.target) :
    let before := (new accepts).performAll actions
    let ledger := (before.ingest event).ledger.ingestAll between
    ledger.ingest again = ⟨ledger, none, []⟩ := by
  intro before ledger
  obtain ⟨consistent, _⟩ := (consistent_new accepts).performAll actions
  have settled : ledger.HasSettled event :=
    (consistent.ingest event).hasSettled_ingestAll
      (consistent.hasSettled_ingest once) unmentioned
  have settledAgain : ledger.HasSettled again := by
    unfold HasSettled
    rw [sameItems]
    exact settled
  exact settledAgain.ingest_eq

/--
An update that brings a new report, an old one, one without a flow and one that
ends the tracking of its operation comes again, as created, after the flow has
gone on.
-/
theorem ingest_again_mixedReports :
    let cancelled : Operation :=
      { Operation.checkReport 2 2 "nightly" with
        status := .systemCancelled }
    let reports : List Operation :=
      [.checkReport 4 1 "nightly", .checkReport 1 4 "weekly",
        .checkReport 3 1 "", cancelled]
    let between : List Event :=
      [.created [.checkReport 5 1 "nightly"], .deleted [5]]
    let before :=
      trackingRemarkable.ingestAll
        [.created [.checkReport 1 5 "nightly", .checkReport 2 1 "nightly"]]
    let ledger :=
      (before.ingest (.updated reports)).ledger.ingestAll between
    (Event.updated reports).SpeaksOnce ∧
      (∀ item ∈ Event.itemsOf between,
        item.target ∉
          (Event.updated reports).items.map Event.Item.target) ∧
      ledger.ingest (.created reports) = ⟨ledger, none, []⟩ := by
  intro cancelled reports between before ledger
  have once : (Event.updated reports).SpeaksOnce := by decide
  have unmentioned :
      ∀ item ∈ Event.itemsOf between,
        item.target ∉
          (Event.updated reports).items.map Event.Item.target := by
    decide
  have sameItems :
      (Event.created reports).items = (Event.updated reports).items :=
    rfl
  exact ⟨once, unmentioned,
    ingest_again_eq (fun operation => !operation.isUnremarkable)
      [.ingest (.created
        [.checkReport 1 5 "nightly", .checkReport 2 1 "nightly"])]
      once sameItems unmentioned⟩

end Ledger

end BackupHistory
