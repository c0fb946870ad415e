import BackupHistory.Proofs.Ledger.Report
import BackupHistory.Proofs.Publisher.Run
import BackupHistory.Proofs.Tree.Watching

namespace BackupHistory

/-!
# Publishers that lose no update

A publisher drops announcements before it reads the flows, and the ledger goes
on changing while a tree is built. `Published.Tracks` is the invariant of a run:
unless something is announced, what the publisher has read or shows is what the
ledger holds, and its memo can be trusted for the flows it has read, however old
these are. The main statement is `upToDate_run`.
-/

namespace Ledger

variable {ledger : Ledger} {id : SubscriptionId}

theorem isSubscribed_iff :
    ledger.isSubscribed id = true ↔ id ∈ ledger.listeners :=
  List.contains_iff_mem

/-- A subscription lasts until it or its ledger is ended. -/
theorem Indexed.isSubscribed_perform
    (indexed : ledger.Indexed)
    (subscribed : ledger.isSubscribed id = true)
    {action : Action}
    (undisposed : action ≠ .dispose)
    (kept : action ≠ .unsubscribe id) :
    (ledger.perform action).isSubscribed id = true := by
  rw [isSubscribed_iff] at subscribed ⊢
  cases action with
  | ingest event =>
      obtain ⟨progress, refreshed⟩ := indexed.ingested event
      have listeners :
          (ledger.ingest event).ledger.listeners = ledger.listeners :=
        refreshed.listeners.trans progress.listeners
      exact listeners ▸ subscribed
  | subscribe => exact List.mem_append_left _ subscribed
  | unsubscribe other =>
      have different : id ≠ other := by
        rintro rfl
        exact kept rfl
      exact List.mem_filter.2 ⟨subscribed, bne_iff_ne.2 different⟩
  | dispose => exact (undisposed rfl).elim

/-- A subscriber is told of every event that changes anything. -/
theorem Indexed.unchanged_or_told
    (indexed : ledger.Indexed)
    (subscribed : ledger.isSubscribed id = true)
    (event : Event) :
    (ledger.ingest event).ledger = ledger ∨
      (ledger.ingest event).notified.contains id = true := by
  cases reported : (ledger.ingest event).change with
  | none => exact .inl (indexed.ingest_of_change_eq_none reported).1
  | some change =>
      obtain ⟨_, _, notified⟩ := touched_of_change reported
      rw [notified]
      exact .inr subscribed

end Ledger

namespace Publisher.Phase

/-- What a publisher has made of the flows that it read last. -/
def Holds (arrangement : Arrangement) (read : List Flow) :
    Publisher.Phase → Prop
  | .building flows => flows = read
  | .publishing tree => tree = arrangement.build read
  | .ended => False
  | _ => True

/--
Whether the flows that count in a phase are the current ones.

A publisher that is about to read counts on no flows that it has.
-/
def CaughtUp (read shown current : List Flow) : Publisher.Phase → Prop
  | .waiting => shown = current
  | .building _
  | .publishing _ => read = current
  | _ => True

end Publisher.Phase

namespace Published

/-- Whether a publisher waits and nothing is announced to it. -/
def isIdle (state : Published) : Bool :=
  match state.publisher.phase, state.publisher.pending with
  | .waiting, 0 => true
  | _, _ => false

/--
Whether the tree of the current flows is published or will be.

A publisher that has not come to read the flows yet will read the current ones.
-/
def IsCurrent (state : Published) : Prop :=
  let current := state.publisher.arrangement.build state.ledger.flows
  match state.publisher.phase with
  | .waiting => state.publisher.published = current
  | .sleeping _
  | .draining
  | .reading => True
  | .building flows => flows = state.ledger.flows
  | .publishing tree => tree = current
  | .ended => False

/-- From any time on, steps can be taken until the current tree is shown. -/
def CatchesUp (arrangement : Arrangement) (state : Published) : Prop :=
  ∀ now,
    ∃ (times : List Nat) (last : Published),
      (now :: times).IsChain (· ≤ ·) ∧
        state.moveAll? (times.map .proceed) = some last ∧
        last.isIdle = true ∧
        last.publisher.published =
          arrangement.build state.ledger.flows

/--
How a publisher stands to the ledger whose flows it read last and to the one
whose tree it shows.
-/
structure Tracks
    (arrangement : Arrangement)
    (read shown : Ledger)
    (state : Published) : Prop where
  arranged : state.publisher.arrangement = arrangement
  consistent : read.Consistent
  since : ∃ actions, state.ledger = read.performAll actions
  subscribed :
    state.ledger.isSubscribed state.publisher.subscription = true
  memo : state.publisher.memo.Holds (read.Known arrangement.offset)
  published :
    state.publisher.published = arrangement.build shown.flows
  holds : state.publisher.phase.Holds arrangement read.flows
  caughtUp :
    state.publisher.pending = 0 →
    state.publisher.phase.CaughtUp read.flows shown.flows
      state.ledger.flows

section Tracks

variable {arrangement : Arrangement}
  {read shown : Ledger}
  {state next : Published}

/-- A publisher starts with the tree of the current flows. -/
theorem tracks_start
    {ledger : Ledger}
    (consistent : ledger.Consistent)
    (debounce : Nat) :
    let state := start arrangement debounce ledger
    Tracks arrangement state.ledger state.ledger state := by
  intro state
  have subscribed : state.ledger.Consistent :=
    consistent.perform .subscribe
  have fits := subscribed.fits_known arrangement.offset
  obtain ⟨memo, built, holds⟩ :=
    Arrangement.buildWith_eq_tree arrangement fits LeafMemo.holds_empty
  have isMemo : state.publisher.memo = memo :=
    congrArg Prod.snd built
  constructor
  case arranged => rfl
  case consistent => exact subscribed
  case since => exact ⟨[], rfl⟩
  case subscribed =>
    simp [state, start, Ledger.subscribe, Ledger.isSubscribed]
  case memo =>
    rw [isMemo]
    exact holds
  case published => rfl
  case holds => trivial
  case caughtUp =>
    intro _
    rfl

namespace Tracks

theorem ledgerConsistent
    (tracks : Tracks arrangement read shown state) :
    state.ledger.Consistent := by
  obtain ⟨actions, reached⟩ := tracks.since
  rw [reached]
  exact (tracks.consistent.performAll actions).1

/-- What a memo holds of the flows read last may be held of the current. -/
theorem memo_current
    (tracks : Tracks arrangement read shown state) :
    state.publisher.memo.Holds
      (state.ledger.Known arrangement.offset) := by
  obtain ⟨actions, reached⟩ := tracks.since
  rw [reached]
  exact tracks.memo.imp fun _ _ _ isKnown =>
    tracks.consistent.known_performAll arrangement.offset actions isKnown

theorem isCurrent
    (tracks : Tracks arrangement read shown state)
    (quiet : state.publisher.pending = 0) :
    state.IsCurrent := by
  have holds := tracks.holds
  have caughtUp := tracks.caughtUp quiet
  unfold IsCurrent
  rw [tracks.arranged, tracks.published]
  cases phase : state.publisher.phase with
  | waiting =>
      rw [phase] at caughtUp
      exact congrArg arrangement.build caughtUp
  | sleeping due => trivial
  | draining => trivial
  | reading => trivial
  | building flows =>
      rw [phase] at holds caughtUp
      exact holds.trans caughtUp
  | publishing tree =>
      rw [phase] at holds caughtUp
      exact holds.trans (congrArg arrangement.build caughtUp)
  | ended =>
      rw [phase] at holds
      exact holds.elim

theorem published_of_isIdle
    (tracks : Tracks arrangement read shown state)
    (isIdle : state.isIdle = true) :
    state.publisher.published =
      arrangement.build state.ledger.flows := by
  unfold Published.isIdle at isIdle
  split at isIdle
  next phase pending waiting quiet =>
    have isCurrent := tracks.isCurrent quiet
    unfold IsCurrent at isCurrent
    rw [waiting, tracks.arranged] at isCurrent
    exact isCurrent
  next => cases isIdle

/-- The ledger of a publisher may be used as long as it hears of changes. -/
theorem act
    (tracks : Tracks arrangement read shown state)
    (action : Ledger.Action)
    (undisposed : action ≠ .dispose)
    (kept : action ≠ .unsubscribe state.publisher.subscription)
    (pending : Nat)
    (told :
      pending = 0 →
      state.publisher.pending = 0 ∧
        (state.ledger.perform action).flows = state.ledger.flows) :
    Tracks arrangement read shown
      { ledger := state.ledger.perform action
        publisher := { state.publisher with pending := pending } } where
  arranged := tracks.arranged
  consistent := tracks.consistent
  since := by
    obtain ⟨actions, reached⟩ := tracks.since
    refine ⟨actions ++ [action], ?_⟩
    rw [reached]
    unfold Ledger.performAll
    rw [List.foldl_append]
    rfl
  subscribed :=
    tracks.ledgerConsistent.indexed.isSubscribed_perform
      tracks.subscribed undisposed kept
  memo := tracks.memo
  published := tracks.published
  holds := tracks.holds
  caughtUp := by
    intro quiet
    obtain ⟨quietBefore, sameFlows⟩ := told quiet
    rw [sameFlows]
    exact tracks.caughtUp quietBefore

/-- An event that changes anything is announced. -/
theorem ingest
    (tracks : Tracks arrangement read shown state)
    (event : Event) :
    Tracks arrangement read shown (state.ingest event).1 := by
  refine tracks.act (.ingest event) nofun nofun _ ?_
  intro quiet
  obtain ⟨quietBefore, untold⟩ := Nat.add_eq_zero_iff.1 quiet
  refine ⟨quietBefore, ?_⟩
  rcases tracks.ledgerConsistent.indexed.unchanged_or_told
      tracks.subscribed event with unchanged | told
  · exact congrArg Ledger.flows unchanged
  · rw [if_pos told] at untold
    cases untold

theorem subscribe (tracks : Tracks arrangement read shown state) :
    Tracks arrangement read shown
      { state with ledger := state.ledger.subscribe.1 } :=
  tracks.act .subscribe nofun nofun _ fun quiet => ⟨quiet, rfl⟩

theorem unsubscribe
    (tracks : Tracks arrangement read shown state)
    {id : SubscriptionId}
    (other : id ≠ state.publisher.subscription) :
    Tracks arrangement read shown
      { state with ledger := state.ledger.unsubscribe id } := by
  have kept :
      Ledger.Action.unsubscribe id ≠
        .unsubscribe state.publisher.subscription := by
    rintro ⟨⟩
    exact other rfl
  exact tracks.act (.unsubscribe id) nofun kept _ fun quiet => ⟨quiet, rfl⟩

/-- A step reads, publishes, or does no more than its phase asks for. -/
theorem proceed
    (tracks : Tracks arrangement read shown state)
    {now : Nat}
    (stepped : state.step? now = some next) :
    Tracks arrangement
      (if state.isRead (.proceed now) then state.ledger else read)
      (if state.isPublication (.proceed now) then read else shown)
      next := by
  have holds := tracks.holds
  have caughtUp := tracks.caughtUp
  unfold isRead isPublication
  cases advance_of_step? stepped with
  | take phase announced =>
      rw [phase]
      exact { tracks with holds := trivial, caughtUp := fun _ => trivial }
  | stop phase quiet unsubscribed =>
      rw [tracks.subscribed] at unsubscribed
      cases unsubscribed
  | wake phase passed =>
      rw [phase]
      exact { tracks with holds := trivial, caughtUp := fun _ => trivial }
  | drop phase announced =>
      have stays :
          state.publisher.phase.CaughtUp read.flows shown.flows
            state.ledger.flows := by
        rw [phase]
        trivial
      rw [phase]
      exact { tracks with caughtUp := fun _ => stays }
  | drained phase quiet =>
      rw [phase]
      exact { tracks with holds := trivial, caughtUp := fun _ => trivial }
  | read phase =>
      rw [phase]
      exact
        { tracks with
          consistent := tracks.ledgerConsistent
          since := ⟨[], rfl⟩
          memo := tracks.memo_current
          holds := rfl
          caughtUp := fun _ => rfl }
  | build phase built =>
      rw [phase] at holds caughtUp ⊢
      obtain rfl := holds
      -- The flows may be outdated, but the memo is for the ledger they are of.
      obtain ⟨after, isBuilt, afterHolds⟩ :=
        Arrangement.buildWith_eq_tree arrangement
          (tracks.consistent.fits_known arrangement.offset) tracks.memo
      have plain :=
        Arrangement.build_eq_tree arrangement
          tracks.consistent.distinct_flows
      rw [tracks.arranged, isBuilt, ← plain] at built
      cases built
      exact
        { tracks with
          memo := afterHolds
          holds := rfl
          caughtUp := caughtUp }
  | publish phase =>
      rw [phase] at holds caughtUp ⊢
      exact
        { tracks with
          published := holds
          holds := trivial
          caughtUp := caughtUp }

/-- A publisher is idle or it can go on sooner or later. -/
theorem isIdle_or_step?
    (tracks : Tracks arrangement read shown state)
    (now : Nat) :
    state.isIdle = true ∨
      ∃ later next, now ≤ later ∧ state.step? later = some next := by
  have holds := tracks.holds
  obtain ⟨ledger, publisher⟩ := state
  obtain ⟨_, debounce, subscription, pending, phase, memo, published,
    unseen⟩ := publisher
  have atOnce := Nat.le_refl now
  cases phase with
  | waiting =>
      cases pending with
      | zero => exact .inl rfl
      | succ pending => exact .inr ⟨now, _, atOnce, rfl⟩
  | sleeping due =>
      exact .inr ⟨max now due, _, Nat.le_max_left now due,
        if_pos (Nat.le_max_right now due)⟩
  | draining =>
      cases pending with
      | zero => exact .inr ⟨now, _, atOnce, rfl⟩
      | succ pending => exact .inr ⟨now, _, atOnce, rfl⟩
  | reading => exact .inr ⟨now, _, atOnce, rfl⟩
  | building flows => exact .inr ⟨now, _, atOnce, rfl⟩
  | publishing tree => exact .inr ⟨now, _, atOnce, rfl⟩
  | ended => exact holds.elim

/-- A publisher that is left alone comes to show the current flows. -/
theorem catchesUp
    (tracks : Tracks arrangement read shown state) :
    state.CatchesUp arrangement := by
  intro now
  induction bound : state.stepBound using Nat.strongRecOn
    generalizing read shown state now with
  | ind bound inductionHypothesis =>
      rcases tracks.isIdle_or_step? now with
        isIdle | ⟨later, next, isLater, stepped⟩
      · exact ⟨[], state, .singleton now, rfl, isIdle,
          tracks.published_of_isIdle isIdle⟩
      · have shorter := stepBound_lt_of_step? stepped
        rw [bound] at shorter
        obtain ⟨times, last, ordered, moved, isIdle, published⟩ :=
          inductionHypothesis _ shorter (tracks.proceed stepped) later rfl
        have first : state.move? (.proceed later) = some next := stepped
        refine ⟨later :: times, last, .cons_cons isLater ordered, ?_,
          isIdle, ?_⟩
        · exact (moveAll?_cons first _).trans moved
        · rw [← (advance_of_step? stepped).ledger_eq]
          exact published

/-- Whatever happens but an end of the ledger, a publisher keeps track. -/
theorem move
    (tracks : Tracks arrangement read shown state)
    {move : Move}
    (moved : state.move? move = some next)
    (undisposed : move ≠ .dispose) :
    Tracks arrangement
      (if state.isRead move then state.ledger else read)
      (if state.isPublication move then read else shown)
      next := by
  cases move with
  | proceed now => exact tracks.proceed moved
  | ingest event =>
      cases moved
      exact tracks.ingest event
  | subscribe =>
      cases moved
      exact tracks.subscribe
  | unsubscribe id =>
      simp only [move?] at moved
      by_cases own : id = state.publisher.subscription
      · rw [if_pos own] at moved
        cases moved
      · rw [if_neg own] at moved
        cases moved
        exact tracks.unsubscribe own
  | dispose => exact (undisposed rfl).elim

end Tracks

end Tracks

namespace Run

/-- What anybody can say of a publisher at a moment of a run. -/
structure UpToDate
    {first : Published}
    (run : Run first)
    (arrangement : Arrangement)
    (moment : Nat) : Prop where
  /-- The publisher shows the tree of the flows at the moment of a reading. -/
  published :
    (run.state moment).publisher.published =
      arrangement.build (run.state (run.shownFrom moment)).ledger.flows
  reading :
    run.shownFrom moment = 0 ∨
      (run.state (run.shownFrom moment)).isRead
          (run.move (run.shownFrom moment)) =
        true
  shownFrom_le : run.shownFrom moment ≤ moment
  forward :
    ∀ earlier ≤ moment, run.shownFrom earlier ≤ run.shownFrom moment
  /-- A publisher with nothing to do shows the tree of the current flows. -/
  idle :
    (run.state moment).isIdle = true →
    (run.state moment).publisher.published =
      arrangement.build (run.state moment).ledger.flows
  /-- A tree that is neither published nor to be published is announced. -/
  announced :
    (run.state moment).IsCurrent ∨
      0 < (run.state moment).publisher.pending
  catchesUp : (run.state moment).CatchesUp arrangement

variable {arrangement : Arrangement}
  {debounce : Nat}
  {ledger : Ledger}

/-- A publisher keeps track throughout a run that does not end its ledger. -/
theorem tracks
    (consistent : ledger.Consistent)
    (run : Run (start arrangement debounce ledger))
    {moment : Nat}
    (within : moment ≤ run.length)
    (undisposed : run.Undisposed moment) :
    Tracks arrangement
      (run.state (run.readBefore moment)).ledger
      (run.state (run.shownFrom moment)).ledger
      (run.state moment) := by
  induction moment with
  | zero =>
      unfold readBefore shownFrom
      rw [run.starts]
      exact tracks_start consistent debounce
  | succ moment inductionHypothesis =>
      have before :=
        inductionHypothesis (Nat.le_of_succ_le within)
          fun earlier isEarlier =>
            undisposed earlier (Nat.lt_succ_of_lt isEarlier)
      have after :=
        before.move (run.moves moment within)
          (undisposed moment (Nat.lt_succ_self moment))
      unfold readBefore shownFrom
      simpa only [apply_ite run.state, apply_ite Published.ledger] using after

end Run

/--
A publisher of a ledger that has come from any actions, in any run of moves of
its own and of others, shows the tree of the flows as they were at the start or
when it read them, and these moments never go backwards. Unless another tree is
announced, it shows or is about to publish the tree of the current flows, and
left alone it comes to show it in any case.
-/
theorem upToDate_run
    (accepts : Operation → Bool)
    (actions : List Ledger.Action)
    (arrangement : Arrangement)
    (debounce : Nat)
    (run :
      Run
        (start arrangement debounce
          ((Ledger.new accepts).performAll actions)))
    (moment : Nat)
    (within : moment ≤ run.length)
    (undisposed : run.Undisposed moment) :
    run.UpToDate arrangement moment := by
  obtain ⟨consistent, _⟩ :=
    (Ledger.consistent_new accepts).performAll actions
  have tracks := run.tracks consistent within undisposed
  constructor
  case published => exact tracks.published
  case reading => exact run.isRead_shownFrom moment
  case shownFrom_le =>
    exact Nat.le_trans (run.shownFrom_le_readBefore moment)
      (run.readBefore_le moment)
  case forward =>
    intro earlier isEarlier
    exact run.shownFrom_mono isEarlier
  case idle => exact tracks.published_of_isIdle
  case announced =>
    rcases Nat.eq_zero_or_pos (run.state moment).publisher.pending with
      quiet | announced
    · exact .inl (tracks.isCurrent quiet)
    · exact .inr announced
  case catchesUp => exact tracks.catchesUp

/-- The ledger changes in the sleep, before a reading and before a tree. -/
def burstMoves : List Move :=
  [.ingest (.created [.checkReport 1 1 "nightly"]),
    .proceed 0,
    .ingest (.created [.checkReport 2 1 "weekly"]),
    .proceed 10,
    .proceed 10,
    .proceed 10,
    .ingest (.deleted [2]),
    .proceed 10,
    .subscribe,
    .ingest (.updated [.checkReport 3 1 "weekly"]),
    .proceed 10,
    .proceed 10,
    .unsubscribe ⟨2⟩,
    .proceed 11,
    .proceed 21,
    .proceed 21,
    .proceed 21,
    .proceed 21,
    .proceed 21,
    .proceed 21]

/-- A run in which others use the ledger between steps of the publisher. -/
def burst :
    Run
      (start ⟨.repository, 0, .none⟩ 10
        (Ledger.trackingAll.performAll [])) :=
  .ofMoves _ burstMoves (by decide +kernel)

/-- The first tree lacks the last change, which makes the publisher go on. -/
theorem upToDate_burst :
    burst.Undisposed burst.length ∧
      burst.shownFrom 12 = 7 ∧
      (burst.state 12).publisher.pending = 2 ∧
      burst.shownFrom 20 = 17 ∧
      burst.UpToDate ⟨.repository, 0, .none⟩ 12 ∧
      (burst.state 20).publisher.published =
        Arrangement.build ⟨.repository, 0, .none⟩
          (burst.state 20).ledger.flows := by
  have undisposed : burst.Undisposed burst.length := by decide +kernel
  have undisposedBefore : burst.Undisposed 12 := by decide +kernel
  have before := upToDate_run _ _ _ _ burst 12 (by decide) undisposedBefore
  have last :=
    upToDate_run _ _ _ _ burst burst.length (Nat.le_refl _) undisposed
  exact ⟨undisposed, by decide +kernel, by decide +kernel,
    by decide +kernel, before, last.idle (by decide +kernel)⟩

end Published

end BackupHistory
