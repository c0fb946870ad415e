import BackupHistory.Proofs.Ledger.Listening
import BackupHistory.Proofs.Resync

namespace BackupHistory

/-!
# The course of sessions

A follower does nothing but ingest, one after another, what its sessions
deliver: a session that fails before it has fetched delivers nothing, one whose
stream fails delivers what came before the failure, and whatever has been
ingested stays. Each session begins one delay after the one before it, however
that one ended. `Follower.Replays` says so of all beginnings of sessions, and
`replays_log` is the main statement.
-/

namespace Ledger

/-- The changes that events make, one event after another. -/
def changesAlong (ledger : Ledger) (events : List Event) : List Change :=
  along changesOf ledger (events.map .ingest)

theorem performAll_map_ingest (ledger : Ledger) (events : List Event) :
    ledger.performAll (events.map .ingest) = ledger.ingestAll events :=
  List.foldl_map

theorem changesAlong_append (ledger : Ledger) (first second : List Event) :
    ledger.changesAlong (first ++ second) =
      ledger.changesAlong first ++
        (ledger.ingestAll first).changesAlong second := by
  unfold changesAlong
  rw [List.map_append, along_append, performAll_map_ingest]

end Ledger

/-- A session in which the change stream or the operations are not obtained. -/
def Session.HasFailed : Session → Prop
  | .refused => True
  | .unfetched => True
  | .served _ _ => False

theorem Session.HasFailed.delivered_eq_nil
    {session : Session}
    (failed : session.HasFailed)
    (selector : Selector) :
    session.delivered selector = [] := by
  cases session with
  | refused => rfl
  | unfetched => rfl
  | served fetched stream => exact failed.elim

/-- What comes after a failure of a stream is not delivered. -/
theorem StreamItem.delivered_append_failure
    (heard unheard : List StreamItem) :
    delivered (heard ++ .failure :: unheard) = delivered heard := by
  induction heard with
  | nil => rfl
  | cons item rest inductionHypothesis =>
      cases item with
      | failure => rfl
      | event change =>
          exact congrArg (List.cons change) inductionHypothesis

namespace Follower

/-- Receiving a stream adds the changes that its events make. -/
theorem changes_receive
    (selector : Selector)
    (follower : Follower)
    (stream : List StreamItem) :
    (follower.receive selector stream).changes =
      follower.changes ++
        follower.ledger.changesAlong
          ((StreamItem.delivered stream).filterMap
            (Event.scope? selector)) := by
  induction stream generalizing follower with
  | nil => exact (List.append_nil _).symm
  | cons item rest inductionHypothesis =>
      cases item with
      | failure => exact (List.append_nil _).symm
      | event event =>
          unfold receive StreamItem.delivered
          cases shape : event.scope? selector with
          | none =>
              rw [List.filterMap_cons_none shape]
              exact inductionHypothesis follower
          | some left =>
              rw [List.filterMap_cons_some shape]
              exact
                (inductionHypothesis (follower.ingest left)).trans
                  (List.append_assoc ..)

/-- Attending a session makes the changes of the events that it delivers. -/
theorem changes_attend
    (selector : Selector)
    (ledger : Ledger)
    (session : Session) :
    (attend selector ⟨ledger, []⟩ session).changes =
      ledger.changesAlong (session.delivered selector) := by
  cases session with
  | refused => rfl
  | unfetched => rfl
  | served fetched stream =>
      exact changes_receive selector
        (ingest ⟨ledger, []⟩ (.created fetched)) stream

/-- A follower attends sessions that deliver the same alike. -/
theorem attend_eq_of_delivered
    (selector : Selector)
    (ledger : Ledger)
    {first second : Session}
    (same : first.delivered selector = second.delivered selector) :
    attend selector ⟨ledger, []⟩ first =
      attend selector ⟨ledger, []⟩ second := by
  have ledgers := ledger_attend selector ⟨ledger, []⟩ first
  rw [same, ← ledger_attend] at ledgers
  have changes := changes_attend selector ledger first
  rw [same, ← changes_attend] at changes
  generalize attend selector ⟨ledger, []⟩ first = left at *
  generalize attend selector ⟨ledger, []⟩ second = right at *
  cases left
  cases right
  cases ledgers
  cases changes
  rfl

/-- Beginnings of sessions that are read off a replay of what these deliver. -/
structure Replays
    (selector : Selector)
    (delay : Nat)
    (ledger : Ledger)
    (sessions : List Session) : Prop where
  /-- Every session is followed by another one. -/
  length_log :
    (log selector delay ledger sessions).length = sessions.length + 1
  /-- A delay after a session began the next one does, however it ended. -/
  millis_eq :
    ∀ {count entry},
      (log selector delay ledger sessions)[count]? = some entry →
      entry.millis = count * delay
  /-- The ledger has ingested what the sessions before have delivered. -/
  ledger_eq :
    ∀ {count entry},
      (log selector delay ledger sessions)[count]? = some entry →
      entry.ledger =
        ledger.ingestAll (delivered selector (sessions.take count))
  /-- The changes up to a beginning are those that this has made, in order. -/
  changes_eq :
    ∀ {count},
      count ≤ sessions.length →
      ((log selector delay ledger sessions).take (count + 1)).flatMap
          Entry.changes =
        ledger.changesAlong (delivered selector (sessions.take count))
  /-- A session hands over to the next one what it delivers itself. -/
  next :
    ∀ {count session before after},
      sessions[count]? = some session →
      (log selector delay ledger sessions)[count]? = some before →
      (log selector delay ledger sessions)[count + 1]? = some after →
      after.millis = before.millis + delay ∧
        after.ledger =
          before.ledger.ingestAll (session.delivered selector) ∧
        after.changes =
          before.ledger.changesAlong (session.delivered selector)
  /-- A session that fails before it has fetched changes nothing. -/
  failed :
    ∀ {count session before after},
      sessions[count]? = some session →
      session.HasFailed →
      (log selector delay ledger sessions)[count]? = some before →
      (log selector delay ledger sessions)[count + 1]? = some after →
      after.ledger = before.ledger ∧ after.changes = []
  /-- What a stream has after a failure makes no difference to any session. -/
  unheard :
    ∀ {earlier fetched heard rest later},
      sessions =
        earlier ++ .served fetched (heard ++ .failure :: rest) :: later →
      log selector delay ledger sessions =
        log selector delay ledger
          (earlier ++ .served fetched heard :: later)

section Run

variable {selector : Selector} {delay : Nat}

theorem length_run
    (now : Nat)
    (follower : Follower)
    (sessions : List Session) :
    (run selector delay now follower sessions).length =
      sessions.length + 1 := by
  induction sessions generalizing now follower with
  | nil => rfl
  | cons session rest inductionHypothesis =>
      exact congrArg Nat.succ (inductionHypothesis ..)

theorem run_head
    (now : Nat)
    (follower : Follower)
    (sessions : List Session) :
    (run selector delay now follower sessions)[0]? =
      some ⟨now, follower.changes, follower.ledger⟩ := by
  cases sessions <;> rfl

/-- A session hands over to the next one what it delivers. -/
theorem next_of_run
    {now : Nat}
    {follower : Follower}
    {sessions : List Session}
    {count : Nat}
    {session : Session}
    {before after : Entry}
    (attended : sessions[count]? = some session)
    (begins :
      (run selector delay now follower sessions)[count]? = some before)
    (follows :
      (run selector delay now follower sessions)[count + 1]? =
        some after) :
    after.millis = before.millis + delay ∧
      after.ledger =
        before.ledger.ingestAll (session.delivered selector) ∧
      after.changes =
        before.ledger.changesAlong (session.delivered selector) := by
  induction sessions generalizing now follower count with
  | nil => cases attended
  | cons first rest inductionHypothesis =>
      cases count with
      | zero =>
          cases attended
          cases begins
          obtain rfl := Option.some.inj ((run_head ..).symm.trans follows)
          exact ⟨rfl, ledger_attend selector ⟨follower.ledger, []⟩ session,
            changes_attend selector follower.ledger session⟩
      | succ count => exact inductionHypothesis attended begins follows

/-- Sessions that deliver the same in one place begin alike everywhere. -/
theorem run_eq_of_delivered
    (now : Nat)
    (follower : Follower)
    (earlier later : List Session)
    {first second : Session}
    (same : first.delivered selector = second.delivered selector) :
    run selector delay now follower (earlier ++ first :: later) =
      run selector delay now follower (earlier ++ second :: later) := by
  induction earlier generalizing now follower with
  | nil =>
      have alike := attend_eq_of_delivered selector follower.ledger same
      simp only [List.nil_append, run, alike]
  | cons session rest inductionHypothesis =>
      exact congrArg (List.cons _) (inductionHypothesis ..)

end Run

theorem delivered_take_succ
    (selector : Selector)
    {sessions : List Session}
    {count : Nat}
    {session : Session}
    (attended : sessions[count]? = some session) :
    delivered selector (sessions.take (count + 1)) =
      delivered selector (sessions.take count) ++
        session.delivered selector := by
  unfold delivered
  rw [List.take_add_one, attended, List.flatMap_append]
  simp

section Log

variable {selector : Selector} {delay : Nat} {ledger : Ledger}
  {sessions : List Session}

/-- The beginnings up to one, from what each session hands over to the next. -/
theorem replayed_log
    {count : Nat}
    (within : count ≤ sessions.length) :
    ∃ entry,
      (log selector delay ledger sessions)[count]? = some entry ∧
        entry.millis = count * delay ∧
        entry.ledger =
          ledger.ingestAll (delivered selector (sessions.take count)) ∧
        ((log selector delay ledger sessions).take (count + 1)).flatMap
            Entry.changes =
          ledger.changesAlong
            (delivered selector (sessions.take count)) := by
  induction count with
  | zero =>
      refine ⟨⟨0, [], ledger⟩, run_head .., (Nat.zero_mul delay).symm, rfl,
        ?_⟩
      rw [List.take_add_one, log, run_head]
      rfl
  | succ count inductionHypothesis =>
      obtain ⟨before, begins, millis, isLedger, changes⟩ :=
        inductionHypothesis (Nat.le_of_succ_le within)
      have attended := List.getElem?_eq_getElem within
      obtain ⟨after, follows, ingested⟩ :=
        exists_entry_of_run selector delay 0 ⟨ledger, []⟩ within
      obtain ⟨later, _, made⟩ := next_of_run attended begins follows
      refine ⟨after, follows, ?_, ingested, ?_⟩
      · rw [later, millis, Nat.succ_mul]
      · rw [log] at begins changes ⊢
        rw [List.take_add_one, follows, List.flatMap_append, changes,
          delivered_take_succ selector attended,
          Ledger.changesAlong_append, ← isLedger, ← made]
        simp

end Log

/--
Whatever the sessions are and whatever the ledger has been, each begins with the
ledger and after the changes that come of ingesting, one after another, what the
sessions before it have delivered, at the time that as many delays make.
-/
theorem replays_log
    (selector : Selector)
    (delay : Nat)
    (ledger : Ledger)
    (sessions : List Session) :
    Replays selector delay ledger sessions := by
  have length :
      (log selector delay ledger sessions).length = sessions.length + 1 :=
    length_run 0 ⟨ledger, []⟩ sessions
  have replayed {count : Nat} {entry : Entry}
      (begins :
        (log selector delay ledger sessions)[count]? = some entry) :
      entry.millis = count * delay ∧
        entry.ledger =
          ledger.ingestAll (delivered selector (sessions.take count)) := by
    obtain ⟨within, _⟩ := List.getElem?_eq_some_iff.1 begins
    have isCount : count ≤ sessions.length :=
      Nat.le_of_lt_succ (Nat.lt_of_lt_of_eq within length)
    obtain ⟨same, isSame, millis, isLedger, _⟩ :=
      @replayed_log selector delay ledger sessions count isCount
    obtain rfl := Option.some.inj (begins.symm.trans isSame)
    exact ⟨millis, isLedger⟩
  constructor
  case length_log => exact length
  case millis_eq => exact fun begins => (replayed begins).1
  case ledger_eq => exact fun begins => (replayed begins).2
  case changes_eq =>
    intro count within
    obtain ⟨_, _, _, _, changes⟩ := replayed_log within
    exact changes
  case next => exact next_of_run
  case failed =>
    intro count session before after attended failed begins follows
    obtain ⟨_, handedOver, made⟩ := next_of_run attended begins follows
    rw [failed.delivered_eq_nil] at handedOver made
    exact ⟨handedOver, made⟩
  case unheard =>
    rintro earlier fetched heard rest later rfl
    refine run_eq_of_delivered 0 ⟨ledger, []⟩ earlier later ?_
    simp only [Session.delivered, StreamItem.delivered_append_failure]

end Follower

end BackupHistory
