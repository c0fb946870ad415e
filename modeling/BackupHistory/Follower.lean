import BackupHistory.Ledger.Ingest
import BackupHistory.Selector

namespace BackupHistory

/-!
# Following a backend

A follower keeps a ledger current in sessions. A session subscribes to the
change stream of the backend, fetches the operations within a selector and then
applies the events of the stream, scoped by the selector. Subscribing comes
first, so that no change made while fetching is lost. A session ends with its
stream or at the first failure, and the next one begins after a delay.
-/

/-- What a change stream delivers. -/
inductive StreamItem where
  | event (event : Event)
  | failure
  deriving Repr, DecidableEq

/-- What a backend answers in one session. -/
inductive Session where
  /-- The change stream cannot be subscribed to. -/
  | refused
  /-- The operations cannot be fetched; the stream is dropped unread. -/
  | unfetched
  | served (fetched : List Operation) (stream : List StreamItem)
  deriving Repr, DecidableEq

namespace Session

/-- A session with a backend that holds the given operations. -/
def ofBackend
    (selector : Selector)
    (held : List Operation)
    (stream : List StreamItem) :
    Session :=
  .served (held.filter selector.accepts) stream

end Session

/-- A ledger that is kept current, and the changes since a point of time. -/
structure Follower where
  ledger : Ledger
  changes : List Change

namespace Follower

def ingest (follower : Follower) (event : Event) : Follower :=
  let outcome := follower.ledger.ingest event
  { ledger := outcome.ledger
    changes := follower.changes ++ outcome.change.toList }

/-- Apply a change stream up to its first failure. -/
def receive (selector : Selector) (follower : Follower) :
    List StreamItem → Follower
  | [] => follower
  | .failure :: _ => follower
  | .event event :: rest =>
      match event.scope? selector with
      | none => receive selector follower rest
      | some kept => receive selector (follower.ingest kept) rest

def attend (selector : Selector) (follower : Follower) :
    Session → Follower
  | .refused => follower
  | .unfetched => follower
  | .served fetched stream =>
      receive selector (follower.ingest (.created fetched)) stream

/-- The beginning of a session: when, after which changes, and the ledger. -/
structure Entry where
  millis : Nat
  changes : List Change
  ledger : Ledger

/--
The beginnings of sessions, one after another, and of the one after the last.

Only the delay between sessions takes time.
-/
def run
    (selector : Selector)
    (delay now : Nat)
    (follower : Follower) :
    List Session → List Entry
  | [] => [⟨now, follower.changes, follower.ledger⟩]
  | session :: rest =>
      ⟨now, follower.changes, follower.ledger⟩ ::
        run selector delay (now + delay)
          (attend selector ⟨follower.ledger, []⟩ session) rest

/-- The beginnings of all sessions that follow from a ledger. -/
def log
    (selector : Selector)
    (delay : Nat)
    (ledger : Ledger)
    (sessions : List Session) :
    List Entry :=
  run selector delay 0 ⟨ledger, []⟩ sessions

end Follower

end BackupHistory
