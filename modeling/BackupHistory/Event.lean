import BackupHistory.Json.Reader
import BackupHistory.Json.Writer
import BackupHistory.Operation.Decoding

namespace BackupHistory

/-!
# Change events

The backup engine announces changes of its operation log in batches: operations
that were created, operations that were updated and the ids of operations that
were deleted. An event is written as a kind and its payload. A payload that
stands before the kind is held until the kind is known.
-/

/-- What happened to the operations of an event. -/
inductive Event.Kind where
  | created
  | updated
  | deleted
  deriving Repr, DecidableEq

def Event.Kind.name : Event.Kind → String
  | .created => "created"
  | .updated => "updated"
  | .deleted => "deleted"

def Event.Kind.all : List Event.Kind :=
  [.created, .updated, .deleted]

/-- A batch of changes. -/
inductive Event where
  | created (operations : List Operation)
  | updated (operations : List Operation)
  | deleted (ids : List OperationId)
  deriving Repr, DecidableEq

namespace Event

def kind : Event → Kind
  | .created _ => .created
  | .updated _ => .updated
  | .deleted _ => .deleted

/-- The count of operations that an event is about. -/
def length : Event → Nat
  | .created operations => operations.length
  | .updated operations => operations.length
  | .deleted ids => ids.length

def isEmpty (event : Event) : Bool :=
  event.length == 0

def payloadJson : Event → Json
  | .created operations => .array (operations.map Operation.toJson)
  | .updated operations => .array (operations.map Operation.toJson)
  | .deleted ids => .array (ids.map Json.ofInt64)

def toJson (event : Event) : Json :=
  .ofMembers
    [("event", .ofString event.kind.name), ("payload", event.payloadJson)]

def toText (event : Event) : String :=
  event.toJson.compactText

/-- The event of a kind with a given payload. -/
def ofPayload?
    (passage : Json.Passage)
    (kind : Kind)
    (payload : Json) :
    Option Event := do
  let elements ← payload.toElements?
  match kind with
  | .created =>
      some (.created
        (← elements.mapM (Operation.ofJson? passage.inside)))
  | .updated =>
      some (.updated
        (← elements.mapM (Operation.ofJson? passage.inside)))
  | .deleted => some (.deleted (← elements.mapM Json.toInt64?))

/-- The event of a kind with a payload that was held until it was known. -/
def ofHeldPayload?
    (passage : Json.Passage)
    (kind : Kind)
    (payload : Json) :
    Option Event :=
  if passage.inside.accepts payload then
    ofPayload? .held kind payload
  else
    none

def isPartName (name : Json.Text) : Bool :=
  name == some "event" || name == some "payload"

/--
An event from a value read from a text.

In an object the kind is written in any spelling of a name, in an array only as
a plain string.
-/
def ofJson? (value : Json) : Option Event :=
  let passage := Json.Passage.direct Json.nestingLimit
  match value with
  | .object members =>
      if Json.allNamed members then
        match members.filter (fun entry => isPartName entry.1) with
        | [(some "event", tag), (some "payload", payload)] => do
            let kind ← tag.toNamed? passage Kind.name Kind.all
            ofPayload? passage.inside kind payload
        | [(some "payload", payload), (some "event", tag)] => do
            let kind ← tag.toNamed? passage Kind.name Kind.all
            ofHeldPayload? passage kind payload
        | _ => none
      else
        none
  | .array [tag, payload] => do
      let kind ← tag.toTag? passage Kind.name Kind.all
      ofPayload? passage.inside kind payload
  | _ => none

def read? (text : String) : Option Event :=
  (Json.read? text).bind ofJson?

end Event

end BackupHistory
