import BackupHistory.Event
import BackupHistory.Proofs.Json.Assembling
import BackupHistory.Proofs.Operation.Decoding

namespace BackupHistory.Event

/-!
# Reading events back

An event is read from the text that it is written as. A line that is accepted
may spell an event in other ways than the writer does: its members in another
order, members that no event has, an array of the fields. Writing the event
again gives the one spelling that stays as it is.
-/

/-- The payload of an event is read where it stands behind its kind. -/
theorem ofPayload?_payloadJson
    (event : Event)
    {passage : Json.Passage}
    (accepts : ∀ task : Task,
      passage.inside.inside.accepts task.toJson = true) :
    ofPayload? passage event.kind event.payloadJson = some event := by
  have operationsRead (operations : List Operation) :
      (operations.map Operation.toJson).mapM
          (Operation.ofJson? passage.inside) =
        some operations :=
    mapM_map_eq_some
      (fun operation => operation.ofJson?_toJson (accepts operation.task))
      operations
  cases event with
  | created operations =>
      have elementsRead := operationsRead operations
      simp [ofPayload?, kind, payloadJson, elementsRead]
  | updated operations =>
      have elementsRead := operationsRead operations
      simp [ofPayload?, kind, payloadJson, elementsRead]
  | deleted ids =>
      have elementsRead := mapM_map_eq_some Json.toInt64?_ofInt64 ids
      simp [ofPayload?, kind, payloadJson, elementsRead]

theorem ofJson?_toJson (event : Event) :
    ofJson? event.toJson = some event := by
  let passage := Json.Passage.direct Json.nestingLimit
  have kindRead :
      (Json.ofString event.kind.name).toNamed? passage Kind.name Kind.all =
        some event.kind := by
    apply Json.toNamed?_ofString (by decide)
    cases event.kind <;> decide
  have payloadRead :
      ofPayload? passage.inside event.kind event.payloadJson = some event :=
    event.ofPayload?_payloadJson fun task => task.isSound_toJson 121
  have split :
      ofJson? event.toJson =
        ((Json.ofString event.kind.name).toNamed? passage Kind.name
          Kind.all).bind fun kind =>
            ofPayload? passage.inside kind event.payloadJson :=
    rfl
  rw [split, kindRead, Option.bind_some, payloadRead]

/-- An event is read from the text that it is written as. -/
theorem read?_toText (event : Event) :
    read? event.toText = some event := by
  unfold read? toText
  rw [Json.read?_compactText, Option.bind_some, ofJson?_toJson]

/-- A line written again after it has been read, if it is accepted. -/
def rewrite? (line : String) : Option String :=
  (read? line).map toText

/--
Reading undoes writing. What is accepted is written as a text that is read as
the same event and that is written as itself.
-/
theorem reading_undoes_writing :
    (∀ event : Event, read? event.toText = some event) ∧
      ∀ line : String,
        (rewrite? line).bind read? = read? line ∧
          (rewrite? line).bind rewrite? = rewrite? line := by
  refine ⟨read?_toText, fun line => ?_⟩
  unfold rewrite?
  cases read? line with
  | none => exact ⟨rfl, rfl⟩
  | some event =>
      simp only [Option.map_some, Option.bind_some, event.read?_toText,
        and_self]

end BackupHistory.Event
