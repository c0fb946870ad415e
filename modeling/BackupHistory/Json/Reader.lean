import BackupHistory.Json.Token

namespace BackupHistory.Json

/-!
# Reading JSON values

A value is put together from tokens with a stack of the containers that are
still open. Each token moves the assembly one step, so reading a token list
that is followed by more tokens is reading it and going on from there. Text is
read as exactly one value with blanks around it.
-/

/-- A container that is still open; its contents are held latest first. -/
inductive Frame where
  | array (elements : List Json)
  | object (members : List (Text × Json)) (name : Text)
  deriving Inhabited

/-- What may come next, with the open containers, innermost first. -/
inductive Assembly where
  /-- A value must follow. -/
  | needValue (frames : List Frame)
  /-- An array has just been opened. -/
  | firstElement (frames : List Frame)
  /-- An object has just been opened. -/
  | firstName (frames : List Frame)
  /-- A member of the innermost object must follow. -/
  | needMember (members : List (Text × Json)) (frames : List Frame)
  /-- The colon after a member's name must follow. -/
  | needColon
      (name : Text)
      (members : List (Text × Json))
      (frames : List Frame)
  /-- A value is complete. -/
  | complete (value : Json) (frames : List Frame)
  deriving Inhabited

namespace Assembly

/-- Read a token where a value must follow. -/
def stepValue (frames : List Frame) : Token → Option Assembly
  | .openArray => some (.firstElement frames)
  | .openObject => some (.firstName frames)
  | .null => some (.complete .null frames)
  | .bool value => some (.complete (.bool value) frames)
  | .number numeral => some (.complete (.number numeral) frames)
  | .string text => some (.complete (.string text) frames)
  | _ => none

/-- Read one token, unless none of its kind may stand here. -/
def step (assembly : Assembly) (token : Token) : Option Assembly :=
  match assembly with
  | .needValue frames => stepValue frames token
  | .firstElement frames =>
      if token = .closeArray then
        some (.complete (.array []) frames)
      else
        stepValue (.array [] :: frames) token
  | .firstName frames =>
      match token with
      | .closeObject => some (.complete (.object []) frames)
      | .string text => some (.needColon text [] frames)
      | _ => none
  | .needMember members frames =>
      match token with
      | .string text => some (.needColon text members frames)
      | _ => none
  | .needColon name members frames =>
      match token with
      | .colon => some (.needValue (.object members name :: frames))
      | _ => none
  | .complete value frames =>
      match frames, token with
      | .array elements :: outer, .comma =>
          some (.needValue (.array (value :: elements) :: outer))
      | .array elements :: outer, .closeArray =>
          some (.complete (.array (value :: elements).reverse) outer)
      | .object members name :: outer, .comma =>
          some (.needMember ((name, value) :: members) outer)
      | .object members name :: outer, .closeObject =>
          some (.complete
            (.object ((name, value) :: members).reverse) outer)
      | _, _ => none

/-- The value, if it is complete and no container is open. -/
def finish? : Assembly → Option Json
  | .complete value [] => some value
  | _ => none

end Assembly

def ofTokens? (tokens : List Token) : Option Json :=
  (tokens.foldlM Assembly.step (.needValue [])).bind Assembly.finish?

def read? (text : String) : Option Json :=
  (tokens? text.toList).bind ofTokens?

end BackupHistory.Json
