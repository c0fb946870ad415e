import BackupHistory.Json.Reader
import BackupHistory.Proofs.Json.Scanning

namespace BackupHistory.Json

/-!
# Putting a value together again

The tokens that spell a value are put together as that value, whatever
containers are open around it. With the scan of its text this makes reading the
inverse of writing, for values of every shape and nesting: `read?_compactText`.
-/

namespace Assembly

/-- Read tokens one after another. -/
def run? (assembly : Assembly) (tokens : List Token) : Option Assembly :=
  tokens.foldlM step assembly

theorem run?_append (assembly : Assembly) (first second : List Token) :
    assembly.run? (first ++ second) =
      (assembly.run? first).bind fun next => next.run? second :=
  List.foldlM_append

theorem run?_cons (assembly : Assembly) (token : Token)
    (rest : List Token) :
    assembly.run? (token :: rest) =
      (assembly.step token).bind fun next => next.run? rest :=
  List.foldlM_cons

end Assembly

open Assembly

/-- No value starts with the end of an array. -/
theorem exists_tokens_eq_cons (value : Json) :
    ∃ first rest, value.tokens = first :: rest ∧ first ≠ .closeArray := by
  cases value <;> exact ⟨_, _, rfl, nofun⟩

theorem exists_elementTokens_eq_cons (element : Json) (rest : List Json) :
    ∃ first tokens,
      elementTokens (element :: rest) = first :: tokens ∧
        first ≠ .closeArray := by
  obtain ⟨first, tokens, spelled, notEnd⟩ := exists_tokens_eq_cons element
  cases rest with
  | nil => exact ⟨first, tokens, spelled, notEnd⟩
  | cons next rest =>
      refine ⟨first, tokens ++ .comma :: elementTokens (next :: rest), ?_,
        notEnd⟩
      rw [elementTokens, spelled]
      rfl

/-- After the start of an array its first element is read like any other. -/
theorem run?_firstElement
    {token : Token}
    (notEnd : token ≠ .closeArray)
    (rest : List Token)
    (frames : List Frame) :
    (firstElement frames).run? (token :: rest) =
      (needValue (.array [] :: frames)).run? (token :: rest) := by
  rw [run?_cons, run?_cons]
  unfold step
  simp only [notEnd, ↓reduceIte]

mutual

theorem run?_tokens (value : Json) (frames : List Frame) :
    (needValue frames).run? value.tokens = some (complete value frames) := by
  match value with
  | .null => rfl
  | .bool _ => rfl
  | .number _ => rfl
  | .string _ => rfl
  | .array [] => rfl
  | .array (element :: rest) =>
      have inside :=
        run?_elementTokens (element :: rest) [] frames
          (List.cons_ne_nil element rest)
      obtain ⟨first, tokens, spelled, notEnd⟩ :=
        exists_elementTokens_eq_cons element rest
      rw [spelled, List.cons_append, ← run?_firstElement notEnd] at inside
      unfold Json.tokens
      rw [spelled]
      exact inside
  | .object [] => rfl
  | .object ((name, value) :: rest) =>
      have inside :=
        run?_memberTokens ((name, value) :: rest) [] frames
          (List.cons_ne_nil _ rest)
      cases rest <;> exact inside

/-- The elements of an array are put together, and the array is complete. -/
theorem run?_elementTokens
    (elements earlier : List Json)
    (frames : List Frame)
    (inhabited : elements ≠ []) :
    (needValue (.array earlier :: frames)).run?
        (elementTokens elements ++ [.closeArray]) =
      some (complete (.array (earlier.reverse ++ elements)) frames) := by
  match elements with
  | [] => exact absurd rfl inhabited
  | [last] =>
      rw [elementTokens, run?_append, run?_tokens last, Option.bind_some,
        run?_cons]
      simp [step, run?]
  | element :: next :: rest =>
      have others :=
        run?_elementTokens (next :: rest) (element :: earlier) frames
          (List.cons_ne_nil next rest)
      rw [elementTokens, List.append_assoc, run?_append,
        run?_tokens element, Option.bind_some, List.cons_append, run?_cons]
      change (needValue _).run? _ = _
      rw [others, List.reverse_cons, List.append_assoc]
      rfl

/-- The members of an object are put together, and the object is complete. -/
theorem run?_memberTokens
    (members earlier : List (Text × Json))
    (frames : List Frame)
    (inhabited : members ≠ []) :
    (needMember earlier frames).run?
        (memberTokens members ++ [.closeObject]) =
      some (complete (.object (earlier.reverse ++ members)) frames) := by
  have named (name : Text) (rest : List Token) :
      (needMember earlier frames).run? (.string name :: .colon :: rest) =
        (needValue (.object earlier name :: frames)).run? rest :=
    rfl
  match members with
  | [] => exact absurd rfl inhabited
  | [(name, value)] =>
      rw [memberTokens, List.cons_append, List.cons_append, named,
        run?_append, run?_tokens value, Option.bind_some, run?_cons]
      simp [step, run?]
  | (name, value) :: next :: rest =>
      have others :=
        run?_memberTokens (next :: rest) ((name, value) :: earlier) frames
          (List.cons_ne_nil next rest)
      rw [memberTokens, List.append_assoc, List.cons_append,
        List.cons_append, named, run?_append, run?_tokens value,
        Option.bind_some, List.cons_append, run?_cons]
      change (needMember _ _).run? _ = _
      rw [others, List.reverse_cons, List.append_assoc]
      rfl

end

theorem ofTokens?_tokens (value : Json) :
    ofTokens? value.tokens = some value := by
  have assembled := run?_tokens value []
  unfold run? at assembled
  unfold ofTokens?
  rw [assembled]
  rfl

/-- Every value is read from its text. -/
theorem read?_compactText (value : Json) :
    read? value.compactText = some value := by
  unfold read? compactText
  rw [String.toList_ofList, tokens?_compact, Option.bind_some,
    ofTokens?_tokens]

end BackupHistory.Json
