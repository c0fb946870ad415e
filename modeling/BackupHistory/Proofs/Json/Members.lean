import BackupHistory.Json.Fields

namespace BackupHistory

/-!
# Members in any order

An object is asked for its members by their names. The answer depends on how
many members have the name, and neither on the place of a member nor on members
of other names. A tag is told from the other members wherever it stands.
-/

/-- A list is read if each of its elements is. -/
theorem mapM_eq_some_iff
    {read : α → Option β}
    {elements : List α}
    {results : List β} :
    elements.mapM read = some results ↔
      elements.map read = results.map some := by
  induction elements generalizing results with
  | nil => cases results <;> simp
  | cons element rest inductionHypothesis =>
      rw [List.mapM_cons, List.map_cons]
      cases results with
      | nil => cases read element <;> cases rest.mapM read <;> simp
      | cons result others =>
          rw [List.map_cons, List.cons.injEq, ← inductionHypothesis]
          cases read element <;> cases rest.mapM read <;> simp

namespace Json

section Lookup

variable {members left right : List (Text × Json)} {name : String}

theorem allNamed_eq_of_perm (same : left.Perm right) :
    allNamed left = allNamed right :=
  same.all_eq

theorem member?_eq_of_perm (same : left.Perm right) (name : String) :
    member? left name = member? right name := by
  have found := same.filter fun entry => entry.1 == some name
  unfold member?
  generalize left.filter (fun entry => entry.1 == some name) = ofLeft
    at found ⊢
  generalize right.filter (fun entry => entry.1 == some name) = ofRight
    at found ⊢
  match ofRight with
  | [] => rw [found.eq_nil]
  | [entry] => rw [found.eq_singleton]
  | first :: second :: rest =>
      have several : ofLeft.length = rest.length + 2 := found.length_eq
      match ofLeft with
      | _ :: _ :: _ => rfl

theorem member?_cons_of_ne
    {key : Text}
    (other : key ≠ some name)
    (value : Json)
    (members : List (Text × Json)) :
    member? ((key, value) :: members) name = member? members name := by
  unfold member?
  rw [List.filter_cons_of_neg (by simpa using other)]

/-- A name is not found if no member has it. -/
theorem member?_eq_some_none_iff :
    member? members name = some none ↔
      some name ∉ members.map Prod.fst := by
  have absent :
      members.filter (fun entry => entry.1 == some name) = [] ↔
        some name ∉ members.map Prod.fst := by
    rw [List.filter_eq_nil_iff, List.mem_map]
    constructor
    · rintro other ⟨entry, member, isName⟩
      exact other entry member (beq_iff_eq.2 isName)
    · intro other entry member isName
      exact other ⟨entry, member, beq_iff_eq.1 isName⟩
  rw [← absent]
  unfold member?
  generalize members.filter (fun entry => entry.1 == some name) = named
  match named with
  | [] => simp
  | [_] => simp
  | _ :: _ :: _ => simp

/-- A name that several members have is not accepted. -/
theorem member?_eq_none_iff :
    member? members name = none ↔
      1 < (members.map Prod.fst).count (some name) := by
  have counted :
      (members.map Prod.fst).count (some name) =
        (members.filter fun entry => entry.1 == some name).length := by
    rw [List.count, List.countP_map, List.countP_eq_length_filter]
    rfl
  rw [counted]
  unfold member?
  generalize members.filter (fun entry => entry.1 == some name) = named
  match named with
  | [] => simp
  | [_] => simp
  | _ :: _ :: _ => simp

/-- A member is found by its name if no other member has the name. -/
theorem member?_cons_self_eq_some_iff
    {value : Json}
    {found : Option Json} :
    member? ((some name, value) :: members) name = some found ↔
      found = some value ∧ member? members name = some none := by
  have isNamed : ((some name : Text) == some name) = true :=
    beq_self_eq_true _
  unfold member?
  simp only [List.filter_cons, isNamed, ↓reduceIte]
  generalize members.filter (fun entry => entry.1 == some name) = others
  match others with
  | [] => simp [eq_comm]
  | [_] => simp
  | _ :: _ :: _ => simp

end Lookup

/-- Fields are read from an object by looking each of them up. -/
theorem fields?_object_eq_some_iff
    {members : List (Text × Json)}
    {names : List String}
    {fields : List (Option Json)} :
    fields? names (.object members) = some fields ↔
      allNamed members = true ∧
        names.map (member? members) = fields.map some := by
  rw [← mapM_eq_some_iff]
  exact Option.ite_none_right_eq_some

section Order

variable {left right : List (Text × Json)}

theorem fields?_eq_of_perm (same : left.Perm right) (names : List String) :
    fields? names (.object left) = fields? names (.object right) := by
  have lookups : member? left = member? right :=
    funext fun name => member?_eq_of_perm same name
  simp only [fields?, allNamed_eq_of_perm same, lookups]

theorem allMembersSound_eq_all (depth : Nat) (members : List (Text × Json)) :
    allMembersSound depth members =
      members.all fun entry => entry.1.isSome && entry.2.isSound depth := by
  induction members with
  | nil => rfl
  | cons entry rest inductionHypothesis =>
      rw [allMembersSound, inductionHypothesis]
      rfl

theorem isSound_eq_of_perm (same : left.Perm right) (room : Nat) :
    (object left).isSound room = (object right).isSound room := by
  unfold isSound
  cases room with
  | zero => rfl
  | succ deeper =>
      simp only [allMembersSound_eq_all, same.all_eq]

theorem accepts_eq_of_perm (same : left.Perm right) (passage : Passage) :
    passage.accepts (.object left) = passage.accepts (.object right) := by
  cases passage with
  | direct room => exact isSound_eq_of_perm same room
  | held => rfl

/-- A tag is told wherever it stands, and the other members are what remains. -/
theorem splitTag?_of_perm (same : left.Perm right) (tagName : String) :
    (splitTag? tagName (.object left) = none ∧
        splitTag? tagName (.object right) = none) ∨
      ∃ tag leftRest rightRest,
        splitTag? tagName (.object left) = some (tag, .object leftRest) ∧
          splitTag? tagName (.object right) =
            some (tag, .object rightRest) ∧
          leftRest.Perm rightRest := by
  have tags := same.filter fun entry => entry.1 == some tagName
  have others := same.filter fun entry => entry.1 != some tagName
  simp only [splitTag?, allNamed_eq_of_perm same]
  generalize left.filter (fun entry => entry.1 == some tagName) = ofLeft
    at tags ⊢
  generalize right.filter (fun entry => entry.1 == some tagName) = ofRight
    at tags ⊢
  split
  next =>
      match ofRight with
      | [] => exact .inl (by rw [tags.eq_nil]; exact ⟨rfl, rfl⟩)
      | [(_, tag)] =>
          rw [tags.eq_singleton]
          exact .inr ⟨tag, _, _, rfl, rfl, others⟩
      | first :: second :: rest =>
          have several : ofLeft.length = rest.length + 2 := tags.length_eq
          match ofLeft with
          | _ :: _ :: _ => exact .inl ⟨rfl, rfl⟩
  next => exact .inl ⟨rfl, rfl⟩

end Order

end Json

end BackupHistory
