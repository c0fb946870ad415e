import BackupHistory.Json.Fields
import BackupHistory.Operation.Encoding
import BackupHistory.Proofs.Binary64
import BackupHistory.Proofs.Json.Members
import BackupHistory.Proofs.Lookup

namespace BackupHistory

/-!
# Reading written fields

What is written as a field, a name or a tag is read from there again. An object
whose members have different names gives each field to its own name, and a value
that is written without odd strings and wild numbers may be held as a whole.
-/

/-- A reader that accepts every element accepts the list of them. -/
theorem mapM_eq_some_map
    {read : α → Option β}
    {result : α → β}
    {elements : List α}
    (each : ∀ element ∈ elements, read element = some (result element)) :
    elements.mapM read = some (elements.map result) := by
  rw [mapM_eq_some_iff, List.map_map]
  exact List.map_congr_left each

/-- A list is read from what its elements are written as. -/
theorem mapM_map_eq_some
    {read : β → Option α}
    {write : α → β}
    (reads : ∀ element, read (write element) = some element)
    (elements : List α) :
    (elements.map write).mapM read = some elements := by
  have each (element : α) (_ : element ∈ elements) :
      (read ∘ write) element = some (id element) :=
    reads element
  rw [List.mapM_map, mapM_eq_some_map each, List.map_id]

namespace Json

section Members

variable {members : List (String × Json)}

theorem allNamed_map (members : List (String × Json)) :
    allNamed (members.map fun (name, value) => (some name, value)) =
      true := by
  unfold allNamed
  rw [List.all_map]
  exact List.all_eq_true.2 fun _ _ => rfl

/-- Where names differ, the value of a name is the one that stands with it. -/
theorem member?_map
    (distinct : (members.map Prod.fst).Nodup)
    {member : String × Json}
    (isMember : member ∈ members) :
    member? (members.map fun (name, value) => (some name, value))
        member.1 =
      some (some member.2) := by
  have single := filter_key_eq_singleton distinct isMember
  unfold member?
  rw [List.filter_map]
  have same :
      ((fun entry : Text × Json => entry.1 == some member.1) ∘
          fun (name, value) => (some name, value)) =
        fun other : String × Json => other.1 == member.1 :=
    rfl
  rw [same, single]
  rfl

/-- Fields with different names are read from an object of them. -/
@[simp] theorem fields?_ofMembers
    {names : List String}
    (named : members.map Prod.fst = names)
    (distinct : names.Nodup) :
    fields? names (.ofMembers members) =
      some (members.map fun member => some member.2) := by
  subst named
  have allNamed := allNamed_map members
  have read :
      (members.map Prod.fst).mapM
          (member? (members.map fun (name, value) => (some name, value))) =
        some (members.map fun member => some member.2) := by
    rw [List.mapM_map]
    exact mapM_eq_some_map fun member isMember =>
      member?_map distinct isMember
  unfold ofMembers fields?
  simp only [allNamed, ↓reduceIte, read]

/-- The tag of an object is told from the members that follow it. -/
@[simp] theorem splitTag?_ofMembers
    {tagName : String}
    (fresh : tagName ∉ members.map Prod.fst)
    (tag : Json) :
    splitTag? tagName (.ofMembers ((tagName, tag) :: members)) =
      some (tag, .ofMembers members) := by
  have allNamed := allNamed_map ((tagName, tag) :: members)
  unfold ofMembers
  generalize isRest :
    (members.map fun (name, value) => ((some name : Text), value)) = rest
  rw [List.map_cons, isRest] at allNamed ⊢
  have otherName : ∀ entry ∈ rest, entry.1 ≠ some tagName := by
    rw [← isRest]
    intro entry isEntry same
    obtain ⟨member, isMember, rfl⟩ := List.mem_map.1 isEntry
    exact fresh (Option.some.inj same ▸ List.mem_map_of_mem isMember)
  have tagged :
      (((some tagName : Text), tag) :: rest).filter
          (fun entry => entry.1 == some tagName) =
        [(some tagName, tag)] := by
    rw [List.filter_cons, if_pos (beq_self_eq_true _),
      List.filter_eq_nil_iff.2]
    exact fun entry isEntry same =>
      otherName entry isEntry (beq_iff_eq.1 same)
  have untagged :
      (((some tagName : Text), tag) :: rest).filter
          (fun entry => entry.1 != some tagName) =
        rest := by
    rw [List.filter_cons, if_neg (by simp), List.filter_eq_self]
    exact fun entry isEntry => bne_iff_ne.2 (otherName entry isEntry)
  unfold splitTag?
  simp only [allNamed, ↓reduceIte, tagged, untagged]

end Members

section Values

@[simp] theorem required_some (decode : Json → Option α) (value : Json) :
    required decode (some value) = decode value :=
  rfl

@[simp] theorem orDefault_some
    (default : α)
    (decode : Json → Option α)
    (value : Json) :
    orDefault default decode (some value) = decode value :=
  rfl

@[simp] theorem toText?_ofString (text : String) :
    (ofString text).toText? = some text :=
  rfl

theorem ofString_ne_null (text : String) : ofString text ≠ .null :=
  Json.noConfusion

theorem ofInt64_ne_null (number : Int64) : ofInt64 number ≠ .null :=
  Json.noConfusion

theorem ofMembers_ne_null (members : List (String × Json)) :
    ofMembers members ≠ .null :=
  Json.noConfusion

@[simp] theorem toElements?_array (elements : List Json) :
    (array elements).toElements? = some elements :=
  rfl

@[simp] theorem toBool?_bool (value : Bool) :
    (bool value).toBool? = some value :=
  rfl

@[simp] theorem toInt64?_ofInt64 (number : Int64) :
    (ofInt64 number).toInt64? = some number := by
  have read : (ofInt64 number).toInt? = some number.toInt :=
    Numeral.toInt?_ofInt _
  unfold toInt64?
  simp only [read, Option.bind_eq_bind, Option.bind_some]
  rw [if_pos ⟨number.minValue_le_toInt, number.toInt_le⟩,
    number.ofInt_toInt]

theorem toUInt64?_of_toInt? {value : Json} {number : Int}
    (read : value.toInt? = some number) :
    value.toUInt64? =
      if 0 ≤ number ∧ number < UInt64.size then
        some (UInt64.ofNat number.toNat)
      else
        none := by
  unfold toUInt64?
  rw [read]
  rfl

@[simp] theorem toUInt64?_ofUInt64 (number : UInt64) :
    (ofUInt64 number).toUInt64? = some number := by
  have read : (ofUInt64 number).toInt? = some (number.toNat : Int) :=
    Numeral.toInt?_ofInt _
  have fits : (number.toNat : Int) < UInt64.size := by
    have below := number.toNat_lt_size
    omega
  rw [toUInt64?_of_toInt? read, if_pos ⟨Int.natCast_nonneg _, fits⟩,
    Int.toNat_natCast, UInt64.ofNat_toNat]

@[simp] theorem toBinary64?_ofBinary64 (number : Binary64) :
    (ofBinary64 number).toBinary64? = some number :=
  number.ofNumeral?_toNumeral

/-- An optional value is read if its reader reads what is written of it. -/
theorem nullable_ofOption
    {encode : α → Json}
    {decode : Json → Option α}
    (reads : ∀ value, decode (encode value) = some value)
    (present : ∀ value, encode value ≠ .null)
    (value : Option α) :
    nullable decode (ofOption encode value) = some value := by
  cases value with
  | none => rfl
  | some value =>
      unfold ofOption nullable
      split
      next isNull => exact absurd isNull (present value)
      next => rw [reads]; rfl

/-- The name of a value stands for it if no other value has the name. -/
theorem ofName?_name
    {name : α → String}
    {values : List α}
    (distinct : (values.map name).Nodup)
    {value : α}
    (member : value ∈ values) :
    ofName? name values (name value) = some value :=
  find?_key_eq_some distinct member

/-- A name is read as the value that it stands for. -/
theorem toNamed?_ofString
    {name : α → String}
    {values : List α}
    (distinct : (values.map name).Nodup)
    (passage : Passage)
    {value : α}
    (member : value ∈ values) :
    (ofString (name value)).toNamed? passage name values = some value :=
  ofName?_name distinct member

/-- A tag is read as the value whose name it is. -/
theorem toTag?_ofString
    {name : α → String}
    {values : List α}
    (distinct : (values.map name).Nodup)
    (passage : Passage)
    {value : α}
    (member : value ∈ values) :
    (ofString (name value)).toTag? passage name values = some value :=
  ofName?_name distinct member

end Values

section Soundness

variable {room : Nat}

/-- An object of sound values is sound with room for one container more. -/
theorem isSound_ofMembers
    {members : List (String × Json)}
    (sound : ∀ member ∈ members, member.2.isSound room = true) :
    (ofMembers members).isSound (room + 1) = true := by
  unfold ofMembers isSound
  dsimp only
  induction members with
  | nil => rfl
  | cons member rest inductionHypothesis =>
      rw [List.map_cons, allMembersSound,
        sound member List.mem_cons_self,
        inductionHypothesis fun other isOther =>
          sound other (List.mem_cons_of_mem member isOther)]
      rfl

theorem isSound_ofOption
    {encode : α → Json}
    (sound : ∀ value, (encode value).isSound room = true)
    (value : Option α) :
    (ofOption encode value).isSound room = true := by
  cases value with
  | none => rfl
  | some value => exact sound value

@[simp] theorem isSound_bool (value : Bool) :
    (bool value).isSound room = true :=
  rfl

@[simp] theorem isSound_ofString (text : String) :
    (ofString text).isSound room = true :=
  rfl

@[simp] theorem isSound_ofInt64 (number : Int64) :
    (ofInt64 number).isSound room = true := by
  apply Binary64.isSome_ofNumeral?_ofInt
  have lower := number.le_toInt
  have upper := number.toInt_lt
  have bound : Nat.pow 2 64 = 18446744073709551616 := rfl
  omega

@[simp] theorem isSound_ofUInt64 (number : UInt64) :
    (ofUInt64 number).isSound room = true := by
  apply Binary64.isSome_ofNumeral?_ofInt
  exact number.toNat_lt_size

@[simp] theorem isSound_ofBinary64 (number : Binary64) :
    (ofBinary64 number).isSound room = true :=
  congrArg Option.isSome number.ofNumeral?_toNumeral

end Soundness

end Json

end BackupHistory
