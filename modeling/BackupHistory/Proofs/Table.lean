import BackupHistory.Table
import Mathlib.Data.List.Basic

namespace BackupHistory

/-!
# Tables as sorted lists

The keys of a table are strictly ordered, so they are settled by which keys
there are. The values are what the keys look up, in the order of the keys. Two
lists that are read off tables are therefore compared by their members alone.
-/

namespace Table

variable {κ : Type u} {β : Type v} [Ord κ]

theorem keys_ordered (table : Table κ β) :
    table.keys.Pairwise fun left right => compare left right = .lt := by
  unfold keys
  rw [List.pairwise_map]
  exact table.ordered

section Lookup

variable [Std.LawfulEqOrd κ]

theorem keys_nodup (table : Table κ β) : table.keys.Nodup := by
  refine table.keys_ordered.imp fun strict same => ?_
  rw [same, Std.compare_self] at strict
  cases strict

/-- Keys that are the tested keys of another table are found by testing. -/
theorem keys_eq_filter [Std.TransOrd κ]
    {small : Table κ γ} {large : Table κ β} (keep : κ → Bool)
    (same :
      ∀ key,
        (small.get? key).isSome ↔
          (large.get? key).isSome ∧ keep key = true) :
    small.keys = large.keys.filter keep := by
  apply eq_of_ordered id small.keys_ordered
    (large.keys_ordered.filter keep)
  intro key
  rw [List.mem_filter, mem_keys_iff, mem_keys_iff]
  exact same key

/-- The values of a table are what its keys look up. -/
theorem values_eq_filterMap_keys (table : Table κ β) :
    table.values = table.keys.filterMap table.get? := by
  have found (entry : κ × β) (member : entry ∈ table.entries) :
      table.get? entry.1 = some entry.2 :=
    (mem_entries_iff table entry.1 entry.2).1 member
  unfold values keys
  rw [List.filterMap_map, ← List.filterMap_eq_map]
  exact (List.filterMap_congr fun entry member => found entry member).symm

/-- The values of a table are what the keys of a larger one look up. -/
theorem values_eq_filterMap [Std.TransOrd κ]
    {small : Table κ β} {large : Table κ γ}
    (within :
      ∀ key, (small.get? key).isSome → (large.get? key).isSome) :
    small.values = large.keys.filterMap small.get? := by
  have keys :
      small.keys = large.keys.filter fun key => (small.get? key).isSome := by
    apply keys_eq_filter
    intro key
    exact ⟨fun present => ⟨within key present, present⟩, And.right⟩
  rw [values_eq_filterMap_keys, keys, List.filterMap_filter]
  apply List.filterMap_congr
  intro key _
  cases small.get? key with
  | none => rfl
  | some value => rfl

theorem mem_values_iff (table : Table κ β) (value : β) :
    value ∈ table.values ↔ ∃ key, table.get? key = some value := by
  rw [values_eq_filterMap_keys, List.mem_filterMap]
  constructor
  · rintro ⟨key, _, found⟩
    exact ⟨key, found⟩
  · rintro ⟨key, found⟩
    refine ⟨key, ?_, found⟩
    rw [mem_keys_iff, found]
    rfl

/-- Values that know their keys are listed in the order of these. -/
theorem values_ordered (table : Table κ β) (keyOf : β → κ)
    (own : ∀ {key value}, table.get? key = some value → keyOf value = key) :
    table.values.Pairwise fun left right =>
      compare (keyOf left) (keyOf right) = .lt := by
  unfold values
  rw [List.pairwise_map]
  refine table.ordered.imp_of_mem
    fun {left right} leftMember rightMember ordered => ?_
  have ownLeft := own ((mem_entries_iff table left.1 left.2).1 leftMember)
  have ownRight :=
    own ((mem_entries_iff table right.1 right.2).1 rightMember)
  rw [ownLeft, ownRight]
  exact ordered

/-- The values that have a key are what is found under it. -/
theorem values_filter_eq [DecidableEq κ] [Std.TransOrd κ]
    (table : Table κ β) (keyOf : β → κ)
    (own : ∀ {key value}, table.get? key = some value → keyOf value = key)
    (key : κ) :
    table.values.filter (fun value => keyOf value = key) =
      (table.get? key).toList := by
  have single :
      (table.get? key).toList.Pairwise fun left right =>
        compare (keyOf left) (keyOf right) = .lt := by
    cases table.get? key <;> simp
  refine eq_of_ordered keyOf
    ((table.values_ordered keyOf own).filter _) single ?_
  intro value
  rw [List.mem_filter, mem_values_iff, Option.mem_toList,
    decide_eq_true_eq]
  constructor
  · rintro ⟨⟨other, found⟩, rfl⟩
    rw [own found]
    exact found
  · intro found
    exact ⟨⟨key, found⟩, own found⟩

@[simp] theorem contains_insert [Std.TransOrd κ] [DecidableEq κ]
    (key : κ) (value : β) (table : Table κ β) (other : κ) :
    (table.insert key value).contains other =
      if other = key then true else table.contains other := by
  unfold contains
  rw [get?_insert]
  split <;> rfl

@[simp] theorem contains_erase [DecidableEq κ]
    (key : κ) (table : Table κ β) (other : κ) :
    (table.erase key).contains other =
      if other = key then false else table.contains other := by
  unfold contains
  rw [get?_erase]
  split <;> rfl

theorem isEmpty_iff (table : Table κ β) :
    table.isEmpty = true ↔ ∀ key, table.get? key = none := by
  unfold isEmpty
  rw [List.isEmpty_iff]
  constructor
  · intro noEntry key
    simp [get?, noEntry]
  · intro absent
    rw [List.eq_nil_iff_forall_not_mem]
    rintro ⟨key, value⟩ member
    rw [mem_entries_iff, absent key] at member
    cases member

/-- The keys of a table of entries are the keys of the entries. -/
theorem mem_keys_ofList [Std.TransOrd κ] [DecidableEq κ]
    (entries : List (κ × β)) (key : κ) :
    key ∈ (ofList entries).keys ↔ ∃ value, (key, value) ∈ entries := by
  have inserted (start : Table κ β) :
      ((entries.foldl
          (fun table entry => table.insert entry.1 entry.2)
          start).get? key).isSome ↔
        (start.get? key).isSome ∨ ∃ value, (key, value) ∈ entries := by
    induction entries generalizing start with
    | nil => simp
    | cons entry rest inductionHypothesis =>
        rw [List.foldl_cons, inductionHypothesis, get?_insert]
        by_cases same : key = entry.1
        · subst same
          simp only [↓reduceIte, Option.isSome_some, true_or, true_iff]
          exact .inr ⟨entry.2, List.mem_cons_self⟩
        · have other (value : β) : (key, value) ≠ entry := by
            intro equal
            exact same (congrArg Prod.fst equal)
          simp [same, other]
  rw [mem_keys_iff]
  unfold ofList
  simpa using inserted .empty

end Lookup

end Table

end BackupHistory
