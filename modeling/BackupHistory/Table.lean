namespace BackupHistory

/-!
# Tables

A table keeps at most one value for a key and lists its entries in the order of
their keys. The order makes tables with the same values under the same keys
equal, so a table is as good as the function that looks its values up.
-/

/-- Values under keys, in the strict order of the keys. -/
structure Table (κ : Type u) (β : Type v) [Ord κ] where
  entries : List (κ × β)
  ordered :
    entries.Pairwise fun left right => compare left.1 right.1 = .lt

namespace Table

variable {κ : Type u} {β : Type v} [Ord κ]

def empty : Table κ β :=
  ⟨[], .nil⟩

instance : Inhabited (Table κ β) :=
  ⟨empty⟩

def size (table : Table κ β) : Nat :=
  table.entries.length

def isEmpty (table : Table κ β) : Bool :=
  table.entries.isEmpty

def keys (table : Table κ β) : List κ :=
  table.entries.map Prod.fst

/-- The values in the order of their keys. -/
def values (table : Table κ β) : List β :=
  table.entries.map Prod.snd

def get? (table : Table κ β) (key : κ) : Option β :=
  (table.entries.find? fun entry => compare entry.1 key == .eq).map
    Prod.snd

/-- Whether there is a value under a key. -/
def contains (table : Table κ β) (key : κ) : Bool :=
  (table.get? key).isSome

/-- The entries whose key and value pass a test. -/
def filter (keep : κ → β → Bool) (table : Table κ β) : Table κ β where
  entries := table.entries.filter fun entry => keep entry.1 entry.2
  ordered := table.ordered.filter _

/-- The table without the value under a key. -/
def erase (key : κ) (table : Table κ β) : Table κ β :=
  table.filter fun other _ => compare other key != .eq

/-- An entry put in its place, over one with the same key. -/
def place (key : κ) (value : β) : List (κ × β) → List (κ × β)
  | [] => [(key, value)]
  | entry :: rest =>
      match compare key entry.1 with
      | .lt => (key, value) :: entry :: rest
      | .eq => (key, value) :: rest
      | .gt => entry :: place key value rest

/-- The entries after placing one are the placed one and old ones. -/
theorem mem_place
    {key : κ} {value : β} {entries : List (κ × β)} {entry : κ × β}
    (member : entry ∈ place key value entries) :
    entry = (key, value) ∨ entry ∈ entries := by
  induction entries with
  | nil => simpa [place] using member
  | cons first rest inductionHypothesis =>
      simp only [place] at member
      split at member
      · simpa using member
      · rcases List.mem_cons.1 member with same | later
        · exact .inl same
        · exact .inr (List.mem_cons_of_mem _ later)
      · rcases List.mem_cons.1 member with same | later
        · exact .inr (same ▸ List.mem_cons_self)
        · exact (inductionHypothesis later).imp id
            (List.mem_cons_of_mem _)

/-- Placing an entry keeps the order. -/
theorem ordered_place [Std.TransOrd κ] [Std.LawfulEqOrd κ]
    (key : κ) (value : β) {entries : List (κ × β)}
    (ordered :
      entries.Pairwise fun left right =>
        compare left.1 right.1 = .lt) :
    (place key value entries).Pairwise fun left right =>
      compare left.1 right.1 = .lt := by
  induction entries with
  | nil => simp [place]
  | cons first rest inductionHypothesis =>
      obtain ⟨below, restOrdered⟩ := List.pairwise_cons.1 ordered
      simp only [place]
      split
      next before =>
        refine List.pairwise_cons.2 ⟨fun entry member => ?_, ordered⟩
        rcases List.mem_cons.1 member with same | later
        · exact same ▸ before
        · exact Std.TransCmp.lt_trans before (below entry later)
      next same =>
        refine List.pairwise_cons.2 ⟨fun entry member => ?_, restOrdered⟩
        rw [Std.LawfulEqOrd.eq_of_compare same]
        exact below entry member
      next after =>
        refine List.pairwise_cons.2
          ⟨fun entry member => ?_, inductionHypothesis restOrdered⟩
        rcases mem_place member with same | later
        · rw [same]
          exact Std.OrientedCmp.gt_iff_lt.1 after
        · exact below entry later

/-- The table with a value under a key, in place of one that was there. -/
def insert [Std.TransOrd κ] [Std.LawfulEqOrd κ]
    (key : κ) (value : β) (table : Table κ β) : Table κ β where
  entries := place key value table.entries
  ordered := ordered_place key value table.ordered

/-- The table of the given entries, later ones replacing earlier ones. -/
def ofList [Std.TransOrd κ] [Std.LawfulEqOrd κ]
    (entries : List (κ × β)) : Table κ β :=
  entries.foldl (fun table entry => table.insert entry.1 entry.2) empty

/-- There is nothing under any key of the empty table. -/
@[simp] theorem get?_empty (key : κ) :
    (empty : Table κ β).get? key = none :=
  rfl

section Lookup

variable [Std.LawfulEqOrd κ]

/-- Keys compare as equal when they are the same. -/
private theorem compare_beq_eq [DecidableEq κ] (left right : κ) :
    (compare left right == .eq) = decide (left = right) := by
  simp [Bool.beq_eq_decide_eq]

/-- No key comes before itself. -/
private theorem not_compare_self_lt (key : κ) :
    ¬ compare key key = .lt := by
  simp [Std.compare_self]

/-- The entries of a table are the values that it holds under their keys. -/
theorem mem_entries_iff
    (table : Table κ β) (key : κ) (value : β) :
    (key, value) ∈ table.entries ↔ table.get? key = some value := by
  obtain ⟨entries, ordered⟩ := table
  simp only [get?]
  induction entries with
  | nil => simp
  | cons first rest inductionHypothesis =>
      obtain ⟨below, restOrdered⟩ := List.pairwise_cons.1 ordered
      rw [List.mem_cons, List.find?_cons]
      cases same : compare first.1 key == .eq with
      | true =>
          have sameKey : first.1 = key :=
            Std.LawfulEqOrd.eq_of_compare (by simpa using same)
          constructor
          · rintro (isFirst | later)
            · simp [← isFirst]
            · have strict := below _ later
              rw [sameKey] at strict
              exact absurd strict (not_compare_self_lt key)
          · intro found
            left
            simp only [Option.map_some, Option.some.injEq] at found
            rw [← found, ← sameKey]
      | false =>
          rw [← inductionHypothesis restOrdered]
          constructor
          · rintro (isFirst | later)
            · rw [← isFirst] at same
              simp [Std.compare_self] at same
            · exact later
          · exact Or.inr

/-- A value placed under a key is found there, and others stay. -/
@[simp] theorem get?_insert [Std.TransOrd κ] [DecidableEq κ]
    (key : κ) (value : β) (table : Table κ β) (other : κ) :
    (table.insert key value).get? other =
      if other = key then some value else table.get? other := by
  obtain ⟨entries, ordered⟩ := table
  simp only [get?, insert, compare_beq_eq]
  induction entries with
  | nil =>
      by_cases same : key = other
      · simp [place, same]
      · simp [place, same, Ne.symm same]
  | cons first rest inductionHypothesis =>
      have tail :=
        inductionHypothesis (List.pairwise_cons.1 ordered).2
      simp only [place]
      split
      · by_cases same : key = other
        · simp [same]
        · simp [same, Ne.symm same]
      next equal =>
        have sameKey := Std.LawfulEqOrd.eq_of_compare equal
        by_cases same : key = other
        · simp [same]
        · simp [same, Ne.symm same, ← sameKey]
      next after =>
        have differ : first.1 ≠ key := by
          intro same
          rw [same] at after
          simp [Std.compare_self] at after
        by_cases same : first.1 = other
        · simp [same, same ▸ differ]
        · simpa [same] using tail

/-- Keeping entries keeps what is found under keys that pass the test. -/
@[simp] theorem get?_filter
    (keep : κ → β → Bool) (table : Table κ β) (key : κ) :
    (table.filter keep).get? key = (table.get? key).filter (keep key) := by
  apply Option.ext
  intro value
  rw [← mem_entries_iff, Option.filter_eq_some_iff, ← mem_entries_iff]
  simp [filter]

/-- Nothing is found under an erased key, and others stay. -/
@[simp] theorem get?_erase [DecidableEq κ]
    (key : κ) (table : Table κ β) (other : κ) :
    (table.erase key).get? other =
      if other = key then none else table.get? other := by
  unfold erase
  rw [get?_filter]
  simp only [bne, compare_beq_eq]
  by_cases same : other = key
  · simp [same]
  · cases table.get? other <;> simp [same, Option.filter]

/-- A key of a table is one that something is found under. -/
theorem mem_keys_iff (table : Table κ β) (key : κ) :
    key ∈ table.keys ↔ (table.get? key).isSome := by
  simp only [keys, List.mem_map, Option.isSome_iff_exists]
  constructor
  · rintro ⟨⟨_, value⟩, member, rfl⟩
    exact ⟨value, (mem_entries_iff table _ value).1 member⟩
  · rintro ⟨value, found⟩
    exact ⟨(key, value), (mem_entries_iff table key value).2 found, rfl⟩

/-- Lists in the strict order of keys are equal if they have the same members. -/
theorem eq_of_ordered [Std.TransOrd κ] (key : α → κ) {left right : List α}
    (leftOrdered :
      left.Pairwise fun first second =>
        compare (key first) (key second) = .lt)
    (rightOrdered :
      right.Pairwise fun first second =>
        compare (key first) (key second) = .lt)
    (members : ∀ element, element ∈ left ↔ element ∈ right) :
    left = right := by
  have distinct {elements : List α}
      (ordered :
        elements.Pairwise fun first second =>
          compare (key first) (key second) = .lt) :
      elements.Nodup := by
    refine ordered.imp fun {first second} strict equal => ?_
    rw [equal] at strict
    exact not_compare_self_lt _ strict
  have permuted : left.Perm right :=
    (List.perm_ext_iff_of_nodup (distinct leftOrdered)
      (distinct rightOrdered)).2 members
  refine permuted.eq_of_pairwise (fun first second _ _ below above => ?_)
    leftOrdered rightOrdered
  exact absurd (Std.TransCmp.lt_trans below above)
    (not_compare_self_lt (key first))

/-- Tables that hold the same values under the same keys are equal. -/
theorem ext_get? [Std.TransOrd κ] {left right : Table κ β}
    (same : ∀ key, left.get? key = right.get? key) :
    left = right := by
  have members (entry : κ × β) :
      entry ∈ left.entries ↔ entry ∈ right.entries := by
    rw [mem_entries_iff, mem_entries_iff, same]
  have equal : left.entries = right.entries :=
    eq_of_ordered Prod.fst left.ordered right.ordered members
  cases left
  cases right
  cases equal
  rfl

end Lookup

end Table

end BackupHistory
