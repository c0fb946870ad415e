import Mathlib.Data.List.Nodup

namespace BackupHistory

/-!
# Elements told by a key

Where the elements of a list have different keys, each key finds the one element
that has it: it is what a search comes upon and all that a selection leaves.
Such elements tie in no order that goes by the keys.
-/

section Keys

variable [BEq κ] [LawfulBEq κ] {key : α → κ} {elements : List α}

/-- A selection by the key of an element leaves only this element. -/
theorem filter_key_eq_singleton
    (distinct : (elements.map key).Nodup)
    {element : α}
    (member : element ∈ elements) :
    (elements.filter fun other => key other == key element) = [element] := by
  induction elements with
  | nil => cases member
  | cons head rest inductionHypothesis =>
      obtain ⟨fresh, restDistinct⟩ := List.nodup_cons.1 distinct
      rcases List.mem_cons.1 member with rfl | inRest
      · rw [List.filter_cons, if_pos (beq_self_eq_true _),
          List.filter_eq_nil_iff.2]
        intro other isOther same
        exact fresh (beq_iff_eq.1 same ▸ List.mem_map_of_mem isOther)
      · have differs : ¬ (key head == key element) = true := by
          intro same
          exact fresh (beq_iff_eq.1 same ▸ List.mem_map_of_mem inRest)
        rw [List.filter_cons, if_neg differs]
        exact inductionHypothesis restDistinct inRest

/-- A search by the key of an element finds this element. -/
theorem find?_key_eq_some
    (distinct : (elements.map key).Nodup)
    {element : α}
    (member : element ∈ elements) :
    (elements.find? fun other => key other == key element) =
      some element := by
  rw [← List.head?_filter, filter_key_eq_singleton distinct member]
  rfl

end Keys

/-- Elements with different keys are in order after sorting, none tied. -/
theorem mergeSort_pairwise_of_nodup
    {key : α → κ}
    {le : α → α → Bool}
    (trans :
      ∀ first second third,
        le first second = true →
        le second third = true →
        le first third = true)
    (total : ∀ first second, (le first second || le second first) = true)
    {elements : List α}
    (distinct : (elements.map key).Nodup) :
    (elements.mergeSort le).Pairwise fun left right =>
      le left right = true ∧ key left ≠ key right := by
  have differ :
      (elements.mergeSort le).Pairwise fun left right =>
        key left ≠ key right :=
    List.pairwise_map.1
      (((List.mergeSort_perm elements le).map key).nodup_iff.2 distinct)
  exact (List.pairwise_mergeSort trans total elements).and differ

end BackupHistory
