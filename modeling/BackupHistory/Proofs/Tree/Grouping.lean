import BackupHistory.Proofs.Instant
import BackupHistory.Proofs.Lookup
import BackupHistory.Proofs.Tree.Plain
import Mathlib.Data.List.Nodup
import Mathlib.Data.List.Perm.Basic

namespace BackupHistory

/-!
# Groups and orders of flows

Grouping by a key splits flows into the flows of each key that occurs, so all
groups together hold every flow once. Groups and flows are then put into
orders in which no two of them tie, and so the order that they came in is lost.
-/

namespace Flow

theorem distinct_of_nodup {flows : List Flow}
    (ids : (flows.map Flow.id).Nodup) :
    Distinct flows :=
  fun _ isFirst _ isSecond same =>
    List.inj_on_of_nodup_map ids isFirst isSecond same

theorem nodup_ids_filter (keep : Flow → Bool) {flows : List Flow}
    (ids : (flows.map Flow.id).Nodup) :
    ((flows.filter keep).map Flow.id).Nodup :=
  ids.sublist (List.filter_sublist.map Flow.id)

/-- A flow is newer than one of an earlier time, and at one time than one with
a smaller id. -/
def IsNewer (first second : Flow) : Prop :=
  compare second.time first.time = .lt ∨
    second.time = first.time ∧ second.id < first.id

instance (first second : Flow) : Decidable (first.IsNewer second) :=
  inferInstanceAs (Decidable (_ ∨ _))

/-- Flows by their times, at one time by their ids. -/
def order : Flow → Flow → Ordering :=
  compareLex (compareOn Flow.time) (compareOn Flow.id)

instance : Std.TransCmp order :=
  inferInstanceAs
    (Std.TransCmp (compareLex (compareOn Flow.time) (compareOn Flow.id)))

theorem isNewer_iff {first second : Flow} :
    first.IsNewer second ↔ order second first = .lt := by
  unfold order compareLex compareOn
  rw [Ordering.then_eq_lt, Std.compare_eq_iff_eq]
  exact or_congr_right
    (and_congr_right fun _ => compareOfLessAndEq_eq_lt.symm)

theorem id_eq_of_order {first second : Flow}
    (tie : order first second = .eq) :
    first.id = second.id :=
  Std.compare_eq_iff_eq.1 (Ordering.then_eq_eq.1 tie).2

theorem IsNewer.asymm {first second : Flow}
    (newer : first.IsNewer second) :
    ¬ second.IsNewer first := by
  rw [isNewer_iff] at newer ⊢
  rw [Std.OrientedCmp.gt_of_lt newer]
  exact Ordering.noConfusion

/-- A run of a plan of an instance. -/
def run (id instanceId planId : String) (time : Instant) : Flow where
  id := id
  instanceId := instanceId
  planId := planId
  repoId := "repository"
  snapshotId := none
  status := .success
  time := time
  category := .check
  subtitle := []
  hidden := false
  operations := []
  revision := 1

/-- The leap second at the end of the year 2016. -/
def leapRun : Flow :=
  run "within" "home" "daily" ⟨1483228799, 1500000000, by decide, by decide⟩

/-- The second after it. -/
def newYearRun : Flow :=
  run "after" "home" "daily" ⟨1483228800, 0, by decide, by decide⟩

/-- The second before it. -/
def oldYearRun : Flow :=
  run "before" "home" "weekly" ⟨1483228799, 0, by decide, by decide⟩

def aroundLeap : List Flow :=
  [leapRun, newYearRun, oldYearRun]

end Flow

namespace Arrangement

section Groups

variable {key : Flow → String}

/-- The names of the groups of flows, each once and in their order. -/
def groupNames (key : Flow → String) (flows : List Flow) : List String :=
  (groupBy key flows).map Prod.fst

theorem groupNames_ordered (key : Flow → String) (flows : List Flow) :
    (groupNames key flows).Pairwise fun left right =>
      compare left right = .lt := by
  unfold groupNames
  rw [List.pairwise_map]
  exact groupBy_ordered key flows

theorem groupNames_nodup (key : Flow → String) (flows : List Flow) :
    (groupNames key flows).Nodup := by
  unfold groupNames groupBy
  exact Table.keys_nodup _

/-- Every flow is in a group, under the name that it has. -/
theorem exists_group_of_mem (key : Flow → String) {flows : List Flow}
    {flow : Flow} (member : flow ∈ flows) :
    ∃ members,
      (key flow, members) ∈ groupBy key flows ∧ flow ∈ members := by
  have named : flow ∈ flows.filter fun other => key other = key flow :=
    List.mem_filter.2 ⟨member, decide_eq_true rfl⟩
  exact ⟨_, (mem_groupBy_iff ..).2 ⟨rfl, List.ne_nil_of_mem named⟩, named⟩

theorem mem_groupNames_iff {flows : List Flow} {name : String} :
    name ∈ groupNames key flows ↔ ∃ flow ∈ flows, key flow = name := by
  unfold groupNames
  rw [List.mem_map]
  constructor
  · rintro ⟨⟨name, members⟩, group, rfl⟩
    obtain ⟨rfl, inhabited⟩ := (mem_groupBy_iff ..).1 group
    obtain ⟨flow, member⟩ := List.exists_mem_of_ne_nil _ inhabited
    obtain ⟨isFlow, hasName⟩ := List.mem_filter.1 member
    exact ⟨flow, isFlow, of_decide_eq_true hasName⟩
  · rintro ⟨flow, isFlow, rfl⟩
    obtain ⟨members, group, _⟩ := exists_group_of_mem key isFlow
    exact ⟨(key flow, members), group, rfl⟩

/-- Each name stands with the flows that have it. -/
theorem groupBy_eq_map (key : Flow → String) (flows : List Flow) :
    groupBy key flows =
      (groupNames key flows).map fun name =>
        (name, flows.filter fun flow => key flow = name) := by
  unfold groupNames
  rw [List.map_map]
  refine (List.map_id _).symm.trans (List.map_congr_left ?_)
  rintro ⟨name, members⟩ group
  exact Prod.ext rfl ((mem_groupBy_iff ..).1 group).1

/-- A group has flows, and they have its name. -/
theorem of_mem_groupBy {flows members : List Flow} {name : String}
    (group : (name, members) ∈ groupBy key flows) :
    (∀ flow ∈ members, key flow = name) ∧ members ≠ [] := by
  obtain ⟨rfl, inhabited⟩ := (mem_groupBy_iff ..).1 group
  exact
    ⟨fun _ member => of_decide_eq_true (List.mem_filter.1 member).2,
      inhabited⟩

theorem nodup_of_mem_groupBy {flows members : List Flow} {name : String}
    (group : (name, members) ∈ groupBy key flows)
    (ids : (flows.map Flow.id).Nodup) :
    (members.map Flow.id).Nodup := by
  rw [((mem_groupBy_iff ..).1 group).1]
  exact Flow.nodup_ids_filter _ ids

theorem groupNames_eq_of_perm {left right : List Flow}
    (perm : left.Perm right) :
    groupNames key left = groupNames key right := by
  apply Table.eq_of_ordered id (groupNames_ordered key left)
    (groupNames_ordered key right)
  intro name
  rw [mem_groupNames_iff, mem_groupNames_iff]
  constructor
  · rintro ⟨flow, member, named⟩
    exact ⟨flow, perm.mem_iff.1 member, named⟩
  · rintro ⟨flow, member, named⟩
    exact ⟨flow, perm.mem_iff.2 member, named⟩

/-- The flows of each name, for all names, are all flows. -/
theorem flatMap_filter_perm {names : List String} {flows : List Flow}
    (once : names.Nodup)
    (covered : ∀ flow ∈ flows, key flow ∈ names) :
    (names.flatMap fun name =>
      flows.filter fun flow => key flow = name).Perm flows := by
  induction names generalizing flows with
  | nil =>
      have none : flows = [] :=
        List.eq_nil_iff_forall_not_mem.2 fun flow member =>
          List.not_mem_nil (covered flow member)
      rw [none]
      exact .nil
  | cons name rest inductionHypothesis =>
      obtain ⟨fresh, restOnce⟩ := List.nodup_cons.1 once
      have others :
          rest.flatMap (fun other =>
              flows.filter fun flow => key flow = other) =
            rest.flatMap fun other =>
              (flows.filter fun flow => !decide (key flow = name)).filter
                fun flow => key flow = other := by
        refine List.flatMap_congr fun other member => ?_
        rw [List.filter_filter]
        refine List.filter_congr fun flow _ => ?_
        have differ : other ≠ name := fun same => fresh (same ▸ member)
        by_cases named : key flow = other
        · simp [named, differ]
        · simp [named]
      rw [List.flatMap_cons, others]
      refine ((inductionHypothesis restOnce ?_).append_left _).trans
        (List.filter_append_perm _ flows)
      intro flow member
      obtain ⟨isFlow, notNamed⟩ := List.mem_filter.1 member
      rcases List.mem_cons.1 (covered flow isFlow) with named | other
      · simp [named] at notNamed
      · exact other

/-- All groups together hold every flow once. -/
theorem flatMap_members_perm (key : Flow → String) (flows : List Flow) :
    ((groupBy key flows).flatMap Prod.snd).Perm flows := by
  rw [groupBy_eq_map, List.flatMap_map]
  refine flatMap_filter_perm (groupNames_nodup key flows) ?_
  intro flow member
  exact mem_groupNames_iff.2 ⟨flow, member, rfl⟩

end Groups

/-- Texts with the same start are compared by what follows it. -/
theorem append_lt_append_iff (start left right : String) :
    start ++ left < start ++ right ↔ left < right := by
  rw [String.lt_iff, String.lt_iff, String.toList_append,
    String.toList_append]
  induction start.toList with
  | nil => exact Iff.rfl
  | cons first rest inductionHypothesis =>
      rw [List.cons_append, List.cons_append, List.cons_lt_cons_self]
      exact inductionHypothesis

/-- In one instance the plan can be told from the key. -/
theorem planKey_injective {instanceId first second : String}
    (same : planKey instanceId first = planKey instanceId second) :
    first = second := by
  unfold planKey at same
  rw [String.append_left_inj, String.append_left_inj,
    String.append_left_inj] at same
  exact same

section Orders

theorem byKeyDescending_perm (nodes : List Node) :
    (byKeyDescending nodes).Perm nodes :=
  List.mergeSort_perm nodes _

theorem latestFirst_perm (flows : List Flow) :
    (latestFirst flows).Perm flows :=
  List.mergeSort_perm flows _

/-- Nodes with different keys are put in strictly descending order. -/
theorem byKeyDescending_pairwise {nodes : List Node}
    (differ : (nodes.map Node.key).Nodup) :
    (byKeyDescending nodes).Pairwise fun left right =>
      right.key < left.key := by
  refine (mergeSort_pairwise_of_nodup ?_ ?_ differ).imp ?_
  · intro first second third firstAbove secondAbove
    exact decide_eq_true
      (String.le_trans (of_decide_eq_true secondAbove)
        (of_decide_eq_true firstAbove))
  · intro first second
    rw [Bool.or_eq_true, decide_eq_true_eq, decide_eq_true_eq]
    exact String.le_total second.key first.key
  · rintro left right ⟨below, differs⟩
    rw [← String.not_le]
    intro above
    exact differs (String.le_antisymm above (of_decide_eq_true below))

/-- Flows with different ids are put in strictly descending order. -/
theorem latestFirst_pairwise {flows : List Flow}
    (ids : (flows.map Flow.id).Nodup) :
    (latestFirst flows).Pairwise Flow.IsNewer := by
  have descending :
      (latestFirst flows).Pairwise fun left right =>
        (Flow.order right left).isLE = true ∧ left.id ≠ right.id := by
    apply mergeSort_pairwise_of_nodup _ _ ids
    · intro first second third firstAbove secondAbove
      exact Std.TransCmp.isLE_trans secondAbove firstAbove
    · intro first second
      rw [Bool.or_eq_true]
      cases compared : Flow.order second first with
      | lt => exact .inl rfl
      | eq => exact .inl rfl
      | gt =>
          refine .inr ?_
          rw [Std.OrientedCmp.lt_of_gt compared]
          rfl
  refine descending.imp ?_
  rintro left right ⟨below, differs⟩
  rcases Ordering.isLE_iff_eq_lt_or_eq_eq.1 below with strict | tie
  · exact Flow.isNewer_iff.2 strict
  · exact absurd (Flow.id_eq_of_order tie).symm differs

/-- The order in which flows with different ids came in is lost. -/
theorem latestFirst_eq_of_perm {left right : List Flow}
    (perm : left.Perm right)
    (ids : (left.map Flow.id).Nodup) :
    latestFirst left = latestFirst right := by
  have permuted : (latestFirst left).Perm (latestFirst right) :=
    (latestFirst_perm left).trans
      (perm.trans (latestFirst_perm right).symm)
  exact permuted.eq_of_pairwise
    (fun _ _ _ _ newer older => absurd older newer.asymm)
    (latestFirst_pairwise ids)
    (latestFirst_pairwise ((perm.map Flow.id).nodup_iff.1 ids))

end Orders

/-- What is read from the nodes of groups is what is read from the flows. -/
theorem flatMap_groups_perm
    {key : Flow → String}
    {flows : List Flow}
    {node : String → List Flow → Node}
    {read : Node → List α}
    {ofFlow : Flow → α}
    (each :
      ∀ name members,
        (name, members) ∈ groupBy key flows →
        (read (node name members)).Perm (members.map ofFlow)) :
    ((byKeyDescending <|
        (groupBy key flows).map
          fun (name, members) => node name members).flatMap read).Perm
      (flows.map ofFlow) := by
  have groups :
      ((groupBy key flows).flatMap fun group => group.2.map ofFlow).Perm
        (flows.map ofFlow) := by
    rw [← List.map_flatMap]
    exact (flatMap_members_perm key flows).map ofFlow
  refine ((byKeyDescending_perm _).flatMap_right read).trans ?_
  rw [List.flatMap_map]
  refine (List.Perm.flatMap_left _ ?_).trans groups
  rintro ⟨name, members⟩ group
  exact each name members group

section GroupNodes

variable
  {key : Flow → String}
  {flows : List Flow}
  {node : String → List Flow → Node}

theorem mem_groups_iff {group : Node} :
    group ∈
        (byKeyDescending <|
          (groupBy key flows).map
            fun (name, members) => node name members) ↔
      ∃ name members,
        (name, members) ∈ groupBy key flows ∧
          node name members = group := by
  rw [(byKeyDescending_perm _).mem_iff, List.mem_map]
  constructor
  · rintro ⟨⟨name, members⟩, isGroup, same⟩
    exact ⟨name, members, isGroup, same⟩
  · rintro ⟨name, members, isGroup, same⟩
    exact ⟨(name, members), isGroup, same⟩

/-- Groups differ in their keys if their names give different keys. -/
theorem nodup_keys_groups
    (differ :
      ∀ {first second firstMembers secondMembers},
        (node first firstMembers).key = (node second secondMembers).key →
        first = second) :
    (((groupBy key flows).map
        fun (name, members) => node name members).map Node.key).Nodup := by
  rw [List.map_map]
  refine List.Nodup.map_on ?_
    ((groupNames_nodup key flows).of_map Prod.fst)
  rintro ⟨first, _⟩ isFirst ⟨second, _⟩ isSecond sameKey
  obtain rfl : first = second := differ sameKey
  rw [((mem_groupBy_iff ..).1 isFirst).1,
    ((mem_groupBy_iff ..).1 isSecond).1]

theorem groups_pairwise
    (differ :
      ∀ {first second firstMembers secondMembers},
        (node first firstMembers).key = (node second secondMembers).key →
        first = second) :
    (byKeyDescending <|
        (groupBy key flows).map
          fun (name, members) => node name members).Pairwise
      fun left right => right.key < left.key :=
  byKeyDescending_pairwise (nodup_keys_groups differ)

end GroupNodes

/-- A day has the title of each flow on it. -/
theorem dayTitle_of_mem
    {offset : Int}
    {day : String}
    {flows : List Flow}
    (sameDay : ∀ flow ∈ flows, flow.time.dayText offset = day)
    {flow : Flow}
    (member : flow ∈ flows) :
    Plain.dayTitle offset day flows = flow.time.weekdayText offset := by
  cases flows with
  | nil => cases member
  | cons first rest =>
      apply Instant.weekdayText_eq
      rw [sameDay first List.mem_cons_self, sameDay flow member]

end Arrangement

end BackupHistory
