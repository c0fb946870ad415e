import BackupHistory.Proofs.Tree.Expansion
import BackupHistory.Proofs.Tree.Partition

namespace BackupHistory.Arrangement

/-!
# Newest first

The days of a plan are put in the order of their texts, the flows of a day in
the order of their times. While years have four digits the texts of days are in
the order of the days, and an instant on a later day is a later instant, so
reading the leaves across all days goes from the newest flow to the oldest. A
budget is spent on the leaves in that order, whatever day they are on.
-/

/-- Options with the depths of a view and a given budget. -/
def budgeted
    (scope : Tree.Scope)
    (budget : Nat)
    (expandInstance : Option String) :
    TreeOptions where
  expansion := some { ExpansionPolicy.ofScope scope with budget := budget }
  expandInstance := expandInstance

namespace Plain

variable {offset : Int} {keyStart : String} {flows : List Flow}

/-- The days of flows in four-digit years are shown from the last to the first,
and each from its newest flow to its oldest. -/
theorem flowsOfAll_dayNodes_pairwise
    (ids : (flows.map Flow.id).Nodup)
    (years :
      ∀ flow ∈ flows,
        0 ≤ flow.time.localYear offset ∧
          flow.time.localYear offset ≤ 9999) :
    (Node.flowsOfAll (dayNodes offset keyStart flows)).Pairwise
      Flow.IsNewer := by
  rw [Node.flowsOfAll_eq_flatMap, List.pairwise_flatMap]
  constructor
  · intro node member
    obtain ⟨day, members, group, rfl⟩ := mem_groups_iff.1 member
    rw [flows_dayNode]
    exact latestFirst_pairwise (nodup_of_mem_groupBy group ids)
  · have descending :
        (dayNodes offset keyStart flows).Pairwise fun left right =>
          right.key < left.key :=
      groups_pairwise fun sameKey =>
        (String.append_right_inj keyStart).1 sameKey
    refine descending.imp_of_mem ?_
    intro left right isLeft isRight above first isFirst second isSecond
    obtain ⟨leftDay, leftFlows, leftGroup, rfl⟩ := mem_groups_iff.1 isLeft
    obtain ⟨rightDay, rightFlows, rightGroup, rfl⟩ :=
      mem_groups_iff.1 isRight
    rw [flows_dayNode, (latestFirst_perm _).mem_iff] at isFirst isSecond
    have texts :
        second.time.dayText offset < first.time.dayText offset := by
      rw [(of_mem_groupBy leftGroup).1 first isFirst,
        (of_mem_groupBy rightGroup).1 second isSecond]
      exact (append_lt_append_iff keyStart rightDay leftDay).1 above
    have days :
        second.time.localDay offset < first.time.localDay offset :=
      Instant.localDay_lt_of_dayText_lt
        (years first (mem_of_mem_groupBy leftGroup isFirst)).1
        (years second (mem_of_mem_groupBy rightGroup isSecond)).2 texts
    exact .inl (Instant.compare_eq_lt_of_localDay_lt days)

/-- The leaves of all days have the ids of their flows for keys. -/
theorem map_key_atDepth_dayNodes (flows : List Flow) :
    (Node.atDepth 1 (dayNodes offset keyStart flows)).map Node.key =
      (Node.flowsOfAll (dayNodes offset keyStart flows)).map Flow.id := by
  rw [Node.atDepth_succ, Node.flowsOfAll_eq_flatMap, List.map_flatMap,
    List.map_flatMap]
  refine List.flatMap_congr fun node member => ?_
  obtain ⟨day, members, _, rfl⟩ := mem_groups_iff.1 member
  rw [flows_dayNode, Node.atDepth_zero]
  exact List.map_map

end Plain

/-- A plan with a budget opens the first flows that are shown. -/
theorem expandedKeys_plan
    (offset : Int)
    (budget : Nat)
    (expandInstance : Option String)
    (keyStart : String)
    (flows : List Flow) :
    expandedKeys ⟨.plan, offset, budgeted .plan budget expandInstance⟩
        (Plain.dayNodes offset keyStart flows) =
      ((Node.flowsOfAll (Plain.dayNodes offset keyStart flows)).map
        Flow.id).take budget := by
  have expanded (nodes : List Node) :
      expandedKeys ⟨.plan, offset, budgeted .plan budget expandInstance⟩
          nodes =
        ExpansionPolicy.expand
          { ExpansionPolicy.ofScope .plan with budget := budget } nodes := by
    cases expandInstance <;> rfl
  rw [expanded, ExpansionPolicy.expand_eq_flatMap_share,
    ← Plain.map_key_atDepth_dayNodes]
  exact List.append_nil _

/--
The flows of a plan are shown from the newest to the oldest across all days as
long as their years have four digits by the viewer's clock, and a budget opens
the newest ones.
-/
theorem build_plan_newestFirst
    (offset : Int)
    (budget : Nat)
    (expandInstance : Option String)
    {flows : List Flow}
    (ids : (flows.map Flow.id).Nodup)
    (years :
      ∀ flow ∈ flows,
        0 ≤ flow.time.localYear offset ∧
          flow.time.localYear offset ≤ 9999) :
    let tree :=
      build ⟨.plan, offset, budgeted .plan budget expandInstance⟩ flows
    tree.flows.Perm flows ∧
      tree.flows.Pairwise Flow.IsNewer ∧
      tree.expanded =
        (tree.flows.take (min budget flows.length)).map Flow.id := by
  intro tree
  have plain :
      tree =
        Plain.tree ⟨.plan, offset, budgeted .plan budget expandInstance⟩
          flows :=
    build_eq_tree _ (Flow.distinct_of_nodup ids)
  have all : tree.flows.Perm flows := by
    rw [plain]
    exact Plain.flows_tree _ flows
  have expanded : tree.expanded = (tree.flows.map Flow.id).take budget := by
    rw [plain]
    exact expandedKeys_plan offset budget expandInstance "" flows
  refine ⟨all, ?_, ?_⟩
  · rw [plain]
    exact Plain.flowsOfAll_dayNodes_pairwise ids years
  · rw [expanded, List.map_take, ← all.length_eq, ← List.length_map Flow.id,
      ← List.take_eq_take_min]

/--
The run in the leap second comes after the one in the second before it, and the
next year comes first.
-/
theorem build_plan_newestFirst_aroundLeap :
    let tree := build ⟨.plan, 0, budgeted .plan 2 none⟩ Flow.aroundLeap
    (Flow.aroundLeap.map Flow.id).Nodup ∧
      (∀ flow ∈ Flow.aroundLeap,
        0 ≤ flow.time.localYear 0 ∧ flow.time.localYear 0 ≤ 9999) ∧
      tree.flows = [Flow.newYearRun, Flow.leapRun, Flow.oldYearRun] ∧
      tree.expanded = ["after", "within"] := by
  intro tree
  have ids : (Flow.aroundLeap.map Flow.id).Nodup := by decide
  have years :
      ∀ flow ∈ Flow.aroundLeap,
        0 ≤ flow.time.localYear 0 ∧ flow.time.localYear 0 ≤ 9999 := by
    decide
  have sorted :
      [Flow.newYearRun, Flow.leapRun, Flow.oldYearRun].Pairwise
        Flow.IsNewer := by
    decide
  obtain ⟨all, newestFirst, expanded⟩ :=
    build_plan_newestFirst 0 2 none ids years
  have shown :
      tree.flows = [Flow.newYearRun, Flow.leapRun, Flow.oldYearRun] :=
    (all.trans (.swap _ _ _)).eq_of_pairwise
      (fun _ _ _ _ newer older => absurd older newer.asymm)
      newestFirst sorted
  refine ⟨ids, years, shown, ?_⟩
  have opened :
      tree.expanded = (tree.flows.take (min 2 3)).map Flow.id :=
    expanded
  rw [opened, shown]
  rfl

end BackupHistory.Arrangement
