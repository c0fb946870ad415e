import BackupHistory.Proofs.Tree.Grouping

namespace BackupHistory.Arrangement

/-!
# The order of the input

Flows with different ids may be given in any order. The groups have the same
names, a group has the same flows, and where an order among these could be
seen, in the title of a day or in the sequence of its leaves, it is one that
the flows decide. So a memo is asked for the same leaves one after another, and
it gives the same answers and is left the same.
-/

section Permuted

variable {offset : Int} {left right : List Flow}

theorem leaves_eq_of_perm
    (perm : left.Perm right)
    (ids : (left.map Flow.id).Nodup) :
    leaves offset left = leaves offset right := by
  unfold leaves
  rw [latestFirst_eq_of_perm perm ids]

theorem dayTitle_eq_of_perm
    {day : String}
    (perm : left.Perm right)
    (sameDay : ∀ flow ∈ left, flow.time.dayText offset = day) :
    Plain.dayTitle offset day left = Plain.dayTitle offset day right := by
  cases left with
  | nil => rw [List.nil_perm.1 perm]
  | cons first rest =>
      have inRight : first ∈ right := perm.mem_iff.1 List.mem_cons_self
      rw [dayTitle_of_mem sameDay List.mem_cons_self,
        dayTitle_of_mem
          (fun flow member => sameDay flow (perm.mem_iff.2 member)) inRight]

theorem dayNode_eq
    (keyStart day : String)
    (flows : List Flow) :
    dayNode offset keyStart day flows =
      leaves offset flows >>= fun children =>
        pure {
          key := keyStart ++ day
          content := .dayGroup day ⟨Plain.dayTitle offset day flows, none⟩
          children := children } := by
  cases flows <;> rfl

theorem dayNode_eq_of_perm
    {keyStart day : String}
    (perm : left.Perm right)
    (ids : (left.map Flow.id).Nodup)
    (sameDay : ∀ flow ∈ left, flow.time.dayText offset = day) :
    dayNode offset keyStart day left = dayNode offset keyStart day right := by
  rw [dayNode_eq, dayNode_eq, leaves_eq_of_perm perm ids,
    dayTitle_eq_of_perm perm sameDay]

/-- Groups are built alike if the flows of each may come in any order. -/
theorem groups_eq_of_perm
    {key : Flow → String}
    {build : String → List Flow → StateM LeafMemo Node}
    (each :
      ∀ name {left right : List Flow},
        left.Perm right →
        (left.map Flow.id).Nodup →
        (∀ flow ∈ left, key flow = name) →
        build name left = build name right)
    (perm : left.Perm right)
    (ids : (left.map Flow.id).Nodup) :
    (byKeyDescending <$>
        (groupBy key left).mapM
          fun (name, members) => build name members) =
      byKeyDescending <$>
        (groupBy key right).mapM
          fun (name, members) => build name members := by
  rw [groupBy_eq_map, groupBy_eq_map, groupNames_eq_of_perm perm,
    List.mapM_map, List.mapM_map]
  congr 2
  funext name
  apply each name (perm.filter _)
  · exact Flow.nodup_ids_filter _ ids
  · intro flow member
    exact of_decide_eq_true (List.mem_filter.1 member).2

theorem dayNodes_eq_of_perm
    (keyStart : String)
    (perm : left.Perm right)
    (ids : (left.map Flow.id).Nodup) :
    dayNodes offset keyStart left = dayNodes offset keyStart right :=
  groups_eq_of_perm
    (fun _ _ _ perm ids sameDay => dayNode_eq_of_perm perm ids sameDay)
    perm ids

theorem planNode_eq_of_perm
    (instanceId planId : String)
    (perm : left.Perm right)
    (ids : (left.map Flow.id).Nodup) :
    planNode offset instanceId planId left =
      planNode offset instanceId planId right := by
  unfold planNode
  simp only [dayNodes_eq_of_perm _ perm ids]

theorem planNodes_eq_of_perm
    (instanceId : String)
    (perm : left.Perm right)
    (ids : (left.map Flow.id).Nodup) :
    planNodes offset instanceId left = planNodes offset instanceId right :=
  groups_eq_of_perm
    (fun planId _ _ perm ids _ =>
      planNode_eq_of_perm instanceId planId perm ids)
    perm ids

theorem instanceNode_eq_of_perm
    (instanceId : String)
    (perm : left.Perm right)
    (ids : (left.map Flow.id).Nodup) :
    instanceNode offset instanceId left =
      instanceNode offset instanceId right := by
  unfold instanceNode
  rw [planNodes_eq_of_perm instanceId perm ids]

theorem instanceNodes_eq_of_perm
    (perm : left.Perm right)
    (ids : (left.map Flow.id).Nodup) :
    instanceNodes offset left = instanceNodes offset right :=
  groups_eq_of_perm
    (fun instanceId _ _ perm ids _ =>
      instanceNode_eq_of_perm instanceId perm ids)
    perm ids

theorem roots_eq_of_perm
    (arrangement : Arrangement)
    (perm : left.Perm right)
    (ids : (left.map Flow.id).Nodup) :
    arrangement.roots left = arrangement.roots right := by
  unfold roots
  cases arrangement.scope with
  | plan => exact dayNodes_eq_of_perm "" perm ids
  | repository => exact instanceNodes_eq_of_perm perm ids

end Permuted

/--
Flows with different ids give the same tree in whichever order they come, and
they leave a memo with the same leaves and the same counts, whatever it held.
-/
theorem buildWith_eq_of_perm
    (arrangement : Arrangement)
    {left right : List Flow}
    (perm : left.Perm right)
    (ids : (left.map Flow.id).Nodup)
    (memo : LeafMemo) :
    arrangement.buildWith left memo = arrangement.buildWith right memo := by
  have kept : LeafMemo.keepOnly left = LeafMemo.keepOnly right := by
    unfold LeafMemo.keepOnly
    simp only [perm.any_eq]
  unfold buildWith
  rw [roots_eq_of_perm arrangement perm ids, kept]

/-- A memo that holds an old leaf of one run and a leaf of one that is gone. -/
def usedMemo : LeafMemo where
  entries :=
    .ofList
      [("after", (0, leafNode 7200 Flow.newYearRun)),
        ("gone",
          (1,
            leafNode 0
              (Flow.run "gone" "home" "daily" Flow.newYearRun.time)))]
  hits := 1
  misses := 1

/-- The runs around the leap second may be given from the last to the first. -/
theorem buildWith_eq_of_perm_aroundLeap :
    let arrangement : Arrangement := ⟨.repository, 3600, .none⟩
    Flow.aroundLeap.Perm Flow.aroundLeap.reverse ∧
      (Flow.aroundLeap.map Flow.id).Nodup ∧
      arrangement.buildWith Flow.aroundLeap usedMemo =
        arrangement.buildWith Flow.aroundLeap.reverse usedMemo := by
  intro arrangement
  have perm := (List.reverse_perm Flow.aroundLeap).symm
  have ids : (Flow.aroundLeap.map Flow.id).Nodup := by decide
  exact ⟨perm, ids, buildWith_eq_of_perm arrangement perm ids usedMemo⟩

end BackupHistory.Arrangement
