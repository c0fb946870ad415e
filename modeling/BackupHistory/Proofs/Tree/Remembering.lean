import BackupHistory.Proofs.Tree.Grouping

namespace BackupHistory

/-!
# What a memo remembers

A build looks up the leaf of every flow once, in whatever order the groups ask
for them, and then forgets the leaves of other flows. Flows with different ids
do not get in each other's way, so the order is lost: what is held afterwards,
and how many leaves were held before, is settled by the flows of this build and
of the one before it.
-/

namespace LeafMemo

variable {create : Flow → Node}

/-- The memo after the leaf of a flow was looked up. -/
def lookUp (create : Flow → Node) (memo : LeafMemo) (flow : Flow) :
    LeafMemo :=
  ((leaf create flow).run memo).2

/-- The memo after the leaves of flows were looked up one after another. -/
def lookUpAll
    (create : Flow → Node)
    (memo : LeafMemo)
    (flows : List Flow) :
    LeafMemo :=
  flows.foldl (lookUp create) memo

/-- A leaf of a flow is held under the flow's revision. -/
def Remembers (memo : LeafMemo) (flow : Flow) : Prop :=
  ∃ node, memo.entries.get? flow.id = some (flow.revision, node)

section OneLookup

variable (memo : LeafMemo) (flow : Flow)

theorem leaf?_isSome_iff :
    (memo.leaf? flow).isSome = true ↔ memo.Remembers flow := by
  unfold Remembers
  simp only [Option.isSome_iff_exists, leaf?_eq_some_iff]

theorem lookUp_of_some {node : Node} (held : memo.leaf? flow = some node) :
    memo.lookUp create flow = { memo with hits := memo.hits + 1 } := by
  rw [lookUp, run_leaf_of_some held]

theorem lookUp_of_none (notHeld : memo.leaf? flow = none) :
    memo.lookUp create flow =
      { memo with
        entries :=
          memo.entries.insert flow.id (flow.revision, create flow)
        misses := memo.misses + 1 } := by
  rw [lookUp, run_leaf_of_none notHeld]

/-- After a lookup the leaf is remembered. -/
theorem remembers_lookUp : (memo.lookUp create flow).Remembers flow := by
  cases held : memo.leaf? flow with
  | none =>
      rw [lookUp_of_none memo flow held]
      exact ⟨create flow, by simp⟩
  | some node =>
      rw [lookUp_of_some memo flow held]
      exact ⟨node, leaf?_eq_some_iff.1 held⟩

/-- A lookup leaves alone what is held of other flows. -/
theorem get?_lookUp_of_ne {flowId : FlowId} (differs : flowId ≠ flow.id) :
    (memo.lookUp create flow).entries.get? flowId =
      memo.entries.get? flowId := by
  cases held : memo.leaf? flow with
  | none =>
      rw [lookUp_of_none memo flow held]
      simp [differs]
  | some node => rw [lookUp_of_some memo flow held]

theorem leaf?_lookUp_of_ne {other : Flow} (differs : other.id ≠ flow.id) :
    (memo.lookUp create flow).leaf? other = memo.leaf? other := by
  simp only [leaf?, get?_lookUp_of_ne memo flow differs]

/-- A lookup is a hit if the leaf was there. -/
theorem hits_lookUp :
    (memo.lookUp create flow).hits =
      memo.hits + if (memo.leaf? flow).isSome then 1 else 0 := by
  cases held : memo.leaf? flow with
  | none => simp [lookUp_of_none memo flow held]
  | some node => simp [lookUp_of_some memo flow held]

theorem hits_add_misses_lookUp :
    (memo.lookUp create flow).hits + (memo.lookUp create flow).misses =
      memo.hits + memo.misses + 1 := by
  cases held : memo.leaf? flow with
  | none =>
      simp only [lookUp_of_none memo flow held]
      omega
  | some node =>
      simp only [lookUp_of_some memo flow held]
      omega

end OneLookup

section Lookups

theorem get?_lookUpAll_of_not_mem
    (memo : LeafMemo)
    {flows : List Flow}
    {flowId : FlowId}
    (absent : flowId ∉ flows.map Flow.id) :
    (memo.lookUpAll create flows).entries.get? flowId =
      memo.entries.get? flowId := by
  induction flows generalizing memo with
  | nil => rfl
  | cons first rest inductionHypothesis =>
      rw [List.map_cons, List.mem_cons, not_or] at absent
      exact (inductionHypothesis (memo.lookUp create first) absent.2).trans
        (get?_lookUp_of_ne memo first absent.1)

/-- After lookups the leaf of each flow is remembered. -/
theorem remembers_lookUpAll
    (memo : LeafMemo)
    {flows : List Flow}
    (ids : (flows.map Flow.id).Nodup)
    {flow : Flow}
    (member : flow ∈ flows) :
    (memo.lookUpAll create flows).Remembers flow := by
  induction flows generalizing memo with
  | nil => cases member
  | cons first rest inductionHypothesis =>
      obtain ⟨fresh, restIds⟩ := List.nodup_cons.1 ids
      rcases List.mem_cons.1 member with rfl | inRest
      · obtain ⟨node, held⟩ : (memo.lookUp create flow).Remembers flow :=
          remembers_lookUp memo flow
        exact ⟨node, (get?_lookUpAll_of_not_mem _ fresh).trans held⟩
      · exact inductionHypothesis (memo.lookUp create first) restIds inRest

/-- The hits are the flows whose leaves were there from the start. -/
theorem hits_lookUpAll
    (memo : LeafMemo)
    {flows : List Flow}
    (ids : (flows.map Flow.id).Nodup) :
    (memo.lookUpAll create flows).hits =
      memo.hits + flows.countP fun flow => (memo.leaf? flow).isSome := by
  induction flows generalizing memo with
  | nil => rfl
  | cons first rest inductionHypothesis =>
      obtain ⟨fresh, restIds⟩ := List.nodup_cons.1 ids
      have asBefore :
          (rest.countP fun flow =>
              ((memo.lookUp create first).leaf? flow).isSome) =
            rest.countP fun flow => (memo.leaf? flow).isSome := by
        refine List.countP_congr fun flow member => ?_
        have differs : flow.id ≠ first.id := fun same =>
          fresh (same ▸ List.mem_map_of_mem member)
        rw [leaf?_lookUp_of_ne memo first differs]
      have later := inductionHypothesis (memo.lookUp create first) restIds
      rw [asBefore, hits_lookUp] at later
      rw [List.countP_cons]
      exact later.trans (by omega)

theorem hits_add_misses_lookUpAll (memo : LeafMemo) (flows : List Flow) :
    (memo.lookUpAll create flows).hits +
        (memo.lookUpAll create flows).misses =
      memo.hits + memo.misses + flows.length := by
  induction flows generalizing memo with
  | nil => rfl
  | cons first rest inductionHypothesis =>
      have later := inductionHypothesis (memo.lookUp create first)
      rw [hits_add_misses_lookUp] at later
      rw [List.length_cons]
      exact later.trans (by omega)

end Lookups

/--
An action that looks up the leaves of flows, each once and in some order, and
does nothing else to a memo.
-/
def LooksUp
    (create : Flow → Node)
    (flows : List Flow)
    (action : StateM LeafMemo α) :
    Prop :=
  ∀ memo : LeafMemo,
    ∃ order : List Flow,
      order.Perm flows ∧
        (action.run memo).2 = memo.lookUpAll create order

section Actions

theorem looksUp_leaf (flow : Flow) :
    LooksUp create [flow] (leaf create flow) :=
  fun _ => ⟨[flow], .refl _, rfl⟩

theorem looksUp_pure (value : α) :
    LooksUp create [] (pure value : StateM LeafMemo α) :=
  fun _ => ⟨[], .refl _, rfl⟩

theorem LooksUp.perm
    {flows others : List Flow}
    {action : StateM LeafMemo α}
    (looksUp : LooksUp create flows action)
    (perm : flows.Perm others) :
    LooksUp create others action := by
  intro memo
  obtain ⟨order, same, run⟩ := looksUp memo
  exact ⟨order, same.trans perm, run⟩

/-- Lookups of one action are followed by those of the next one. -/
theorem LooksUp.bind
    {flows others : List Flow}
    {action : StateM LeafMemo α}
    {next : α → StateM LeafMemo β}
    (first : LooksUp create flows action)
    (second : ∀ value, LooksUp create others (next value)) :
    LooksUp create (flows ++ others) (action >>= next) := by
  intro memo
  obtain ⟨order, perm, run⟩ := first memo
  obtain ⟨later, laterPerm, laterRun⟩ :=
    second (action.run memo).1 (action.run memo).2
  refine ⟨order ++ later, perm.append laterPerm, ?_⟩
  calc
    ((action >>= next).run memo).2 =
        ((next (action.run memo).1).run (action.run memo).2).2 := by
      rw [StateT.run_bind]
      rfl
    _ = (memo.lookUpAll create order).lookUpAll create later := by
      rw [laterRun, run]
    _ = memo.lookUpAll create (order ++ later) := by
      simp only [lookUpAll, List.foldl_append]

/-- What is made of the value of an action has no part in its lookups. -/
theorem LooksUp.bind_pure
    {flows : List Flow}
    {action : StateM LeafMemo α}
    (looksUp : LooksUp create flows action)
    (function : α → β) :
    LooksUp create flows (action >>= fun value => pure (function value)) := by
  have bound :=
    looksUp.bind fun value => looksUp_pure (function value)
  rwa [List.append_nil] at bound

/-- One action after another looks up the flows of all of them. -/
theorem looksUp_mapM
    {action : α → StateM LeafMemo β}
    {flowsOf : α → List Flow}
    {elements : List α}
    (each :
      ∀ element ∈ elements,
        LooksUp create (flowsOf element) (action element)) :
    LooksUp create (elements.flatMap flowsOf) (elements.mapM action) := by
  induction elements with
  | nil => exact looksUp_pure []
  | cons first rest inductionHypothesis =>
      have head := each first List.mem_cons_self
      have tail :=
        inductionHypothesis fun element member =>
          each element (List.mem_cons_of_mem first member)
      rw [List.mapM_cons, List.flatMap_cons]
      exact head.bind fun _ => tail.bind_pure _

end Actions

/-- A memo that holds one leaf for each of some flows, and no others. -/
structure Mirrors (memo : LeafMemo) (flows : List Flow) : Prop where
  /-- The ids under which leaves are held are those of the flows. -/
  ids : memo.entries.keys.Perm (flows.map Flow.id)
  /-- Each flow is remembered at its revision. -/
  remembers : ∀ flow ∈ flows, memo.Remembers flow

/-- Whether a flow is among others at the revision that it has. -/
def isAmong (flows : List Flow) (flow : Flow) : Bool :=
  flows.any fun other =>
    other.id == flow.id && other.revision == flow.revision

section Mirrors

theorem mirrors_empty : empty.Mirrors [] where
  ids := .nil
  remembers _ member := by cases member

/-- What is there from the last flows are the leaves of their revisions. -/
theorem Mirrors.leaf?_isSome
    {memo : LeafMemo}
    {flows : List Flow}
    (mirrors : memo.Mirrors flows)
    (flow : Flow) :
    (memo.leaf? flow).isSome = isAmong flows flow := by
  rw [Bool.eq_iff_iff, leaf?_isSome_iff]
  simp only [isAmong, List.any_eq_true, Bool.and_eq_true, beq_iff_eq]
  constructor
  · rintro ⟨node, held⟩
    have isKey : flow.id ∈ memo.entries.keys := by
      rw [Table.mem_keys_iff, held]
      rfl
    obtain ⟨other, isOther, sameId⟩ :=
      List.mem_map.1 (mirrors.ids.mem_iff.1 isKey)
    obtain ⟨otherNode, otherHeld⟩ := mirrors.remembers other isOther
    rw [sameId, held] at otherHeld
    have sameRevision := congrArg Prod.fst (Option.some.inj otherHeld)
    exact ⟨other, isOther, sameId, sameRevision.symm⟩
  · rintro ⟨other, isOther, sameId, sameRevision⟩
    unfold Remembers
    rw [← sameId, ← sameRevision]
    exact mirrors.remembers other isOther

/-- A memo that remembers flows is left with these alone. -/
theorem mirrors_keepOnly
    {memo : LeafMemo}
    {flows : List Flow}
    (ids : (flows.map Flow.id).Nodup)
    (held : ∀ flow ∈ flows, memo.Remembers flow) :
    (memo.keepOnly flows).Mirrors flows := by
  have kept : ∀ flow ∈ flows, (memo.keepOnly flows).Remembers flow := by
    intro flow member
    obtain ⟨node, isHeld⟩ := held flow member
    refine ⟨node, ?_⟩
    rw [get?_keepOnly, isHeld]
    exact Option.filter_eq_some_iff.2
      ⟨rfl, List.any_eq_true.2 ⟨flow, member, beq_self_eq_true _⟩⟩
  refine ⟨?_, kept⟩
  refine
    (List.perm_ext_iff_of_nodup (Table.keys_nodup _) ids).2
      fun flowId => ?_
  rw [Table.mem_keys_iff, List.mem_map]
  constructor
  · intro present
    obtain ⟨entry, isEntry⟩ := Option.isSome_iff_exists.1 present
    rw [get?_keepOnly, Option.filter_eq_some_iff,
      List.any_eq_true] at isEntry
    obtain ⟨_, flow, member, same⟩ := isEntry
    exact ⟨flow, member, beq_iff_eq.1 same⟩
  · rintro ⟨flow, member, rfl⟩
    obtain ⟨node, isKept⟩ := kept flow member
    rw [isKept]
    rfl

end Mirrors

end LeafMemo

namespace Arrangement

section Building

variable {offset : Int}

theorem looksUp_leaves (flows : List Flow) :
    LeafMemo.LooksUp (leafNode offset) flows (leaves offset flows) := by
  have each :
      LeafMemo.LooksUp (leafNode offset)
        ((latestFirst flows).flatMap fun flow => [flow])
        (leaves offset flows) :=
    LeafMemo.looksUp_mapM fun flow _ => LeafMemo.looksUp_leaf flow
  rw [List.flatMap_singleton'] at each
  exact each.perm (latestFirst_perm flows)

theorem looksUp_dayNode (keyStart day : String) (flows : List Flow) :
    LeafMemo.LooksUp (leafNode offset) flows
      (dayNode offset keyStart day flows) := by
  cases flows with
  | nil => exact (looksUp_leaves []).bind_pure _
  | cons first rest => exact (looksUp_leaves (first :: rest)).bind_pure _

/-- Groups look up the leaves of all flows if each looks up its own. -/
theorem looksUp_groups
    (key : Flow → String)
    {build : String → List Flow → StateM LeafMemo Node}
    (each :
      ∀ name members,
        LeafMemo.LooksUp (leafNode offset) members (build name members))
    (flows : List Flow) :
    LeafMemo.LooksUp (leafNode offset) flows
      (byKeyDescending <$>
        (groupBy key flows).mapM
          fun (name, members) => build name members) := by
  have together :
      LeafMemo.LooksUp (leafNode offset)
        ((groupBy key flows).flatMap Prod.snd)
        ((groupBy key flows).mapM
          fun (name, members) => build name members) :=
    LeafMemo.looksUp_mapM fun group _ => each group.1 group.2
  exact
    (together.bind_pure byKeyDescending).perm
      (flatMap_members_perm key flows)

theorem looksUp_dayNodes (keyStart : String) (flows : List Flow) :
    LeafMemo.LooksUp (leafNode offset) flows
      (dayNodes offset keyStart flows) :=
  looksUp_groups _ (looksUp_dayNode keyStart) flows

theorem looksUp_planNode (instanceId planId : String) (flows : List Flow) :
    LeafMemo.LooksUp (leafNode offset) flows
      (planNode offset instanceId planId flows) :=
  (looksUp_dayNodes _ flows).bind_pure _

theorem looksUp_planNodes (instanceId : String) (flows : List Flow) :
    LeafMemo.LooksUp (leafNode offset) flows
      (planNodes offset instanceId flows) :=
  looksUp_groups _ (looksUp_planNode instanceId) flows

theorem looksUp_instanceNode (instanceId : String) (flows : List Flow) :
    LeafMemo.LooksUp (leafNode offset) flows
      (instanceNode offset instanceId flows) :=
  (looksUp_planNodes instanceId flows).bind_pure _

theorem looksUp_instanceNodes (flows : List Flow) :
    LeafMemo.LooksUp (leafNode offset) flows
      (instanceNodes offset flows) :=
  looksUp_groups _ looksUp_instanceNode flows

/-- In every view a build looks up the leaf of each flow once. -/
theorem looksUp_roots (arrangement : Arrangement) (flows : List Flow) :
    LeafMemo.LooksUp (leafNode arrangement.offset) flows
      (arrangement.roots flows) := by
  unfold roots
  cases arrangement.scope with
  | plan => exact looksUp_dayNodes "" flows
  | repository => exact looksUp_instanceNodes flows

/-- A build looks up its flows in some order and then forgets all others. -/
theorem exists_order_of_buildWith
    (arrangement : Arrangement)
    (flows : List Flow)
    (memo : LeafMemo) :
    ∃ order : List Flow,
      order.Perm flows ∧
        (arrangement.buildWith flows memo).2 =
          (memo.begin.lookUpAll (leafNode arrangement.offset)
            order).keepOnly flows := by
  obtain ⟨order, perm, run⟩ := looksUp_roots arrangement flows memo.begin
  refine ⟨order, perm, ?_⟩
  rw [← run]
  rfl

end Building

section Builds

variable (arrangement : Arrangement) {flows : List Flow} (memo : LeafMemo)

/-- A build leaves the leaves of its flows, whatever was held before. -/
theorem mirrors_buildWith (ids : (flows.map Flow.id).Nodup) :
    (arrangement.buildWith flows memo).2.Mirrors flows := by
  obtain ⟨order, perm, built⟩ :=
    exists_order_of_buildWith arrangement flows memo
  have orderIds : (order.map Flow.id).Nodup :=
    (perm.map Flow.id).nodup_iff.2 ids
  rw [built]
  refine LeafMemo.mirrors_keepOnly ids fun flow member => ?_
  exact
    LeafMemo.remembers_lookUpAll memo.begin orderIds
      (perm.mem_iff.2 member)

/-- The hits of a build are the flows that the memo has at their revisions. -/
theorem hits_buildWith
    {previous : List Flow}
    (mirrors : memo.Mirrors previous)
    (ids : (flows.map Flow.id).Nodup) :
    (arrangement.buildWith flows memo).2.hits =
      flows.countP (LeafMemo.isAmong previous) := by
  obtain ⟨order, perm, built⟩ :=
    exists_order_of_buildWith arrangement flows memo
  have orderIds : (order.map Flow.id).Nodup :=
    (perm.map Flow.id).nodup_iff.2 ids
  calc
    (arrangement.buildWith flows memo).2.hits =
        (memo.begin.lookUpAll (leafNode arrangement.offset) order).hits := by
      rw [built]
      rfl
    _ = 0 + order.countP fun flow => (memo.leaf? flow).isSome :=
      LeafMemo.hits_lookUpAll memo.begin orderIds
    _ = order.countP (LeafMemo.isAmong previous) := by
      rw [Nat.zero_add]
      exact List.countP_congr fun flow _ => by rw [mirrors.leaf?_isSome]
    _ = flows.countP (LeafMemo.isAmong previous) := perm.countP_eq _

theorem hits_add_misses_buildWith (flows : List Flow) :
    (arrangement.buildWith flows memo).2.hits +
        (arrangement.buildWith flows memo).2.misses =
      flows.length := by
  obtain ⟨order, perm, built⟩ :=
    exists_order_of_buildWith arrangement flows memo
  calc
    (arrangement.buildWith flows memo).2.hits +
        (arrangement.buildWith flows memo).2.misses =
      (memo.begin.lookUpAll (leafNode arrangement.offset) order).hits +
        (memo.begin.lookUpAll (leafNode arrangement.offset)
          order).misses := by
      rw [built]
      rfl
    _ = 0 + 0 + order.length :=
      LeafMemo.hits_add_misses_lookUpAll memo.begin order
    _ = flows.length := by
      rw [Nat.add_zero, Nat.zero_add, perm.length_eq]

end Builds

/-- A tree that is built of flows. -/
structure Build where
  arrangement : Arrangement
  flows : List Flow
  deriving Repr

/-- The memo after builds that began with an empty one. -/
def memoAfter (builds : List Build) : LeafMemo :=
  builds.foldl
    (fun memo build => (build.arrangement.buildWith build.flows memo).2)
    .empty

/-- The flows of the last of some builds, none if there was none. -/
def lastFlows (builds : List Build) : List Flow :=
  (builds.getLast?.map Build.flows).getD []

theorem memoAfter_append_singleton (earlier : List Build) (last : Build) :
    memoAfter (earlier ++ [last]) =
      (last.arrangement.buildWith last.flows (memoAfter earlier)).2 := by
  simp only [memoAfter, List.foldl_append, List.foldl_cons, List.foldl_nil]

/-- After any builds the memo has the leaves of the last one. -/
theorem mirrors_memoAfter
    {builds : List Build}
    (distinct : ∀ build ∈ builds, (build.flows.map Flow.id).Nodup) :
    (memoAfter builds).Mirrors (lastFlows builds) := by
  rcases List.eq_nil_or_concat' builds with rfl | ⟨earlier, last, rfl⟩
  · exact LeafMemo.mirrors_empty
  · have isLast : last ∈ earlier ++ [last] :=
      List.mem_append_right earlier (List.mem_singleton_self last)
    rw [memoAfter_append_singleton]
    simp only [lastFlows, List.getLast?_concat, Option.map_some,
      Option.getD_some]
    exact mirrors_buildWith last.arrangement _ (distinct last isLast)

/--
After each of any builds with one memo, each of flows with different ids, the
memo has one leaf for each flow of this build, under the flow's revision, and no
others. The hits of this build are the flows that were in the build just before
it at the same revision, and hits and misses together are its flows.
-/
theorem memoAfter_mirrors_last
    (earlier : List Build)
    (last : Build)
    (distinct :
      ∀ build ∈ earlier ++ [last], (build.flows.map Flow.id).Nodup) :
    let memo := memoAfter (earlier ++ [last])
    memo.Mirrors last.flows ∧
      memo.hits =
        last.flows.countP (LeafMemo.isAmong (lastFlows earlier)) ∧
      memo.hits + memo.misses = last.flows.length := by
  have isLast : last ∈ earlier ++ [last] :=
    List.mem_append_right earlier (List.mem_singleton_self last)
  have ids := distinct last isLast
  have mirrors : (memoAfter earlier).Mirrors (lastFlows earlier) :=
    mirrors_memoAfter fun build member =>
      distinct build (List.mem_append_left [last] member)
  simp only [memoAfter_append_singleton]
  refine ⟨?_, ?_, ?_⟩
  · exact mirrors_buildWith last.arrangement _ ids
  · exact hits_buildWith last.arrangement _ mirrors ids
  · exact hits_add_misses_buildWith last.arrangement _ last.flows

/-- Builds between which a run goes away and another one changes. -/
def changingBuilds : List Build :=
  [⟨⟨.repository, 3600, .none⟩, Flow.aroundLeap⟩,
    ⟨⟨.plan, 3600, .none⟩,
      [Flow.leapRun, Flow.newYearRun.atRevision 2]⟩]

/-- A build for which the run comes back. -/
def returningBuild : Build :=
  ⟨⟨.repository, 0, .none⟩,
    [Flow.oldYearRun, Flow.newYearRun.atRevision 2, Flow.leapRun]⟩

theorem memoAfter_mirrors_returningBuild :
    let memo := memoAfter (changingBuilds ++ [returningBuild])
    (∀ build ∈ changingBuilds ++ [returningBuild],
        (build.flows.map Flow.id).Nodup) ∧
      memo.Mirrors returningBuild.flows ∧
      memo.hits =
        returningBuild.flows.countP
          (LeafMemo.isAmong (lastFlows changingBuilds)) ∧
      memo.hits + memo.misses = returningBuild.flows.length := by
  have distinct :
      ∀ build ∈ changingBuilds ++ [returningBuild],
        (build.flows.map Flow.id).Nodup := by
    decide
  exact
    ⟨distinct,
      memoAfter_mirrors_last changingBuilds returningBuild distinct⟩

end Arrangement

end BackupHistory
