/-
The stages of a planned statement form a tree.

* `Plan.IsLeaf` — look-ups and scans whose own stages fit together;
* `JoinTree.sendsAhead` — in a tree of joins over such plans every stage sends
  its rows to one that is listed later;
* `CrossJoin.isTree_plan` — the stages of a planned statement form a tree with
  the last join at its root.
-/
import ShardJoin.Proofs.Planning.Feeding
import ShardJoin.Proofs.Planning.Meaning
import ShardJoin.Proofs.StageGraph.Tree

namespace ShardJoin

namespace Plan

/-- The ids of the stages of a plan. -/
def stageIds (p : Plan) : List StageId := p.stages.map (·.node.id)

/-- Sending the rows elsewhere leaves the ids of the stages. -/
theorem stageIds_routeResult (consumer : Downstream) (p : Plan) :
    (p.routeResult consumer).stageIds = p.stageIds := by
  by_cases hhides : p.HidesScan
  · rw [hhides.routeResult_eq]
  · rw [stageIds, stageIds, stages_eq, stages_eq p, otherStages_routeResult,
      producer?_routeResult hhides]
    cases p.producer? <;> simp

/-- A look-up, or a scan whose stages fit together: its merge, if there is one, is valid and
receives the rows of the collect stage where it runs. -/
inductive IsLeaf : Plan → Prop
  | tableGet (get : TableGet) : IsLeaf (.tableGet get)
  | scan (collect : CollectStage) (fetch : Option FetchPhase) : IsLeaf (.scan ⟨collect, none, fetch⟩)
  | merged {collect : CollectStage} {merge : MergeStage} {fetch : Option FetchPhase}
    (hroute : collect.downstream = .stage merge.executionNodes merge.id)
    (hvalid : merge.validate = .ok ()) : IsLeaf (.scan ⟨collect, some merge, fetch⟩)

namespace IsLeaf

variable {p : Plan}

/-- A leaf sends its rows where it is told to. -/
theorem sendsAhead (h : p.IsLeaf) (consumer : Downstream) :
    StageGraph.SendsAhead consumer ((p.routeResult consumer).stages.map Stage.node) := by
  cases h with
  | tableGet get => exact trivial
  | scan collect fetch => exact ⟨.inl rfl, trivial⟩
  | merged hroute hvalid => exact ⟨.inr ⟨_, List.mem_singleton_self _, hroute⟩, .inl rfl, trivial⟩

theorem validate (h : p.IsLeaf) (consumer : Downstream) :
    ∀ stage ∈ (p.routeResult consumer).stages, stage.validate = .ok () := by
  cases h with
  | tableGet get => exact fun _ hstage => nomatch hstage
  | scan collect fetch => exact List.forall_mem_cons.2 ⟨rfl, fun _ hstage => nomatch hstage⟩
  | merged hroute hvalid =>
    exact List.forall_mem_cons.2 ⟨rfl, List.forall_mem_cons.2 ⟨hvalid, fun _ h => nomatch h⟩⟩

end IsLeaf

end Plan

/-- Counting from a word to a word leads over words only. -/
theorem isWord32_of_mem_range {next : StageId} {n : Nat} (hnext : IsWord32 next)
    (hlast : IsWord32 (next + n)) :
    ∀ id ∈ (List.range n).map (fun k : Nat => next + k), IsWord32 id := by
  intro id hid
  obtain ⟨k, hk, rfl⟩ := List.mem_map.1 hid
  have hlt : (k : Int) < n := Int.ofNat_lt.2 (List.mem_range.1 hk)
  unfold IsWord32 at *
  omega

namespace JoinTree

variable {next : StageId} {n : Nat} {consumer : Downstream} {plans : List Plan} {p : Plan}

/-- Every stage of a tree of joins sends its rows to a later one, and the last join to the consumer
of the tree. -/
theorem sendsAhead (h : JoinTree next n consumer plans p) (hleaves : ∀ q ∈ plans, q.IsLeaf) :
    StageGraph.SendsAhead consumer (p.stages.map Stage.node) := by
  induction h with
  | leaf consumer p => exact (hleaves p (List.mem_singleton_self p)).sendsAhead consumer
  | @join n consumer plans left right leftOuter merge nodes _ hid hnodes hconsumer _ ih =>
    subst hnodes
    rw [← hid] at ih ⊢
    have hleft := ih fun q hq => hleaves q (List.mem_append_left _ hq)
    have hright := (hleaves right (by simp)).sendsAhead (.stage merge.executionNodes merge.id)
    rw [Plan.stages, List.map_append, List.map_append, List.map_singleton]
    exact StageGraph.SendsAhead.concat (hleft.append hright) hconsumer

theorem validate (h : JoinTree next n consumer plans p) (hleaves : ∀ q ∈ plans, q.IsLeaf) :
    ∀ stage ∈ p.stages, stage.validate = .ok () := by
  induction h with
  | leaf consumer p => exact (hleaves p (List.mem_singleton_self p)).validate consumer
  | @join n consumer plans left right leftOuter merge nodes _ _ _ _ hvalid ih =>
    have hright := (hleaves right (by simp)).validate (.stage nodes (next + n))
    intro stage hstage
    rw [Plan.stages, List.mem_append, List.mem_append, List.mem_singleton] at hstage
    rcases hstage with (hstage | hstage) | rfl
    · exact ih (fun q hq => hleaves q (List.mem_append_left _ hq)) stage hstage
    · exact hright stage hstage
    · exact hvalid

/-- The stages are those of the leaves, and one for each join. -/
theorem stageIds_perm (h : JoinTree next n consumer plans p) :
    p.stageIds.Perm
      (plans.flatMap Plan.stageIds ++ (List.range n).map fun k : Nat => next + k) := by
  induction h with
  | leaf consumer p =>
    rw [Plan.stageIds_routeResult]
    simp
  | @join n consumer plans left right leftOuter merge nodes _ hid _ _ _ ih =>
    have hright := Plan.stageIds_routeResult (.stage nodes (next + n)) right
    have hids : (Plan.nestedLoop left (right.routeResult (.stage nodes (next + n))) leftOuter
        merge).stageIds = left.stageIds ++ right.stageIds ++ [next + n] := by
      rw [← hright, ← hid]
      simp [Plan.stageIds, Plan.stages, Stage.node, StageNode.ofMerge]
    rw [hids, List.range_succ, List.map_append, List.map_singleton, List.flatMap_append,
      List.flatMap_singleton, ← List.append_assoc]
    refine List.Perm.append_right _ ?_
    -- the joins so far stand before the new leaf on one side and after it on the other
    calc left.stageIds ++ right.stageIds
      _ |>.Perm (plans.flatMap Plan.stageIds ++ ((List.range n).map fun k : Nat => next + k) ++
          right.stageIds) := ih.append_right _
      _ |>.Perm (plans.flatMap Plan.stageIds ++ right.stageIds ++
          (List.range n).map fun k : Nat => next + k) := by
        rw [List.append_assoc, List.append_assoc]
        exact List.Perm.append_left _ List.perm_append_comm

/-- Leaves with different ids below those of the joins give stages with different ids. -/
theorem nodup_stageIds (h : JoinTree next n consumer plans p)
    (hids : (plans.flatMap Plan.stageIds).Nodup)
    (hbelow : ∀ id ∈ plans.flatMap Plan.stageIds, id < next) : p.stageIds.Nodup := by
  rw [h.stageIds_perm.nodup_iff, List.nodup_append]
  refine ⟨hids, ?_, fun id hid join hjoin => ?_⟩
  · exact List.nodup_range.map fun i j hij => Int.ofNat.inj (Int.add_left_cancel hij)
  · obtain ⟨k, -, rfl⟩ := List.mem_map.1 hjoin
    have hle : next ≤ next + k := Int.le_add_of_nonneg_right (Int.natCast_nonneg k)
    exact Int.ne_of_lt (Int.lt_of_lt_of_le (hbelow id hid) hle)

/-- If the ids of the leaves are words and counting on from the next one has not left the words, the
ids of all stages are words. -/
theorem isWord32_stageIds (h : JoinTree next n consumer plans p)
    (hleaves : ∀ id ∈ plans.flatMap Plan.stageIds, IsWord32 id) (hnext : IsWord32 next)
    (hlast : IsWord32 (next + n)) : ∀ id ∈ p.stageIds, IsWord32 id := by
  intro id hid
  rcases List.mem_append.1 (h.stageIds_perm.mem_iff.1 hid) with hid | hid
  · exact hleaves id hid
  · exact isWord32_of_mem_range hnext hlast id hid

/-- A tree of joins that sends its rows to the node that issued the query is a tree of stages. -/
theorem isTree {handler : NodeId} (h : JoinTree next (n + 1) (.handler handler) plans p)
    (hleaves : ∀ q ∈ plans, q.IsLeaf) (hids : (plans.flatMap Plan.stageIds).Nodup)
    (hbelow : ∀ id ∈ plans.flatMap Plan.stageIds, id < next) :
    ∃ left right leftOuter merge g, p = .nestedLoop left right leftOuter merge ∧
      StageGraph.ofPlan p = .ok g ∧ g.stages.map (·.id) = p.stageIds ∧ g.IsTree merge.id := by
  have hnodup : ((p.stages.map Stage.node).map (·.id)).Nodup := by
    rw [List.map_map]
    exact h.nodup_stageIds hids hbelow
  have hgraph : StageGraph.ofPlan p =
      .ok ⟨(p.stages.map Stage.node).map (StageGraph.link (p.stages.map Stage.node))⟩ := by
    rw [StageGraph.ofPlan, StageGraph.validateAll_eq_ok.2 (h.validate hleaves),
      StageGraph.ofNodes_eq hnodup (h.sendsAhead hleaves)]
    rfl
  have hstages : ((p.stages.map Stage.node).map
      (StageGraph.link (p.stages.map Stage.node))).map (·.id) = p.stageIds := by
    rw [List.map_map, List.map_map]
    exact List.map_congr_left fun _ _ => rfl
  -- below the last join, every stage sends its rows to a join
  cases h with
  | @join _ _ plans left right leftOuter merge nodes hleft hid hnodes hconsumer _ =>
    subst hnodes
    rw [← hid] at hleft hnodup hgraph hstages ⊢
    have hahead := (hleft.sendsAhead fun q hq => hleaves q (List.mem_append_left _ hq)).append
      ((hleaves right (by simp)).sendsAhead (.stage merge.executionNodes merge.id))
    refine ⟨left, _, leftOuter, merge, _, rfl, hgraph, hstages, ?_⟩
    have hlast : ∀ stages : List Stage, (stages ++ [Stage.merge merge]).map Stage.node =
        stages.map Stage.node ++ [StageNode.ofMerge merge] := fun _ => List.map_append
    rw [Plan.stages, hlast, List.map_append (f := Stage.node)] at hnodup ⊢
    exact StageGraph.isTree_link hnodup hahead hconsumer

end JoinTree

namespace CrossJoin

open Planning Statement

/-- The joins of a statement take one id each. -/
theorem ReadyToJoin.nextStage_eq {planner : RelationPlanner} {s : Statement}
    {before between joined after : Session} {split : Split} {plans : List (RelationName × Plan)}
    (h : ReadyToJoin planner s before split plans between) {p : Plan}
    (hjoin : Gives (join s.select split plans) between p joined) {outcome : Outcome}
    (hbuilt : Gives (built p) joined outcome after) :
    after.nextStage = between.nextStage + (s.sources.length - 1 : Nat) := by
  obtain ⟨_, _, _, _, -, -, -, -, rfl⟩ := h.gives_join hjoin
  obtain ⟨ledger, rfl⟩ := session_of_built hbuilt
  rfl

/-- If a statement is joined from look-ups and scans whose stages have different ids below the
next one, the stages of its plan form a tree with the last join at its root.  The joins take one id
each, and as long as the next id is a word of 32 bits, so are the ids of all stages. -/
theorem isTree_plan {planner : RelationPlanner} {s : Statement} {before between after : Session}
    {split : Split} {plans : List (RelationName × Plan)}
    (hready : ReadyToJoin planner s before split plans between)
    (hleaves : ∀ q ∈ plans, q.2.IsLeaf) (hids : (plans.flatMap (·.2.stageIds)).Nodup)
    (hbelow : ∀ id ∈ plans.flatMap (·.2.stageIds), id < between.nextStage) {p : Plan}
    (h : Gives (plan planner s) before (.planned p) after) :
    (∃ left right leftOuter merge g, p = .nestedLoop left right leftOuter merge ∧
      StageGraph.ofPlan p = .ok g ∧ g.stages.map (·.id) = p.stageIds ∧ g.IsTree merge.id) ∧
    after.nextStage = between.nextStage + (s.sources.length - 1 : Nat) ∧
    ((∀ id ∈ plans.flatMap (·.2.stageIds), IsWord32 id) → IsWord32 between.nextStage →
      IsWord32 after.nextStage → ∀ id ∈ p.stageIds, IsWord32 id) := by
  unfold Gives at h
  rw [outcome_plan hready] at h
  obtain ⟨root, σ, hjoin, hbuilt⟩ := gives_bind.1 h
  obtain rfl := Outcome.planned.inj (gives_built hbuilt)
  have htree := hready.joinTree hjoin
  obtain ⟨_, _, rest, -, hlength⟩ := hready.inJoinOrder_eq
  have hcount : s.sources.length - 1 = rest.length + 1 := by omega
  have hnext := hready.nextStage_eq hjoin hbuilt
  -- the leaves of the tree are the plans of the sources in another order
  have hperm := hready.inJoinOrder_perm
  have hflat : ((inJoinOrder s plans).flatMap Plan.stageIds).Perm
      (plans.flatMap (·.2.stageIds)) := by
    have := hperm.flatMap_right Plan.stageIds
    rwa [List.flatMap_map] at this
  refine ⟨?_, hnext, fun hwords hbetween hafter => ?_⟩
  · rw [hcount] at htree
    refine htree.isTree (fun q hq => ?_) (hflat.nodup_iff.2 hids) fun id hid => ?_
    · obtain ⟨x, hx, rfl⟩ := List.mem_map.1 (hperm.mem_iff.1 hq)
      exact hleaves x hx
    · exact hbelow id (hflat.mem_iff.1 hid)
  · exact htree.isWord32_stageIds (fun id hid => hwords id (hflat.mem_iff.1 hid)) hbetween
      (hnext ▸ hafter)

/-- A scan that merges on the node that issued the query. -/
def mergingScan : ScanOptions := ⟨false, true, false, true, false, none⟩

/-- The pairs of numbers, joined from scans that are merged first. -/
theorem isTree_increasing : ∃ split plans between p after,
    ReadyToJoin (Strategy.planTable (.scan mergingScan)) increasing
      (.start oneNode ⟨10000, 10000⟩ 1) split plans between ∧
    (∀ q ∈ plans, q.2.IsLeaf) ∧ (plans.flatMap (·.2.stageIds)).Nodup ∧
    (∀ id ∈ plans.flatMap (·.2.stageIds), id < between.nextStage) ∧
    Gives (plan (Strategy.planTable (.scan mergingScan)) increasing)
        (.start oneNode ⟨10000, 10000⟩ 1) (.planned p) after ∧
    (∃ left right leftOuter merge g, p = .nestedLoop left right leftOuter merge ∧
      StageGraph.ofPlan p = .ok g ∧ g.stages.map (·.id) = p.stageIds ∧ g.IsTree merge.id) ∧
    after.nextStage = 5 ∧ ∀ id ∈ p.stageIds, IsWord32 id := by
  have hready : ∃ split plans between,
      ReadyToJoin (Strategy.planTable (.scan mergingScan)) increasing
        (.start oneNode ⟨10000, 10000⟩ 1) split plans between ∧
      (∀ q ∈ plans, q.2.IsLeaf) ∧ plans.flatMap (·.2.stageIds) = [0, 1, 2, 3] ∧
      between.nextStage = 4 ∧
      ∃ p after, Gives (join increasing.select split plans) between p after := by
    refine ⟨_, _, _, ⟨by decide, rfl, rfl, rfl, ⟨_, rfl, rfl⟩, rfl⟩, ?_, rfl, rfl, ?_⟩
    · exact List.forall_mem_cons.2 ⟨.merged rfl rfl, List.forall_mem_cons.2 ⟨.merged rfl rfl,
        fun _ h => nomatch h⟩⟩
    · exact ⟨_, _, (gives_join joinOrder_pairs).2 ⟨_, _, _, rfl, rfl, rfl, rfl⟩⟩
  obtain ⟨split, plans, between, hready, hleaves, hids, hnext, root, σ, hjoin⟩ := hready
  have hnodup : (plans.flatMap (·.2.stageIds)).Nodup := by
    rw [hids]
    decide
  have hbelow : ∀ id ∈ plans.flatMap (·.2.stageIds), id < between.nextStage := by
    rw [hids, hnext]
    decide
  have h : Gives (plan (Strategy.planTable (.scan mergingScan)) increasing)
      (.start oneNode ⟨10000, 10000⟩ 1) (.planned root) _ := hready.gives_plan hjoin
  obtain ⟨htree, hafter, hwords⟩ := isTree_plan hready hleaves hnodup hbelow h
  rw [hnext] at hafter
  refine ⟨split, plans, between, root, _, hready, hleaves, hnodup, hbelow, h, htree, hafter, ?_⟩
  refine hwords ?_ (hnext ▸ by decide) (hafter ▸ by decide)
  rw [hids]
  decide

end CrossJoin

end ShardJoin
