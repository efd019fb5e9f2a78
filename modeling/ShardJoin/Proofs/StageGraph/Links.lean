/-
The plans whose stages form a graph, and the graph that they form.

A plan is walked in post-order: the plans below it come first, from left to
right.  Each plan adds the stages of its own, a collect stage before its merge.
The stages form a graph if every merge stage is valid, no two of them share an
id, and every route names the id and the nodes of one of them.

* `Plan.postorder`, `Plan.stages_eq_postorder` — the stages of a plan in post-order;
* `Plan.WellRouted` — plans whose stages can be linked;
* `StageGraph.Links` — what links say: a stage has the one that it sends its
  rows to as its parent, and those that send it rows as its children;
* `StageGraph.ofPlan_links` — the well routed plans give a graph and no others
  do, and this graph links their stages.
-/
import ShardJoin.Proofs.StageGraph.Order

namespace ShardJoin

namespace Plan

/-! ### Post-order -/

/-- The stages of a plan without those of the plans below it. -/
def ownStages : Plan → List Stage
  | .scan s => .collect s.collect :: s.merge.toList.map .merge
  | .nestedLoop _ _ _ merge => [.merge merge]
  | .iterable _ | .tableGet _ | .noOp _ => []

mutual
/-- The plans of a tree, each after those below it. -/
def postorder : Plan → List Plan
  | .nestedLoop left right leftOuter merge =>
    left.postorder ++ right.postorder ++ [.nestedLoop left right leftOuter merge]
  | .iterable plans => postorderAll plans ++ [.iterable plans]
  | .scan s => [.scan s]
  | .tableGet get => [.tableGet get]
  | .noOp types => [.noOp types]

/-- The plans of several trees, one tree after another. -/
def postorderAll : List Plan → List Plan
  | [] => []
  | p :: ps => p.postorder ++ postorderAll ps
end

theorem postorderAll_eq (plans : List Plan) : postorderAll plans = plans.flatMap postorder := by
  induction plans with
  | nil => rfl
  | cons p ps ih => rw [postorderAll, ih, List.flatMap_cons]

/-- A plan comes after its children, and these come from left to right. -/
theorem postorder_eq (p : Plan) : p.postorder = p.children.flatMap postorder ++ [p] := by
  cases p with
  | nestedLoop left right leftOuter merge =>
    rw [postorder, children, List.flatMap_cons, List.flatMap_singleton]
  | iterable plans => rw [postorder, children, postorderAll_eq]
  | scan _ | tableGet _ | noOp _ => rfl

mutual
/-- The stages of a plan are those of the plans of its tree in post-order. -/
theorem stages_eq_postorder : (p : Plan) → p.stages = p.postorder.flatMap ownStages
  | .tableGet _ | .noOp _ | .scan ⟨_, none, _⟩ | .scan ⟨_, some _, _⟩ => rfl
  | .nestedLoop left right leftOuter merge => by
    rw [stages, postorder, List.flatMap_append, List.flatMap_append, List.flatMap_singleton,
      stages_eq_postorder left, stages_eq_postorder right, ownStages]
  | .iterable plans => by
    rw [stages, postorder, List.flatMap_append, List.flatMap_singleton,
      stagesAll_eq_postorder plans, ownStages, List.append_nil]

theorem stagesAll_eq_postorder : (plans : List Plan) →
    stagesAll plans = (postorderAll plans).flatMap ownStages
  | [] => rfl
  | p :: ps => by
    rw [stagesAll, postorderAll, List.flatMap_append, stages_eq_postorder p,
      stagesAll_eq_postorder ps]
end

/-- The merge stages of a plan are valid, no two stages share an id, and every route to a stage
names one of the plan and the nodes that it runs on. -/
structure WellRouted (p : Plan) : Prop where
  valid : ∀ q ∈ p.postorder, ∀ merge, Stage.merge merge ∈ q.ownStages → merge.validate = .ok ()
  ids : ((p.postorder.flatMap ownStages).map (·.node.id)).Nodup
  routes : ∀ s ∈ p.postorder.flatMap ownStages, ∀ nodes target,
    s.node.downstream = .stage nodes target →
      ∃ t ∈ p.postorder.flatMap ownStages, t.node.id = target ∧ t.node.nodes = nodes

end Plan

namespace StageGraph

/-! ### Links -/

/-- A graph has stages as its entries, in their order, with their neighbours. -/
structure Links (g : StageGraph) (stages : List Stage) : Prop where
  entries : g.stages.map (fun s => { s with parents := [], children := [] }) =
    stages.map Stage.node
  /-- A stage that sends its rows to a node has no parent. -/
  top : ∀ s ∈ g.stages, ∀ node, s.downstream = .handler node → s.parents = []
  /-- The parent of any other stage is the one that it sends its rows to. -/
  parent : ∀ s ∈ g.stages, ∀ nodes target, s.downstream = .stage nodes target →
    s.parents = [target]
  /-- The children of a stage are those that send their rows to it. -/
  children : ∀ s ∈ g.stages, ∀ id, id ∈ s.children ↔
    ∃ t ∈ g.stages, t.downstream.stage? = some s.id ∧ t.id = id
  /-- No child is listed twice. -/
  once : ∀ s ∈ g.stages, s.children.Nodup
  /-- The children of a stage are listed in the order of the stages. -/
  inOrder : ∀ s ∈ g.stages, s.children.Sublist (g.stages.map (·.id))

/-- A stage is found by its id exactly if it is the one with that id. -/
theorem find?_id_iff {stages : List StageNode} (hnodup : (stages.map (·.id)).Nodup)
    {target : StageId} {t : StageNode} :
    stages.find? (·.id == target) = some t ↔ t ∈ stages ∧ t.id = target := by
  constructor
  · intro hfind
    exact ⟨List.mem_of_find?_eq_some hfind, by simpa using List.find?_some hfind⟩
  · rintro ⟨ht, rfl⟩
    exact find?_id hnodup ht

/-- The routes of stages with different ids are sound if each names a stage and its nodes. -/
theorem checkRoute_iff {stages : List StageNode} (hnodup : (stages.map (·.id)).Nodup)
    {s : StageNode} : checkRoute stages s = .ok () ↔ ∀ nodes target,
      s.downstream = .stage nodes target → ∃ t ∈ stages, t.id = target ∧ t.nodes = nodes := by
  simp only [checkRoute_eq_ok, find?_id_iff hnodup, and_assoc]

theorem links_link {stages : List Stage} (hids : (stages.map (·.node.id)).Nodup) :
    Links ⟨(stages.map Stage.node).map (link (stages.map Stage.node))⟩ stages := by
  -- a stage keeps everything but its neighbours when it is linked
  have hkeep : ∀ nodes : List StageNode, (nodes.map (link nodes)).map (·.id) = nodes.map (·.id) :=
    fun nodes => List.map_map
  have hsublist : ∀ (nodes : List StageNode) (s : StageNode),
      (link nodes s).children.Sublist (nodes.map (·.id)) :=
    fun nodes s => List.filter_sublist.map _
  refine ⟨?_, ?_, ?_, ?_, ?_, ?_⟩
  · rw [List.map_map]
    refine (List.map_congr_left fun s hs => ?_).trans (List.map_id _)
    obtain ⟨stage, -, rfl⟩ := List.mem_map.1 hs
    cases stage <;> rfl
  · intro _ hs node hnode
    obtain ⟨s, -, rfl⟩ := List.mem_map.1 hs
    have hdownstream : s.downstream = .handler node := hnode
    rw [link, hdownstream]
    rfl
  · intro _ hs nodes target htarget
    obtain ⟨s, -, rfl⟩ := List.mem_map.1 hs
    have hdownstream : s.downstream = .stage nodes target := htarget
    rw [link, hdownstream]
    rfl
  · intro _ hs id
    obtain ⟨s, -, rfl⟩ := List.mem_map.1 hs
    simp only [link, List.mem_map, List.mem_filter, beq_iff_eq, exists_exists_and_eq_and,
      and_assoc]
  · intro _ hs
    obtain ⟨s, -, rfl⟩ := List.mem_map.1 hs
    exact (hsublist _ s).nodup (by rwa [List.map_map])
  · intro _ hs
    obtain ⟨s, -, rfl⟩ := List.mem_map.1 hs
    rw [hkeep]
    exact hsublist _ s

/-- The stages of a plan form a graph exactly if the plan is well routed, and then the graph links
these stages in post-order. -/
theorem ofPlan_links (p : Plan) : ((∃ g, ofPlan p = .ok g) ↔ p.WellRouted) ∧
    ∀ g, ofPlan p = .ok g → g.Links (p.postorder.flatMap Plan.ownStages) := by
  have hvalid : (∀ s ∈ p.stages, s.validate = .ok ()) ↔
      ∀ q ∈ p.postorder, ∀ merge, Stage.merge merge ∈ q.ownStages → merge.validate = .ok () := by
    rw [Plan.stages_eq_postorder]
    constructor
    · intro h q hq merge hmerge
      exact h _ (List.mem_flatMap_of_mem hq hmerge)
    · intro h s hs
      obtain ⟨q, hq, hs⟩ := List.mem_flatMap.1 hs
      cases s with
      | collect _ => rfl
      | merge merge => exact h q hq merge hs
  have hmap : (p.stages.map Stage.node).map (·.id) = p.stages.map (·.node.id) := List.map_map
  rw [← Plan.stages_eq_postorder]
  refine ⟨⟨?_, fun h => ?_⟩, fun g hg => ?_⟩
  · rintro ⟨g, hg⟩
    obtain ⟨hstages, hnodes⟩ := ofPlan_eq_ok.1 hg
    obtain ⟨hids, hroutes, -⟩ := ofNodes_eq_ok.1 hnodes
    refine ⟨hvalid.1 hstages, ?_, ?_⟩
    · rwa [← Plan.stages_eq_postorder, ← hmap]
    · rw [← Plan.stages_eq_postorder]
      intro s hs nodes target htarget
      obtain ⟨_, hmem, hid, heq⟩ :=
        (checkRoute_iff hids).1 (hroutes _ (List.mem_map_of_mem hs)) nodes target htarget
      obtain ⟨t, ht, rfl⟩ := List.mem_map.1 hmem
      exact ⟨t, ht, hid, heq⟩
  · obtain ⟨hmerges, hids, hroutes⟩ := h
    rw [← Plan.stages_eq_postorder, ← hmap] at hids
    rw [← Plan.stages_eq_postorder] at hroutes
    refine ⟨_, ofPlan_eq_ok.2 ⟨hvalid.2 hmerges, ofNodes_eq_ok.2 ⟨hids, ?_, rfl⟩⟩⟩
    rintro _ hmem
    obtain ⟨s, hs, rfl⟩ := List.mem_map.1 hmem
    refine (checkRoute_iff hids).2 fun nodes target htarget => ?_
    obtain ⟨t, ht, hid, heq⟩ := hroutes s hs nodes target htarget
    exact ⟨t.node, List.mem_map_of_mem ht, hid, heq⟩
  · obtain ⟨-, hnodes⟩ := ofPlan_eq_ok.1 hg
    obtain ⟨hids, -, rfl⟩ := ofNodes_eq_ok.1 hnodes
    exact links_link (by rwa [← hmap])

/-- The merge stage of the second scan has both its own collect stage and the first scan below it.
If the first scan sends its rows to a stage that is not there, the plan is not well routed. -/
theorem ofPlan_links_twoScans :
    (∃ g, ofPlan (twoScans (.stage ["n1"] 3) (.handler "n1")) = .ok g ∧
      g.Links ((twoScans (.stage ["n1"] 3) (.handler "n1")).postorder.flatMap Plan.ownStages) ∧
      g.stages.map (·.children) = [[], [0], [], [1, 2]]) ∧
    ¬ (twoScans (.stage ["n1"] 7) (.handler "n1")).WellRouted := by
  refine ⟨⟨_, rfl, (ofPlan_links _).2 _ rfl, by decide⟩, fun hrouted => ?_⟩
  obtain ⟨g, hg⟩ := (ofPlan_links _).1.2 hrouted
  have hnone : ofPlan (twoScans (.stage ["n1"] 7) (.handler "n1")) =
      .error (.route (.unknownTarget 1 7)) := rfl
  rw [hnone] at hg
  cases hg

end StageGraph

end ShardJoin
