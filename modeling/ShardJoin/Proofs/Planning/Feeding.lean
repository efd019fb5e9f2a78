/-
The sides of a join send their rows to it.

The rows of a plan come from one of its stages: its result stage or, without
one, the scan.  A join routes this stage of each side to itself and leaves the
other stages as they are.  A scan without a merge is found only if it is the
side itself; below a sequence of plans it keeps its consumer.

* `Plan.producer?`, `Plan.otherStages` — the stage whose rows are the result, and the
  others;
* `Plan.HidesScan` — the plans whose rows are not routed;
* `CrossJoin.sides_nestedLoop` — what a join does with the stages of its sides;
* `JoinTree.fed` — every join of a tree of joins receives the rows of both sides,
  unless a leaf hides its scan.
-/
import ShardJoin.Proofs.Planning.JoinTree
import ShardJoin.Proofs.Planning.TwoSteps
import ShardJoin.StageGraph

namespace ShardJoin

/-! ### The stage that produces the result -/

namespace Stage

/-- The merge stage, if it is one. -/
def merge? : Stage → Option MergeStage
  | .collect _ => none
  | .merge s => some s

/-- Changes a merge stage. -/
def mapMerge (f : MergeStage → MergeStage) : Stage → Stage
  | .collect s => .collect s
  | .merge s => .merge (f s)

/-- The stage with another consumer. -/
def sentTo (consumer : Downstream) : Stage → Stage
  | .collect s => .collect { s with downstream := consumer }
  | .merge s => .merge { s with downstream := consumer }

/-- Only the consumer is another one. -/
@[simp] theorem node_sentTo (consumer : Downstream) (stage : Stage) :
    (stage.sentTo consumer).node = { stage.node with downstream := consumer } := by
  cases stage <;> rfl

end Stage

namespace Plan

mutual
/-- The stage that produces the result: a scan itself if it has no merge. -/
def producer? : Plan → Option Stage
  | .scan s => match s.merge with
    | some merge => some (.merge merge)
    | none => some (.collect s.collect)
  | .nestedLoop _ _ _ merge => some (.merge merge)
  | .iterable plans => lastProducer? plans
  | .tableGet _ | .noOp _ => none

/-- The stage that produces the result of the last plan of a list. -/
def lastProducer? : List Plan → Option Stage
  | [] => none
  | [p] => p.producer?
  | _ :: p :: ps => lastProducer? (p :: ps)
end

mutual
/-- The stages that do not produce the result. -/
def otherStages : Plan → List Stage
  | .scan s => match s.merge with
    | some _ => [.collect s.collect]
    | none => []
  | .nestedLoop left right _ _ => left.stages ++ right.stages
  | .iterable plans => lastOtherStages plans
  | .tableGet _ | .noOp _ => []

/-- The stages of a list of plans but for the one that produces the result of the last plan. -/
def lastOtherStages : List Plan → List Stage
  | [] => []
  | [p] => p.otherStages
  | q :: p :: ps => q.stages ++ lastOtherStages (p :: ps)
end

mutual
/-- The stage that produces the result comes last. -/
theorem stages_eq : ∀ p : Plan, p.stages = p.otherStages ++ p.producer?.toList
  | .tableGet _ => rfl
  | .scan ⟨_, none, _⟩ => rfl
  | .scan ⟨_, some _, _⟩ => rfl
  | .nestedLoop left right _ merge => by
    rw [stages, otherStages, producer?, Option.toList_some]
  | .noOp _ => rfl
  | .iterable plans => by
    rw [stages, otherStages, producer?]
    exact stagesAll_eq plans

theorem stagesAll_eq : ∀ plans : List Plan,
    stagesAll plans = lastOtherStages plans ++ (lastProducer? plans).toList
  | [] => rfl
  | [p] => by
    rw [stagesAll, stagesAll, List.append_nil, lastOtherStages, lastProducer?]
    exact stages_eq p
  | q :: p :: ps => by
    rw [stagesAll, stagesAll_eq (p :: ps), lastOtherStages, lastProducer?, List.append_assoc]
end

mutual
/-- The result stage produces the result. -/
theorem resultStage?_eq : ∀ p : Plan, p.resultStage? = p.producer?.bind Stage.merge?
  | .tableGet _ => rfl
  | .scan ⟨_, none, _⟩ => rfl
  | .scan ⟨_, some _, _⟩ => rfl
  | .nestedLoop _ _ _ _ => rfl
  | .noOp _ => rfl
  | .iterable plans => by
    rw [resultStage?, producer?]
    exact lastResultStage?_eq plans

theorem lastResultStage?_eq : ∀ plans : List Plan,
    lastResultStage? plans = (lastProducer? plans).bind Stage.merge?
  | [] => rfl
  | [p] => by
    rw [lastResultStage?, lastProducer?]
    exact resultStage?_eq p
  | _ :: p :: ps => by
    rw [lastResultStage?, lastProducer?]
    exact lastResultStage?_eq (p :: ps)
end

/-! ### Changing the result stage -/

mutual
theorem producer?_mapResultStage (f : MergeStage → MergeStage) :
    ∀ p : Plan, (p.mapResultStage f).producer? = p.producer?.map (Stage.mapMerge f)
  | .tableGet _ => rfl
  | .scan ⟨_, none, _⟩ => rfl
  | .scan ⟨_, some _, _⟩ => rfl
  | .nestedLoop _ _ _ _ => rfl
  | .noOp _ => rfl
  | .iterable plans => by
    rw [mapResultStage, producer?, producer?]
    exact lastProducer?_mapLastResultStage f plans

theorem lastProducer?_mapLastResultStage (f : MergeStage → MergeStage) : ∀ plans : List Plan,
    lastProducer? (mapLastResultStage f plans) = (lastProducer? plans).map (Stage.mapMerge f)
  | [] => rfl
  | [p] => by
    rw [mapLastResultStage, lastProducer?, lastProducer?]
    exact producer?_mapResultStage f p
  | q :: p :: ps => by
    have ih := lastProducer?_mapLastResultStage f (p :: ps)
    obtain ⟨p', ps', hrest⟩ := exists_mapLastResultStage_cons f p ps
    rw [hrest] at ih
    rw [mapLastResultStage, hrest, lastProducer?, lastProducer?]
    exact ih
end

mutual
/-- The other stages stay as they are. -/
theorem otherStages_mapResultStage (f : MergeStage → MergeStage) :
    ∀ p : Plan, (p.mapResultStage f).otherStages = p.otherStages
  | .tableGet _ => rfl
  | .scan ⟨_, none, _⟩ => rfl
  | .scan ⟨_, some _, _⟩ => rfl
  | .nestedLoop _ _ _ _ => rfl
  | .noOp _ => rfl
  | .iterable plans => by
    rw [mapResultStage, otherStages, otherStages]
    exact lastOtherStages_mapLastResultStage f plans

theorem lastOtherStages_mapLastResultStage (f : MergeStage → MergeStage) : ∀ plans : List Plan,
    lastOtherStages (mapLastResultStage f plans) = lastOtherStages plans
  | [] => rfl
  | [p] => by
    rw [mapLastResultStage, lastOtherStages, lastOtherStages]
    exact otherStages_mapResultStage f p
  | q :: p :: ps => by
    have ih := lastOtherStages_mapLastResultStage f (p :: ps)
    obtain ⟨p', ps', hrest⟩ := exists_mapLastResultStage_cons f p ps
    rw [hrest] at ih
    rw [mapLastResultStage, hrest, lastOtherStages, lastOtherStages, ih]
end

mutual
/-- A plan without a result stage stays as it is. -/
theorem mapResultStage_of_none (f : MergeStage → MergeStage) :
    ∀ {p : Plan}, p.resultStage? = none → p.mapResultStage f = p
  | .tableGet _, _ => rfl
  | .scan ⟨_, none, _⟩, _ => rfl
  | .noOp _, _ => rfl
  | .iterable plans, h => by
    rw [mapResultStage, mapLastResultStage_of_none f h]

theorem mapLastResultStage_of_none (f : MergeStage → MergeStage) :
    ∀ {plans : List Plan}, lastResultStage? plans = none → mapLastResultStage f plans = plans
  | [], _ => rfl
  | [p], h => by
    rw [mapLastResultStage, mapResultStage_of_none f h]
  | q :: p :: ps, h => by
    rw [lastResultStage?] at h
    rw [mapLastResultStage, mapLastResultStage_of_none f h]
end

/-! ### Sending the rows to a consumer -/

/-- A sequence of plans whose rows come from a scan without a merge. -/
def HidesScan (p : Plan) : Prop :=
  ∃ plans collect, p = .iterable plans ∧ p.producer? = some (.collect collect)

/-- Where the result rows go. -/
def consumer? (p : Plan) : Option Downstream := p.producer?.map (·.node.downstream)

/-- The result rows, if there are any, go to a merge stage. -/
def Feeds (p : Plan) (merge : MergeStage) : Prop :=
  ∀ consumer ∈ p.consumer?, consumer = .stage merge.executionNodes merge.id

variable {p : Plan}

/-- A plan that hides its scan is not routed. -/
theorem HidesScan.routeResult_eq (h : p.HidesScan) (consumer : Downstream) :
    p.routeResult consumer = p := by
  obtain ⟨plans, collect, rfl, hproducer⟩ := h
  refine mapResultStage_of_none _ ?_
  rw [resultStage?_eq, hproducer]
  rfl

theorem otherStages_routeResult (consumer : Downstream) (p : Plan) :
    (p.routeResult consumer).otherStages = p.otherStages := by
  unfold routeResult
  split
  · rfl
  · exact otherStages_mapResultStage _ p

/-- The result of every other plan is sent to the consumer. -/
theorem producer?_routeResult (h : ¬p.HidesScan) (consumer : Downstream) :
    (p.routeResult consumer).producer? = p.producer?.map (·.sentTo consumer) := by
  unfold routeResult
  split
  · rfl
  rename_i hscan
  rw [producer?_mapResultStage]
  rcases hproducer : p.producer? with _ | collect | merge
  · rfl
  · -- the scan would be the plan itself
    cases p with
    | tableGet get => cases hproducer
    | scan s =>
      obtain ⟨scanned, merge, fetch⟩ := s
      cases merge with
      | none => exact absurd rfl (hscan scanned fetch)
      | some merge => cases hproducer
    | nestedLoop left right outer merge => cases hproducer
    | noOp types => cases hproducer
    | iterable plans => exact absurd ⟨plans, collect, rfl, hproducer⟩ h
  · rfl

theorem consumer?_routeResult (h : ¬p.HidesScan) (consumer : Downstream) :
    ∀ c ∈ (p.routeResult consumer).consumer?, c = consumer := by
  intro c hc
  rw [consumer?, producer?_routeResult h, Option.map_map] at hc
  obtain ⟨stage, -, rfl⟩ := Option.map_eq_some_iff.1 hc
  rw [Function.comp_apply, Stage.node_sentTo]

/-- What a join makes of a plan.  The stages stay what they are, except that the one that produces
the result sends its rows to the join; but a plan that hides its scan keeps this one, too. -/
structure SideOf (merge : MergeStage) (p side : Plan) : Prop where
  stages : p.stages = p.otherStages ++ p.producer?.toList
  others : side.stages = p.otherStages ++ side.producer?.toList
  producer : ¬p.HidesScan →
    side.producer? = p.producer?.map (·.sentTo (.stage merge.executionNodes merge.id))
  hidden : p.HidesScan → side = p
  feeds : side.Feeds merge ↔ (p.HidesScan → p.Feeds merge)

theorem sideOf_routeResult (merge : MergeStage) (p : Plan) :
    p.SideOf merge (p.routeResult (.stage merge.executionNodes merge.id)) where
  stages := stages_eq p
  others := by rw [stages_eq, otherStages_routeResult]
  producer h := producer?_routeResult h _
  hidden h := h.routeResult_eq _
  feeds := by
    by_cases h : p.HidesScan
    · rw [h.routeResult_eq]
      exact ⟨fun hfeeds _ => hfeeds, fun hfeeds => hfeeds h⟩
    · exact iff_of_true (consumer?_routeResult h _) fun hhides => absurd hhides h

/-- The topmost joins of the left spine, a given number of them, receive the rows of both sides. -/
def JoinsFed : Nat → Plan → Prop
  | n + 1, .nestedLoop left right _ merge =>
    left.Feeds merge ∧ right.Feeds merge ∧ left.JoinsFed n
  | _, _ => True

end Plan

/-- In a tree of joins over plans that do not hide their scans, every join receives the rows of
both sides. -/
theorem JoinTree.fed {next : StageId} {n : Nat} {consumer : Downstream} {plans : List Plan}
    {p : Plan} (h : JoinTree next n consumer plans p) (hplans : ∀ q ∈ plans, ¬q.HidesScan) :
    p.JoinsFed n ∧ ∀ c ∈ p.consumer?, c = consumer := by
  induction h with
  | leaf consumer p =>
    refine ⟨?_, Plan.consumer?_routeResult (hplans p (List.mem_singleton_self p)) consumer⟩
    cases p.routeResult consumer <;> trivial
  | @join n consumer plans left right leftOuter merge nodes _ hid hnodes hconsumer _ ih =>
    subst hnodes
    rw [← hid] at ih ⊢
    obtain ⟨hfed, hleft⟩ := ih fun q hq => hplans q (List.mem_append_left _ hq)
    have hright := Plan.consumer?_routeResult (hplans right (by simp))
      (.stage merge.executionNodes merge.id)
    refine ⟨⟨hleft, hright, hfed⟩, fun c hc => ?_⟩
    obtain rfl := Option.some.inj hc
    exact hconsumer

namespace CrossJoin

open Planning Statement

/-- Every join of a planned statement receives the rows of both sides, unless the plan of a source
hides its scan. -/
theorem ReadyToJoin.joinsFed {planner : RelationPlanner} {s : Statement}
    {before between after : Session} {split : Split} {plans : List (RelationName × Plan)}
    (h : ReadyToJoin planner s before split plans between)
    (hplans : ∀ z ∈ plans, ¬z.2.HidesScan) {p : Plan}
    (hjoin : Gives (join s.select split plans) between p after) :
    p.JoinsFed (s.sources.length - 1) := by
  refine ((h.joinTree hjoin).fed fun q hq => ?_).1
  obtain ⟨z, hz, rfl⟩ := List.mem_map.1 (h.inJoinOrder_perm.mem_iff.1 hq)
  exact hplans z hz

/-- A join runs where the result of its left side is merged.  Each of the joined plans sends its
rows there and keeps its other consumers, unless it is a sequence of plans that ends in a scan
without a merge, which stays as it is. -/
theorem sides_nestedLoop (handler : NodeId) (id : StageId) (left right : Plan) :
    ∃ left' right' merge, nestedLoop handler id left right = .nestedLoop left' right' true merge ∧
      merge.id = id ∧
      merge.executionNodes = (left.resultStage?.map (·.executionNodes)).getD [handler] ∧
      left.SideOf merge left' ∧ right.SideOf merge right' := by
  refine ⟨_, _, _, rfl, rfl, ?_, Plan.sideOf_routeResult _ left, Plan.sideOf_routeResult _ right⟩
  cases left.resultStage? <;> rfl

/-- The first table is scanned; a scan of the second one is the last of several plans. -/
def secondWrapped : RelationPlanner := fun q =>
  Strategy.planTable (.scan { plainScan with wrap := q.name == "u" }) q

/-- The rows of the second table go to the node that issued the query, past the join. -/
theorem not_feeds_secondWrapped : ∃ left right leftOuter merge after,
    Gives (plan secondWrapped lookedUp) (.start oneNode ⟨10000, 10000⟩ 1)
      (.planned (.nestedLoop left right leftOuter merge)) after ∧
    left.Feeds merge ∧ right.HidesScan ∧ right.consumer? = some (.handler "node") ∧
      ¬right.Feeds merge := by
  have hgives : ∃ left plans leftOuter merge after collect,
      Gives (plan secondWrapped lookedUp) (.start oneNode ⟨10000, 10000⟩ 1)
        (.planned (.nestedLoop left (.iterable plans) leftOuter merge)) after ∧
      left.consumer? = some (.stage merge.executionNodes merge.id) ∧
      Plan.lastProducer? plans = some (.collect collect) ∧
      collect.downstream = .handler "node" := by
    have hready : ReadyToJoin secondWrapped lookedUp (.start oneNode ⟨10000, 10000⟩ 1) _ _ _ :=
      ⟨Nat.le_refl 2, rfl, rfl, rfl, ⟨_, rfl, rfl⟩, rfl⟩
    exact ⟨_, _, _, _, _, _, hready.gives_plan_of_steps joinOrder_unsorted rfl rfl rfl,
      rfl, rfl, rfl⟩
  obtain ⟨left, plans, leftOuter, merge, after, collect, h, hleft, hlast, hhandler⟩ := hgives
  have hright : (Plan.iterable plans).consumer? = some (.handler "node") := by
    rw [Plan.consumer?, Plan.producer?, hlast, ← hhandler]
    rfl
  refine ⟨left, _, leftOuter, merge, after, h, fun c hc => ?_, ⟨plans, collect, rfl, hlast⟩,
    hright, fun hfeeds => ?_⟩
  · exact Option.some.inj (hc.symm.trans hleft)
  · cases hfeeds _ hright

end CrossJoin

end ShardJoin
