/-
The joins of a planned statement.

* `CrossJoin.exists_joinAll` — two or more plans are joined to a left-deep tree;
* `CrossJoin.ReadyToJoin.joinTree` — planning a statement joins the plans of all
  its sources, in the order of the join, with consecutive stage ids.
-/
import ShardJoin.Proofs.Plan.LeftDeep
import ShardJoin.Proofs.Planning.Contract

namespace ShardJoin

namespace CrossJoin

open Planning

/-- Two or more plans are joined to a tree whose last join passes its rows through. -/
theorem exists_joinAll (handler : NodeId) (next : StageId) (first second : Plan)
    (rest : List Plan) : ∃ left right leftOuter merge,
      joinAll handler next first (second :: rest) = .nestedLoop left right leftOuter merge ∧
      JoinTree next (rest.length + 1) (.handler handler) (first :: second :: rest)
        (.nestedLoop left right leftOuter merge) ∧
      merge.inputTypes = (first :: second :: rest).flatMap Plan.outputTypes ∧
      merge.projections = [.nestedLoopMerge (Projection.passThrough merge.inputTypes)] := by
  have hleaf : ∀ consumer, JoinTree next 0 consumer [first] (first.routeResult consumer) :=
    fun consumer => .leaf consumer first
  have htree := joinTree_joinAll handler hleaf (second :: rest) (.handler handler)
  obtain ⟨id, left, right, hroot⟩ := exists_joinAll_eq handler next first second rest
  -- the last join already sends its rows to the handler
  have hrouted : (nestedLoop handler id left right).routeResult (.handler handler) =
      nestedLoop handler id left right := rfl
  rw [Int.natCast_zero, Int.add_zero, hroot, hrouted, Nat.zero_add] at htree
  have htypes := htree.outputTypes
  rw [nestedLoop, Plan.outputTypes, Plan.outputTypes_routeResult,
    Plan.outputTypes_routeResult] at htypes
  exact ⟨_, _, _, _, hroot, htree, htypes, rfl⟩

/-- The plans of the sources in the order in which they are joined. -/
def inJoinOrder (s : Statement) (plans : List (RelationName × Plan)) : List Plan :=
  (s.sourceOrder.filterMap (plans[·]?)).map (·.2)

namespace ReadyToJoin

variable {planner : RelationPlanner} {s : Statement} {before between after : Session}
  {split : Split} {plans : List (RelationName × Plan)}

theorem length_plans (h : ReadyToJoin planner s before split plans between) :
    plans.length = s.sources.length := by
  have hspec := Statement.split_spec h.splits
  rw [← h.plansOf.length_eq, List.length_zip, hspec.length_shares, Nat.min_self]

/-- The sources are joined in the order of the statement. -/
theorem joinOrder_eq (h : ReadyToJoin planner s before split plans between) :
    joinOrder split.firstKeys = s.sourceOrder := by
  rw [(Statement.split_spec h.splits).firstKeys, Statement.sourceOrder]

/-- Every plan is joined once. -/
theorem inJoinOrder_perm (h : ReadyToJoin planner s before split plans between) :
    (inJoinOrder s plans).Perm (plans.map (·.2)) := by
  have hsome : (List.range plans.length).map (plans[·]?) = plans.map some :=
    List.ext_getElem (by simp) fun i hi hi' => by simp
  have hrange : (List.range plans.length).filterMap (plans[·]?) = plans := by
    simpa [List.filterMap_map] using congrArg (List.filterMap id) hsome
  have hperm := s.sourceOrder_perm.filterMap (plans[·]?)
  rw [← h.length_plans, hrange] at hperm
  exact hperm.map _

theorem mem_joined (h : ReadyToJoin planner s before split plans between) {i : Nat}
    {z : RelationName × Plan} (hz : plans[i]? = some z) :
    z ∈ s.sourceOrder.filterMap (plans[·]?) := by
  refine List.mem_filterMap.2 ⟨i, Statement.mem_sourceOrder.2 ?_, hz⟩
  rw [← h.length_plans]
  exact (List.getElem?_eq_some_iff.1 hz).1

/-- There are at least two plans to join, one for every source. -/
theorem inJoinOrder_eq (h : ReadyToJoin planner s before split plans between) :
    ∃ first second rest, inJoinOrder s plans = first :: second :: rest ∧
      rest.length + 2 = s.sources.length := by
  have hlength : (inJoinOrder s plans).length = s.sources.length := by
    rw [h.inJoinOrder_perm.length_eq, List.length_map, h.length_plans]
  have hlong := h.length
  rw [← hlength] at hlong ⊢
  cases hordered : inJoinOrder s plans with
  | nil => simp [hordered] at hlong
  | cons first others =>
    cases others with
    | nil => simp [hordered] at hlong
    | cons second rest => exact ⟨first, second, rest, rfl, rfl⟩

/-- Once the joined row is known, planning a statement is adding its projections at the root. -/
theorem outcome_plan (h : ReadyToJoin planner s before split plans between) {row : List Expr}
    (hrow : joinedRow (s.sourceOrder.filterMap (plans[·]?)) = .ok row) {first : Plan}
    {rest : List Plan} (hordered : inJoinOrder s plans = first :: rest) :
    ∃ leaves, outcome (plan planner s) before =
      outcome (ofExcept (finish between s.select split row leaves
        (joinAll between.handler between.nextStage first rest)) >>= built)
          (between.skipStages rest.length) := by
  obtain ⟨leaves, hjoin⟩ : ∃ leaves, outcome (join s.select split plans) between =
      outcome (ofExcept (finish between s.select split row leaves
        (joinAll between.handler between.nextStage first rest)))
          (between.skipStages rest.length) :=
    ⟨_, outcome_join h.joinOrder_eq hrow hordered between⟩
  refine ⟨leaves, ?_⟩
  rw [CrossJoin.outcome_plan h, outcome_bind, hjoin, ← outcome_bind]

/-- What a successful join has done. -/
theorem gives_join (h : ReadyToJoin planner s before split plans between) {p : Plan}
    (hjoin : Gives (join s.select split plans) between p after) :
    ∃ row first second rest, joinedRow (s.sourceOrder.filterMap (plans[·]?)) = .ok row ∧
      inJoinOrder s plans = first :: second :: rest ∧
      finish between s.select split row
        ((s.sourceOrder.filterMap (plans[·]?)).map fun (relation, plan) =>
          Leaf.ofPlan relation plan)
        (joinAll between.handler between.nextStage first (second :: rest)) = .ok p ∧
      rest.length + 1 = s.sources.length - 1 ∧
      between.skipStages (s.sources.length - 1) = after := by
  obtain ⟨first, second, rest, hordered, hlength⟩ := h.inJoinOrder_eq
  obtain ⟨row, first', rest', hrow, hordered', hfinish, rfl⟩ := (CrossJoin.gives_join h.joinOrder_eq).1 hjoin
  obtain ⟨rfl, rfl⟩ := List.cons.inj (hordered'.symm.trans hordered)
  have hcount : s.sources.length - 1 = rest.length + 1 := by omega
  rw [hcount]
  exact ⟨row, _, second, rest, hrow, hordered, hfinish, rfl, rfl⟩

/-- The plans of the sources are joined to a tree of valid joins, whose stages have the next
ids. -/
theorem joinTree (h : ReadyToJoin planner s before split plans between) {p : Plan}
    (hjoin : Gives (join s.select split plans) between p after) :
    JoinTree between.nextStage (s.sources.length - 1) (.handler between.handler)
      (inJoinOrder s plans) p := by
  obtain ⟨row, first, second, rest, -, hordered, hfinish, hcount, -⟩ := h.gives_join hjoin
  obtain ⟨left, right, leftOuter, merge, projections, hroot, -, hvalid, rfl⟩ :=
    finish_eq_ok hfinish
  obtain ⟨_, _, _, _, hroot', htree, -, -⟩ :=
    exists_joinAll between.handler between.nextStage first second rest
  rw [hroot] at hroot'
  cases hroot'
  rw [hordered, ← hcount]
  exact htree.withProjections hvalid

/-- Below the joins stand the plans of the sources. -/
theorem exists_routed (h : ReadyToJoin planner s before split plans between) {p : Plan}
    (hjoin : Gives (join s.select split plans) between p after) {leaf : Plan}
    (hleaf : leaf ∈ p.leaves (s.sources.length - 1)) :
    ∃ (i : Nat) (z : RelationName × Plan), plans[i]? = some z ∧ z.2.Routed leaf := by
  obtain ⟨k, hk⟩ := List.mem_iff_getElem?.1 hleaf
  obtain ⟨q, hq, hrouted⟩ := exists_getElem?_of_forall₂ (h.joinTree hjoin).leaves hk
  obtain ⟨z, hz, rfl⟩ := List.mem_map.1 (List.mem_of_getElem? hq)
  obtain ⟨i, -, hi⟩ := List.mem_filterMap.1 hz
  exact ⟨i, z, hi, hrouted⟩

end ReadyToJoin

end CrossJoin

end ShardJoin
