/-
Planned statements are well typed.

* `ResultRow.fits_projections` — what follows a join reads columns of the
  joined row at their types, and ends with the types of the statement;
* `CrossJoin.fails_join` — planned sources are refused only if their plans say
  too little about their columns;
* `CrossJoin.wellTyped_plan` — a statement is never refused for the types of
  its rows, and its plan has the types that the statement declares.
-/
import ShardJoin.Proofs.Planning.Failure
import ShardJoin.Proofs.Planning.Fetch
import ShardJoin.Proofs.Planning.JoinTree
import ShardJoin.Proofs.Planning.Meaning

namespace ShardJoin

/-! ### Expressions without positions -/

namespace Expr

theorem inputs_call_eq_nil (fn : FunctionInfo) (args : List Expr) :
    (Expr.call fn args).inputs = [] ↔ ∀ a ∈ args, a.inputs = [] := by
  rw [inputs, inputsAll_eq, List.flatMap_eq_nil_iff]

end Expr

namespace Statement

variable {s : Statement}

/-- What has to be evaluated on the joined row reads no positions if the statement does not. -/
theorem inputs_joinExprs (h : ∀ e ∈ s.exprs, e.inputs = []) : ∀ e ∈ s.joinExprs, e.inputs = [] :=
  forall_joinExprs (P := fun e => e.inputs = []) (fun _ => rfl) rfl Expr.inputs_call_eq_nil h

end Statement

/-! ### What follows a join -/

namespace MergeStage

/-- Projections of which only the last one fetches fit together if the first ones do and the rest
fits what they emit. -/
theorem checkChain_append {types : List DataType} {ps qs : List Projection}
    (hfetch : ∀ p ∈ ps, p.isFetch = false) (hps : checkChain types ps = .ok ()) :
    checkChain (ps.foldl (fun types p => p.outputTypes types) types) qs = .ok () →
      checkChain types (ps ++ qs) = .ok () := by
  induction ps generalizing types with
  | nil => exact fun hqs => hqs
  | cons p ps ih =>
    intro hqs
    rw [List.forall_mem_cons] at hfetch
    obtain ⟨-, hcolumns, hrest⟩ := checkChain_cons_eq_ok.1 hps
    rw [List.cons_append, checkChain_cons_eq_ok]
    exact ⟨fun h => absurd h (by simp [hfetch.1]), hcolumns, ih hfetch.2 hrest hqs⟩

end MergeStage

namespace ResultRow

variable {row : List Expr} {types : List DataType}

/-- Projections that fit a row of some types and emit a row of other types. -/
structure Fits (input output : List DataType) (ps : List Projection) : Prop where
  chain : MergeStage.checkChain input ps = .ok ()
  output : ps.foldl (fun types p => p.outputTypes types) input = output

/-- What is left of the predicate keeps the row. -/
theorem fits_filters {query : Option Expr} (hinputs : ∀ e ∈ query, e.inputs = [])
    {filters : List Projection} (h : ResultRow.filters row query = .ok filters) :
    Fits (row.map Expr.type) (row.map Expr.type) filters ∧ ∀ p ∈ filters, p.isFetch = false := by
  obtain ⟨rfl, -⟩ := filters_eq_ok h
  cases query with
  | none => exact ⟨⟨rfl, rfl⟩, by simp⟩
  | some query =>
    refine ⟨⟨?_, rfl⟩, by simp [Projection.isFetch]⟩
    refine MergeStage.checkChain_cons_eq_ok.2 ⟨fun _ => rfl, ?_, rfl⟩
    exact Expr.fitsIn_resolve (hinputs query rfl)

/-- A top-n over a joined row reads its columns. -/
theorem fitsIn_topN {limit offset : UInt64} {order : Option OrderBy} {outputs : List Expr}
    (houtputs : ∀ c ∈ outputs.flatMap Expr.inputs, c.FitsIn (row.map Expr.type))
    (hkeys : ∀ o ∈ order, ∀ key ∈ o.keys, key.inputs = []) :
    ∀ c ∈ (Projection.topN limit offset (order.map (·.mapKeys (Expr.resolve row)))
      outputs).inputColumns, c.FitsIn (row.map Expr.type) := by
  intro c hc
  rcases List.mem_append.1 hc with hc | hc
  · exact houtputs c hc
  · cases order with
    | none => cases hc
    | some o =>
      obtain ⟨_, hmem, hc⟩ := List.mem_flatMap.1 hc
      obtain ⟨key, hkey, rfl⟩ := List.mem_map.1 hmem
      exact Expr.fitsIn_resolve (hkeys o rfl key hkey) c hc

theorem fitsIn_outputs {outputs : List Expr} (hinputs : ∀ e ∈ outputs, e.inputs = []) :
    ∀ c ∈ (outputs.map (Expr.resolve row)).flatMap Expr.inputs,
      c.FitsIn (row.map Expr.type) := by
  intro c hc
  obtain ⟨_, hmem, hc⟩ := List.mem_flatMap.1 hc
  obtain ⟨e, he, rfl⟩ := List.mem_map.1 hmem
  exact Expr.fitsIn_resolve (hinputs e he) c hc

theorem types_outputs (row outputs : List Expr) :
    (outputs.map (Expr.resolve row)).map Expr.type = outputs.map Expr.type := by
  rw [List.map_map]
  exact List.map_congr_left fun e _ => Expr.type_resolve row e

/-- What is read back finds its row ids in the joined row. -/
theorem Gathers.fitsIn {f : Fetch} {outputs : List Expr} {leaves : List Leaf}
    {entries : List LeafFetch} (h : Gathers f row outputs leaves entries) :
    ∀ x ∈ f.docIdColumns, x.2.FitsIn (row.map Expr.type) := by
  intro x hx
  rw [h.docIdColumns] at hx
  obtain ⟨entry, hentry, rfl⟩ := List.mem_map.1 hx
  obtain ⟨leaf, -, hfor⟩ := h.entry entry hentry
  obtain ⟨d, hd, -⟩ := hfor.docId
  have htype : entry.docId.type = d.type := by
    rw [hfor.docIdType, hd]
    rfl
  refine ⟨d.type, ?_, ?_⟩
  · rw [List.getElem?_map, hd]
    rfl
  · rw [htype]
    exact BEq.rfl

/-- What follows a join reads columns of the joined row at their types, and ends with the types
that the statement declares. -/
theorem fits_projections {s : Statement} (hinputs : ∀ e ∈ s.exprs, e.inputs = [])
    {session : Session} {split : Split} {settings : PlannerSettings} (hsplit : split.IsOf s settings)
    {leaves : List Leaf} {all : List Projection}
    (h : projections session s.select split row leaves = .ok all) :
    Fits (row.map Expr.type) s.select.outputTypes all := by
  have houtputs : ∀ e ∈ s.select.outputs, e.inputs = [] := fun e he =>
    hinputs e (by simp [Statement.exprs, he])
  have hjoin := Statement.inputs_joinExprs hinputs
  obtain ⟨filters, order, hfilters, horder, hshape⟩ := projections_shape h
  rw [hsplit.remainingQuery] at hfilters
  rw [hsplit.remainingOrderBy] at horder
  obtain ⟨hfits, hfetch⟩ :=
    fits_filters (fun _ he => hjoin _ (List.mem_append_right _ (Option.mem_toList.2 he))) hfilters
  obtain ⟨rfl, -⟩ := orderBy_eq_ok horder
  have hkeys : ∀ o ∈ s.remainingOrderBy, ∀ key ∈ o.keys, key.inputs = [] := by
    intro o ho key hkey
    refine hjoin key (List.mem_append_left _ ?_)
    rwa [Option.mem_def.1 ho]
  -- it is enough to look at what follows the filter, which keeps the row
  have hafter : ∀ rest, Fits (row.map Expr.type) s.select.outputTypes rest →
      Fits (row.map Expr.type) s.select.outputTypes (filters ++ rest) := by
    intro rest hrest
    refine ⟨MergeStage.checkChain_append hfetch hfits.chain ?_, ?_⟩
    · rw [hfits.output]
      exact hrest.chain
    · rw [List.foldl_append, hfits.output]
      exact hrest.output
  rcases hshape with ⟨-, rfl⟩ | ⟨-, f, hf, rfl⟩
  · -- all outputs are in the joined row
    refine hafter _ ⟨MergeStage.checkChain_cons_eq_ok.2 ⟨fun _ => rfl, ?_, rfl⟩, ?_⟩
    · exact fitsIn_topN (fitsIn_outputs houtputs) hkeys
    · exact types_outputs row s.select.outputs
  · -- the joined row is cut first, and the rest is read back
    obtain ⟨entries, hgathers⟩ := exists_gathers hf
    refine hafter _ ⟨MergeStage.checkChain_cons_eq_ok.2 ⟨fun h => absurd h Bool.false_ne_true, ?_, ?_⟩, ?_⟩
    · exact fitsIn_topN (fun _ hc => Projection.fitsIn_passThrough hc) hkeys
    · refine MergeStage.checkChain_cons_eq_ok.2 ⟨fun _ => rfl, fun c hc => ?_, rfl⟩
      rw [Projection.outputTypes, Projection.map_type_passThrough]
      rcases List.mem_append.1 hc with hc | hc
      · obtain ⟨x, hx, rfl⟩ := List.mem_map.1 hc
        exact hgathers.fitsIn x hx
      · rw [hgathers.outputs] at hc
        exact fitsIn_outputs houtputs c hc
    · show f.outputs.map Expr.type = s.select.outputTypes
      rw [hgathers.outputs]
      exact types_outputs row s.select.outputs

end ResultRow

/-! ### Joining planned sources -/

namespace CrossJoin

open Planning

/-- The joined row has the types of the plans one after another. -/
theorem types_joinedRow {ordered : List (RelationName × Plan)} {row : List Expr}
    (h : joinedRow ordered = .ok row) :
    row.map Expr.type = (ordered.map (·.2)).flatMap Plan.outputTypes := by
  obtain ⟨houtputs, rfl⟩ := joinedRow_eq_ok h
  rw [List.map_flatMap, List.flatMap_map]
  refine List.flatMap_congr fun p hp => ?_
  obtain ⟨outputs, hp⟩ := houtputs p hp
  rw [hp, Plan.outputTypes_eq_of_outputs? hp]
  rfl

variable {planner : RelationPlanner} {s : Statement} {before between after : Session}
  {split : Split} {plans : List (RelationName × Plan)}

/-- If the projections of a statement are refused, so is the statement. -/
theorem finish_joinAll_eq_error {select : Select} {row : List Expr} {session : Session}
    {leaves : List Leaf} {cause : PlanFault}
    (h : ResultRow.projections session select split row leaves = .error cause) (handler : NodeId)
    (next : StageId) (first second : Plan) (rest : List Plan) :
    finish session select split row leaves (joinAll handler next first (second :: rest)) =
      .error cause := by
  obtain ⟨left, right, leftOuter, merge, hroot, -⟩ := exists_joinAll handler next first second rest
  rw [hroot, finish, h]
  rfl

/-- The projections of a statement fit the last join. -/
theorem finish_joinAll_eq_ok (hinputs : ∀ e ∈ s.exprs, e.inputs = []) {settings : PlannerSettings}
    (hsplit : split.IsOf s settings) {row : List Expr} {first second : Plan} {rest : List Plan}
    (hrow : row.map Expr.type = (first :: second :: rest).flatMap Plan.outputTypes)
    {session : Session} {leaves : List Leaf} {projections : List Projection}
    (h : ResultRow.projections session s.select split row leaves = .ok projections)
    (handler : NodeId) (next : StageId) :
    ∃ left right leftOuter merge,
      finish session s.select split row leaves (joinAll handler next first (second :: rest)) =
        .ok (.nestedLoop left right leftOuter merge) ∧
      merge.outputTypes = s.select.outputTypes := by
  obtain ⟨left, right, leftOuter, merge, hroot, -, htypes, hpass⟩ :=
    exists_joinAll handler next first second rest
  rw [← hrow] at htypes
  have hfits := ResultRow.fits_projections hinputs hsplit h
  -- the last join passes the joined row on to the projections
  have hvalid : { merge with projections := merge.projections ++ projections }.validate =
      .ok () := by
    rw [MergeStage.validate_eq_ok, hpass, List.singleton_append,
      MergeStage.checkChain_cons_eq_ok]
    refine ⟨fun h => absurd h Bool.false_ne_true, fun _ hc => Projection.fitsIn_passThrough hc, ?_⟩
    rw [Projection.outputTypes, Projection.map_type_passThrough, htypes]
    exact hfits.chain
  refine ⟨left, right, leftOuter, { merge with projections := merge.projections ++ projections },
    ?_, ?_⟩
  · rw [hroot, finish, h]
    simp only [Bind.bind, Except.bind, hvalid]
    rfl
  · rw [MergeStage.outputTypes, hpass, List.foldl_append, List.foldl_cons, List.foldl_nil,
      Projection.outputTypes, Projection.map_type_passThrough, htypes]
    exact hfits.output

/-- The projections of a statement fit the last join, so they are refused only for what the plans
say too little about. -/
theorem finish_joinAll (hinputs : ∀ e ∈ s.exprs, e.inputs = []) {settings : PlannerSettings}
    (hsplit : split.IsOf s settings) {row : List Expr} {first second : Plan} {rest : List Plan}
    (hrow : row.map Expr.type = (first :: second :: rest).flatMap Plan.outputTypes)
    (session : Session) (leaves : List Leaf) (handler : NodeId) (next : StageId) :
    Except.FailsOnly JoinFault (finish session s.select split row leaves
        (joinAll handler next first (second :: rest))) ∧
      ∀ p, finish session s.select split row leaves
          (joinAll handler next first (second :: rest)) = .ok p →
        p.resultTypes = s.select.outputTypes := by
  cases hprojections : ResultRow.projections session s.select split row leaves with
  | error cause =>
    rw [finish_joinAll_eq_error hprojections]
    refine ⟨Except.failsOnly_error ?_, fun _ h => absurd h (by simp)⟩
    exact ResultRow.projections_failsOnly _ _ _ _ cause hprojections
  | ok projections =>
    obtain ⟨left, right, leftOuter, merge, hfinish, htypes⟩ :=
      finish_joinAll_eq_ok hinputs hsplit hrow hprojections handler next
    rw [hfinish]
    refine ⟨Except.failsOnly_ok _, fun p h => ?_⟩
    rw [← Except.ok.inj h]
    exact htypes

/-- Joining planned sources fails for their rows, or for the projections at the root. -/
theorem ReadyToJoin.fails_join_cases (h : ReadyToJoin planner s before split plans between)
    {fault : Fault} (hfails : Fails (join s.select split plans) between fault after) :
    ∃ cause, fault = .planning cause ∧
      (joinedRow (s.sourceOrder.filterMap (plans[·]?)) = .error cause ∨
        ∃ row first second rest leaves,
          joinedRow (s.sourceOrder.filterMap (plans[·]?)) = .ok row ∧
          inJoinOrder s plans = first :: second :: rest ∧
          finish between s.select split row leaves
            (joinAll between.handler between.nextStage first (second :: rest)) = .error cause) := by
  obtain ⟨first, second, rest, hordered, -⟩ := h.inJoinOrder_eq
  rw [← h.joinOrder_eq]
  rcases fails_bind.1 hfails with hrow | ⟨row, _, hrow, hfails⟩
  · obtain ⟨⟨cause, hcause, rfl⟩, -⟩ := fails_ofExcept.1 hrow
    exact ⟨cause, rfl, .inl hcause⟩
  obtain ⟨hok, rfl⟩ := gives_ofExcept.1 hrow
  rw [inJoinOrder, ← h.joinOrder_eq] at hordered
  split at hfails
  · rename_i hnil
    exact absurd (hnil.symm.trans hordered) (by simp)
  rename_i first' rest' hordered'
  obtain ⟨rfl, rfl⟩ := List.cons.inj (hordered'.symm.trans hordered)
  rcases fails_bind.1 hfails with hget | ⟨session, _, hget, hfails⟩
  · exact absurd hget not_fails_get
  obtain ⟨rfl, rfl⟩ := gives_get.1 hget
  rcases fails_bind.1 hfails with hset | ⟨_, _, -, hfails⟩
  · exact absurd hset not_fails_set
  obtain ⟨⟨cause, hcause, rfl⟩, -⟩ := fails_ofExcept.1 hfails
  refine ⟨cause, rfl, .inr ⟨row, _, second, rest, _, hok, ?_, hcause⟩⟩
  rw [inJoinOrder, ← h.joinOrder_eq, hordered]

/-- Joining planned sources fails only for what their plans say too little about. -/
theorem fails_join (hinputs : ∀ e ∈ s.exprs, e.inputs = [])
    (h : ReadyToJoin planner s before split plans between) {fault : Fault}
    (hfails : Fails (join s.select split plans) between fault after) :
    ∃ cause, fault = .planning cause ∧ JoinFault cause := by
  obtain ⟨cause, rfl, hcause | ⟨row, first, second, rest, leaves, hok, hordered, hcause⟩⟩ :=
    h.fails_join_cases hfails
  · exact ⟨cause, rfl, joinedRow_failsOnly _ _ hcause⟩
  -- once the joined row is known, only the projections can be refused
  · have htypes := types_joinedRow hok
    rw [← inJoinOrder, hordered] at htypes
    exact ⟨cause, rfl,
      (finish_joinAll hinputs (Statement.split_spec h.splits) htypes _ _ _ _).1 cause hcause⟩

/-- The rows of a join have the types that the statement declares. -/
theorem resultTypes_join (hinputs : ∀ e ∈ s.exprs, e.inputs = [])
    (h : ReadyToJoin planner s before split plans between) {p : Plan}
    (hjoin : Gives (join s.select split plans) between p after) :
    p.resultTypes = s.select.outputTypes := by
  have hsplit := Statement.split_spec h.splits
  obtain ⟨row, first, second, rest, hrow, hordered, hfinish, -, -⟩ := h.gives_join hjoin
  have htypes := types_joinedRow hrow
  rw [← inJoinOrder, hordered] at htypes
  exact (finish_joinAll hinputs hsplit htypes _ _ _ _).2 p hfinish

/-! ### Statements and their plans -/

/-- What the types of a statement, of its plan and of the plans of its sources have to do with
each other, wherever planning starts. -/
structure WellTyped (planner : RelationPlanner) (s : Statement) (before : Session) : Prop where
  /-- Once all sources are planned, the statement is refused only if a plan says nothing of its
  columns or changes them, or if something is not collected.  No merge stage is refused. -/
  refused : ∀ {split plans between fault after}, ReadyToJoin planner s before split plans between →
    Fails (plan planner s) before fault after → ∃ cause, fault = .planning cause ∧ JoinFault cause
  /-- The plan gives rows of the declared types. -/
  resultTypes : ∀ {p after}, Gives (plan planner s) before (.planned p) after →
    p.resultTypes = s.select.outputTypes
  /-- A plan that is not known to be empty joins the plans of the sources in their order.  Every
  join has a valid merge stage, and the columns of the sources stand side by side. -/
  joined : ∀ {p after}, Gives (plan planner s) before (.planned p) after → p.isNoOp = false →
    ∃ split plans between, ReadyToJoin planner s before split plans between ∧
      List.Forall₂ Plan.Routed (inJoinOrder s plans) (p.leaves (s.sources.length - 1)) ∧
      (p.joins (s.sources.length - 1)).length = s.sources.length - 1 ∧
      (∀ merge ∈ p.joins (s.sources.length - 1), merge.validate = .ok ()) ∧
      p.outputTypes = (p.leaves (s.sources.length - 1)).flatMap Plan.outputTypes

/-- Statements whose expressions read no positions are well typed, whatever plans their tables. -/
theorem wellTyped_plan (planner : RelationPlanner) (s : Statement) (before : Session)
    (hinputs : ∀ e ∈ s.exprs, e.inputs = []) : WellTyped planner s before where
  refused := by
    intro split plans between fault after hready hfails
    unfold Fails at hfails
    rw [outcome_plan hready] at hfails
    rcases fails_bind.1 hfails with hfails | ⟨_, _, -, hfails⟩
    · exact fails_join hinputs hready hfails
    · exact absurd hfails not_fails_built
  resultTypes := by
    intro p after h
    cases plannedBy_of_gives h with
    | impossible _ => rfl
    | emptySource _ _ _ _ => rfl
    | joined hready hjoin _ => exact resultTypes_join hinputs hready hjoin
  joined := by
    intro p after h hrows
    cases plannedBy_of_gives h with
    | impossible _ => cases hrows
    | emptySource _ _ _ _ => cases hrows
    | joined hready hjoin _ =>
      have htree := hready.joinTree hjoin
      obtain ⟨hids, hvalid⟩ := htree.joins
      have hlength := congrArg List.length hids
      rw [List.length_map, List.length_map, List.length_range] at hlength
      exact ⟨_, _, _, hready, htree.leaves, hlength, hvalid, htree.outputTypes_leaves⟩

/-- A scan that collects nothing but the keys of the order by. -/
def bareScan : ScanOptions := ⟨true, false, false, false, false, none⟩

/-- The increasing pairs in any order. -/
def unsortedIncreasing : Statement :=
  { increasing with select := { increasing.select with orderBy := none } }

theorem fails_unsortedIncreasing : ∃ split plans between after,
    ReadyToJoin (Strategy.planTable (.scan bareScan)) unsortedIncreasing
      (.start oneNode ⟨10000, 10000⟩ 1) split plans between ∧
    Fails (plan (Strategy.planTable (.scan bareScan)) unsortedIncreasing)
      (.start oneNode ⟨10000, 10000⟩ 1) (.planning (.notCollected .condition "t" "a")) after := by
  have hready : ReadyToJoin (Strategy.planTable (.scan bareScan)) unsortedIncreasing
      (.start oneNode ⟨10000, 10000⟩ 1) _ _ _ :=
    ⟨Nat.le_refl 2, rfl, rfl, rfl, ⟨_, rfl, rfl⟩, rfl⟩
  exact ⟨_, _, _, _, hready, hready.fails_plan_of_steps Statement.joinOrder_unsorted rfl rfl rfl⟩

/-- The pairs of numbers have two columns, and so have the plan for them, its one join and the
tables side by side.  In any order they are refused when the tables collect nothing. -/
theorem wellTyped_increasing :
    (∀ e ∈ increasing.exprs ++ unsortedIncreasing.exprs, e.inputs = []) ∧
    (∃ p after join, Gives (plan (Strategy.planTable (.scan plainScan)) increasing)
        (.start oneNode ⟨10000, 10000⟩ 1) (.planned p) after ∧
      p.resultTypes = [.int64, .int64] ∧ p.joins 1 = [join] ∧ join.validate = .ok () ∧
      (p.leaves 1).flatMap Plan.outputTypes = [.int64, .int64]) ∧
    ∃ split plans between cause after,
      ReadyToJoin (Strategy.planTable (.scan bareScan)) unsortedIncreasing
        (.start oneNode ⟨10000, 10000⟩ 1) split plans between ∧
      Fails (plan (Strategy.planTable (.scan bareScan)) unsortedIncreasing)
        (.start oneNode ⟨10000, 10000⟩ 1) (.planning cause) after ∧ JoinFault cause := by
  have hinputs : ∀ e ∈ increasing.exprs ++ unsortedIncreasing.exprs, e.inputs = [] := by decide
  obtain ⟨hsorted, hunsorted⟩ := List.forall_mem_append.1 hinputs
  obtain ⟨p, after, h, hrows, htypes⟩ := gives_increasing
  have hplanned := wellTyped_plan (Strategy.planTable (.scan plainScan)) increasing
    (.start oneNode ⟨10000, 10000⟩ 1) hsorted
  obtain ⟨_, _, _, -, -, hlength, hvalid, hleaves⟩ := hplanned.joined h hrows
  obtain ⟨join, hjoin⟩ := List.length_eq_one_iff.1 hlength
  obtain ⟨split, plans, between, refusal, hready, hfails⟩ := fails_unsortedIncreasing
  have hrefused := wellTyped_plan (Strategy.planTable (.scan bareScan)) unsortedIncreasing
    (.start oneNode ⟨10000, 10000⟩ 1) hunsorted
  obtain ⟨_, hcause, hfault⟩ := hrefused.refused hready hfails
  obtain rfl := Fault.planning.inj hcause
  refine ⟨hinputs, ⟨p, after, join, h, hplanned.resultTypes h, hjoin, hvalid join ?_, ?_⟩,
    split, plans, between, _, refusal, hready, hfails, hfault⟩
  · exact hjoin ▸ List.mem_singleton_self join
  · exact hleaves.symm.trans htypes

end CrossJoin

end ShardJoin
