/-
What stands in the columns of a joined row.

A join takes it that the rows of a source have the values of the expressions
that its plan emits, column by column.  What is checked is less: that the
result stage of the plan does not change the types of the columns.

* `CrossJoin.joinedRow_cases` — plans that are refused for their columns;
* `CrossJoin.joins_of_gives` — what a planned join is made up of;
* `CrossJoin.keepsColumns_tables` — the tables of a statement keep their
  columns;
* `CrossJoin.columnsStand_plan` — which sources do, and what the columns of
  the joined row are then.
-/
import ShardJoin.Proofs.Planning.ResultColumns
import ShardJoin.Proofs.Planning.TwoSteps

namespace ShardJoin

variable {α : Type}

namespace CrossJoin

open Planning

/-! ### Plans that are refused -/

/-- Why the plan of a source is not joined. -/
inductive Unfit (relation : RelationName) (p : Plan) : PlanFault → Prop
  | noOutputs (h : p.outputs? = none) : Unfit relation p (.noOutputs relation)
  | reshaped {outputs : List Expr} (h : p.outputs? = some outputs)
    (htypes : (p.resultTypes == p.outputTypes) = false) : Unfit relation p (.reshaped relation)

/-- A plan that says which expressions it emits, and does not change their types at its end. -/
def Fit (p : Plan) : Prop :=
  ∃ outputs, p.outputs? = some outputs ∧ (p.resultTypes == p.outputTypes) = true

/-- The joined row is made up if all plans fit; otherwise one that does not is named. -/
theorem joinedRow_cases (ordered : List (RelationName × Plan)) :
    ((∀ z ∈ ordered, Fit z.2) ∧
        joinedRow ordered = .ok (ordered.flatMap fun z => z.2.outputs?.getD [])) ∨
      ∃ z ∈ ordered, ∃ cause, Unfit z.1 z.2 cause ∧ joinedRow ordered = .error cause := by
  induction ordered with
  | nil => exact .inl ⟨by simp, rfl⟩
  | cons z rest ih =>
    obtain ⟨relation, p⟩ := z
    rw [joinedRow]
    cases houtputs : p.outputs? with
    | none => exact .inr ⟨_, List.mem_cons_self, _, .noOutputs houtputs, rfl⟩
    | some outputs =>
      cases htypes : p.resultTypes == p.outputTypes with
      | false => exact .inr ⟨_, List.mem_cons_self, _, .reshaped houtputs htypes, rfl⟩
      | true =>
        rcases ih with ⟨hfit, hrow⟩ | ⟨z, hz, cause, hunfit, herror⟩
        · refine .inl ⟨List.forall_mem_cons.2 ⟨⟨outputs, houtputs, htypes⟩, hfit⟩, ?_⟩
          rw [List.flatMap_cons, houtputs, hrow]
          rfl
        · refine .inr ⟨z, List.mem_cons_of_mem _ hz, cause, hunfit, ?_⟩
          rw [herror]
          rfl

variable {planner : RelationPlanner} {s : Statement} {before between after : Session}
  {split : Split} {plans : List (RelationName × Plan)}

/-- A plan that does not fit is refused, once all sources are planned. -/
theorem ReadyToJoin.fails_of_unfit (h : ReadyToJoin planner s before split plans between)
    (hunfit : ∃ z ∈ plans, ¬Fit z.2) :
    ∃ z ∈ plans, ∃ cause, Unfit z.1 z.2 cause ∧
      Fails (plan planner s) before (.planning cause) between := by
  obtain ⟨z, hz, hz'⟩ := hunfit
  obtain ⟨i, hi⟩ := List.mem_iff_getElem?.1 hz
  rcases joinedRow_cases (s.sourceOrder.filterMap (plans[·]?)) with ⟨hfit, -⟩ |
    ⟨y, hy, cause, hcause, herror⟩
  · exact absurd (hfit z (h.mem_joined hi)) hz'
  · obtain ⟨j, -, hj⟩ := List.mem_filterMap.1 hy
    refine ⟨y, List.mem_of_getElem? hj, cause, hcause, ?_⟩
    refine h.fails_plan (fails_bind.2 (.inl (fails_ofExcept.2 ⟨⟨cause, ?_, rfl⟩, rfl⟩)))
    rw [h.joinOrder_eq, herror]

/-! ### The joined row -/

/-- The expressions that the leaves of a join emit together. -/
def rowOf (leaves : List Plan) : List Expr := leaves.flatMap fun p => p.outputs?.getD []

theorem rowOf_routed {plans leaves : List Plan} (h : List.Forall₂ Plan.Routed plans leaves) :
    rowOf leaves = rowOf plans :=
  Plan.flatMap_routed (fun consumer p => by rw [(Plan.outputs?_routeResult consumer p).1]) h

theorem Fit.routed {p q : Plan} (h : Fit p) (hrouted : p.Routed q) : Fit q := by
  obtain ⟨consumer, rfl⟩ := hrouted
  obtain ⟨outputs, houtputs, htypes⟩ := h
  obtain ⟨houtputs', htypes', -⟩ := Plan.outputs?_routeResult consumer p
  refine ⟨outputs, houtputs'.trans houtputs, ?_⟩
  rw [htypes', Plan.outputTypes_routeResult, htypes]

theorem Fit.outputs? {p : Plan} (h : Fit p) : p.outputs? = some (p.outputs?.getD []) := by
  obtain ⟨outputs, houtputs, -⟩ := h
  rw [houtputs]
  rfl

/-- What a planned join is made up of: leaves that fit, and projections that are made for the row
that the leaves emit together. -/
structure Joins (s : Statement) (settings : PlannerSettings) (p : Plan) (merge : MergeStage) :
    Prop where
  fit : ∀ leaf ∈ p.leaves (s.sources.length - 1), Fit leaf
  outputs? : p.outputs? = some (rowOf (p.leaves (s.sources.length - 1)))
  projections : ∃ session split sources projections, s.split settings = .ok split ∧
    (∀ x ∈ s.sources, ∃ leaf ∈ sources, Leaf.relation leaf = x.1) ∧
    ResultRow.projections session s.select split (rowOf (p.leaves (s.sources.length - 1)))
      sources = .ok projections ∧
    merge.projections = .nestedLoopMerge (Projection.passThrough
      ((rowOf (p.leaves (s.sources.length - 1))).map Expr.type)) :: projections

/-- The leaves of a tree of joins emit its row. -/
theorem outputs?_leaves {next : StageId} {n : Nat} {consumer : Downstream} {plans : List Plan}
    {p : Plan} (h : JoinTree next n consumer plans p) (hfit : ∀ q ∈ plans, Fit q) :
    p.outputs? = some (rowOf plans) := by
  induction h with
  | leaf consumer p =>
    rw [(Plan.outputs?_routeResult consumer p).1, (hfit p (List.mem_singleton_self p)).outputs?]
    simp [rowOf]
  | @join n consumer plans left right leftOuter merge nodes _ _ _ _ _ ih =>
    have hright := (Plan.outputs?_routeResult (.stage nodes (next + n)) right).1
    rw [(hfit right (by simp)).outputs?] at hright
    rw [Plan.outputs?, ih fun q hq => hfit q (List.mem_append_left _ hq), hright]
    simp [rowOf]

theorem relation_ofPlan (relation : RelationName) (p : Plan) :
    (Leaf.ofPlan relation p).relation = relation := by
  cases p <;> rfl

/-- Every source is joined under its own name. -/
theorem ReadyToJoin.exists_leaf (h : ReadyToJoin planner s before split plans between) :
    ∀ x ∈ s.sources, ∃ leaf ∈ (s.sourceOrder.filterMap (plans[·]?)).map fun (relation, plan) =>
      Leaf.ofPlan relation plan, leaf.relation = x.1 := by
  intro x hx
  obtain ⟨i, hi, rfl⟩ := List.mem_iff_getElem.1 hx
  have hi' : i < plans.length := h.length_plans ▸ hi
  have hzip : i < (s.sources.zip split.shares).length := h.plansOf.length_eq ▸ hi'
  have hname := (h.plansOf.get hzip hi').1
  refine ⟨_, List.mem_map_of_mem (h.mem_joined (List.getElem?_eq_getElem hi')), ?_⟩
  rw [List.get_eq_getElem, List.get_eq_getElem, List.getElem_zip] at hname
  exact (relation_ofPlan plans[i].1 plans[i].2).trans hname.symm

/-- A join of plans that fit passes the row that they emit together on to the projections of the
statement. -/
theorem ReadyToJoin.exists_projections (h : ReadyToJoin planner s before split plans between)
    {p : Plan} (hjoin : Gives (join s.select split plans) between p after) :
    ∃ left right leftOuter merge projections, p = .nestedLoop left right leftOuter merge ∧
      (∀ z ∈ s.sourceOrder.filterMap (plans[·]?), Fit z.2) ∧
      ResultRow.projections between s.select split (rowOf (inJoinOrder s plans))
        ((s.sourceOrder.filterMap (plans[·]?)).map fun (relation, plan) =>
          Leaf.ofPlan relation plan) = .ok projections ∧
      merge.projections = .nestedLoopMerge
        (Projection.passThrough ((rowOf (inJoinOrder s plans)).map Expr.type)) :: projections := by
  obtain ⟨row, first, second, rest, hrow, hordered, hfinish, -, -⟩ := h.gives_join hjoin
  -- the joined row is there, so all plans fit
  rcases joinedRow_cases (s.sourceOrder.filterMap (plans[·]?)) with ⟨hfit, hrow'⟩ |
    ⟨_, _, _, -, herror⟩
  swap
  · cases hrow.symm.trans herror
  have hrowOf : row = rowOf (inJoinOrder s plans) := by
    rw [rowOf, inJoinOrder, List.flatMap_map]
    exact Except.ok.inj (hrow.symm.trans hrow')
  subst hrowOf
  obtain ⟨left, right, leftOuter, last, projections, hroot, hprojections, -, rfl⟩ :=
    finish_eq_ok hfinish
  obtain ⟨_, _, _, _, hroot', -, htypes, hpass⟩ :=
    exists_joinAll between.handler between.nextStage first second rest
  rw [hroot] at hroot'
  cases hroot'
  -- the last join receives the joined row and passes it on
  have hmap := types_joinedRow hrow
  rw [← inJoinOrder, hordered, ← htypes, ← hordered] at hmap
  refine ⟨left, right, leftOuter, _, projections, rfl, hfit, hprojections, ?_⟩
  rw [hmap, hpass]
  rfl

theorem joins_of_gives {left right : Plan} {leftOuter : Bool} {merge : MergeStage}
    (h : Gives (plan planner s) before (.planned (.nestedLoop left right leftOuter merge)) after) :
    Joins s before.settings (.nestedLoop left right leftOuter merge) merge := by
  cases plannedBy_of_gives h with
  | @joined _ _ split plans σ σ' hready hjoin _ =>
    have htree := hready.joinTree hjoin
    obtain ⟨_, _, _, _, projections, hp, hfit, hprojections, hmerge⟩ :=
      hready.exists_projections hjoin
    cases hp
    have hplans : ∀ q ∈ inJoinOrder s plans, Fit q := by
      intro q hq
      obtain ⟨z, hz, rfl⟩ := List.mem_map.1 hq
      exact hfit z hz
    have hleaves := rowOf_routed htree.leaves
    refine ⟨fun leaf hleaf => ?_, ?_, ?_⟩
    · obtain ⟨i, z, hz, hrouted⟩ := hready.exists_routed hjoin hleaf
      exact (hfit z (hready.mem_joined hz)).routed hrouted
    · rw [hleaves]
      exact outputs?_leaves htree hplans
    · rw [← hleaves] at hprojections hmerge
      exact ⟨_, _, _, projections, hready.splits, hready.exists_leaf, hprojections, hmerge⟩

/-- Side by side, the values of what the leaves emit are those of the joined row. -/
theorem flatten_eq_valuesOf (ι : Interpretation α) {joint : Env α} {leaves : List Plan}
    {data : List (List (Datum α))} (h : List.Forall₂
      (fun (p : Plan) d => d = valuesOf ι (p.outputs?.getD []) joint) leaves data) :
    data.flatten = valuesOf ι (rowOf leaves) joint := by
  induction h with
  | nil => rfl
  | cons hd _ ih =>
    subst hd
    rw [List.flatten_cons, ih]
    exact List.map_append.symm

/-! ### Tables -/

/-- A plan that is made for a table does no more than merge its rows. -/
theorem resultProjections_planTable {strategy : Strategy} (hmade : ∀ p, strategy ≠ .canned p)
    {q : TableQuery} {σ σ' : Session} {p : Plan}
    (h : Gives (strategy.planTable q) σ (some p) σ') : p.resultProjections = [] := by
  cases strategy with
  | decline => cases (gives_pure.1 h).1
  | fail message => exact absurd h not_gives_throw
  | canned plan => exact absurd rfl (hmade plan)
  | noOp =>
    obtain rfl := Option.some.inj (gives_pure.1 h).1
    rfl
  | lookUp =>
    obtain rfl := Option.some.inj (gives_pure.1 h).1
    rfl
  | scan options =>
    obtain ⟨made, _, hscan, h⟩ := gives_bind.1 h
    obtain rfl := Option.some.inj (gives_pure.1 h).1
    obtain ⟨collect, merge, phase, -, -, -, -, -, hmerge, hp⟩ := Strategy.gives_scanPlan hscan
    have hprojections : (Plan.scan ⟨collect, merge, phase⟩).resultProjections = [] := by
      cases merge with
      | none => rfl
      | some stage => exact hmerge stage rfl
    rcases hp with rfl | rfl
    · exact hprojections
    · exact hprojections

/-- Sources that are planned along with the statement keep their columns. -/
theorem keepsColumns_tables {strategy : Strategy} (hmade : ∀ p, strategy ≠ .canned p)
    (hsources : ∀ x ∈ s.sources, x.2.plan? = none) {left right : Plan} {leftOuter : Bool}
    {merge : MergeStage} (h : Gives (plan strategy.planTable s) before
      (.planned (.nestedLoop left right leftOuter merge)) after) :
    ∀ p ∈ (Plan.nestedLoop left right leftOuter merge).leaves (s.sources.length - 1),
      ∀ (ι : Interpretation α) (engine : Engine α) (tuples : Env α → Prop) (outputs : List Expr),
        p.KeepsColumns ι engine tuples outputs := by
  cases plannedBy_of_gives h with
  | @joined _ _ split plans σ σ' hready hjoin _ =>
    intro p hp ι engine tuples outputs
    -- the leaf is the plan of a source, and no source came with one
    obtain ⟨i, z, hz, consumer, rfl⟩ := hready.exists_routed hjoin hp
    obtain ⟨⟨x, share⟩, hx, -, hplan | ⟨share, -, _, _, hplan⟩⟩ :=
      exists_getElem?_of_forall₂ hready.plansOf hz
    · have hmem := List.mem_of_getElem? (List.getElem?_zip_eq_some.1 hx).1
      rw [hsources x hmem] at hplan
      cases hplan
    refine Plan.keepsColumns_of_passes (fun projection hprojection => ?_) ι engine tuples
    rw [(Plan.outputs?_routeResult consumer z.2).2.2, resultProjections_planTable hmade hplan]
      at hprojection
    cases hprojection

/-! ### What the columns are -/

/-- Which sources of a planned join keep their columns, and what the columns are then, wherever
planning starts. -/
structure ColumnsStand (planner : RelationPlanner) (s : Statement) (before : Session) : Prop where
  /-- Once all sources are planned, one whose plan has no columns, or changes their types at its
  end, is refused. -/
  refused : ∀ {split plans between}, ReadyToJoin planner s before split plans between →
    (∃ z ∈ plans, ¬Fit z.2) → ∃ z ∈ plans, ∃ cause, Unfit z.1 z.2 cause ∧
      Fails (plan planner s) before (.planning cause) between
  /-- The leaves of a planned join have columns and do not change their types.  The result stage of
  a leaf keeps them if, wherever it does not drop all copies of a row, the expressions behind the
  columns of its result have the values of its outputs; and only then. -/
  leaf : ∀ {left right leftOuter merge after},
    Gives (plan planner s) before (.planned (.nestedLoop left right leftOuter merge)) after →
    ∀ p ∈ (Plan.nestedLoop left right leftOuter merge).leaves (s.sources.length - 1),
      ∃ outputs, p.outputs? = some outputs ∧ (p.resultTypes == p.outputTypes) = true ∧
        ∀ {α : Type} (ι : Interpretation α) (engine : Engine α) (tuples : Env α → Prop),
          Projection.ReadableAll ι engine tuples outputs p.resultProjections →
          (p.KeepsColumns ι engine tuples outputs ↔ ∀ env, tuples env → ∀ n,
            p.resultProjections.foldl (Projection.run ι engine)
                (List.replicate n (valuesOf ι outputs env)) ≠ [] →
              valuesOf ι (p.resultColumns outputs) env = valuesOf ι outputs env)
  /-- The projections after the last join are made for the row that the leaves emit together.  If
  all leaves keep their columns, what comes out of them stands side by side as in that row, and
  what was resolved in it has its value. -/
  row : ∀ {left right leftOuter merge after},
    Gives (plan planner s) before (.planned (.nestedLoop left right leftOuter merge)) after →
    Joins s before.settings (.nestedLoop left right leftOuter merge) merge ∧
    ∀ {α : Type} (ι : Interpretation α) (engine : Engine α) (tuples : Env α → Prop),
      (∀ p ∈ (Plan.nestedLoop left right leftOuter merge).leaves (s.sources.length - 1),
        p.KeepsColumns ι engine tuples (p.outputs?.getD [])) →
      ∀ joint, tuples joint → ∀ n data, List.Forall₂ (fun (p : Plan) d =>
          d ∈ p.resultProjections.foldl (Projection.run ι engine)
            (List.replicate n (valuesOf ι (p.outputs?.getD []) joint)))
          ((Plan.nestedLoop left right leftOuter merge).leaves (s.sources.length - 1)) data →
        ∃ row, (Plan.nestedLoop left right leftOuter merge).outputs? = some row ∧
          data.flatten = valuesOf ι row joint ∧
          ∀ e, ResultRow.Settled e → (e.resolve row).references = [] →
            (e.resolve row).eval ι (.ofRow data.flatten) = e.eval ι joint
  /-- The columns of the result are the outputs of the statement: a join that is a source of
  another one keeps its columns if these have the values of its joined row. -/
  result : ∀ {left right leftOuter merge after},
    Gives (plan planner s) before (.planned (.nestedLoop left right leftOuter merge)) after →
    (∀ e ∈ s.select.outputs, ResultRow.Settled e) →
    (∀ e ∈ s.select.outputs, ∀ r ∈ e.references, ∃ x ∈ s.sources, x.1 = r.relation) →
    ∃ row, (Plan.nestedLoop left right leftOuter merge).outputs? = some row ∧
      ∀ {α : Type} (ι : Interpretation α),
        (∀ env : Env α,
          valuesOf ι ((Plan.nestedLoop left right leftOuter merge).resultColumns row) env =
            valuesOf ι s.select.outputs env) ∧
        ∀ (engine : Engine α) (tuples : Env α → Prop), engine.ReadsBack ι tuples →
          ∀ envs : List (Env α), (∀ env ∈ envs, tuples env) →
            ∃ envs' : List (Env α), envs'.Subperm envs ∧
              merge.run ι engine (envs.map (valuesOf ι row)) =
                envs'.map (valuesOf ι s.select.outputs)

/-- What a join takes for the columns of its sources is what stands there as far as the sources
keep them; all that is refused is a change of their types. -/
theorem columnsStand_plan (planner : RelationPlanner) (s : Statement) (before : Session) :
    ColumnsStand planner s before where
  refused hready hunfit := hready.fails_of_unfit hunfit
  leaf := by
    intro left right leftOuter merge after h p hp
    obtain ⟨outputs, houtputs, htypes⟩ := (joins_of_gives h).fit p hp
    exact ⟨outputs, houtputs, htypes, fun ι engine tuples hread => Plan.keepsColumns_iff hread⟩
  row := by
    intro left right leftOuter merge after h
    have hjoins := joins_of_gives h
    refine ⟨hjoins, fun ι engine tuples hkeeps joint hjoint n data hdata => ?_⟩
    -- every leaf gives the values of its outputs
    have hvalues : List.Forall₂ (fun (p : Plan) d => d = valuesOf ι (p.outputs?.getD []) joint)
        ((Plan.nestedLoop left right leftOuter merge).leaves (s.sources.length - 1)) data := by
      refine (List.forall₂_iff_get.2 ⟨hdata.length_eq, fun i hi hi' => ?_⟩)
      exact (hkeeps _ (List.get_mem _ _)).eq_of_mem hjoint (hdata.get hi hi')
    have hflatten := flatten_eq_valuesOf ι hvalues
    refine ⟨_, hjoins.outputs?, hflatten, fun e he hresolved => ?_⟩
    rw [hflatten]
    exact Expr.eval_resolve (Expr.holds_valuesOf ι _ joint) he.2 he.1 hresolved
  result := by
    intro left right leftOuter merge after h houtputs hsources
    obtain ⟨-, hrow, _, _, _, projections, -, hnames, hprojections, hmerge⟩ := joins_of_gives h
    set row := rowOf ((Plan.nestedLoop left right leftOuter merge).leaves (s.sources.length - 1))
    have hcolumns : (Plan.nestedLoop left right leftOuter merge).resultColumns row =
        projections.foldl Projection.columns row := by
      have hresult : (Plan.nestedLoop left right leftOuter merge).resultProjections =
          merge.projections := rfl
      rw [Plan.resultColumns, hresult, hmerge, List.foldl_cons, Projection.columns,
        Projection.columns_passThrough]
    refine ⟨row, hrow, fun ι => ⟨fun env => ?_, fun engine tuples hengine envs henvs => ?_⟩⟩
    · rw [hcolumns]
      exact ResultRow.valuesOf_columns_projections ι hprojections houtputs env
    · have hread : Projection.ReadableAll ι engine tuples row merge.projections := by
        rw [hmerge]
        refine ⟨trivial, ?_⟩
        rw [Projection.columns, Projection.columns_passThrough]
        refine ResultRow.readableAll_projections hprojections (fun e he r hr => ?_) hengine
        obtain ⟨x, hx, hname⟩ := hsources e he r hr
        obtain ⟨leaf, hleaf, hrelation⟩ := hnames x hx
        exact ⟨leaf, hleaf, hrelation.trans hname⟩
      obtain ⟨envs', hturns⟩ := Projection.exists_turns_foldl ι engine hread henvs
      refine ⟨envs', hturns.subperm, hturns.eq.trans (List.map_congr_left fun env _ => ?_)⟩
      rw [hmerge, List.foldl_cons, Projection.columns, Projection.columns_passThrough]
      exact ResultRow.valuesOf_columns_projections ι hprojections houtputs env

open Statement

/-- The tables of the numbers keep their columns, so these stand in the joined row, and what
follows the join gives the numbers of the second table, as stored. -/
theorem columnsStand_lookedUp : ∃ left right leftOuter merge after row,
    Gives (plan (Strategy.planTable (.scan plainScan)) lookedUp) (.start oneNode ⟨10000, 10000⟩ 1)
      (.planned (.nestedLoop left right leftOuter merge)) after ∧
    (Plan.nestedLoop left right leftOuter merge).outputs? = some row ∧
    (∀ (engine : Engine Empty) (joint : Env Empty) (n : Nat) (data : List (List (Datum Empty))),
      List.Forall₂ (fun (p : Plan) d =>
          d ∈ p.resultProjections.foldl (Projection.run .integers engine)
            (List.replicate n (valuesOf .integers (p.outputs?.getD []) joint)))
        ((Plan.nestedLoop left right leftOuter merge).leaves 1) data →
        data.flatten = valuesOf .integers row joint) ∧
    ∀ (engine : Engine Empty) (store : Store Empty) (envs : List (Env Empty)),
      (∀ env ∈ envs, env.StoredIn store) → ∃ envs' : List (Env Empty), envs'.Subperm envs ∧
        merge.run .integers (engine.reading .integers store) (envs.map (valuesOf .integers row)) =
          envs'.map (valuesOf .integers (columnTable "u" "b").allColumns) := by
  obtain ⟨left, right, leftOuter, merge, after, h⟩ := gives_lookedUp
  have hsettled : ∀ e ∈ lookedUp.select.outputs,
      e.inputs = [] ∧ ∀ v ∈ e.literals, v.isRegular = true := by decide
  have hsources : ∀ e ∈ lookedUp.select.outputs, ∀ r ∈ e.references,
      ∃ x ∈ lookedUp.sources, x.1 = r.relation := by decide
  have hstand := columnsStand_plan (Strategy.planTable (.scan plainScan)) lookedUp
    (.start oneNode ⟨10000, 10000⟩ 1)
  obtain ⟨row, hrow, hresult⟩ := hstand.result h hsettled hsources
  refine ⟨left, right, leftOuter, merge, after, row, h, hrow, fun engine joint n data hdata => ?_,
    fun engine store envs henvs => ?_⟩
  · have hmade : ∀ p, Strategy.scan plainScan ≠ .canned p := fun _ h => nomatch h
    have hkeeps := keepsColumns_tables (α := Empty) hmade (by decide) h
    obtain ⟨row', hrow', hflatten, -⟩ := (hstand.row h).2 .integers engine (fun _ => True)
      (fun p hp => hkeeps p hp .integers engine _ _) joint trivial n data hdata
    rw [hflatten, Option.some.inj (hrow.symm.trans hrow')]
  · exact (hresult .integers).2 _ _ (engine.readsBack_reading .integers store) envs henvs

/-! ### Columns that change places -/

/-- The pairs of numbers, with the second one first. -/
def swappedPairs : Statement :=
  { pairs with
    select :=
      .ofOutputs ((columnTable "u" "b").allColumns ++ (columnTable "t" "a").allColumns) }

/-- The numbers of three tables, two of which have been joined before. -/
def overPlan (p : Plan) : Statement where
  sources := [("j", .planned p), ("w", .table (columnTable "w" "c"))]
  select := .ofOutputs (pairs.select.outputs ++ (columnTable "w" "c").allColumns)

/-- Their plan says that it emits the pairs as they were joined. -/
theorem gives_swappedPairs : ∃ p between,
    Gives (plan (Strategy.planTable (.scan plainScan)) swappedPairs)
      (.start oneNode ⟨10000, 10000⟩ 1) (.planned p) between ∧
    p.isNoOp = false ∧ p.outputs? = some pairs.select.outputs ∧
    p.resultTypes = [.int64, .int64] ∧
    p.resultProjections =
      [.nestedLoopMerge (Projection.passThrough [.int64, .int64]),
        .topN 10000 0 none [.inputAt 1 .int64, .inputAt 0 .int64]] ∧
    between.cluster = oneNode := by
  have hready : ReadyToJoin (Strategy.planTable (.scan plainScan)) swappedPairs
      (.start oneNode ⟨10000, 10000⟩ 1) _ _ _ :=
    ⟨Nat.le_refl 2, rfl, rfl, rfl, ⟨_, rfl, rfl⟩, rfl⟩
  exact ⟨_, _, hready.gives_plan_of_steps joinOrder_unsorted rfl rfl rfl, rfl, rfl, rfl, rfl, rfl⟩

/-- A plan of two numbers is joined with a third table. -/
theorem gives_overPlan {p : Plan} (hrows : p.isNoOp = false)
    (houtputs : p.outputs? = some pairs.select.outputs)
    (htypes : p.resultTypes = [.int64, .int64]) {σ : Session} (hσ : σ.cluster = oneNode) :
    ∃ left right leftOuter merge after,
      Gives (plan (Strategy.planTable (.scan plainScan)) (overPlan p)) σ
        (.planned (.nestedLoop left right leftOuter merge)) after ∧
      ∃ leaf ∈ (Plan.nestedLoop left right leftOuter merge).leaves 1, p.Routed leaf := by
  obtain ⟨cluster, settings, job, nextStage, nextSubContext, subContexts, ledger⟩ := σ
  obtain rfl : cluster = oneNode := hσ
  -- the third table is scanned
  have hready : ∃ split w between, ReadyToJoin (Strategy.planTable (.scan plainScan)) (overPlan p)
      ⟨oneNode, settings, job, nextStage, nextSubContext, subContexts, ledger⟩ split
      [("j", p), ("w", w)] between ∧ w.outputs? = some (columnTable "w" "c").allColumns ∧
      w.resultTypes = w.outputTypes := by
    refine ⟨_, _, _, ⟨Nat.le_refl 2, rfl, rfl, rfl, ⟨_, rfl, rfl⟩, ?_⟩, rfl, rfl⟩
    rw [List.any_cons, hrows]
    rfl
  obtain ⟨split, w, between, hready, hw, hwtypes⟩ := hready
  have hsplit := Statement.split_spec hready.splits
  have horder : joinOrder split.firstKeys = [0, 1] := by
    rw [hsplit.firstKeys]
    exact joinOrder_unsorted
  have hrow : joinedRow [("j", p), ("w", w)] =
      .ok (pairs.select.outputs ++ (columnTable "w" "c").allColumns) := by
    rw [joinedRow, houtputs, joinedRow, hw, htypes, hwtypes, Plan.outputTypes_eq_of_outputs? houtputs]
    simp only [BEq.rfl, if_true]
    rfl
  have hinputs : ∀ e ∈ (overPlan p).exprs, e.inputs = [] :=
    show ∀ e ∈ (overPlan (.noOp [])).exprs, e.inputs = [] by decide
  have hcollected : ∀ e ∈ (overPlan p).select.outputs, (e.resolve
      (pairs.select.outputs ++ (columnTable "w" "c").allColumns)).references = [] :=
    show ∀ e ∈ (overPlan (.noOp [])).select.outputs, (e.resolve
      (pairs.select.outputs ++ (columnTable "w" "c").allColumns)).references = [] by decide
  -- nothing but the outputs is left to be found in the joined row, and they are there
  have hkeys : ∀ o ∈ (overPlan p).remainingOrderBy, ∀ key ∈ o.keys, (key.resolve
      (pairs.select.outputs ++ (columnTable "w" "c").allColumns)).references = [] := by
    rintro o ⟨⟩
  rcases ResultRow.projections_cases hsplit hkeys hcollected between
    [Leaf.ofPlan "j" p, Leaf.ofPlan "w" w] with ⟨all, hall⟩ | ⟨_, _, hquery, -⟩
  swap
  · cases hquery
  have hrowTypes : (pairs.select.outputs ++ (columnTable "w" "c").allColumns).map Expr.type =
      [p, w].flatMap Plan.outputTypes := types_joinedRow hrow
  obtain ⟨left, right, leftOuter, merge, hfinish, -⟩ :=
    finish_joinAll_eq_ok hinputs hsplit hrowTypes hall between.handler between.nextStage
  have hjoin : Gives (join (overPlan p).select split [("j", p), ("w", w)]) between
      (.nestedLoop left right leftOuter merge) (between.skipStages 1) :=
    (gives_join horder).2 ⟨_, p, [w], hrow, rfl, hfinish, rfl⟩
  refine ⟨left, right, leftOuter, merge, _, hready.gives_plan hjoin, ?_⟩
  have hsourceOrder : (overPlan p).sourceOrder = [0, 1] := joinOrder_unsorted
  have hleaves := (hready.joinTree hjoin).leaves
  rw [inJoinOrder, hsourceOrder] at hleaves
  obtain ⟨leaf, _, hrouted, -, hcons⟩ := List.forall₂_cons_left_iff.1 hleaves
  exact ⟨leaf, hcons ▸ List.mem_cons_self, hrouted⟩

/-- One in the column of the first table, and two elsewhere. -/
def oneTwo : Env Empty where
  column r := .plain (.int64 (if r.column = "a" then 1 else 2))
  column_same := by
    intro r s h
    simp only [ColumnRef.same, Bool.and_eq_true, beq_iff_eq] at h
    rw [h.1.1.2]
  input _ := .null

/-- Both numbers have the same type, so the plan of the swapped pairs is joined as if it gave them
in their old order. -/
theorem not_keepsColumns_swappedPairs : ∃ p between,
    Gives (plan (Strategy.planTable (.scan plainScan)) swappedPairs)
      (.start oneNode ⟨10000, 10000⟩ 1) (.planned p) between ∧
    ∃ left right leftOuter merge after,
      Gives (plan (Strategy.planTable (.scan plainScan)) (overPlan p)) between
        (.planned (.nestedLoop left right leftOuter merge)) after ∧
      ∃ leaf ∈ (Plan.nestedLoop left right leftOuter merge).leaves 1,
        leaf.outputs? = some pairs.select.outputs ∧
        ∀ engine : Engine Empty,
          valuesOf .integers pairs.select.outputs oneTwo = [.plain (.int64 1), .plain (.int64 2)] ∧
          leaf.resultProjections.foldl (Projection.run .integers engine)
              [valuesOf .integers pairs.select.outputs oneTwo] =
            [[.plain (.int64 2), .plain (.int64 1)]] := by
  obtain ⟨p, between, hgives, hrows, houtputs, htypes, hprojections, hcluster⟩ := gives_swappedPairs
  obtain ⟨left, right, leftOuter, merge, after, h, leaf, hleaf, consumer, rfl⟩ :=
    gives_overPlan hrows houtputs htypes hcluster
  obtain ⟨houtputs', -, hprojections'⟩ := Plan.outputs?_routeResult consumer p
  refine ⟨p, between, hgives, left, right, leftOuter, merge, after, h, _, hleaf,
    houtputs'.trans houtputs, fun engine => ⟨rfl, ?_⟩⟩
  rw [hprojections', hprojections]
  -- without keys the top-n leaves the one row where it is
  show (((sortBy .integers [] Env.ofRow [[.plain (.int64 1), .plain (.int64 2)]]).drop 0).take
    10000).map (emit .integers [.inputAt 1 .int64, .inputAt 0 .int64]) = _
  rw [sortBy_nil]
  rfl

end CrossJoin

end ShardJoin
