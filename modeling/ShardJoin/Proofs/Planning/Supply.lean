/-
Who supplies the columns that a planned join uses.

What remains of the predicate and of the order by is evaluated on the joined
row, so it may not refer to columns any more.  The outputs may, if a fetch
reads those columns back.  A reference to a relation whose rows cannot be read
back is refused; one to a relation that is no source at all is not noticed.

* `ResultRow.references_evaluated` — nothing that is evaluated on the joined
  row refers to a column;
* `ResultRow.Gathers.supplies_iff` — a fetch supplies the columns of the leaves
  and no others;
* `CrossJoin.columnsSupplied_plan` — which columns a planned join uses, and
  which statements are refused;
* `CrossJoin.not_supplies_beneath` — an output that uses a column of a relation
  below a source.
-/
import ShardJoin.Proofs.Planning.Columns

namespace ShardJoin

/-- The expressions that a projection evaluates on the rows it receives.  A fetch evaluates its
outputs on rows that have been read back. -/
def Projection.evaluated : Projection → List Expr
  | .filter query => [query]
  | .topN _ _ orderBy outputs => outputs ++ orderBy.toList.flatMap OrderBy.keys
  | .fetch _ => []
  | .nestedLoopMerge outputs => outputs

theorem Projection.references_passThrough {types : List DataType} {e : Expr}
    (he : e ∈ passThrough types) : e.references = [] := by
  obtain ⟨i, -, rfl⟩ := List.mem_mapIdx.1 he
  rfl

/-- A fetch has the row ids of the relation of a column, and lists the column. -/
def Fetch.Supplies (f : Fetch) (r : ColumnRef) : Prop :=
  (f.docIdColumn? r.relation).isSome = true ∧
    ∃ e ∈ f.fetchColumns ++ f.partitionColumns, e.1 = r.relation ∧ ∃ c ∈ e.2, c.same r = true

namespace ResultRow

variable {row outputs : List Expr} {session : Session} {select : Select} {split : Split}
  {leaves : List Leaf} {all : List Projection}

/-! ### What is evaluated on the joined row -/

theorem references_evaluated (h : projections session select split row leaves = .ok all) :
    ∀ projection ∈ all, ∀ e ∈ projection.evaluated, e.references = [] := by
  obtain ⟨filters, order, hfilters, horder, hrest⟩ := projections_shape h
  obtain ⟨rfl, hquery⟩ := filters_eq_ok hfilters
  obtain ⟨rfl, hkeys⟩ := orderBy_eq_ok horder
  have hfilter : ∀ projection ∈ split.remainingQuery.toList.map
      fun query => Projection.filter (query.resolve row),
      ∀ e ∈ projection.evaluated, e.references = [] := by
    intro projection hprojection e he
    obtain ⟨query, hmem, rfl⟩ := List.mem_map.1 hprojection
    obtain rfl := List.mem_singleton.1 he
    exact hquery query (Option.mem_toList.1 hmem)
  have hkey : ∀ e ∈ (split.remainingOrderBy.map (·.mapKeys (Expr.resolve row))).toList.flatMap
      OrderBy.keys, e.references = [] := by
    intro e he
    obtain ⟨o, ho, he⟩ := List.mem_flatMap.1 he
    obtain ⟨o, hmem, rfl⟩ := Option.map_eq_some_iff.1 (Option.mem_toList.1 ho)
    obtain ⟨key, hmemKey, rfl⟩ := List.mem_map.1 he
    exact hkeys o hmem key hmemKey
  rcases hrest with ⟨houtputs, rfl⟩ | ⟨-, f, -, rfl⟩
  · refine List.forall_mem_append.2 ⟨hfilter, List.forall_mem_singleton.2 ?_⟩
    exact List.forall_mem_append.2 ⟨List.forall_mem_map.2 houtputs, hkey⟩
  · refine List.forall_mem_append.2 ⟨hfilter, List.forall_mem_cons.2 ⟨?_, ?_⟩⟩
    · exact List.forall_mem_append.2 ⟨fun _ he => Projection.references_passThrough he, hkey⟩
    · exact List.forall_mem_singleton.2 fun _ he => nomatch he

/-! ### What is read back -/

/-- A fetch supplies a column that its outputs refer to exactly if the column is one of a leaf. -/
theorem Gathers.supplies_iff {f : Fetch} {entries : List LeafFetch}
    (h : Gathers f row outputs leaves entries) {e : Expr} (he : e ∈ f.outputs) {r : ColumnRef}
    (hr : r ∈ e.references) : f.Supplies r ↔ ∃ leaf ∈ leaves, leaf.relation = r.relation := by
  constructor
  · rintro ⟨hdocId, -⟩
    rw [Fetch.docIdColumn?, h.docIdColumns, Option.isSome_map, List.find?_isSome] at hdocId
    obtain ⟨_, hx, hname⟩ := hdocId
    obtain ⟨entry, hentry, rfl⟩ := List.mem_map.1 hx
    obtain ⟨leaf, hleaf, hfor⟩ := h.entry entry hentry
    exact ⟨leaf, hleaf, hfor.relation.symm.trans (beq_iff_eq.1 hname)⟩
  · rintro ⟨leaf, hleaf, hrelation⟩
    rw [h.outputs] at he
    exact h.listed (List.mem_flatMap.2 ⟨e, he, hr⟩) hleaf hrelation

/-- Columns of a leaf are read back only by a row id, from the stage that collected it. -/
theorem leafFetch?_eq_ok {leaf : Leaf} {found : Option LeafFetch}
    (h : leafFetch? row outputs leaf = .ok found) : missingColumns leaf.relation outputs = [] ∨
      (∃ d ∈ row, isDocIdOf leaf.relation d = true) ∧ leaf.collect.isSome = true := by
  unfold leafFetch? at h
  split at h
  · exact .inl ‹_›
  · split at h
    · cases h
    · rename_i i hi
      obtain ⟨hlt, hdocId, -⟩ := List.findIdx?_eq_some_iff_getElem.1 hi
      split at h
      · cases h
      · rename_i collect nodes hcollect
        exact .inr ⟨⟨row[i], List.getElem_mem hlt, hdocId⟩, by rw [hcollect]; rfl⟩

/-- An output that is not in the joined row can be read back, if its columns are ones of leaves. -/
theorem exists_docId (h : projections session select split row leaves = .ok all) {e : Expr}
    (he : e ∈ select.outputs) {r : ColumnRef} (hr : r ∈ (e.resolve row).references) {leaf : Leaf}
    (hleaf : leaf ∈ leaves) (hrelation : leaf.relation = r.relation) :
    (∃ d ∈ row, isDocIdOf leaf.relation d = true) ∧ leaf.collect.isSome = true := by
  obtain ⟨_, _, -, -, ⟨hresolved, -⟩ | ⟨-, f, hf, -⟩⟩ := projections_shape h
  · rw [hresolved e he] at hr
    cases hr
  have hmem : r ∈ (select.outputs.map (Expr.resolve row)).flatMap Expr.references :=
    List.mem_flatMap.2 ⟨_, List.mem_map_of_mem he, hr⟩
  obtain ⟨c, hc, -⟩ := exists_mem_missingColumns hmem hrelation.symm
  obtain ⟨found, hfound, -⟩ := Except.bind_eq_ok.1 hf
  have hspec := Except.mapM_eq_ok.1 hfound
  obtain ⟨i, hi, rfl⟩ := List.mem_iff_getElem.1 hleaf
  exact (leafFetch?_eq_ok (hspec.get hi (hspec.length_eq ▸ hi))).resolve_left
    (List.ne_nil_of_mem hc)

end ResultRow

namespace CrossJoin

open Planning Statement

variable {planner : RelationPlanner} {s : Statement} {before between after : Session}
  {split : Split} {plans : List (RelationName × Plan)}

/-- The sources are joined under their names. -/
theorem ReadyToJoin.exists_leaf_iff (h : ReadyToJoin planner s before split plans between)
    {relation : RelationName} :
    (∃ leaf ∈ (s.sourceOrder.filterMap (plans[·]?)).map fun (relation, plan) =>
        Leaf.ofPlan relation plan, leaf.relation = relation) ↔ ∃ x ∈ s.sources, x.1 = relation := by
  constructor
  · rintro ⟨leaf, hleaf, rfl⟩
    obtain ⟨z, hz, rfl⟩ := List.mem_map.1 hleaf
    obtain ⟨i, -, hi⟩ := List.mem_filterMap.1 hz
    obtain ⟨x, hx, hname, -⟩ := exists_getElem?_of_forall₂ h.plansOf hi
    refine ⟨x.1, List.mem_of_getElem? (List.getElem?_zip_eq_some.1 hx).1, ?_⟩
    exact hname.trans (relation_ofPlan z.1 z.2).symm
  · rintro ⟨x, hx, rfl⟩
    exact h.exists_leaf x hx

/-- What the joined row of planned sources lacks, and what cannot be read back. -/
inductive Lacks (s : Statement) (plans : List (RelationName × Plan)) : Prop
  /-- The predicate uses a column that no plan collects. -/
  | condition {e : Expr} (he : e ∈ s.remainingQuery)
    (h : (e.resolve (rowOf (inJoinOrder s plans))).references ≠ [])
  /-- The order by uses a column that no plan collects. -/
  | key {o : OrderBy} (ho : o ∈ s.remainingOrderBy) {e : Expr} (he : e ∈ o.keys)
    (h : (e.resolve (rowOf (inJoinOrder s plans))).references ≠ [])
  /-- An output uses a column of a source whose row ids are not collected. -/
  | rowIds {e : Expr} (he : e ∈ s.select.outputs) {r : ColumnRef}
    (hr : r ∈ (e.resolve (rowOf (inJoinOrder s plans))).references)
    {z : RelationName × Plan} (hz : z ∈ plans) (hrelation : z.1 = r.relation)
    (h : ∀ d ∈ rowOf (inJoinOrder s plans), ResultRow.isDocIdOf z.1 d = false)
  /-- An output uses a column of a source that is no scan. -/
  | scan {e : Expr} (he : e ∈ s.select.outputs) {r : ColumnRef}
    (hr : r ∈ (e.resolve (rowOf (inJoinOrder s plans))).references)
    {z : RelationName × Plan} (hz : z ∈ plans) (hrelation : z.1 = r.relation)
    (h : ∀ scan, z.2 ≠ .scan scan)

/-- Plans that lack a column are not joined. -/
theorem ReadyToJoin.not_gives_join (h : ReadyToJoin planner s before split plans between)
    (hlacks : Lacks s plans) {p : Plan} : ¬Gives (join s.select split plans) between p after := by
  intro hjoin
  have hsplit := Statement.split_spec h.splits
  obtain ⟨_, _, _, _, projections, -, -, hprojections, -⟩ := h.exists_projections hjoin
  obtain ⟨filters, order, hfilters, horder, -⟩ := ResultRow.projections_shape hprojections
  rw [hsplit.remainingQuery] at hfilters
  rw [hsplit.remainingOrderBy] at horder
  -- the leaf of a source has its name
  have hleaf : ∀ z ∈ plans, Leaf.ofPlan z.1 z.2 ∈ (s.sourceOrder.filterMap (plans[·]?)).map
      fun (relation, plan) => Leaf.ofPlan relation plan := by
    intro z hz
    obtain ⟨i, hi⟩ := List.mem_iff_getElem?.1 hz
    exact List.mem_map_of_mem (f := fun (relation, plan) => Leaf.ofPlan relation plan)
      (h.mem_joined hi)
  cases hlacks with
  | condition he hreferences => exact hreferences ((ResultRow.filters_eq_ok hfilters).2 _ he)
  | key ho he hreferences => exact hreferences ((ResultRow.orderBy_eq_ok horder).2 _ ho _ he)
  | @rowIds e he r hr z hz hrelation hnone =>
    obtain ⟨⟨d, hd, hdocId⟩, -⟩ := ResultRow.exists_docId hprojections he hr (hleaf z hz)
      ((relation_ofPlan z.1 z.2).trans hrelation)
    rw [relation_ofPlan, hnone d hd] at hdocId
    cases hdocId
  | @scan e he r hr z hz hrelation hscan =>
    obtain ⟨-, hcollect⟩ := ResultRow.exists_docId hprojections he hr (hleaf z hz)
      ((relation_ofPlan z.1 z.2).trans hrelation)
    cases hz2 : z.2 with
    | scan s => exact hscan s hz2
    | _ =>
      rw [hz2] at hcollect
      cases hcollect

/-- A planned join fetches exactly if some output is not in the joined row. -/
theorem ReadyToJoin.exists_fetch_iff (h : ReadyToJoin planner s before split plans between)
    {left right : Plan} {leftOuter : Bool} {merge : MergeStage}
    (hjoin : Gives (join s.select split plans) between (.nestedLoop left right leftOuter merge)
      after) : (∃ f, Projection.fetch f ∈ merge.projections) ↔
        ∃ e ∈ s.select.outputs, (e.resolve (rowOf (inJoinOrder s plans))).references ≠ [] := by
  obtain ⟨_, _, _, _, projections, hp, -, hprojections, hmerge⟩ := h.exists_projections hjoin
  cases hp
  obtain ⟨filters, order, hfilters, -, hrest⟩ := ResultRow.projections_shape hprojections
  obtain ⟨rfl, -⟩ := ResultRow.filters_eq_ok hfilters
  rcases hrest with ⟨hresolved, rfl⟩ | ⟨hleft, f, -, rfl⟩
  · refine iff_of_false (by simp [hmerge]) ?_
    rintro ⟨e, he, hne⟩
    exact hne (hresolved e he)
  · refine iff_of_true ⟨f, by simp [hmerge]⟩ ?_
    push Not at hleft
    exact hleft

/-- Plans that lack a column are refused. -/
theorem ReadyToJoin.fails_of_lacks (h : ReadyToJoin planner s before split plans between)
    (hlacks : Lacks s plans) :
    ∃ cause after, Fails (plan planner s) before (.planning cause) after := by
  cases hjoin : outcome (join s.select split plans) between with
  | mk result after =>
    cases result with
    | ok p => exact absurd hjoin (h.not_gives_join hlacks)
    | error fault =>
      obtain ⟨cause, rfl, -⟩ := h.fails_join_cases hjoin
      exact ⟨cause, after, h.fails_plan hjoin⟩

/-! ### What a planned join uses -/

/-- Which columns a planned join uses, and which statements are refused for theirs, wherever
planning starts. -/
structure ColumnsSupplied (planner : RelationPlanner) (s : Statement) (before : Session) :
    Prop where
  /-- Filters, sort keys and the outputs of a top-n refer to no columns. -/
  resolved : ∀ {left right leftOuter merge after},
    Gives (plan planner s) before (.planned (.nestedLoop left right leftOuter merge)) after →
    ∀ projection ∈ merge.projections, ∀ e ∈ projection.evaluated, e.references = []
  /-- A fetch emits the outputs of the statement, resolved in the joined row, and finds there the
  row ids that it asks for.  A column that is left in its outputs is supplied exactly if the
  relation of the column is the name of a source. -/
  fetched : ∀ {left right leftOuter merge after},
    Gives (plan planner s) before (.planned (.nestedLoop left right leftOuter merge)) after →
    ∀ f, .fetch f ∈ merge.projections →
      ∃ row, (Plan.nestedLoop left right leftOuter merge).outputs? = some row ∧
        f.outputs = s.select.outputs.map (Expr.resolve row) ∧ f.FindsIds row ∧
        ∀ e ∈ f.outputs, ∀ r ∈ e.references,
          f.Supplies r ↔ ∃ x ∈ s.sources, x.1 = r.relation
  /-- Once all sources are planned, a statement that uses a column of theirs which they neither
  collect nor can read back is refused. -/
  refused : ∀ {split plans between}, ReadyToJoin planner s before split plans between →
    Lacks s plans → ∃ cause after, Fails (plan planner s) before (.planning cause) after

theorem columnsSupplied_plan (planner : RelationPlanner) (s : Statement) (before : Session) :
    ColumnsSupplied planner s before where
  resolved h := by
    cases plannedBy_of_gives h with
    | @joined _ _ split plans σ σ' hready hjoin _ =>
      obtain ⟨_, _, _, _, projections, hp, -, hprojections, hmerge⟩ :=
        hready.exists_projections hjoin
      cases hp
      rw [hmerge, List.forall_mem_cons]
      exact ⟨fun e he => Projection.references_passThrough he,
        ResultRow.references_evaluated hprojections⟩
  fetched h f hf := by
    obtain ⟨-, houtputs, -⟩ := joins_of_gives h
    cases plannedBy_of_gives h with
    | @joined _ _ split plans σ σ' hready hjoin _ =>
      rw [rowOf_routed (hready.joinTree hjoin).leaves] at houtputs
      obtain ⟨_, _, _, _, projections, hp, -, hprojections, hmerge⟩ :=
        hready.exists_projections hjoin
      cases hp
      have hfetch : ResultRow.fetch σ (rowOf (inJoinOrder s plans))
          (s.select.outputs.map (Expr.resolve (rowOf (inJoinOrder s plans))))
          ((s.sourceOrder.filterMap (plans[·]?)).map fun (relation, plan) =>
            Leaf.ofPlan relation plan) split.limit = .ok f := by
        obtain ⟨filters, order, hfilters, -, hrest⟩ := ResultRow.projections_shape hprojections
        obtain ⟨rfl, -⟩ := ResultRow.filters_eq_ok hfilters
        rcases hrest with ⟨-, rfl⟩ | ⟨-, f', hf', rfl⟩
        · simp [hmerge] at hf
        · obtain rfl : f = f' := by simpa [hmerge] using hf
          exact hf'
      obtain ⟨entries, hgathers⟩ := ResultRow.exists_gathers hfetch
      exact ⟨_, houtputs, hgathers.outputs, hgathers.findsIds, fun e he r hr =>
        (hgathers.supplies_iff he hr).trans hready.exists_leaf_iff⟩
  refused hready hlacks := hready.fails_of_lacks hlacks

/-! ### Scans that leave columns to be read back -/

/-- The pairs of numbers in any order. -/
def unsortedPairs : Statement := { pairs with select := .ofOutputs pairs.select.outputs }

/-- A scan that collects row ids, or nothing, and leaves the outputs to be read back. -/
def lateScan (docId : Bool) : ScanOptions := ⟨true, false, docId, true, false, none⟩

/-- The numbers are read back by the row ids; without these the statement is refused. -/
theorem columnsSupplied_unsortedPairs :
    (∃ left right leftOuter merge after f,
      Gives (plan (Strategy.planTable (.scan (lateScan true))) unsortedPairs)
        (.start oneNode ⟨10000, 10000⟩ 1) (.planned (.nestedLoop left right leftOuter merge)) after ∧
      .fetch f ∈ merge.projections ∧ f.outputs = pairs.select.outputs ∧
      ∀ e ∈ f.outputs, ∀ r ∈ e.references, f.Supplies r) ∧
    ∃ cause after, Fails (plan (Strategy.planTable (.scan (lateScan false))) unsortedPairs)
      (.start oneNode ⟨10000, 10000⟩ 1) (.planning cause) after := by
  constructor
  · have hgives : ∃ left right leftOuter merge after f,
        Gives (plan (Strategy.planTable (.scan (lateScan true))) unsortedPairs)
          (.start oneNode ⟨10000, 10000⟩ 1)
          (.planned (.nestedLoop left right leftOuter merge)) after ∧
        .fetch f ∈ merge.projections ∧ f.outputs = pairs.select.outputs := by
      have hready : ReadyToJoin (Strategy.planTable (.scan (lateScan true))) unsortedPairs
          (.start oneNode ⟨10000, 10000⟩ 1) _ _ _ :=
        ⟨Nat.le_refl 2, rfl, rfl, rfl, ⟨_, rfl, rfl⟩, rfl⟩
      exact ⟨_, _, _, _, _, _, hready.gives_plan_of_steps joinOrder_unsorted rfl rfl rfl,
        List.mem_of_getElem? (i := 2) rfl, rfl⟩
    obtain ⟨left, right, leftOuter, merge, after, f, h, hf, houtputs⟩ := hgives
    obtain ⟨row, -, -, -, hsupplies⟩ := (columnsSupplied_plan _ _ _).fetched h f hf
    refine ⟨left, right, leftOuter, merge, after, f, h, hf, houtputs, fun e he r hr => ?_⟩
    refine (hsupplies e he r hr).2 ?_
    have hsources : ∀ e ∈ pairs.select.outputs, ∀ r ∈ e.references,
        ∃ x ∈ unsortedPairs.sources, x.1 = r.relation := by decide
    exact hsources e (houtputs ▸ he) r hr
  · have hready : ∃ split plans between,
        ReadyToJoin (Strategy.planTable (.scan (lateScan false))) unsortedPairs
          (.start oneNode ⟨10000, 10000⟩ 1) split plans between ∧
        (∃ z ∈ plans, z.1 = "t") ∧ rowOf (inJoinOrder unsortedPairs plans) = [] := by
      refine ⟨_, _, _, ⟨Nat.le_refl 2, rfl, rfl, rfl, ⟨_, rfl, rfl⟩, rfl⟩,
        ⟨_, List.mem_cons_self, rfl⟩, ?_⟩
      rw [inJoinOrder, show unsortedPairs.sourceOrder = [0, 1] from joinOrder_unsorted]
      rfl
    obtain ⟨split, plans, between, hready, ⟨z, hz, hname⟩, hrow⟩ := hready
    -- the joined row is empty, so there is no row id to read the first output back by
    obtain ⟨e, he, r, hr, hrelation⟩ : ∃ e ∈ unsortedPairs.select.outputs,
        ∃ r ∈ (e.resolve []).references, r.relation = "t" := by decide
    rw [← hrow] at hr
    refine (columnsSupplied_plan _ _ _).refused hready
      (.rowIds he hr hz (hname.trans hrelation.symm) ?_)
    rw [hrow]
    exact fun _ hd => absurd hd List.not_mem_nil

/-! ### Columns of relations that are no sources -/

/-- A table that has been scanned for one of its columns, joined with another one under a name of
its own.  The first output is a column of the table that was not collected. -/
def beneath : Statement where
  sources := [
    ("j", .planned (.scan {
      collect := {
        id := 2
        name := "collect"
        table := ⟨"doc", "t"⟩
        routing := ⟨.empty⟩
        outputs := (columnTable "t" "a").allColumns
        whereClause := .matchAll
        limit := none
        orderBy := none
        downstream := .handler "node" }
      merge := none
      fetch := none })),
    ("w", .table (columnTable "w" "c"))]
  select := .ofOutputs ((columnTable "t" "b").allColumns ++ (columnTable "w" "c").allColumns)

/-- The statement is planned, with a fetch that reads nothing and emits that column. -/
theorem not_supplies_beneath : ∃ left right leftOuter merge after f,
    Gives (plan (Strategy.planTable (.scan plainScan)) beneath) (.start oneNode ⟨10000, 10000⟩ 1)
      (.planned (.nestedLoop left right leftOuter merge)) after ∧
    .fetch f ∈ merge.projections ∧
    f.docIdColumns = [] ∧ f.fetchColumns = [] ∧ f.partitionColumns = [] ∧
    ∃ e ∈ f.outputs, ∃ r ∈ e.references, ¬f.Supplies r := by
  have hready : ReadyToJoin (Strategy.planTable (.scan plainScan)) beneath
      (.start oneNode ⟨10000, 10000⟩ 1) _ _ _ :=
    ⟨Nat.le_refl 2, rfl, rfl, rfl, ⟨_, rfl, rfl⟩, rfl⟩
  refine ⟨_, _, _, _, _, _, hready.gives_plan_of_steps joinOrder_unsorted rfl rfl rfl,
    List.mem_of_getElem? (i := 2) rfl, rfl, rfl, rfl,
    _, List.mem_cons_self, _, List.mem_singleton_self _, fun h => absurd h.1 ?_⟩
  decide

end CrossJoin

end ShardJoin
