/-
The join outputs of the tables are enough for the join.

What is evaluated on the joined row before it is cut is the remaining query and
the remaining keys.  Every table is asked for the parts of these that it alone
supplies, so a planner that collects what is asked for leaves nothing of them
unresolved, whatever else it collects or leaves to be read back.

* `CrossJoin.refusedBy_of_fails` — the ways in which a statement is refused;
* `Statement.ReadsNamedTables` — statements whose expressions are over base tables
  with different names;
* `CrossJoin.CollectsJoinOutputs` — planners whose plans emit the join outputs;
* `CrossJoin.joinOutputs_suffice` — such a statement is never refused by the join
  because a column was not collected.
-/
import ShardJoin.Proofs.Planning.KeyGroups
import ShardJoin.Proofs.Planning.Supply

namespace ShardJoin

/-! ### How planning is refused -/

namespace CrossJoin

open Planning

variable {planner : RelationPlanner} {s : Statement} {before between after : Session}
  {split : Split} {plans : List (RelationName × Plan)} {fault : Fault}

theorem fails_check (h : Fails (check s) before fault after) :
    ∃ cause, validate s = .error cause ∧ fault = .statement cause := by
  unfold check at h
  split at h
  · exact absurd h not_fails_pure
  · obtain ⟨rfl, -⟩ := fails_throw.1 h
    exact ⟨_, ‹_›, rfl⟩

/-- Planning a source fails where the relation planner does. -/
theorem fails_planSource {source : Source} {share : Option TableQuery}
    (h : Fails (planSource planner source share) before fault after) :
    ∃ q, share = some q ∧ Fails (planner q) before fault after := by
  unfold planSource at h
  split at h
  · exact absurd h not_fails_pure
  · rename_i query _
    rcases fails_bind.1 h with h | ⟨made, σ, -, h⟩
    · exact ⟨query, rfl, h⟩
    · split at h <;> exact absurd h not_fails_pure
  · exact absurd h not_fails_pure

theorem fails_planSources {sources : List (RelationName × Source)}
    {shares : List (Option TableQuery)}
    (h : Fails (planSources planner sources shares) before fault after) :
    ∃ q σ σ', some q ∈ shares ∧ Fails (planner q) σ fault σ' := by
  induction sources generalizing shares before with
  | nil => exact absurd h not_fails_pure
  | cons x rest ih =>
    cases shares with
    | nil => exact absurd h not_fails_pure
    | cons share shares =>
      rw [planSources] at h
      rcases fails_bind.1 h with h | ⟨planned, σ, -, h⟩
      · obtain ⟨q, rfl, hfails⟩ := fails_planSource h
        exact ⟨q, _, _, List.mem_cons_self, hfails⟩
      rcases fails_bind.1 h with h | ⟨others, σ', -, h⟩
      · obtain ⟨q, τ, τ', hq, h⟩ := ih h
        exact ⟨q, τ, τ', List.mem_cons_of_mem _ hq, h⟩
      · exact absurd h not_fails_pure

theorem not_fails_deferred : ¬Fails deferred before fault after := by
  intro h
  rcases fails_bind.1 h with h | ⟨_, _, -, h⟩
  · cases h
  · exact not_fails_pure h

/-- The ways in which a statement is refused. -/
inductive RefusedBy (planner : RelationPlanner) (s : Statement) (before : Session)
    (fault : Fault) : Prop
  /-- A cross join does not support the statement. -/
  | unsupported {cause : StatementFault} (hfault : fault = .statement cause)
    (h : validate s = .error cause)
  /-- The statement cannot be taken apart. -/
  | split {cause : PlanFault} (hfault : fault = .planning cause)
    (h : s.split before.settings = .error cause)
  /-- The relation planner refuses a table. -/
  | table {split : Split} {q : TableQuery} {σ σ' : Session}
    (hsplit : s.split before.settings = .ok split) (hq : some q ∈ split.shares)
    (h : Fails (planner q) σ fault σ')
  /-- The plans of the sources are not joined. -/
  | join {split : Split} {plans : List (RelationName × Plan)} {between after : Session}
    (hready : ReadyToJoin planner s before split plans between)
    (h : Fails (join s.select split plans) between fault after)

theorem refusedBy_of_fails (h : Fails (plan planner s) before fault after) :
    RefusedBy planner s before fault := by
  unfold plan at h
  split at h
  · exact absurd (show Fails deferred before fault after from h) not_fails_deferred
  rename_i hlength
  rcases fails_bind.1 h with h | ⟨_, σ, hcheck, h⟩
  · obtain ⟨cause, hinvalid, hfault⟩ := fails_check h
    exact .unsupported hfault hinvalid
  obtain ⟨hvalid, rfl⟩ := gives_check.1 hcheck
  split at h
  · exact absurd h not_fails_built
  rename_i hpossible
  rcases fails_bind.1 h with h | ⟨session, σ, hget, h⟩
  · exact absurd h not_fails_get
  obtain ⟨rfl, rfl⟩ := gives_get.1 hget
  rcases fails_bind.1 h with h | ⟨split, σ, hsplit, h⟩
  · obtain ⟨⟨cause, hcause, hfault⟩, -⟩ := fails_ofExcept.1 h
    exact .split hfault.symm hcause
  obtain ⟨hok, rfl⟩ := gives_ofExcept.1 hsplit
  rcases fails_bind.1 h with h | ⟨planned, σ, hplanned, h⟩
  · obtain ⟨q, σ, σ', hq, h⟩ := fails_planSources h
    exact .table hok hq h
  split at h
  · exact absurd h not_fails_deferred
  rename_i plans hplans
  split at h
  · exact absurd h not_fails_built
  rename_i hnonempty
  rcases fails_bind.1 h with h | ⟨_, _, -, h⟩
  · exact .join ⟨Nat.le_of_not_lt hlength, hvalid, Bool.eq_false_iff.2 hpossible, hok,
      ⟨planned, hplanned, hplans⟩, Bool.eq_false_iff.2 hnonempty⟩ h
  · exact absurd h not_fails_built

end CrossJoin

/-! ### Refusals that have nothing to do with collecting -/

/-- A cause other than a column that is needed on the joined row and was not collected. -/
def PlanFault.Unrelated (cause : PlanFault) : Prop :=
  ∀ use relation column, cause ≠ .notCollected use relation column

namespace ResultRow

variable {row : List Expr}

theorem filters_failsOnly_of_resolved {P : PlanFault → Prop} {query : Option Expr}
    (h : ∀ e ∈ query, (e.resolve row).references = []) :
    Except.FailsOnly P (filters row query) := by
  cases query with
  | none => exact Except.failsOnly_ok _
  | some query =>
    rw [filters, resolveOn_eq_ok.2 ⟨rfl, h query rfl⟩]
    exact Except.failsOnly_ok _

theorem orderBy_failsOnly_of_resolved {P : PlanFault → Prop} {order : Option OrderBy}
    (h : ∀ o ∈ order, ∀ key ∈ o.keys, (key.resolve row).references = []) :
    Except.FailsOnly P (orderBy row order) := by
  cases order with
  | none => exact Except.failsOnly_ok _
  | some o =>
    refine Except.failsOnly_bind (Except.failsOnly_mapM fun key hkey => ?_)
      fun _ _ => Except.failsOnly_ok _
    rw [resolveOn_eq_ok.2 ⟨rfl, h o rfl key hkey⟩]
    exact Except.failsOnly_ok _

theorem leafFetch?_unrelated (outputs : List Expr) (leaf : Leaf) :
    Except.FailsOnly PlanFault.Unrelated (leafFetch? row outputs leaf) := by
  unfold leafFetch?
  split
  · exact Except.failsOnly_ok _
  · split
    · exact Except.failsOnly_error nofun
    · split
      · exact Except.failsOnly_error nofun
      · exact Except.failsOnly_ok _

/-- If predicate and keys are found in the joined row, no column is missed there. -/
theorem projections_unrelated {split : Split}
    (hquery : ∀ query ∈ split.remainingQuery, (query.resolve row).references = [])
    (hkeys : ∀ o ∈ split.remainingOrderBy, ∀ key ∈ o.keys, (key.resolve row).references = [])
    (session : Session) (select : Select) (leaves : List Leaf) :
    Except.FailsOnly PlanFault.Unrelated (projections session select split row leaves) := by
  unfold projections
  refine Except.failsOnly_bind (filters_failsOnly_of_resolved hquery) fun _ _ => ?_
  refine Except.failsOnly_bind (orderBy_failsOnly_of_resolved hkeys) fun _ _ => ?_
  dsimp only
  split
  · exact Except.failsOnly_ok _
  · refine Except.failsOnly_bind ?_ fun _ _ => Except.failsOnly_ok _
    exact Except.failsOnly_bind (Except.failsOnly_mapM fun _ _ => leafFetch?_unrelated _ _)
      fun _ _ => Except.failsOnly_ok _

end ResultRow

theorem MergeStage.validate_unrelated (merge : MergeStage) :
    Except.FailsOnly PlanFault.Unrelated merge.validate := by
  unfold validate
  split
  · exact Except.failsOnly_ok _
  · exact Except.failsOnly_error nofun

namespace CrossJoin

open Planning Statement

variable {split : Split}

/-- If predicate and keys are found in the joined row, the projections are not refused for a column
that was not collected. -/
theorem finish_unrelated {session : Session} {select : Select} {row : List Expr}
    (hquery : ∀ query ∈ split.remainingQuery, (query.resolve row).references = [])
    (hkeys : ∀ o ∈ split.remainingOrderBy, ∀ key ∈ o.keys, (key.resolve row).references = [])
    (leaves : List Leaf) (root : Plan) :
    Except.FailsOnly PlanFault.Unrelated (finish session select split row leaves root) := by
  unfold finish
  split
  · refine Except.failsOnly_bind (ResultRow.projections_unrelated hquery hkeys _ _ _) fun _ _ => ?_
    exact Except.failsOnly_bind (MergeStage.validate_unrelated _) fun _ _ => Except.failsOnly_ok _
  · exact Except.failsOnly_error nofun

theorem joinedRow_unrelated (ordered : List (RelationName × Plan)) :
    Except.FailsOnly PlanFault.Unrelated (joinedRow ordered) := by
  intro cause h
  rcases joinedRow_cases ordered with ⟨-, hok⟩ | ⟨z, -, cause', hunfit, herror⟩
  · rw [hok] at h
    cases h
  · obtain rfl := Except.error.inj (herror.symm.trans h)
    cases hunfit with
    | noOutputs _ => exact nofun
    | reshaped _ _ => exact nofun

end CrossJoin

/-! ### Join outputs -/

namespace Statement

variable {s : Statement}

/-- A statement over sources with different names whose expressions refer to base tables only and
have no NaN. -/
structure ReadsNamedTables (s : Statement) : Prop where
  names : (s.sources.map (·.1)).Nodup
  references : ∀ e ∈ s.exprs, ∀ r ∈ e.references,
    ∃ x ∈ s.sources, x.1 = r.relation ∧ x.2.table?.isSome = true
  numbers : ∀ e ∈ s.exprs, ∀ v ∈ e.literals, v.isNumber = true

theorem ReadsNamedTables.reads (hs : s.ReadsNamedTables) {e : Expr} (he : e ∈ s.exprs) :
    s.Reads e := by
  refine ⟨fun r hr => ?_, hs.numbers e he⟩
  obtain ⟨x, hx, hname, htable⟩ := hs.references e he r hr
  obtain ⟨i, hi⟩ := List.mem_iff_getElem?.1 hx
  refine ⟨i, (List.getElem?_eq_some_iff.1 hi).1, ?_⟩
  rw [tablePosition?, ← hname, position?_getElem hs.names hi, Option.filter_some, tableAt?, hi,
    Option.bind_some, htable, if_pos rfl]

/-- What remains for the joined row is over base tables as well. -/
theorem ReadsNamedTables.reads_joinExprs (hs : s.ReadsNamedTables) :
    ∀ e ∈ s.joinExprs, s.Reads e := by
  refine forall_joinExprs (fun b => ?_) ?_ reads_call fun e he => hs.reads he
  · exact ⟨fun r hr => (by cases hr), fun v hv => by obtain rfl := List.mem_singleton.1 hv; rfl⟩
  · exact ⟨fun r hr => (by cases hr), fun v hv => by obtain rfl := List.mem_singleton.1 hv; rfl⟩

end Statement

namespace CrossJoin

open Planning Statement

variable {planner : RelationPlanner} {s : Statement} {before between : Session} {split : Split}
  {plans : List (RelationName × Plan)}

/-- A planner whose plans, if they say what they emit, emit the join outputs of their table. -/
def CollectsJoinOutputs (planner : RelationPlanner) : Prop :=
  ∀ ⦃q : TableQuery⦄ ⦃σ σ' : Session⦄ ⦃p : Plan⦄, Gives (planner q) σ (some p) σ' →
    ∀ outputs, p.outputs? = some outputs →
      ∀ e ∈ q.joinOutputs, ∃ o ∈ outputs, o = e ∨ (o == e) = true

/-- Scans emit the join outputs, if they are told to, whatever they leave to be read back. -/
theorem collectsJoinOutputs_scan {options : ScanOptions} (hjoin : options.joinOutputs = true) :
    CollectsJoinOutputs (Strategy.planTable (.scan options)) := by
  intro q σ σ' p h outputs houtputs e he
  obtain ⟨made, _, hmade, h⟩ := gives_bind.1 h
  obtain rfl := Option.some.inj (gives_pure.1 h).1
  obtain ⟨collect, merge, phase, -, hcollect, -, -, -, -, hp⟩ := Strategy.gives_scanPlan hmade
  have hscan : made.outputs? = some (Strategy.scanOutputs q options) := by
    rcases hp with rfl | rfl
    · exact congrArg some hcollect
    · exact congrArg some hcollect
  obtain rfl := Option.some.inj (hscan.symm.trans houtputs)
  refine Expr.exists_mem_foldl_pushNew _ ?_
  rw [hjoin]
  exact List.mem_append_left _ he

/-- A table that is to be planned has the plan that the planner made for its share. -/
theorem PlansOf.exists_gives (hplans : PlansOf planner s split plans)
    (hsplit : split.IsOf s before.settings) {i : Nat} (hi : (s.tableAt? i).isSome = true) :
    ∃ q z, s.shareOf before.settings.selectLimit i = .ok (some q) ∧ plans[i]? = some z ∧
      ∃ σ σ', Gives (planner q) σ (some z.2) σ' := by
  obtain ⟨table, htable⟩ := Option.isSome_iff_exists.1 hi
  obtain ⟨q, hat, hshare⟩ := exists_tableQuery hsplit htable
  obtain ⟨x, hx, hsource⟩ := Option.bind_eq_some_iff.1 htable
  have hzip : (s.sources.zip split.shares)[i]? = some (x, some q) :=
    List.getElem?_zip_eq_some.2 ⟨hx, hat⟩
  have hlt : i < plans.length := by
    rw [← hplans.length_eq]
    exact (List.getElem?_eq_some_iff.1 hzip).1
  have hz := List.getElem?_eq_getElem hlt
  obtain ⟨y, hy, -, hplan⟩ := exists_getElem?_of_forall₂ hplans hz
  obtain rfl := Option.some.inj (hzip.symm.trans hy)
  refine ⟨q, _, hshare, hz, ?_⟩
  rcases hplan with hplanned | ⟨q', hq', h⟩
  · -- a table is no plan yet
    obtain ⟨name, source⟩ := x
    cases source with
    | planned p => cases hsource
    | table _ => cases hplanned
    | subQuery _ => cases hplanned
    | queried _ => cases hplanned
  · rwa [Option.some.inj hq']

/-- Every part of what remains that one table supplies stands in the joined row. -/
theorem ReadyToJoin.references_joinExprs (h : ReadyToJoin planner s before split plans between)
    (hs : s.ReadsNamedTables) (hplanner : CollectsJoinOutputs planner) {row : List Expr}
    (hrow : joinedRow ((joinOrder split.firstKeys).filterMap (plans[·]?)) = .ok row) {e : Expr}
    (he : e ∈ s.joinExprs) : (e.resolve row).references = [] := by
  rw [h.joinOrder_eq] at hrow
  refine Expr.references_resolve fun p hp => ?_
  obtain ⟨hself, i, -, hi⟩ := (hs.reads_joinExprs e he).part hp
  obtain ⟨q, z, hshare, hz, σ, σ', hgives⟩ :=
    h.plansOf.exists_gives (split_spec h.splits) (Option.filter_eq_some_iff.1 hi).2
  -- the part is asked of its table, and the plan of the table emits it
  obtain ⟨m, hm, hpart⟩ := mem_partsOf_of_part he hp hi hself
  rw [← (shareOf_eq_ok hshare).2.2.2.2] at hm
  have hmem := h.mem_joined hz
  obtain ⟨houtputs, rfl⟩ := joinedRow_eq_ok hrow
  obtain ⟨outputs, houtputs⟩ := houtputs z hmem
  obtain ⟨o, ho, hsame⟩ := hplanner hgives outputs houtputs m hm
  refine ⟨o, List.mem_flatMap.2 ⟨z, hmem, by rwa [houtputs]⟩, ?_⟩
  rcases hsame with rfl | hsame
  · exact hpart
  · exact Expr.beq_trans hsame hpart

/-- With a planner that collects the join outputs, a statement over base tables is not refused
because the predicate or a key uses a column that was not collected, unless the planner itself says
so of a table; what remains of predicate and order by is resolved in the joined row, no column
left. -/
theorem joinOutputs_suffice (hs : s.ReadsNamedTables) (hplanner : CollectsJoinOutputs planner)
    (before : Session) :
    (∀ use relation column after,
      Fails (plan planner s) before (.planning (.notCollected use relation column)) after →
      ∃ split q σ σ', s.split before.settings = .ok split ∧ some q ∈ split.shares ∧
        Fails (planner q) σ (.planning (.notCollected use relation column)) σ') ∧
    ∀ split plans between row, ReadyToJoin planner s before split plans between →
      joinedRow ((joinOrder split.firstKeys).filterMap (plans[·]?)) = .ok row →
      (∀ query, split.remainingQuery = some query → (query.resolve row).references = []) ∧
      ∀ o, split.remainingOrderBy = some o → ∀ key ∈ o.keys, (key.resolve row).references = [] := by
  have hresolved : ∀ split plans between row, ReadyToJoin planner s before split plans between →
      joinedRow ((joinOrder split.firstKeys).filterMap (plans[·]?)) = .ok row →
      (∀ query, split.remainingQuery = some query → (query.resolve row).references = []) ∧
      ∀ o, split.remainingOrderBy = some o → ∀ key ∈ o.keys,
        (key.resolve row).references = [] := by
    intro split plans between row hready hrow
    have hsplit := split_spec hready.splits
    rw [hsplit.remainingQuery, hsplit.remainingOrderBy]
    refine ⟨fun query hquery => ?_, fun o ho key hkey => ?_⟩
    · refine hready.references_joinExprs hs hplanner hrow (List.mem_append_right _ ?_)
      exact Option.mem_toList.2 hquery
    · refine hready.references_joinExprs hs hplanner hrow (List.mem_append_left _ ?_)
      rwa [ho]
  refine ⟨fun use relation column after hfails => ?_, hresolved⟩
  cases refusedBy_of_fails hfails with
  | unsupported hfault _ => cases hfault
  | split hfault h =>
    obtain rfl := Fault.planning.inj hfault
    rcases split_cases s before.settings with ⟨x, -, -, h'⟩ | ⟨o, -, -, h'⟩ | ⟨split, hok⟩
    · cases h.symm.trans h'
    · cases h.symm.trans h'
    · cases h.symm.trans hok
  | table hsplit hq h => exact ⟨_, _, _, _, hsplit, hq, h⟩
  | @join split plans between after hready h =>
    obtain ⟨cause, hfault, hcause | ⟨row, _, _, _, _, hrow, -, hcause⟩⟩ :=
      hready.fails_join_cases h
    · obtain rfl := Fault.planning.inj hfault
      exact absurd rfl (joinedRow_unrelated _ _ hcause use relation column)
    · obtain rfl := Fault.planning.inj hfault
      rw [← hready.joinOrder_eq] at hrow
      obtain ⟨hquery, hkeys⟩ := hresolved split plans between row hready hrow
      exact absurd rfl (finish_unrelated hquery hkeys _ _ _ hcause use relation column)

/-! ### A statement that leaves columns to be read back -/

/-- A table that is partitioned by one of its columns. -/
def partitionedTable : TableRelation :=
  ⟨"t", ⟨⟨"doc", "t"⟩, [⟨"a", .int64⟩, ⟨"c", .int64⟩, ⟨"d", .int64⟩], ["d"], []⟩⟩

/-- All columns of the two tables, those of the first one twice, where one number is less than the
other, sorted by the numbers in turn. -/
def twiceListed : Statement :=
  let numbers := (columnTable "t" "a").allColumns ++ (columnTable "u" "b").allColumns
  .ofTables [partitionedTable, columnTable "u" "b"]
    { Select.ofOutputs (partitionedTable.allColumns ++ (columnTable "u" "b").allColumns ++
        partitionedTable.allColumns) with
      whereClause := .ofQuery (.apply (.comparison .lt) numbers)
      orderBy := some (.asc (numbers ++ (columnTable "t" "a").allColumns)) }

theorem readsNamedTables_twiceListed : twiceListed.ReadsNamedTables where
  names := by decide
  references := by decide
  numbers := by decide

/-- The scans collect the numbers, which is enough for predicate and order by. -/
theorem joinOutputs_suffice_twiceListed :
    twiceListed.ReadsNamedTables ∧
    CollectsJoinOutputs (Strategy.planTable (.scan (lateScan true))) ∧
    ∃ split plans between row query o,
      ReadyToJoin (Strategy.planTable (.scan (lateScan true))) twiceListed
        (.start oneNode ⟨10000, 10000⟩ 1) split plans between ∧
      joinedRow ((joinOrder split.firstKeys).filterMap (plans[·]?)) = .ok row ∧
      split.remainingQuery = some query ∧ split.remainingOrderBy = some o ∧ o.keys.length = 3 ∧
      (query.resolve row).references = [] ∧ ∀ key ∈ o.keys, (key.resolve row).references = [] := by
  have hs := readsNamedTables_twiceListed
  have hplanner : CollectsJoinOutputs (Strategy.planTable (.scan (lateScan true))) :=
    collectsJoinOutputs_scan rfl
  have hready : ∃ split plans between query o,
      ReadyToJoin (Strategy.planTable (.scan (lateScan true))) twiceListed
        (.start oneNode ⟨10000, 10000⟩ 1) split plans between ∧
      (∃ row, joinedRow (List.filterMap (plans[·]?) [0, 1]) = .ok row) ∧
      split.firstKeys = [some 0, some 1] ∧
      split.remainingQuery = some query ∧ split.remainingOrderBy = some o ∧ o.keys.length = 3 :=
    ⟨_, _, _, _, _, ⟨Nat.le_refl 2, rfl, rfl, rfl, ⟨_, rfl, rfl⟩, rfl⟩,
      ⟨_, rfl⟩, rfl, rfl, rfl, rfl⟩
  obtain ⟨split, plans, between, query, o, hready, ⟨row, hrow⟩, hfirst, hquery, ho, hlength⟩ :=
    hready
  rw [← joinOrder_pairs, ← hfirst] at hrow
  obtain ⟨hcondition, hkeys⟩ :=
    (joinOutputs_suffice hs hplanner _).2 split plans between row hready hrow
  exact ⟨hs, hplanner, split, plans, between, row, query, o, hready, hrow, hquery, ho, hlength,
    hcondition query hquery, hkeys o ho⟩

end CrossJoin

end ShardJoin
