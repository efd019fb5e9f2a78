/-
Planners that collect everything that is asked of a table.

If every table of a statement is collected in full, the parts of the outputs
and of what remains that one table supplies stand in the joined row, where
they are found by comparing expressions.  So nothing has to be read back, and
nothing is missing, unless a part contains a NaN: it is collected like any
other, but it differs from itself and is not found again.

* `Statement.NamesTables` — statements whose expressions are over base tables;
* `CrossJoin.EmitsAsked` — planners that emit exactly what is asked of a table;
* `CrossJoin.exists_nan_of_mem_references` — what is left unresolved in the
  joined row stands next to a NaN;
* `CrossJoin.plan_collecting` — how planning ends with such a planner;
* `CrossJoin.refused_nanSums` — a statement that is refused for a NaN.
-/
import ShardJoin.Proofs.Planning.Supply

namespace ShardJoin

namespace Statement

variable {s : Statement}

/-- A statement over base tables whose expressions refer to them only and read no positions. -/
structure NamesTables (s : Statement) : Prop where
  tables : ∀ x ∈ s.sources, x.2.table?.isSome = true
  references : ∀ e ∈ s.exprs, ∀ r ∈ e.references, r.relation ∈ s.sources.map (·.1)
  inputs : ∀ e ∈ s.exprs, e.inputs = []

/-- A part of what is evaluated on the joined row, or emitted, is supplied by a table. -/
theorem NamesTables.exists_table (hs : s.NamesTables) {e : Expr}
    (he : e ∈ s.select.outputs ++ s.joinExprs) {p : RelationName × Expr} (hp : p ∈ e.parts) :
    ∃ i < s.sources.length, s.tablePosition? p.1 = some i := by
  have hcall : ∀ fn args, (∀ r ∈ (Expr.call fn args).references, r.relation ∈ s.sources.map (·.1)) ↔
      ∀ a ∈ args, ∀ r ∈ a.references, r.relation ∈ s.sources.map (·.1) := by
    intro fn args
    rw [Expr.references, Expr.referencesAll_eq]
    simp only [List.mem_flatMap]
    constructor
    · intro h a ha r hr
      exact h r ⟨a, ha, hr⟩
    · rintro h r ⟨a, ha, hr⟩
      exact h a ha r hr
  have hreferences : ∀ r ∈ e.references, r.relation ∈ s.sources.map (·.1) := by
    rcases List.mem_append.1 he with he | he
    · exact hs.references e (by simp [exprs, he])
    · exact forall_joinExprs (P := fun e => ∀ r ∈ e.references, r.relation ∈ s.sources.map (·.1))
        (fun _ _ hr => absurd hr List.not_mem_nil) (fun _ hr => absurd hr List.not_mem_nil)
        hcall hs.references e he
  -- the part has a reference, and all its references are to the table
  obtain ⟨hsole, hpart⟩ := Expr.mem_parts
    (P := fun e => ∀ r ∈ e.references, r.relation ∈ s.sources.map (·.1))
    (fun fn args => (hcall fn args).1) hreferences hp
  obtain ⟨hne, hall⟩ := Expr.soleRelation?_eq_some.1 hsole
  obtain ⟨r, hr⟩ := List.exists_mem_of_ne_nil _ hne
  obtain ⟨i, hi⟩ := exists_position? (hall r hr ▸ hpart r hr)
  exact ⟨i, lt_of_position? hi, by rw [tablePosition?_eq hs.tables, hi]⟩

end Statement

namespace CrossJoin

open Planning Statement

/-- A planner whose plans emit what is asked of a table of the statement: the outputs, followed by
the join outputs and the keys that are not among them yet. -/
def EmitsAsked (planner : RelationPlanner) (s : Statement) (cluster : Cluster) : Prop :=
  ∀ q : TableQuery, (∃ x ∈ s.sources, x.2.table? = some q.table) →
    ∀ σ : Session, σ.cluster = cluster →
      ∃ p σ', Gives (planner q) σ (some p) σ' ∧
        p.outputs? = some (Strategy.extend q.select.outputs (Strategy.extras q true)) ∧
        (p.resultTypes == p.outputTypes) = true ∧ σ'.cluster = cluster

/-- What a table is asked for is among what is emitted. -/
theorem foundIn_extend (q : TableQuery) :
    q.FoundIn (Strategy.extend q.select.outputs (Strategy.extras q true)) :=
  @Strategy.foundIn_scanOutputs q ⟨false, false, false, true, false, none⟩ rfl rfl

theorem EmitsAsked.accepts {planner : RelationPlanner} {s : Statement} {cluster : Cluster}
    (h : EmitsAsked planner s cluster) : Accepts planner s cluster := by
  intro q hq σ hσ
  obtain ⟨p, σ', hp, houtputs, htypes, hσ'⟩ := h q hq σ hσ
  exact ⟨p, σ', hp, ⟨⟨_, houtputs, foundIn_extend q⟩, htypes⟩, hσ'⟩

/-- Scans emit what is asked of the tables that have a routing. -/
theorem emitsAsked_scan {s : Statement} {cluster : Cluster} {options : ScanOptions}
    (hfetch : options.fetch = false) (hjoin : options.joinOutputs = true)
    (hrouting : ∀ x ∈ s.sources, ∀ table ∈ x.2.table?,
      ∃ routing, cluster.routing table.table.name = .ok routing) :
    EmitsAsked (Strategy.planTable (.scan options)) s cluster := by
  rintro q ⟨x, hx, htable⟩ σ rfl
  obtain ⟨routing, hrouting⟩ := hrouting x hx q.table htable
  obtain ⟨p, σ', hp, houtputs, htypes, hσ'⟩ := Strategy.exists_scanPlan hfetch hrouting
  rw [Strategy.scanOutputs, hfetch, hjoin] at houtputs
  exact ⟨p, σ', gives_bind.2 ⟨p, σ', hp, gives_pure.2 ⟨rfl, rfl⟩⟩, houtputs, htypes, hσ'⟩

variable {planner : RelationPlanner} {s : Statement} {before between after : Session}
  {split : Split} {plans : List (RelationName × Plan)}

/-! ### The joined row -/

/-- A planner that accepts the tables of a statement makes it ready to be joined, with a plan for
each table that collects what is asked of it. -/
theorem Accepts.exists_ready (hplanner : Accepts planner s before.cluster) (hs : s.NamesTables)
    (hlength : 2 ≤ s.sources.length) (hvalid : validate s = .ok ())
    (hpossible : s.select.whereClause.isStaticallyFalse = false)
    (horder : ∀ o, s.select.orderBy = some o → o.validate = .ok ()) :
    ∃ split plans between, ReadyToJoin planner s before split plans between ∧
      ∀ i z, plans[i]? = some z → ∃ q, s.shareOf before.settings.selectLimit i = .ok (some q) ∧
        Collects q z.2 := by
  obtain ⟨split, plans, between, hready, hplans⟩ := CrossJoin.exists_ready planner
    (R := fun _ share p => ∃ q, share = some q ∧ Collects q p)
    (fun x hx => isSubQuery_of_table (hs.tables x hx)) hlength hvalid hpossible horder
    (fun i x share hx hshare σ hσ => by
      have hmem := List.mem_of_getElem? hx
      obtain ⟨table, htable⟩ := Option.isSome_iff_exists.1 (hs.tables x hmem)
      obtain ⟨q, rfl, rfl⟩ := exists_share hx htable hshare
      obtain ⟨p, σ', hp, hcollects, hσ'⟩ := hplanner q ⟨x, hmem, htable⟩ σ hσ
      exact ⟨p, σ', gives_planSource_of_table (hs.tables x hmem) hp, hσ', hcollects.isNoOp, q, rfl,
        hcollects⟩)
  refine ⟨split, plans, between, hready, fun i z hz => ?_⟩
  obtain ⟨x, share, -, hshare, q, rfl, hcollects⟩ := hplans i z hz
  exact ⟨q, hshare, hcollects⟩

/-- The joined row of plans that collect what is asked of the tables has all of that. -/
theorem ReadyToJoin.foundIn_row (h : ReadyToJoin planner s before split plans between)
    (hplans : ∀ i z, plans[i]? = some z → ∃ q,
      s.shareOf before.settings.selectLimit i = .ok (some q) ∧ Collects q z.2) :
    joinedRow (s.sourceOrder.filterMap (plans[·]?)) = .ok (rowOf (inJoinOrder s plans)) ∧
      ∀ i q, s.shareOf before.settings.selectLimit i = .ok (some q) →
        q.FoundIn (rowOf (inJoinOrder s plans)) := by
  have hcollects : ∀ x ∈ s.sourceOrder.filterMap (plans[·]?), ∃ q, Collects q x.2 := by
    intro x hx
    obtain ⟨i, -, hi⟩ := List.mem_filterMap.1 hx
    obtain ⟨q, -, hq⟩ := hplans i x hi
    exact ⟨q, hq⟩
  obtain ⟨row, hrow, hsub⟩ := exists_joinedRow hcollects
  have hrowOf : row = rowOf (inJoinOrder s plans) := by
    rw [(joinedRow_eq_ok hrow).2, rowOf, inJoinOrder, List.flatMap_map]
  subst hrowOf
  refine ⟨hrow, fun i q hshare e he => ?_⟩
  -- the table stands at a position, so it has one of the plans that are joined
  have hi : i < s.sources.length := by
    obtain ⟨z, hz, -⟩ := Option.bind_eq_some_iff.1 (Statement.tableAt?_of_share hshare)
    exact (List.getElem?_eq_some_iff.1 hz).1
  have hz := List.getElem?_eq_getElem (h.length_plans.symm ▸ hi : i < plans.length)
  obtain ⟨q', hshare', hq⟩ := hplans i _ hz
  obtain rfl : q = q' := by simpa [hshare] using hshare'
  obtain ⟨outputs, houtputs, hfound⟩ := hq.required
  obtain ⟨o, ho, hsame⟩ := hfound e he
  exact ⟨o, hsub _ (h.mem_joined hz) outputs houtputs ho, hsame⟩

/-- What is left unresolved in a row that has all that is asked of the tables stands in a part with
a NaN, and is a column that no table is asked for itself. -/
theorem exists_nan_of_mem_references (hs : s.NamesTables) {default : UInt64} {row : List Expr}
    (hrow : ∀ i q, s.shareOf default i = .ok (some q) → q.FoundIn row)
    (hshares : ∀ i < s.sources.length, ∃ q, s.shareOf default i = .ok (some q)) {e : Expr}
    (he : e ∈ s.select.outputs ++ s.joinExprs) {r : ColumnRef}
    (hr : r ∈ (e.resolve row).references) :
    ∃ p ∈ e.parts, (∃ v ∈ p.2.literals, v.isNumber = false) ∧ r ∈ p.2.references ∧
      ∀ i q, s.shareOf default i = .ok (some q) → ∀ m ∈ q.required, (m == .column r) = false := by
  obtain ⟨p, hp, hreference, hnone⟩ := Expr.exists_part_of_mem_references hr
  obtain ⟨i, hi, htable⟩ := hs.exists_table he hp
  obtain ⟨q, hshare⟩ := hshares i hi
  -- what is the same as something that was asked for is in the row
  have hasked : ∀ i q, s.shareOf default i = .ok (some q) → ∀ f : Expr,
      (∀ o ∈ row, (o == f) = false) → ∀ m ∈ q.required, (m == f) = false := by
    intro i q hshare f hf m hm
    obtain ⟨o, ho, rfl | hsame⟩ := hrow i q hshare m hm
    · exact hf o ho
    · by_contra hne
      have hfound := Expr.beq_trans hsame (Bool.ne_false_iff.1 hne)
      rw [hf o ho] at hfound
      cases hfound
  refine ⟨p, hp, ?_, hreference, fun i q hshare =>
    hasked i q hshare _ (Expr.mem_references_resolve hr).2⟩
  by_contra hnumbers
  push Not at hnumbers
  have hself : p.2.same p.2 = true :=
    Expr.same_self fun v hv => Bool.ne_false_iff.1 (hnumbers v hv)
  obtain ⟨m, hm, hsame⟩ := asks_of_mem he i q hshare p hp htable hself
  rw [hasked i q hshare p.2 hnone m hm] at hsame
  cases hsame

/-- If nothing is left unresolved in the joined row, the sources are joined. -/
theorem ReadyToJoin.exists_gives_join (h : ReadyToJoin planner s before split plans between)
    (hinputs : ∀ e ∈ s.exprs, e.inputs = []) {row : List Expr}
    (hrow : joinedRow (s.sourceOrder.filterMap (plans[·]?)) = .ok row)
    (hresolved : ∀ e ∈ s.select.outputs ++ s.joinExprs, (e.resolve row).references = []) :
    ∃ left right leftOuter merge after,
      Gives (join s.select split plans) between (.nestedLoop left right leftOuter merge) after := by
  have hsplit := Statement.split_spec h.splits
  have hkeys : ∀ o ∈ s.remainingOrderBy, ∀ key ∈ o.keys, (key.resolve row).references = [] := by
    intro o ho key hkey
    refine hresolved key (List.mem_append_right _ (List.mem_append_left _ ?_))
    rwa [Option.mem_def.1 ho]
  have houtputs : ∀ e ∈ s.select.outputs, (e.resolve row).references = [] :=
    fun e he => hresolved e (List.mem_append_left _ he)
  obtain ⟨first, second, rest, hordered, -⟩ := h.inJoinOrder_eq
  have htypes := types_joinedRow hrow
  rw [← inJoinOrder, hordered] at htypes
  rcases ResultRow.projections_cases hsplit hkeys houtputs between
    ((s.sourceOrder.filterMap (plans[·]?)).map fun z => Leaf.ofPlan z.1 z.2) with
    ⟨all, hall⟩ | ⟨query, r, hquery, hr, -⟩
  · obtain ⟨left, right, leftOuter, merge, hfinish, -⟩ :=
      finish_joinAll_eq_ok hinputs hsplit htypes hall between.handler between.nextStage
    exact ⟨left, right, leftOuter, merge, _, (CrossJoin.gives_join h.joinOrder_eq).2
      ⟨row, first, second :: rest, hrow, hordered, hfinish, rfl⟩⟩
  · have hnil := hresolved query (List.mem_append_right _
      (List.mem_append_right _ (Option.mem_toList.2 hquery)))
    rw [hnil] at hr
    cases hr

/-- If a column is left unresolved in the joined row, the sources are not joined, or some output is
read back. -/
theorem ReadyToJoin.exists_fetch (h : ReadyToJoin planner s before split plans between) {e : Expr}
    (he : e ∈ s.select.outputs ++ s.joinExprs)
    (hne : (e.resolve (rowOf (inJoinOrder s plans))).references ≠ []) {p : Plan}
    (hjoin : Gives (join s.select split plans) between p after) :
    ∃ left right leftOuter merge f, p = .nestedLoop left right leftOuter merge ∧
      .fetch f ∈ merge.projections := by
  obtain ⟨left, right, leftOuter, merge, _, rfl, -⟩ := h.exists_projections hjoin
  have houtput : e ∈ s.select.outputs := by
    rcases List.mem_append.1 he with he | he
    · exact he
    · refine absurd hjoin (h.not_gives_join ?_)
      rcases List.mem_append.1 he with he | he
      · cases ho : s.remainingOrderBy with
        | none => simp [ho] at he
        | some o =>
          rw [ho] at he
          exact .key ho he hne
      · exact .condition (Option.mem_toList.1 he) hne
  obtain ⟨f, hf⟩ := (h.exists_fetch_iff hjoin).2 ⟨e, houtput, hne⟩
  exact ⟨left, right, leftOuter, merge, f, rfl, hf⟩

/-! ### How planning ends -/

/-- A statement with less than two sources is left to another planner. -/
theorem gives_plan_of_length_lt (planner : RelationPlanner) (before : Session)
    (hlength : s.sources.length < 2) :
    ∃ after, Gives (plan planner s) before .notApplicable after := by
  obtain ⟨after, h⟩ : ∃ after, Gives deferred before .notApplicable after := ⟨_, rfl⟩
  refine ⟨after, ?_⟩
  rw [plan, if_pos hlength]
  exact h

/-- A statement whose predicate is statically false has no rows. -/
theorem gives_plan_of_isStaticallyFalse (planner : RelationPlanner) (before : Session)
    (hlength : ¬s.sources.length < 2) (hvalid : validate s = .ok ())
    (hfalse : s.select.whereClause.isStaticallyFalse = true) :
    ∃ after, Gives (plan planner s) before (.planned (emptyPlan s)) after := by
  obtain ⟨after, h⟩ : ∃ after, Gives (built (emptyPlan s)) before (.planned (emptyPlan s)) after :=
    ⟨_, rfl⟩
  refine ⟨after, ?_⟩
  rw [plan, if_neg hlength]
  refine gives_bind.2 ⟨(), before, gives_check.2 ⟨hvalid, rfl⟩, ?_⟩
  rw [if_pos hfalse]
  exact h

/-- How planning a statement ends when all that is asked of its tables is collected. -/
inductive Collecting (planner : RelationPlanner) (s : Statement) (before : Session) : Prop
  /-- A statement with less than two sources is left to another planner. -/
  | deferred {after : Session} (hlength : s.sources.length < 2)
    (h : Gives (plan planner s) before .notApplicable after)
  /-- No row meets the predicate. -/
  | empty {after : Session} (hfalse : s.select.whereClause.isStaticallyFalse = true)
    (h : Gives (plan planner s) before (.planned (emptyPlan s)) after)
  /-- The tables are joined, nothing is read back, and no column is left. -/
  | joined {left right : Plan} {leftOuter : Bool} {merge : MergeStage} {after : Session}
    (h : Gives (plan planner s) before (.planned (.nestedLoop left right leftOuter merge)) after)
    (hfetch : ∀ f, .fetch f ∉ merge.projections)
    (hresolved : ∀ projection ∈ merge.projections, ∀ e ∈ projection.evaluated, e.references = [])
  /-- A part with a NaN is collected but not found, and neither is a column of it, which no table
  is asked for itself: the statement is refused, or the column is read back. -/
  | uncollected {e : Expr} {p : RelationName × Expr} {r : ColumnRef}
    (he : e ∈ s.select.outputs ++ s.joinExprs) (hp : p ∈ e.parts)
    (hnan : ∃ v ∈ p.2.literals, v.isNumber = false) (hr : r ∈ p.2.references)
    (hasked : ∀ i q, s.shareOf before.settings.selectLimit i = .ok (some q) →
      ∀ m ∈ q.required, (m == .column r) = false)
    (h : (∃ cause after, JoinFault cause ∧
        Fails (plan planner s) before (.planning cause) after) ∨
      ∃ left right leftOuter merge after f,
        Gives (plan planner s) before (.planned (.nestedLoop left right leftOuter merge)) after ∧
          .fetch f ∈ merge.projections)

/-- With a planner that collects what is asked of it, a statement over base tables can be planned,
and nothing has to be read back, unless a part of an expression has a NaN. -/
theorem plan_collecting (hs : s.NamesTables) (hplanner : EmitsAsked planner s before.cluster)
    (hvalid : validate s = .ok ())
    (horder : ∀ o, s.select.orderBy = some o → o.validate = .ok ()) :
    Collecting planner s before := by
  by_cases hlength : s.sources.length < 2
  · obtain ⟨after, h⟩ := gives_plan_of_length_lt planner before hlength
    exact .deferred hlength h
  cases hfalse : s.select.whereClause.isStaticallyFalse with
  | true =>
    obtain ⟨after, h⟩ := gives_plan_of_isStaticallyFalse planner before hlength hvalid hfalse
    exact .empty hfalse h
  | false =>
    obtain ⟨split, plans, between, hready, hplans⟩ :=
      hplanner.accepts.exists_ready hs (Nat.le_of_not_lt hlength) hvalid hfalse horder
    obtain ⟨hrow, hfound⟩ := hready.foundIn_row hplans
    have hgives : ∀ {p after}, Gives (join s.select split plans) between p after →
        ∃ after, Gives (plan planner s) before (.planned p) after := fun hjoin =>
      ⟨_, hready.gives_plan hjoin⟩
    by_cases hresolved : ∀ e ∈ s.select.outputs ++ s.joinExprs,
        (e.resolve (rowOf (inJoinOrder s plans))).references = []
    · obtain ⟨left, right, leftOuter, merge, _, hjoin⟩ :=
        hready.exists_gives_join hs.inputs hrow hresolved
      obtain ⟨after, h⟩ := hgives hjoin
      refine .joined h (fun f hf => ?_) ((columnsSupplied_plan planner s before).resolved h)
      obtain ⟨e, he, hne⟩ := (hready.exists_fetch_iff hjoin).1 ⟨f, hf⟩
      exact hne (hresolved e (List.mem_append_left _ he))
    · push Not at hresolved
      obtain ⟨e, he, hne⟩ := hresolved
      obtain ⟨r, hr⟩ := List.exists_mem_of_ne_nil _ hne
      have hshares : ∀ i < s.sources.length,
          ∃ q, s.shareOf before.settings.selectLimit i = .ok (some q) := by
        intro i hi
        obtain ⟨q, hshare, -⟩ :=
          hplans i _ (List.getElem?_eq_getElem (hready.length_plans.symm ▸ hi))
        exact ⟨q, hshare⟩
      obtain ⟨p, hp, hnan, hreference, hasked⟩ :=
        exists_nan_of_mem_references hs hfound hshares he hr
      refine .uncollected he hp hnan hreference hasked ?_
      cases hjoin : outcome (join s.select split plans) between with
      | mk result after =>
        cases result with
        | error fault =>
          obtain ⟨cause, rfl, hcause⟩ := fails_join hs.inputs hready hjoin
          exact .inl ⟨cause, after, hcause, hready.fails_plan hjoin⟩
        | ok root =>
          obtain ⟨left, right, leftOuter, merge, f, rfl, hf⟩ := hready.exists_fetch he hne hjoin
          obtain ⟨after, h⟩ := hgives hjoin
          exact .inr ⟨left, right, leftOuter, merge, after, f, h, hf⟩

/-! ### Sums with a literal -/

/-- The numbers of two tables, those of the first one added to a double. -/
def sums (x : Binary64) : Statement :=
  { pairs with
    select := .ofOutputs
      (.call ⟨"add", .scalar, .scalar .float64⟩
          ((columnTable "t" "a").allColumns ++ [.literal (.float64 x) (.scalar .float64)]) ::
        (columnTable "u" "b").allColumns) }

/-- The word of a quiet NaN. -/
def quietNan : Binary64 := ⟨0x7ff8000000000000⟩

theorem namesTables_sums (x : Binary64) : (sums x).NamesTables where
  tables := (show ∀ y ∈ pairs.sources, y.2.table?.isSome = true by decide)
  references e he r hr := by
    have hall : ∀ r ∈ pairs.select.outputs.flatMap Expr.references,
        r.relation ∈ pairs.sources.map (·.1) := by decide
    exact hall r (List.mem_flatMap.2 ⟨e, he, hr⟩ : r ∈ (sums x).exprs.flatMap Expr.references)
  inputs := List.flatMap_eq_nil_iff.1 rfl

theorem emitsAsked_sums (x : Binary64) :
    EmitsAsked (Strategy.planTable (.scan plainScan)) (sums x) oneNode :=
  emitsAsked_scan rfl rfl fun _ _ _ _ => ⟨_, rfl⟩

/-- Sums with one are planned, and nothing is read back. -/
theorem collected_sums : ∃ left right leftOuter merge after,
    Gives (plan (Strategy.planTable (.scan plainScan)) (sums ⟨0x3ff0000000000000⟩))
      (.start oneNode ⟨10000, 10000⟩ 1) (.planned (.nestedLoop left right leftOuter merge)) after ∧
    (∀ f, .fetch f ∉ merge.projections) ∧
    ∀ projection ∈ merge.projections, ∀ e ∈ projection.evaluated, e.references = [] := by
  have hcollecting : Collecting (Strategy.planTable (.scan plainScan))
      (sums ⟨0x3ff0000000000000⟩) (.start oneNode ⟨10000, 10000⟩ 1) :=
    plan_collecting (namesTables_sums _) (emitsAsked_sums _) rfl (fun _ h => nomatch h)
  cases hcollecting with
  | deferred hlength _ => exact absurd hlength (by decide)
  | empty hfalse _ => cases hfalse
  | joined h hfetch hresolved => exact ⟨_, _, _, _, _, h, hfetch, hresolved⟩
  | @uncollected e p r he hp hnan _ _ _ =>
    have hnumbers : ∀ e ∈ (sums ⟨0x3ff0000000000000⟩).select.outputs ++
        (sums ⟨0x3ff0000000000000⟩).joinExprs, ∀ p ∈ e.parts, ∀ v ∈ p.2.literals,
          v.isNumber = true := by decide
    obtain ⟨v, hv, hfalse⟩ := hnan
    rw [hnumbers e he p hp v hv] at hfalse
    cases hfalse

/-- Sums with a NaN are refused, although the table is asked for them and collects them. -/
theorem refused_nanSums :
    (sums quietNan).NamesTables ∧ ((sums quietNan).sources.map (·.1)).Nodup ∧
      EmitsAsked (Strategy.planTable (.scan plainScan)) (sums quietNan) oneNode ∧
      validate (sums quietNan) = .ok () ∧ (sums quietNan).select.orderBy = none ∧
      ∃ after, Fails (plan (Strategy.planTable (.scan plainScan)) (sums quietNan))
        (.start oneNode ⟨10000, 10000⟩ 1)
        (.planning (.noDocId "t" ColumnRef.docIdName "a")) after := by
  have hready : ReadyToJoin (Strategy.planTable (.scan plainScan)) (sums quietNan)
      (.start oneNode ⟨10000, 10000⟩ 1) _ _ _ :=
    ⟨Nat.le_refl 2, rfl, rfl, rfl, ⟨_, rfl, rfl⟩, rfl⟩
  exact ⟨namesTables_sums _, by decide, emitsAsked_sums _, rfl, rfl, _,
    hready.fails_plan_of_steps joinOrder_unsorted rfl rfl rfl⟩

end CrossJoin

end ShardJoin
