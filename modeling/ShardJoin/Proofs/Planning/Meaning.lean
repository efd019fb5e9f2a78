/-
A planned statement gives the rows that the statement asks for.

The plan joins what the tables supply, which is filtered and cut before the
join, and evaluates what remains on the positions of the joined row.

* `Statement.reference_eq` — the rows of a statement from filtered and cut
  tables;
* `run_projections` — the projections at the root give the page of a statement;
* `CrossJoin.execute_plan` — a plan gives the rows of its statement.
-/
import ShardJoin.Proofs.Planning.Scanning

namespace ShardJoin

variable {α : Type} (ι : Interpretation α)

namespace Statement

variable {s : Statement}

/-- Where every table is asked for its own conjuncts, only what remains is left to be met. -/
theorem filter_joinedRows (hmatch : s.select.whereClause.noMatch = false)
    (data : RelationName → List (TableRow α)) :
    (joinedRows (fun i => sortBy ι (s.tableOrder i) TableRow.env (s.rowsOf data i))
        s.sourceOrder).filter (fun joint => s.select.whereClause.holds ι (s.env joint)) =
      (joinedRows (s.filteredRows ι data) s.sourceOrder).filter fun joint =>
        s.remainingQuery.all fun query => query.holds ι (s.env joint) := by
  unfold filteredRows
  rw [joinedRows_filter (fun i row => (WhereClause.ofConjuncts (s.conjunctsOf i)).holds ι row.env),
    List.filter_filter]
  refine List.filter_congr fun joint hjoint => ?_
  obtain ⟨hkeys, -⟩ := mem_joinedRows hjoint
  have hnodup : (joint.map (·.1)).Nodup := hkeys ▸ s.nodup_sourceOrder
  have hrows : ∀ i < s.sources.length, ∃ row, (i, row) ∈ joint := by
    intro i hi
    have : i ∈ joint.map (·.1) := hkeys ▸ mem_sourceOrder.2 hi
    obtain ⟨x, hx, rfl⟩ := List.mem_map.1 this
    exact ⟨x.2, hx⟩
  rw [Bool.eq_iff_iff, s.holds_whereClause ι hmatch hnodup hrows, Bool.and_eq_true, and_comm,
    List.all_eq_true, Option.all_eq_true]
  rfl

/-- The rows of a statement, from tables that are filtered and cut. -/
theorem reference_eq (hmatch : s.select.whereClause.noMatch = false)
    {data : RelationName → List (TableRow α)}
    (hsize : ∀ x ∈ s.sources, (data x.1).length < UInt64.size) (default : UInt64) :
    s.reference ι data (s.limitOr default) =
      s.page ι (s.limitOr default)
        ((joinedRows (s.wantedRows ι data default) s.sourceOrder).filter fun joint =>
          s.remainingQuery.all fun query => query.holds ι (s.env joint)) := by
  rw [reference, filter_joinedRows ι hmatch]
  unfold wantedRows tableLimit
  split
  · rename_i hnothing
    -- nothing is done to the joined rows but to cut them
    rw [nothingRemains, Bool.and_eq_true, Option.isNone_iff_eq_none,
      Option.isNone_iff_eq_none] at hnothing
    obtain ⟨hquery, horder⟩ := hnothing
    have hall : ∀ rows : List (JoinedRow α), rows.filter (fun joint =>
        s.remainingQuery.all fun query => query.holds ι (s.env joint)) = rows := by
      intro rows
      rw [hquery]
      exact List.filter_eq_self.2 fun _ _ => rfl
    rw [hall, hall]
    unfold page
    rw [horder, OrderBy.entriesOf, sortBy_nil, sortBy_nil, joinedRows_cut]
    intro i _
    have hfiltered : (s.filteredRows ι data i).length ≤ (s.rowsOf data i).length := by
      rw [← (sortBy_perm ι (s.tableOrder i) TableRow.env (s.rowsOf data i)).length_eq]
      exact List.length_filter_le _ _
    refine Nat.lt_of_le_of_lt hfiltered ?_
    unfold rowsOf
    split
    · exact hsize _ (List.mem_of_getElem? ‹_›)
    · simp [UInt64.size]
  · rfl

end Statement

/-! ### Joining what the tables supply -/

variable {ι} {engine : Engine α} {s : Statement}

/-- What a joined row becomes when every source emits some expressions. -/
def emitted (ι : Interpretation α) (outputs : Nat → List Expr) (joint : JoinedRow α) :
    List (Datum α) :=
  joint.flatMap fun x => (outputs x.1).map (Expr.eval ι x.2.env)

/-- Emitted rows hold the values that the emitted expressions have on the joined row. -/
theorem holds_emitted {outputs : Nat → List Expr} {joint : JoinedRow α}
    (hkeys : (joint.map (·.1)).Nodup)
    (houtputs : ∀ x ∈ joint, ∀ o ∈ outputs x.1, ∀ r ∈ o.references,
      s.position? r.relation = some x.1) :
    Expr.Holds ι (s.env joint) ((joint.map (·.1)).flatMap outputs) (emitted ι outputs joint) := by
  unfold Expr.Holds emitted
  rw [List.flatMap_map]
  refine forall₂_flatMap fun x hx => ?_
  rw [List.forall₂_map_right_iff, List.forall₂_same]
  intro o ho e hsame hregular
  have hhome : ∀ r ∈ e.references, s.position? r.relation = some x.1 := by
    intro r hr
    obtain ⟨r', hr', hrelation⟩ := Expr.exists_reference_of_same hsame hr
    rw [← hrelation]
    exact houtputs x hx o ho r' hr'
  rw [Statement.eval_env ι s (lookup_of_mem hkeys hx) hhome]
  exact (Expr.eval_same ι _ hsame hregular).symm

/-- The projections of a statement turn the emitted rows into its page. -/
theorem run_projections (hs : s.OverTables) {row : List Expr} {rows : List (JoinedRow α)}
    {emitted : JoinedRow α → List (Datum α)}
    (hrows : ∀ joint ∈ rows, Expr.Holds ι (s.env joint) row (emitted joint))
    (houtputs : ∀ e ∈ s.select.outputs, (e.resolve row).references = [])
    {filters : List Projection} (hfilters : ResultRow.filters row s.remainingQuery = .ok filters)
    {order : Option OrderBy} (horder : ResultRow.orderBy row s.remainingOrderBy = .ok order)
    (limit : UInt64) :
    (filters ++ [Projection.topN limit s.select.offset order
        (s.select.outputs.map (Expr.resolve row))]).foldl (Projection.run ι engine)
          (rows.map emitted) =
      s.page ι limit (rows.filter fun joint =>
        s.remainingQuery.all fun query => query.holds ι (s.env joint)) := by
  obtain ⟨rfl, hquery⟩ := ResultRow.filters_eq_ok hfilters
  obtain ⟨rfl, hkeys⟩ := ResultRow.orderBy_eq_ok horder
  set met := rows.filter fun joint =>
    s.remainingQuery.all fun query => query.holds ι (s.env joint) with hmet
  have hsub : ∀ joint ∈ met, joint ∈ rows := fun joint hjoint => List.mem_of_mem_filter hjoint
  -- the filter drops the same rows
  have hfilter : (s.remainingQuery.toList.map (Projection.filter <| Expr.resolve row ·)).foldl
      (Projection.run ι engine) (rows.map emitted) = met.map emitted := by
    cases hremaining : s.remainingQuery with
    | none => simp [hmet, hremaining]
    | some query =>
      rw [Option.toList_some, List.map_cons, List.map_nil, List.foldl_cons, List.foldl_nil,
        Projection.run, List.filter_map, hmet]
      refine congrArg _ (List.filter_congr fun joint hjoint => ?_)
      have hover := hs.remainingQuery hremaining
      rw [Function.comp_apply, Expr.holds, Expr.eval_resolve (hrows joint hjoint) hover.literals
        hover.inputs (hquery query (by simp [hremaining])), hremaining]
      rfl
  -- the keys have the same values, so the rows are sorted in the same way
  have hsort : sortBy ι (OrderBy.entriesOf (s.remainingOrderBy.map (·.mapKeys (Expr.resolve row))))
      Env.ofRow (met.map emitted) =
        (sortBy ι (OrderBy.entriesOf s.remainingOrderBy) s.env met).map emitted := by
    cases hremaining : s.remainingOrderBy with
    | none => simp [OrderBy.entriesOf, sortBy_nil]
    | some o =>
      have hover : ∀ key ∈ o.keys, key.Over (s.sources.map (·.1)) := by
        intro key hkey
        refine hs.exprs key ?_
        unfold Statement.remainingOrderBy at hremaining
        split at hremaining
        · cases hremaining
        · simp [Statement.exprs, Statement.sortKeys, hremaining, hkey]
      rw [Option.map_some, OrderBy.entriesOf, OrderBy.entriesOf, OrderBy.entries_mapKeys]
      refine sortBy_map ι o.entries s.env (Expr.resolve row) emitted met ?_
      intro joint hjoint entry hentry
      have hkey := OrderBy.key_mem hentry
      exact Expr.eval_resolve (hrows joint (hsub joint hjoint)) (hover _ hkey).literals
        (hover _ hkey).inputs (hkeys o (by simp [hremaining]) _ hkey)
  rw [List.foldl_append, hfilter, List.foldl_cons, List.foldl_nil, Projection.run, hsort,
    ← List.map_drop, ← List.map_take, List.map_map, Statement.page]
  refine List.map_congr_left fun joint hjoint => ?_
  have hmem : joint ∈ rows := by
    refine hsub joint ?_
    have := List.mem_of_mem_drop (List.mem_of_mem_take hjoint)
    exact (sortBy_perm ι _ _ _).mem_iff.1 this
  rw [Function.comp_apply, emit, List.map_map]
  refine List.map_congr_left fun e he => ?_
  have hover := hs.exprs e (by simp [Statement.exprs, he])
  exact Expr.eval_resolve (hrows joint hmem) hover.literals hover.inputs (houtputs e he)

namespace CrossJoin

variable {planner : RelationPlanner} {settings : PlannerSettings} {split : Split}
  {plans : List (RelationName × Plan)} {data : RelationName → List (TableRow α)}

/-- The plan at a position. -/
def planAt (plans : List (RelationName × Plan)) (i : Nat) : Plan :=
  ((plans[i]?).map (·.2)).getD (.noOp [])

/-- The expressions that the plan at a position emits. -/
def outputsAt (plans : List (RelationName × Plan)) (i : Nat) : List Expr :=
  (planAt plans i).outputs?.getD []

/-- The plan of every table supplies what is asked of the table. -/
theorem PlansOf.supplies (hs : s.OverTables) (hsplit : split.IsOf s settings)
    (hplans : PlansOf planner s split plans)
    (hplanner : HonoursShares ι engine planner s data settings.selectLimit) {i : Nat}
    (hi : i < s.sources.length) :
    ∃ name q, s.position? name = some i ∧ plans[i]? = some (name, planAt plans i) ∧
      s.shareOf settings.selectLimit i = .ok (some q) ∧
      Supplies ι engine name (s.rowsOf data i) q (planAt plans i) := by
  have hshares := hsplit.length_shares
  have hlength := hplans.length_eq
  rw [List.length_zip, hshares, Nat.min_self] at hlength
  have hget := hplans.get (i := i) (by rw [List.length_zip, hshares, Nat.min_self]; exact hi)
    (by omega)
  simp only [List.get_eq_getElem, List.getElem_zip] at hget
  have hshare := hsplit.shareOf_eq (List.getElem?_eq_getElem (i := i) (by omega))
  have hsource : s.sources[i]? = some (s.sources[i].1, s.sources[i].2) :=
    List.getElem?_eq_getElem hi
  obtain ⟨hname, hplan⟩ := hget
  have hat : plans[i]? = some (s.sources[i].1, planAt plans i) := by
    rw [planAt, List.getElem?_eq_getElem (by omega), hname]
    rfl
  have hplanAt : planAt plans i = plans[i].2 := by
    rw [planAt, List.getElem?_eq_getElem (by omega)]
    rfl
  -- a table has no plan of its own
  have htable := hs.tables s.sources[i] (List.getElem_mem hi)
  rcases hplan with hplan | ⟨q, hq, σ, σ', hgives⟩
  · cases hkind : s.sources[i].2 <;> simp [hkind, Source.plan?, Source.table?] at hplan htable
  · rw [hq] at hshare
    refine ⟨s.sources[i].1, q, s.position?_getElem hs.names hsource, hat, hshare, ?_⟩
    have hrows : s.rowsOf data i = data s.sources[i].1 := by
      rw [Statement.rowsOf, hsource]
    rw [hrows, hplanAt]
    exact hplanner hsource hshare hgives

/-- A table whose plan is empty is asked for no rows. -/
theorem PlansOf.wantedRows_eq_nil (hs : s.OverTables) (hsplit : split.IsOf s settings)
    (hplans : PlansOf planner s split plans)
    (hplanner : HonoursShares ι engine planner s data settings.selectLimit)
    (hempty : plans.any (·.2.isNoOp) = true) :
    ∃ i < s.sources.length, s.wantedRows ι data settings.selectLimit i = [] := by
  obtain ⟨x, hx, hnoop⟩ := List.any_eq_true.1 hempty
  obtain ⟨i, hi, rfl⟩ := List.mem_iff_getElem.1 hx
  have hlt : i < s.sources.length := by
    have := hplans.length_eq
    rw [List.length_zip] at this
    omega
  obtain ⟨name, q, -, hat, hshare, hsupplies⟩ := hplans.supplies hs hsplit hplanner hlt
  rw [List.getElem?_eq_getElem hi, Option.some.injEq] at hat
  rw [hat] at hnoop
  refine ⟨i, hlt, ?_⟩
  rw [← Statement.wanted_of_share ι hshare]
  generalize planAt plans i = p at hnoop hsupplies
  cases hsupplies with
  | nothing hwanted => exact hwanted
  | rows houtputs =>
    -- a plan that emits something is not empty
    cases p <;> simp [Plan.isNoOp, Plan.outputs?] at hnoop houtputs

/-- What is known of the plan of a table that is not empty. -/
theorem PlansOf.leaf (hs : s.OverTables) (hsplit : split.IsOf s settings)
    (hplans : PlansOf planner s split plans)
    (hplanner : HonoursShares ι engine planner s data settings.selectLimit)
    (hnonempty : plans.any (·.2.isNoOp) = false) {i : Nat} (hi : i < s.sources.length) :
    (planAt plans i).outputs? = some (outputsAt plans i) ∧
      (∀ o ∈ outputsAt plans i, ∀ r ∈ o.references, s.position? r.relation = some i) ∧
      (∀ m ∈ s.partsOf i s.select.outputs, ∃ o ∈ outputsAt plans i, (o == m) = true) ∧
      (planAt plans i).execute ι engine = (s.wantedRows ι data settings.selectLimit i).map
        fun row => (outputsAt plans i).map (Expr.eval ι row.env) := by
  obtain ⟨name, q, hname, hat, hshare, hsupplies⟩ := hplans.supplies hs hsplit hplanner hi
  have hplan := List.any_eq_false.1 hnonempty _ (List.mem_of_getElem? hat)
  have hrows : q.wanted ι (s.rowsOf data i) = s.wantedRows ι data settings.selectLimit i :=
    Statement.wanted_of_share ι hshare data
  unfold outputsAt
  generalize planAt plans i = p at hplan hsupplies
  cases hsupplies with
  | nothing _ => exact absurd rfl hplan
  | rows houtputs hrequired hreferences hexecute =>
    rw [houtputs, Option.getD_some]
    refine ⟨rfl, fun o ho r hr => ?_, fun m hm => hrequired m ?_, ?_⟩
    · rw [hreferences o ho r hr]
      exact hname
    · rw [TableQuery.required, (Statement.shareOf_eq_ok hshare).1]
      simp [hm]
    · rw [hexecute, hrows]

theorem page_nil (limit : UInt64) : s.page ι limit [] = [] := by
  simp [Statement.page, sortBy]

/-- Leaves that give what their tables are asked for give the emitted joined rows together. -/
theorem execute_leaves {order : List Nat} {wanted : Nat → List (TableRow α)}
    (hleaf : ∀ i ∈ order, (planAt plans i).outputs? = some (outputsAt plans i) ∧
      (planAt plans i).execute ι engine =
        (wanted i).map fun row => (outputsAt plans i).map (Expr.eval ι row.env))
    (handler : NodeId) (next : StageId) {first : Plan} {rest : List Plan}
    (hplans : order.map (planAt plans) = first :: rest) :
    (joinAll handler next first rest).execute ι engine =
      (joinedRows wanted order).map (emitted ι (outputsAt plans)) := by
  have hregular : ∀ p ∈ first :: rest, p.Regular ι engine := by
    intro p hp row hrow
    obtain ⟨i, hi, rfl⟩ := List.mem_map.1 (hplans ▸ hp)
    obtain ⟨houtputs, hexecute⟩ := hleaf i hi
    rw [hexecute] at hrow
    obtain ⟨_, -, rfl⟩ := List.mem_map.1 hrow
    rw [Plan.outputTypes_eq_of_outputs? houtputs, List.length_map, List.length_map]
  rw [List.forall_mem_cons] at hregular
  rw [Plan.execute_joinAll hregular.1 hregular.2, ← hplans, nestedLoops_eq, List.map_map]
  have hlists : order.map (Plan.execute ι engine ∘ planAt plans) =
      (order.map fun i => (wanted i).map (i, ·)).map
        (List.map fun x => (outputsAt plans x.1).map (Expr.eval ι x.2.env)) := by
    rw [List.map_map]
    refine List.map_congr_left fun i hi => ?_
    rw [Function.comp_apply, Function.comp_apply, (hleaf i hi).2, List.map_map]
    rfl
  rw [hlists, choices_map, List.map_map]
  refine List.map_congr_left fun joint _ => ?_
  rw [Function.comp_apply, emitted, List.flatMap_def]

/-- The plans in the order of the join. -/
theorem filterMap_plans (plans : List (RelationName × Plan)) (order : List Nat)
    (h : ∀ i ∈ order, ∃ name, plans[i]? = some (name, planAt plans i)) :
    (order.filterMap (plans[·]?)).map (·.2) = order.map (planAt plans) ∧
      (order.filterMap (plans[·]?)).flatMap (fun p => p.2.outputs?.getD []) =
        order.flatMap (outputsAt plans) := by
  induction order with
  | nil => exact ⟨rfl, rfl⟩
  | cons i order ih =>
    rw [List.forall_mem_cons] at h
    obtain ⟨⟨name, hi⟩, hrest⟩ := h
    obtain ⟨hmap, hflat⟩ := ih hrest
    rw [List.filterMap_cons_some hi, List.map_cons, List.map_cons, List.flatMap_cons,
      List.flatMap_cons, hmap, hflat]
    exact ⟨rfl, rfl⟩

/-- A planned statement over base tables gives the rows that the statement asks for, if the
planner of the tables gives what is asked of them.  No table may have more rows than a word can
count. -/
theorem execute_plan {before after : Session} {p : Plan} (hs : s.OverTables)
    (hsize : ∀ x ∈ s.sources, (data x.1).length < UInt64.size)
    (hplanner : HonoursShares ι engine planner s data before.settings.selectLimit)
    (h : Planning.Gives (plan planner s) before (.planned p) after) :
    p.execute ι engine = s.reference ι data (s.limitOr before.settings.selectLimit) := by
  rcases plan_cases h with ⟨hfalse, rfl⟩ | ⟨hlive, split, plans, hok, hplans, hcases⟩
  · -- no joined row meets the predicate
    have hnone : ∀ rows : List (JoinedRow α), rows.filter (fun joint =>
        s.select.whereClause.holds ι (s.env joint)) = [] := by
      intro rows
      refine List.filter_eq_nil_iff.2 fun joint _ => ?_
      rw [WhereClause.holds_of_isStaticallyFalse ι _ hfalse]
      exact Bool.false_ne_true
    rw [Statement.reference, hnone, page_nil]
    rfl
  have hmatch : s.select.whereClause.noMatch = false := by
    rw [WhereClause.isStaticallyFalse, Bool.or_eq_false_iff] at hlive
    exact hlive.1
  have hsplit := Statement.split_spec hok
  have horder : joinOrder split.firstKeys = s.sourceOrder := by
    rw [hsplit.firstKeys, Statement.sourceOrder]
  rw [s.reference_eq ι hmatch hsize before.settings.selectLimit]
  rcases hcases with ⟨hempty, rfl⟩ | ⟨hnonempty, σ, σ', hjoin⟩
  · -- one of the tables is asked for nothing
    obtain ⟨i, hi, hwanted⟩ := hplans.wantedRows_eq_nil hs hsplit hplanner hempty
    rw [joinedRows_eq_nil (Statement.mem_sourceOrder.2 hi) hwanted, List.filter_nil, page_nil]
    rfl
  obtain ⟨row, first, rest, hrow, hordered, hfinish, -⟩ := (gives_join horder).1 hjoin
  obtain ⟨left, right, leftOuter, merge, projections, hroot, hprojections, -, rfl⟩ :=
    finish_eq_ok hfinish
  -- the leaves in the order of the join
  have hleaf := fun i (hi : i ∈ s.sourceOrder) =>
    hplans.leaf hs hsplit hplanner hnonempty (Statement.mem_sourceOrder.1 hi)
  obtain ⟨hmap, hflat⟩ := filterMap_plans plans s.sourceOrder fun i hi => by
    obtain ⟨name, _, -, hat, -⟩ :=
      hplans.supplies hs hsplit hplanner (Statement.mem_sourceOrder.1 hi)
    exact ⟨name, hat⟩
  rw [hmap] at hordered
  obtain ⟨-, rfl⟩ := joinedRow_eq_ok hrow
  rw [hflat] at hprojections
  have hexecute := execute_leaves (fun i hi => ⟨(hleaf i hi).1, (hleaf i hi).2.2.2⟩) σ.handler
    σ.nextStage hordered
  rw [hroot] at hexecute
  rw [Plan.execute_append_projections, hexecute]
  -- every output can be read from the joined row
  have houtputs : ∀ e ∈ s.select.outputs,
      (e.resolve (s.sourceOrder.flatMap (outputsAt plans))).references = [] := by
    intro e he
    refine Expr.references_resolve fun part hpart => ?_
    have hover := hs.exprs e (by simp [Statement.exprs, he])
    obtain ⟨i, hi, m, hm, hsame⟩ := hs.exists_mem_partsOf he hover hpart
    have hmem := Statement.mem_sourceOrder.2 (Statement.lt_of_position? hi)
    obtain ⟨o, ho, hom⟩ := (hleaf i hmem).2.2.1 m hm
    exact ⟨o, List.mem_flatMap.2 ⟨i, hmem, ho⟩, Expr.beq_trans hom hsame⟩
  obtain ⟨filters, order, hfilters, hresolved, rfl⟩ :=
    ResultRow.projections_eq_ok hprojections houtputs
  rw [hsplit.remainingQuery] at hfilters
  rw [hsplit.remainingOrderBy] at hresolved
  rw [hsplit.limit]
  refine run_projections hs (fun joint hjoint => ?_) houtputs hfilters hresolved _
  obtain ⟨hkeys, -⟩ := mem_joinedRows hjoint
  have hheld : Expr.Holds ι (s.env joint) ((joint.map (·.1)).flatMap (outputsAt plans))
      (emitted ι (outputsAt plans) joint) := by
    refine holds_emitted (hkeys ▸ s.nodup_sourceOrder) fun x hx => ?_
    have hmem : x.1 ∈ s.sourceOrder := hkeys ▸ List.mem_map_of_mem hx
    exact (hleaf x.1 hmem).2.1
  rwa [hkeys] at hheld

/-! ### Two tables -/

open Statement

/-- The pairs whose first number is less than the second, without the first of them. -/
def increasing : Statement :=
  { pairs with
    select :=
      { pairs.select with
        whereClause := .ofQuery (.apply (.comparison .lt) pairs.select.outputs)
        limit := some 3
        offset := 1 } }

/-- A cluster of one node, whose tables have no shards. -/
def oneNode : Cluster := ⟨"node", fun _ => .ok ⟨.empty⟩⟩

/-- A scan that collects the outputs and the join outputs, without a merge. -/
def plainScan : ScanOptions := ⟨false, false, false, true, false, none⟩

/-- The numbers of the two tables. -/
def numbers (name : String) : List (TableRow Empty) :=
  (if name = "t" then [2, 1, 2] else [3, 2]).map fun n _ => .plain (.int64 n)

theorem overTables_increasing : increasing.OverTables where
  tables := by decide
  names := by decide
  exprs := by
    have hall : ∀ e ∈ increasing.exprs,
        (∀ r ∈ e.references, r.relation ∈ increasing.sources.map (·.1)) ∧ e.inputs = [] ∧
          ∀ v ∈ e.literals, v.isRegular = true := by
      decide
    intro e he
    exact ⟨(hall e he).1, (hall e he).2.1, (hall e he).2.2⟩

/-- The pairs are planned: neither is the predicate false nor is a table asked for nothing. -/
theorem gives_increasing : ∃ p after,
    Planning.Gives (plan (Strategy.planTable (.scan plainScan)) increasing)
      (.start oneNode ⟨10000, 10000⟩ 1) (.planned p) after ∧
    p.isNoOp = false ∧ p.outputTypes = [.int64, .int64] := by
  have hready : ReadyToJoin (Strategy.planTable (.scan plainScan)) increasing
      (.start oneNode ⟨10000, 10000⟩ 1) _ _ _ :=
    ⟨Nat.le_refl 2, rfl, rfl, rfl, ⟨_, rfl, rfl⟩, rfl⟩
  exact ⟨_, _, hready.gives_plan_of_steps joinOrder_pairs rfl rfl rfl, rfl, rfl⟩

/-- Scans of the two tables, joined, give the pairs. -/
theorem execute_plan_increasing : ∃ p after,
    Planning.Gives (plan (Strategy.planTable (.scan plainScan)) increasing)
      (.start oneNode ⟨10000, 10000⟩ 1) (.planned p) after ∧
    p.execute .integers
        (.scanning .integers (fun table => numbers table.name) (fun _ => []) (fun _ => id)) =
      increasing.reference .integers numbers 3 := by
  obtain ⟨p, after, h, -⟩ := gives_increasing
  have hsize : ∀ x ∈ increasing.sources, (numbers x.1).length < UInt64.size := by decide
  have hnames : ∀ x ∈ increasing.sources, ∀ table ∈ x.2.table?, x.1 = table.table.name.name := by
    decide
  have hplanner : HonoursShares .integers
      (.scanning .integers (fun table => numbers table.name) (fun _ => []) (fun _ => id))
      (Strategy.planTable (.scan plainScan)) increasing numbers 10000 :=
    overTables_increasing.scan_honoursShares .integers rfl rfl
      (fun x hx table htable => congrArg numbers (hnames x hx table htable)) 10000
  exact ⟨p, after, h, execute_plan overTables_increasing hsize hplanner h⟩

end CrossJoin

end ShardJoin
