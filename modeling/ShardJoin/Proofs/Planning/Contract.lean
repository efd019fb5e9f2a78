/-
What a statement asks for, and what it asks of its tables.

The rows of a statement over base tables are enumerated by nested loops over
the tables, each sorted by the keys that are given to it; those that meet the
predicate are sorted by the keys that remain and cut to offset and limit.

* `Statement.reference` — the rows of a statement;
* `TableQuery.wanted` — the rows that are asked of a table;
* `Supplies` — what a plan of one table has to give;
* `Honours` — a planner whose plans give what is asked.
-/
import ShardJoin.Proofs.Plan.Execution
import ShardJoin.Proofs.Planning.Shares
import ShardJoin.Proofs.Planning.Success

namespace ShardJoin

variable {α : Type} (ι : Interpretation α)

/-! ### The rows of a statement -/

namespace Statement

/-- The rows of the source at a position. -/
def rowsOf (s : Statement) (data : RelationName → List (TableRow α)) (i : Nat) :
    List (TableRow α) :=
  match s.sources[i]? with
  | some x => data x.1
  | none => []

/-- The keys that are given to the table at a position. -/
def tableOrder (s : Statement) (i : Nat) : List SortEntry :=
  match s.orderByOf i with
  | .ok o => OrderBy.entriesOf o
  | .error _ => []

/-- The order in which the sources are joined. -/
def sourceOrder (s : Statement) : List Nat :=
  CrossJoin.joinOrder ((List.range s.sources.length).map s.firstKeyOf?)

/-- The outputs of the rows between offset and limit, sorted by what remains of the order by. -/
def page (s : Statement) (limit : UInt64) (rows : List (JoinedRow α)) : List (List (Datum α)) :=
  (((sortBy ι (OrderBy.entriesOf s.remainingOrderBy) s.env rows).drop
      s.select.offset.toNat).take limit.toNat).map fun joint =>
    s.select.outputs.map (Expr.eval ι (s.env joint))

/-- The rows of a statement over tables with the given contents. -/
def reference (s : Statement) (data : RelationName → List (TableRow α)) (limit : UInt64) :
    List (List (Datum α)) :=
  s.page ι limit
    ((joinedRows (fun i => sortBy ι (s.tableOrder i) TableRow.env (s.rowsOf data i))
      s.sourceOrder).filter fun joint => s.select.whereClause.holds ι (s.env joint))

end Statement

/-! ### What is asked of a table -/

namespace TableQuery

/-- The rows asked of a table: those that meet its where clause, sorted by its keys and cut to its
limit. -/
def wanted (q : TableQuery) (rows : List (TableRow α)) : List (TableRow α) :=
  cut q.select.limit
    (sortBy ι (OrderBy.entriesOf q.select.orderBy) TableRow.env
      (rows.filter fun row => q.select.whereClause.holds ι row.env))

/-- The expressions that a table has to emit. -/
def required (q : TableQuery) : List Expr :=
  q.select.outputs ++ q.joinOutputs ++
    match q.select.orderBy with
    | some o => o.keys
    | none => []

/-- A row has all that is asked of a table. -/
def FoundIn (q : TableQuery) (row : List Expr) : Prop :=
  ∀ e ∈ q.required, ∃ o ∈ row, o = e ∨ (o == e) = true

end TableQuery

/-- A plan gives what is asked of a table with the given name and rows: nothing if no row is
wanted, or the values of expressions over the table, at least the required ones, on the wanted
rows. -/
inductive Supplies (engine : Engine α) (name : RelationName) (rows : List (TableRow α))
    (q : TableQuery) : Plan → Prop
  | nothing {types : List DataType} (hwanted : q.wanted ι rows = []) :
    Supplies engine name rows q (.noOp types)
  | rows {p : Plan} {outputs : List Expr} (houtputs : p.outputs? = some outputs)
    (hrequired : ∀ e ∈ q.required, ∃ o ∈ outputs, (o == e) = true)
    (hreferences : ∀ o ∈ outputs, ∀ r ∈ o.references, r.relation = name)
    (hexecute : p.execute ι engine =
      (q.wanted ι rows).map fun row => outputs.map (Expr.eval ι row.env)) :
    Supplies engine name rows q p

/-- A planner that gives what is asked whenever it makes a plan. -/
def Honours (engine : Engine α) (planner : RelationPlanner) (name : RelationName)
    (rows : List (TableRow α)) (q : TableQuery) : Prop :=
  ∀ ⦃σ σ' : Session⦄ ⦃p : Plan⦄, Planning.Gives (planner q) σ (some p) σ' →
    Supplies ι engine name rows q p

namespace Statement

variable {s : Statement} {default : UInt64}

/-- How the share of a table is made up. -/
theorem shareOf_eq_ok {i : Nat} {q : TableQuery} (h : s.shareOf default i = .ok (some q)) :
    q.select.outputs = s.partsOf i s.select.outputs ∧
      q.select.whereClause = .ofConjuncts (s.conjunctsOf i) ∧
      s.orderByOf i = .ok q.select.orderBy ∧
      q.select.limit = s.tableLimit default ∧ q.joinOutputs = s.partsOf i s.joinExprs := by
  unfold shareOf at h
  split at h
  · cases h
  · obtain ⟨o, ho, h⟩ := Except.bind_eq_ok.1 h
    obtain rfl := Option.some.inj (Except.ok.inj h)
    exact ⟨rfl, rfl, ho, rfl, rfl⟩

theorem tableAt?_of_share {i : Nat} {q : TableQuery} (h : s.shareOf default i = .ok (some q)) :
    s.tableAt? i = some q.table := by
  unfold shareOf at h
  split at h
  · cases h
  · rename_i table htable
    obtain ⟨_, -, h⟩ := Except.bind_eq_ok.1 h
    obtain rfl := Option.some.inj (Except.ok.inj h)
    exact htable

/-- A source without a share is no table. -/
theorem tableAt?_eq_none {i : Nat} (h : s.shareOf default i = .ok none) : s.tableAt? i = none := by
  unfold shareOf at h
  split at h
  · assumption
  · obtain ⟨_, -, h⟩ := Except.bind_eq_ok.1 h
    cases Except.ok.inj h

/-- A table has a share. -/
theorem eq_some_of_share {i : Nat} {table : TableRelation} (h : s.tableAt? i = some table)
    {share : Option TableQuery} (hshare : s.shareOf default i = .ok share) :
    ∃ q, share = some q ∧ q.table = table := by
  cases share with
  | none =>
    rw [tableAt?_eq_none hshare] at h
    cases h
  | some q =>
    rw [tableAt?_of_share hshare] at h
    exact ⟨q, rfl, Option.some.inj h⟩

theorem exists_tableQuery {settings : PlannerSettings} {split : Split}
    (hsplit : split.IsOf s settings) {i : Nat} {table : TableRelation}
    (h : s.tableAt? i = some table) :
    ∃ q, split.shares[i]? = some (some q) ∧ s.shareOf settings.selectLimit i = .ok (some q) := by
  have hi : i < split.shares.length := by
    obtain ⟨x, hx, -⟩ := Option.bind_eq_some_iff.1 h
    rw [hsplit.length_shares]
    exact (List.getElem?_eq_some_iff.1 hx).1
  have hat := List.getElem?_eq_getElem hi
  obtain ⟨q, hq, -⟩ := eq_some_of_share h (hsplit.shareOf_eq hat)
  rw [hq] at hat
  exact ⟨q, hat, hsplit.shareOf_eq hat⟩

theorem tableOrder_of_share {i : Nat} {q : TableQuery} (h : s.shareOf default i = .ok (some q)) :
    s.tableOrder i = OrderBy.entriesOf q.select.orderBy := by
  rw [tableOrder, (shareOf_eq_ok h).2.2.1]

/-- The rows of a table that meet the conjuncts of the table. -/
def filteredRows (s : Statement) (data : RelationName → List (TableRow α)) (i : Nat) :
    List (TableRow α) :=
  (sortBy ι (s.tableOrder i) TableRow.env (s.rowsOf data i)).filter fun row =>
    (WhereClause.ofConjuncts (s.conjunctsOf i)).holds ι row.env

/-- The rows that a table is asked for. -/
def wantedRows (s : Statement) (data : RelationName → List (TableRow α)) (default : UInt64)
    (i : Nat) : List (TableRow α) :=
  cut (s.tableLimit default) (s.filteredRows ι data i)

theorem wanted_of_share {i : Nat} {q : TableQuery} (h : s.shareOf default i = .ok (some q))
    (data : RelationName → List (TableRow α)) :
    q.wanted ι (s.rowsOf data i) = s.wantedRows ι data default i := by
  obtain ⟨-, hwhere, -, hlimit, -⟩ := shareOf_eq_ok h
  rw [TableQuery.wanted, hwhere, hlimit, wantedRows, filteredRows, sortBy_filter,
    tableOrder_of_share h]

theorem sourceOrder_perm (s : Statement) :
    s.sourceOrder.Perm (List.range s.sources.length) := by
  unfold sourceOrder CrossJoin.joinOrder
  rw [List.length_map, List.length_range]
  exact List.mergeSort_perm _ _

theorem mem_sourceOrder {i : Nat} : i ∈ s.sourceOrder ↔ i < s.sources.length := by
  rw [s.sourceOrder_perm.mem_iff, List.mem_range]

theorem nodup_sourceOrder (s : Statement) : s.sourceOrder.Nodup :=
  s.sourceOrder_perm.nodup_iff.2 List.nodup_range

end Statement

/-- A planner that gives what is asked of the tables of a statement. -/
def HonoursShares (engine : Engine α) (planner : RelationPlanner)
    (s : Statement) (data : RelationName → List (TableRow α)) (default : UInt64) : Prop :=
  ∀ ⦃i : Nat⦄ ⦃name : RelationName⦄ ⦃source : Source⦄ ⦃q : TableQuery⦄,
    s.sources[i]? = some (name, source) → s.shareOf default i = .ok (some q) →
      Honours ι engine planner name (data name) q

end ShardJoin
