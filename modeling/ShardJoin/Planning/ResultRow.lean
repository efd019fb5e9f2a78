/-
From the joined row to the rows of the statement.

The joined row has one column per expression that the leaves of the join emit.
What remains of the predicate, the order by and the outputs is resolved in
that row.  Columns of the outputs that no leaf emits are read back from
storage at the end, after the rows are cut to the limit; that needs the row
ids of their relation in the joined row and the collect stage that scanned it.
-/
import ShardJoin.Planning.Session
import ShardJoin.Split

namespace ShardJoin

/-- A leaf of a join: its relation and, if it is a scan, its collect stage with the nodes that
run it. -/
structure Leaf where
  relation : RelationName
  collect : Option (StageId × List NodeId)

/-- The leaf of a planned relation. -/
def Leaf.ofPlan (relation : RelationName) : Plan → Leaf
  | .scan s => ⟨relation, some (s.collect.id, s.collect.executionNodes)⟩
  | _ => ⟨relation, none⟩

namespace ResultRow

/-- An expression that has to be evaluated on the joined row. -/
def resolveOn (row : List Expr) (use : JoinUse) (e : Expr) : Except PlanFault Expr :=
  match (e.resolve row).references with
  | [] => .ok (e.resolve row)
  | r :: _ => .error (.notCollected use r.relation r.column)

/-- The filter for what remains of the predicate. -/
def filters (row : List Expr) : Option Expr → Except PlanFault (List Projection)
  | none => .ok []
  | some query => do return [.filter (← resolveOn row .condition query)]

/-- What remains of the order by. -/
def orderBy (row : List Expr) : Option OrderBy → Except PlanFault (Option OrderBy)
  | none => .ok none
  | some o => do
    let keys ← o.keys.mapM (resolveOn row .orderBy)
    return some { o with keys }

/-- The distinct references of a relation in some expressions, in order of first appearance. -/
def missingColumns (relation : RelationName) (outputs : List Expr) : List ColumnRef :=
  ((outputs.flatMap Expr.references).filter (·.relation == relation)).foldl
    (fun found r => if found.any (· == r) then found else found ++ [r]) []

/-- Whether an expression is the row id of a relation. -/
def isDocIdOf (relation : RelationName) : Expr → Bool
  | .column r => r.relation == relation && r.isDocId
  | _ => false

/-- What has to be read back for one leaf. -/
structure LeafFetch where
  relation : RelationName
  docId : InputColumn
  columns : List ColumnRef
  collect : StageId
  nodes : List NodeId

/-- What has to be read back for a leaf, if anything. -/
def leafFetch? (row outputs : List Expr) (leaf : Leaf) : Except PlanFault (Option LeafFetch) :=
  match missingColumns leaf.relation outputs with
  | [] => .ok none
  | first :: rest =>
    match row.findIdx? (isDocIdOf leaf.relation) with
    | none => .error (.noDocId leaf.relation ColumnRef.docIdName first.column)
    | some i =>
      match leaf.collect with
      | none => .error (.noCollectStage leaf.relation)
      | some (collect, nodes) =>
        .ok (some ⟨leaf.relation, ⟨i, (row[i]?.map Expr.type).getD .null⟩, first :: rest,
          collect, nodes⟩)

/-- Reads everything back that the leaves did not emit. -/
def fetch (session : Session) (row outputs : List Expr) (leaves : List Leaf) (limit : UInt64) :
    Except PlanFault Fetch := do
  let entries := (← leaves.mapM (leafFetch? row outputs)).filterMap id
  let pageSize := session.settings.pageSize
  return {
    docIdColumns := entries.map fun e => (e.relation, e.docId)
    inputTypes := row.map Expr.type
    fetchColumns := entries.map fun e => (e.relation, e.columns.filter (!·.partitioned))
    outputs
    partitionColumns := (entries.map fun e => (e.relation, e.columns.filter (·.partitioned))).filter
      (!·.2.isEmpty)
    executionNodes := .ofList (entries.map fun e => (e.collect, e.nodes))
    subContexts := .ofList (entries.flatMap fun e => (session.subContextsOf e.collect).entries)
    bulkSize := if pageSize < limit then some pageSize else none }

/-- The projections that turn the joined row into the rows of the statement. -/
def projections (session : Session) (select : Select) (split : Split) (row : List Expr)
    (leaves : List Leaf) : Except PlanFault (List Projection) := do
  let filters ← filters row split.remainingQuery
  let orderBy ← orderBy row split.remainingOrderBy
  let outputs := select.outputs.map (Expr.resolve row)
  if outputs.all (·.references.isEmpty) then
    return filters ++ [.topN split.limit select.offset orderBy outputs]
  else
    let passed := Projection.passThrough (row.map Expr.type)
    let fetch ← fetch session row outputs leaves split.limit
    return filters ++ [.topN split.limit select.offset orderBy passed, .fetch fetch]

end ResultRow

end ShardJoin
