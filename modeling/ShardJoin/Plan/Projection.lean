/-
What a merge stage does to its rows, one projection after another.

A filter keeps the shape of the row.  A top-n, a nested loop merge and a fetch
emit a row of their own; a fetch also reads columns from storage, by the row
ids found in its input.
-/
import ShardJoin.Plan.Routing
import ShardJoin.Select

namespace ShardJoin

/-- Reading rows back from storage by row id. -/
structure Fetch where
  /-- The row id column of every fetched relation. -/
  docIdColumns : List (RelationName × InputColumn)
  inputTypes : List DataType
  /-- The columns to read, by relation. -/
  fetchColumns : List (RelationName × List ColumnRef)
  /-- The emitted row, over input columns and the fetched references. -/
  outputs : List Expr
  partitionColumns : List (RelationName × List ColumnRef)
  /-- The nodes of each collect stage whose rows are read back. -/
  executionNodes : SortedMap StageId (List NodeId)
  /-- The searches opened by those collect stages. -/
  subContexts : SortedMap SubContextId ShardLocation
  /-- Rows per request; without it one request reads everything. -/
  bulkSize : Option UInt64

/-- A step of a merge stage. -/
inductive Projection where
  | filter (query : Expr)
  | topN (limit offset : UInt64) (orderBy : Option OrderBy) (outputs : List Expr)
  | fetch (fetch : Fetch)
  | nestedLoopMerge (outputs : List Expr)

namespace Projection

def name : Projection → String
  | .filter _ => "Filter"
  | .topN .. => "TopN"
  | .fetch _ => "Fetch"
  | .nestedLoopMerge _ => "NestedLoopMerge"

/-- Whether the projection reads from storage. -/
def isFetch : Projection → Bool
  | .fetch _ => true
  | _ => false

/-- The types of the emitted row, for an input row of the given types. -/
def outputTypes (input : List DataType) : Projection → List DataType
  | .filter _ => input
  | .topN _ _ _ outputs => outputs.map Expr.type
  | .fetch f => f.outputs.map Expr.type
  | .nestedLoopMerge outputs => outputs.map Expr.type

/-- Every input column that the projection reads. -/
def inputColumns : Projection → List InputColumn
  | .filter query => query.inputs
  | .topN _ _ orderBy outputs =>
    outputs.flatMap Expr.inputs ++
      match orderBy with
      | some o => o.keys.flatMap Expr.inputs
      | none => []
  | .fetch f => f.docIdColumns.map (·.2) ++ f.outputs.flatMap Expr.inputs
  | .nestedLoopMerge outputs => outputs.flatMap Expr.inputs

/-- The outputs that emit a row of the given types unchanged. -/
def passThrough (types : List DataType) : List Expr :=
  types.mapIdx Expr.inputAt

end Projection

end ShardJoin
