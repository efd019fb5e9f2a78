/-
The stages of a plan.

A collect stage scans the shards of a table; a merge stage combines the rows
that other stages send it and runs projections on them.  `MergeStage.validate`
follows the row type through the projections: every input column that a
projection reads has to exist with the type it is read at, and only the last
projection may fetch.
-/
import ShardJoin.Plan.Projection

namespace ShardJoin

/-- A scan of the shards of one table, run on every node that holds some. -/
structure CollectStage where
  id : StageId
  name : String
  table : TableName
  routing : Routing
  outputs : List Expr
  whereClause : WhereClause
  limit : Option UInt64
  orderBy : Option OrderBy
  downstream : Downstream

namespace CollectStage

def outputTypes (s : CollectStage) : List DataType := s.outputs.map Expr.type

def executionNodes (s : CollectStage) : List NodeId := s.routing.nodes

end CollectStage

/-- Combines the rows that other stages send and runs projections on them. -/
structure MergeStage where
  id : StageId
  name : String
  executionNodes : List NodeId
  inputTypes : List DataType
  /-- How many nodes or stages send rows. -/
  senders : UInt64
  projections : List Projection
  /-- The input columns that the rows arrive sorted by. -/
  sort : Option OrderBy
  downstream : Downstream

namespace MergeStage

/-- The types of the rows after the last projection. -/
def outputTypes (s : MergeStage) : List DataType :=
  s.projections.foldl (fun types p => p.outputTypes types) s.inputTypes

/-- Checks the columns that a projection reads against the row it receives. -/
def checkColumns (projection : String) (types : List DataType) :
    List InputColumn → Except MergeFault Unit
  | [] => .ok ()
  | c :: cs =>
    match types[c.index]? with
    | none => .error (.missingColumn projection c.index types.length)
    | some t =>
      if t == c.type then checkColumns projection types cs
      else .error (.columnType projection c.type c.index t)

/-- Checks a chain of projections that starts with a row of the given types. -/
def checkChain (types : List DataType) : List Projection → Except MergeFault Unit
  | [] => .ok ()
  | p :: rest => do
    if p.isFetch && !rest.isEmpty then throw .fetchNotLast
    checkColumns p.name types p.inputColumns
    checkChain (p.outputTypes types) rest

/-- Checks that the projections fit together. -/
def validate (s : MergeStage) : Except PlanFault Unit :=
  match checkChain s.inputTypes s.projections with
  | .ok () => .ok ()
  | .error fault => .error (.merge s.name fault)

end MergeStage

end ShardJoin
