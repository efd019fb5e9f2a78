/-
Physical plans.

A plan is a tree whose leaves look rows up by key, scan a table, or produce
nothing, and whose inner nodes join two plans by a nested loop or run plans
one after another, the last of which gives the result.  Everything that other
plans need to know is read off the tree: the expressions behind the emitted
columns, their types, and the stage whose rows are the result.
-/
import ShardJoin.Plan.Stage

namespace ShardJoin

/-- A look-up by primary key, run on the node that issued the query. -/
structure TableGet where
  table : TableName
  relation : RelationName
  outputs : List Expr
  docKeys : DocKeys
  limit : Option UInt64

/-- The columns that a scan leaves to be read back later. -/
structure FetchPhase where
  outputs : List Expr
  partitionColumns : List ColumnRef

/-- A distributed scan with its merge and what it leaves to be read back. -/
structure Scan where
  collect : CollectStage
  merge : Option MergeStage
  fetch : Option FetchPhase

/-- A physical plan. -/
inductive Plan where
  | tableGet (get : TableGet)
  | scan (scan : Scan)
  | nestedLoop (left right : Plan) (leftOuterLoop : Bool) (merge : MergeStage)
  | noOp (outputTypes : List DataType)
  | iterable (plans : List Plan)

namespace Plan

instance : Inhabited Plan := ⟨.noOp []⟩

/-- The plans directly below. -/
def children : Plan → List Plan
  | .tableGet _ | .scan _ | .noOp _ => []
  | .nestedLoop left right _ _ => [left, right]
  | .iterable plans => plans

/-- The name of the kind of plan. -/
def kind : Plan → String
  | .tableGet _ => "TableGet"
  | .scan _ => "CollectThenFetch"
  | .nestedLoop .. => "NestedLoop"
  | .noOp _ => "NoOp"
  | .iterable _ => "Iterable"

/-- Whether the plan produces no rows by construction. -/
def isNoOp : Plan → Bool
  | .noOp _ => true
  | _ => false

mutual
/-- The types of the rows before the result stage runs. -/
def outputTypes : Plan → List DataType
  | .tableGet get => get.outputs.map Expr.type
  | .scan s => s.collect.outputTypes
  | .nestedLoop left right _ _ => left.outputTypes ++ right.outputTypes
  | .noOp types => types
  | .iterable plans => lastOutputTypes plans

/-- The row types of the last plan of a list. -/
def lastOutputTypes : List Plan → List DataType
  | [] => []
  | [p] => p.outputTypes
  | _ :: p :: ps => lastOutputTypes (p :: ps)
end

mutual
/-- The expressions behind the emitted columns, if the plan has any. -/
def outputs? : Plan → Option (List Expr)
  | .tableGet get => some get.outputs
  | .scan s => some s.collect.outputs
  | .nestedLoop left right _ _ => do return (← left.outputs?) ++ (← right.outputs?)
  | .noOp _ => none
  | .iterable plans => lastOutputs? plans

/-- The expressions behind the columns of the last plan of a list. -/
def lastOutputs? : List Plan → Option (List Expr)
  | [] => none
  | [p] => p.outputs?
  | _ :: p :: ps => lastOutputs? (p :: ps)
end

mutual
/-- The merge stage whose rows are the result, if there is one. -/
def resultStage? : Plan → Option MergeStage
  | .scan s => s.merge
  | .nestedLoop _ _ _ merge => some merge
  | .iterable plans => lastResultStage? plans
  | .tableGet _ | .noOp _ => none

/-- The result stage of the last plan of a list. -/
def lastResultStage? : List Plan → Option MergeStage
  | [] => none
  | [p] => p.resultStage?
  | _ :: p :: ps => lastResultStage? (p :: ps)
end

mutual
/-- Changes the result stage, if there is one. -/
def mapResultStage (f : MergeStage → MergeStage) : Plan → Plan
  | .scan s => .scan { s with merge := s.merge.map f }
  | .nestedLoop left right outer merge => .nestedLoop left right outer (f merge)
  | .iterable plans => .iterable (mapLastResultStage f plans)
  | .tableGet get => .tableGet get
  | .noOp types => .noOp types

/-- Changes the result stage of the last plan of a list. -/
def mapLastResultStage (f : MergeStage → MergeStage) : List Plan → List Plan
  | [] => []
  | [p] => [p.mapResultStage f]
  | q :: p :: ps => q :: mapLastResultStage f (p :: ps)
end

/-- The types that the consumer of the plan receives. -/
def resultTypes (p : Plan) : List DataType :=
  match p.resultStage? with
  | some stage => stage.outputTypes
  | none => p.outputTypes

/-- Sends the result rows to a consumer: the result stage is routed there, or a scan without a
merge stage sends them itself. -/
def routeResult (consumer : Downstream) (p : Plan) : Plan :=
  match p with
  | .scan ⟨collect, none, fetch⟩ => .scan ⟨{ collect with downstream := consumer }, none, fetch⟩
  | _ => p.mapResultStage ({ · with downstream := consumer })

end Plan

end ShardJoin
