/-
The outline of a plan: one line per operator, indented by two spaces for each
level, with the details of an operator one level below it.
-/
import ShardJoin.Plan

namespace ShardJoin

/-- Expressions separated by commas. -/
def Expr.listing (es : List Expr) : String := Text.commaList (es.map Expr.render)

/-- The keys of an order-by clause with their directions. -/
def OrderBy.listing (o : OrderBy) : String :=
  Text.commaList ((o.keys.zip o.descending).map fun (key, descending) =>
    if descending then key.render ++ " DESC" else key.render)

/-- The consumer of a stage. -/
def Downstream.listing : Downstream → String
  | .handler node => "handler(" ++ node ++ ")"
  | .stage _ id => "stage(" ++ toString id ++ ")"

/-- A word, or that there is none. -/
def Text.ofLimit (limit : Option UInt64) : String :=
  Text.optional (fun n : UInt64 => toString n.toNat) limit

/-- A projection on one line. -/
def Projection.outline : Projection → String
  | .filter query => "Filter " ++ query.render
  | .topN limit offset orderBy outputs =>
    let order := match orderBy with
      | some o => " order_by=" ++ o.listing
      | none => ""
    "TopN limit=" ++ toString limit.toNat ++ " offset=" ++ toString offset.toNat ++ order ++
      " outputs=[" ++ Expr.listing outputs ++ "]"
  | .fetch f =>
    "Fetch relations=" ++ toString f.docIdColumns.length ++ " bulk_size=" ++
      Text.ofLimit f.bulkSize ++ " outputs=[" ++ Expr.listing f.outputs ++ "]"
  | .nestedLoopMerge outputs => "NestedLoopMerge outputs=[" ++ Expr.listing outputs ++ "]"

namespace Plan

/-- A line of the outline. -/
def line (indent : Nat) (s : String) : String :=
  String.ofList (List.replicate (2 * indent) ' ') ++ s ++ "\n"

def outlineCollect (indent : Nat) (s : CollectStage) : String :=
  line indent ("Collect id=" ++ toString s.id ++ " table=" ++ s.table.text ++ " nodes=" ++
    toString s.routing.nodes.length ++ " limit=" ++ Text.ofLimit s.limit ++ " -> " ++
    s.downstream.listing) ++
  line (indent + 1) ("outputs=[" ++ Expr.listing s.outputs ++ "]") ++
  (match s.whereClause.query with
    | some query => line (indent + 1) ("where=" ++ query.render)
    | none => "") ++
  (match s.orderBy with
    | some o => line (indent + 1) ("order_by=" ++ o.listing)
    | none => "")

def outlineMerge (indent : Nat) (s : MergeStage) : String :=
  line indent ("Merge id=" ++ toString s.id ++ " name=" ++ s.name ++ " nodes=[" ++
    Text.commaList s.executionNodes ++ "] upstreams=" ++ toString s.senders.toNat ++
    " -> " ++ s.downstream.listing) ++
  String.join (s.projections.map fun p => line (indent + 1) p.outline)

mutual
/-- The outline of a plan at an indentation. -/
def outlineAt (indent : Nat) : Plan → String
  | .tableGet get =>
    line indent ("TableGet table=" ++ get.table.text ++ " relation=" ++ get.relation ++
      " keys=" ++ toString get.docKeys.keys.length ++ " limit=" ++ Text.ofLimit get.limit) ++
    line (indent + 1) ("outputs=[" ++ Expr.listing get.outputs ++ "]")
  | .scan s =>
    line indent "CollectThenFetch" ++
    outlineCollect (indent + 1) s.collect ++
    (match s.merge with
      | some merge => outlineMerge (indent + 1) merge
      | none => "") ++
    (match s.fetch with
      | some fetch => line (indent + 1) ("fetch outputs=[" ++ Expr.listing fetch.outputs ++
          "] partition_columns=" ++ toString fetch.partitionColumns.length)
      | none => "")
  | .nestedLoop left right outer merge =>
    line indent ("NestedLoop left_outer_loop=" ++ Text.ofBool outer) ++
    outlineMerge (indent + 1) merge ++
    line (indent + 1) "left:" ++ outlineAt (indent + 2) left ++
    line (indent + 1) "right:" ++ outlineAt (indent + 2) right
  | .noOp types =>
    line indent ("NoOp types=" ++ Text.bracketed (types.map DataType.spelling))
  | .iterable plans =>
    line indent ("Iterable plans=" ++ toString plans.length) ++ outlineAll (indent + 1) plans

/-- The outlines of a list of plans at an indentation. -/
def outlineAll (indent : Nat) : List Plan → String
  | [] => ""
  | p :: ps => outlineAt indent p ++ outlineAll indent ps
end

/-- The outline of a plan. -/
def outline (p : Plan) : String := outlineAt 0 p

end Plan

end ShardJoin
