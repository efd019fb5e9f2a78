/-
Plans and their stages as JSON, the form in which they are shipped to the
nodes that run them.
-/
import ShardJoin.Plan
import ShardJoin.Wire.Select

namespace ShardJoin

open Wire

instance : Wire Routing where
  encode r := .obj [("locations", encode r.locations)]
  decode j := do return { locations := ← required j "locations" }

instance : Wire ShardLocation where
  encode l := .obj [("node", encode l.node), ("index", encode l.index), ("shard", encode l.shard),
    ("collect_stage", encode l.collectStage)]
  decode j := do
    return {
      node := ← required j "node"
      index := ← required j "index"
      shard := ← required j "shard"
      collectStage := ← required j "collect_stage" }

instance : Wire Downstream where
  encode
    | .handler node => .tagged "Handler" (.obj [("node", encode node)])
    | .stage nodes id =>
      .tagged "Stage" (.obj [("nodes", encode nodes), ("execution_node_id", encode id)])
  decode
    | .obj [("Handler", j)] => do return .handler (← required j "node")
    | .obj [("Stage", j)] => do
      return .stage (← required j "nodes") (← required j "execution_node_id")
    | _ => none

instance : Wire Fetch where
  encode f := .obj [("doc_id_columns", encode f.docIdColumns),
    ("input_types", encode f.inputTypes), ("fetch_columns", encode f.fetchColumns),
    ("outputs", encode f.outputs), ("partition_columns", encode f.partitionColumns),
    ("execution_nodes", encode f.executionNodes), ("sub_contexts", encode f.subContexts),
    ("bulk_size", encode f.bulkSize)]
  decode j := do
    return {
      docIdColumns := ← required j "doc_id_columns"
      inputTypes := ← required j "input_types"
      fetchColumns := ← required j "fetch_columns"
      outputs := ← required j "outputs"
      partitionColumns := ← required j "partition_columns"
      executionNodes := ← required j "execution_nodes"
      subContexts := ← required j "sub_contexts"
      bulkSize := ← optional j "bulk_size" }

instance : Wire Projection where
  encode
    | .filter query => .tagged "Filter" (.obj [("query", encode query)])
    | .topN limit offset orderBy outputs =>
      .tagged "TopN" (.obj [("limit", encode limit), ("offset", encode offset),
        ("order_by", encode orderBy), ("outputs", encode outputs)])
    | .fetch f => .tagged "Fetch" (encode f)
    | .nestedLoopMerge outputs => .tagged "NestedLoopMerge" (.obj [("outputs", encode outputs)])
  decode
    | .obj [("Filter", j)] => do return .filter (← required j "query")
    | .obj [("TopN", j)] => do
      return .topN (← required j "limit") (← required j "offset") (← optional j "order_by")
        (← required j "outputs")
    | .obj [("Fetch", j)] => (decode j).map .fetch
    | .obj [("NestedLoopMerge", j)] => do return .nestedLoopMerge (← required j "outputs")
    | _ => none

instance : Wire CollectStage where
  encode s := .obj [("id", encode s.id), ("name", encode s.name), ("table", encode s.table),
    ("routing", encode s.routing), ("outputs", encode s.outputs),
    ("where_clause", encode s.whereClause), ("limit", encode s.limit),
    ("order_by", encode s.orderBy), ("downstream", encode s.downstream)]
  decode j := do
    return {
      id := ← required j "id"
      name := ← required j "name"
      table := ← required j "table"
      routing := ← required j "routing"
      outputs := ← required j "outputs"
      whereClause := ← required j "where_clause"
      limit := ← optional j "limit"
      orderBy := ← optional j "order_by"
      downstream := ← required j "downstream" }

instance : Wire MergeStage where
  encode s := .obj [("id", encode s.id), ("name", encode s.name),
    ("execution_nodes", encode s.executionNodes), ("input_types", encode s.inputTypes),
    ("num_upstreams", encode s.senders), ("projections", encode s.projections),
    ("sort", encode s.sort), ("downstream", encode s.downstream)]
  decode j := do
    return {
      id := ← required j "id"
      name := ← required j "name"
      executionNodes := ← required j "execution_nodes"
      inputTypes := ← required j "input_types"
      senders := ← required j "num_upstreams"
      projections := ← required j "projections"
      sort := ← optional j "sort"
      downstream := ← required j "downstream" }

instance : Wire TableGet where
  encode g := .obj [("table", encode g.table), ("relation", encode g.relation),
    ("outputs", encode g.outputs), ("doc_keys", encode g.docKeys), ("limit", encode g.limit)]
  decode j := do
    return {
      table := ← required j "table"
      relation := ← required j "relation"
      outputs := ← required j "outputs"
      docKeys := ← required j "doc_keys"
      limit := ← optional j "limit" }

instance : Wire FetchPhase where
  encode f := .obj [("outputs", encode f.outputs),
    ("partition_columns", encode f.partitionColumns)]
  decode j := do
    return {
      outputs := ← required j "outputs"
      partitionColumns := ← required j "partition_columns" }

instance : Wire Scan where
  encode s := .obj [("collect", encode s.collect), ("merge", encode s.merge),
    ("fetch", encode s.fetch)]
  decode j := do
    return {
      collect := ← required j "collect"
      merge := ← optional j "merge"
      fetch := ← optional j "fetch" }

mutual
def Plan.encode : Plan → Json
  | .tableGet get => .tagged "TableGet" (Wire.encode get)
  | .scan s => .tagged "CollectThenFetch" (Wire.encode s)
  | .nestedLoop left right outer merge => .tagged "NestedLoop"
      (.obj [("left", left.encode), ("right", right.encode),
        ("left_outer_loop", Wire.encode outer), ("merge", Wire.encode merge)])
  | .noOp types => .tagged "NoOp" (.obj [("output_types", Wire.encode types)])
  | .iterable plans => .tagged "Iterable" (.obj [("plans", .arr (Plan.encodeAll plans))])

def Plan.encodeAll : List Plan → List Json
  | [] => []
  | p :: ps => p.encode :: Plan.encodeAll ps
end

mutual
def Plan.decode (j : Json) : Option Plan :=
  match j with
  | .obj [("TableGet", j)] => (Wire.decode j).map .tableGet
  | .obj [("CollectThenFetch", j)] => (Wire.decode j).map .scan
  | .obj [("NestedLoop", .obj members)] => do
    let ⟨left, _⟩ ← Json.member? "left" members
    let ⟨right, _⟩ ← Json.member? "right" members
    return .nestedLoop (← Plan.decode left) (← Plan.decode right)
      (← required (.obj members) "left_outer_loop") (← required (.obj members) "merge")
  | .obj [("NoOp", j)] => do return .noOp (← required j "output_types")
  | .obj [("Iterable", .obj members)] => do
    let ⟨plans, _⟩ ← Json.items? "plans" members
    return .iterable (← Plan.decodeAll plans)
  | _ => none
termination_by sizeOf j

def Plan.decodeAll (js : List Json) : Option (List Plan) :=
  match js with
  | [] => some []
  | j :: js => do return (← Plan.decode j) :: (← Plan.decodeAll js)
termination_by sizeOf js
end

instance : Wire Plan := ⟨Plan.encode, Plan.decode⟩

end ShardJoin
