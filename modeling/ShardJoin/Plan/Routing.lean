/-
Where rows come from and where they go: the shards of a table by node and
index, and the consumer of a stage.
-/
import ShardJoin.Ident
import ShardJoin.SortedMap

namespace ShardJoin

/-- The shards of one table, by node and index. -/
structure Routing where
  locations : SortedMap NodeId (SortedMap String (List UInt32))
  deriving Inhabited

namespace Routing

/-- The nodes that hold shards, in order. -/
def nodes (r : Routing) : List NodeId := r.locations.keys

/-- All shards in the order of nodes, then of indices. -/
def shards (r : Routing) : List (NodeId × String × UInt32) :=
  r.locations.entries.flatMap fun (node, indices) =>
    indices.entries.flatMap fun (index, shards) =>
      shards.map fun shard => (node, index, shard)

end Routing

/-- A shard of a table on a node, with the collect stage that opens its search. -/
structure ShardLocation where
  node : NodeId
  index : String
  shard : UInt32
  collectStage : StageId
  deriving DecidableEq

/-- The consumer of a stage's rows: the node that issued the query, or another stage. -/
inductive Downstream where
  | handler (node : NodeId)
  | stage (nodes : List NodeId) (id : StageId)
  deriving DecidableEq

namespace Downstream

/-- The stage that receives the rows, if it is a stage. -/
def stage? : Downstream → Option StageId
  | .handler _ => none
  | .stage _ id => some id

/-- Whether the rows go to the node that issued the query. -/
def isHandler : Downstream → Bool
  | .handler _ => true
  | .stage .. => false

end Downstream

end ShardJoin
