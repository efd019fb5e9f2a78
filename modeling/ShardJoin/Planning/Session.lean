/-
The state of planning one statement.

A session knows the cluster and the settings, hands out stage ids and ids of
shard searches, and keeps where every search lives.  A planning step may fail;
the ids that it took and what it counted stay taken and counted.
-/
import ShardJoin.Ledger
import ShardJoin.Settings
import ShardJoin.Statement

namespace ShardJoin

/-- The node that plans the statement and receives its rows, and where tables live. -/
structure Cluster where
  localNode : NodeId
  routing : TableName → Except PlanFault Routing

/-- The cluster in which exactly the listed tables, by qualified name, have shards. -/
def Cluster.ofTables (localNode : NodeId) (tables : SortedMap String Routing) : Cluster where
  localNode
  routing table :=
    match tables.get? table.text with
    | some r => .ok r
    | none => .error (.noRouting table)

/-- The state of planning one statement. -/
structure Session where
  cluster : Cluster
  settings : PlannerSettings
  job : JobId
  nextStage : StageId
  nextSubContext : SubContextId
  subContexts : SortedMap SubContextId ShardLocation
  ledger : Ledger

namespace Session

/-- A session in which nothing is allocated yet. -/
def start (cluster : Cluster) (settings : PlannerSettings) (job : JobId) : Session where
  cluster
  settings
  job
  nextStage := 0
  nextSubContext := 0
  subContexts := .empty
  ledger := .empty

/-- The node that issued the query. -/
def handler (s : Session) : NodeId := s.cluster.localNode

/-- Takes a number of consecutive stage ids. -/
def skipStages (s : Session) (n : Nat) : Session := { s with nextStage := s.nextStage + n }

/-- Takes the next stage id. -/
def takeStage (s : Session) : StageId × Session := (s.nextStage, s.skipStages 1)

/-- Registers the search of one shard under the next id. -/
def openSearch (s : Session) (location : ShardLocation) : SubContextId × Session :=
  (s.nextSubContext,
    { s with
      nextSubContext := s.nextSubContext + 1
      subContexts := s.subContexts.insert s.nextSubContext location })

/-- Registers searches one after another. -/
def openSearches (s : Session) : List ShardLocation → List SubContextId × Session
  | [] => ([], s)
  | location :: rest =>
    let (id, s) := s.openSearch location
    let (ids, s) := s.openSearches rest
    (id :: ids, s)

/-- Registers one search per shard, opened by a collect stage. -/
def allocate (s : Session) (routing : Routing) (stage : StageId) : List SubContextId × Session :=
  s.openSearches (routing.shards.map fun (node, index, shard) => ⟨node, index, shard, stage⟩)

/-- The searches opened by a collect stage. -/
def subContextsOf (s : Session) (stage : StageId) : SortedMap SubContextId ShardLocation :=
  s.subContexts.filter fun _ location => location.collectStage == stage

end Session

/-- A planning step. -/
abbrev Planning (α : Type) : Type := ExceptT Fault (StateM Session) α

namespace Planning

/-- Takes the next stage id. -/
def takeStage : Planning StageId := modifyGet Session.takeStage

/-- Registers one search per shard. -/
def allocate (routing : Routing) (stage : StageId) : Planning (List SubContextId) :=
  modifyGet (·.allocate routing stage)

/-- Counts something. -/
def count (f : Ledger → Ledger) : Planning Unit :=
  modify fun s => { s with ledger := f s.ledger }

/-- A step that may only fail to plan. -/
def ofExcept {α : Type} : Except PlanFault α → Planning α
  | .ok a => pure a
  | .error cause => throw (.planning cause)

end Planning

/-- Plans what one base table has to supply; nothing if it cannot be planned yet. -/
abbrev RelationPlanner : Type := TableQuery → Planning (Option Plan)

end ShardJoin
