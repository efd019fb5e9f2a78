/-
The stages of a plan as a graph.

`StageGraph.ofPlan` lists the stages of a plan so that a stage comes after the
stages of the plans below it, and links every stage with the one it sends its
rows to.  It refuses plans with an invalid merge stage, with two stages of one
id, with a route to a stage that is not there, and with a route that names
other nodes than those its target runs on.
-/
import ShardJoin.Plan

namespace ShardJoin

/-- Whether a stage scans a table or merges rows. -/
inductive StageKind where
  | collect
  | merge
  deriving DecidableEq

/-- A stage with its neighbours. -/
structure StageNode where
  id : StageId
  kind : StageKind
  name : String
  nodes : List NodeId
  operators : List String
  /-- The stages that receive the rows. -/
  parents : List StageId
  /-- The stages that send rows. -/
  children : List StageId
  downstream : Downstream

namespace StageNode

/-- The entry of a collect stage, not yet linked. -/
def ofCollect (s : CollectStage) : StageNode where
  id := s.id
  kind := .collect
  name := s.name
  nodes := s.executionNodes
  operators := ["Collect(" ++ s.table.text ++ ")"]
  parents := []
  children := []
  downstream := s.downstream

/-- The entry of a merge stage, not yet linked. -/
def ofMerge (s : MergeStage) : StageNode where
  id := s.id
  kind := .merge
  name := s.name
  nodes := s.executionNodes
  operators := s.projections.map Projection.name
  parents := []
  children := []
  downstream := s.downstream

end StageNode

/-- A stage of a plan. -/
inductive Stage where
  | collect (stage : CollectStage)
  | merge (stage : MergeStage)

namespace Stage

def node : Stage → StageNode
  | .collect s => .ofCollect s
  | .merge s => .ofMerge s

/-- Checks the projections of a merge stage. -/
def validate : Stage → Except PlanFault Unit
  | .collect _ => .ok ()
  | .merge s => s.validate

end Stage

mutual
/-- The stages of a plan: those of the plans below it first, a scan before its merge. -/
def Plan.stages : Plan → List Stage
  | .scan s =>
    .collect s.collect :: match s.merge with
      | some merge => [.merge merge]
      | none => []
  | .nestedLoop left right _ merge => left.stages ++ right.stages ++ [.merge merge]
  | .iterable plans => Plan.stagesAll plans
  | .tableGet _ | .noOp _ => []

/-- The stages of a list of plans, in order. -/
def Plan.stagesAll : List Plan → List Stage
  | [] => []
  | p :: ps => p.stages ++ Plan.stagesAll ps
end

/-- The stages of a plan, each with its neighbours. -/
structure StageGraph where
  stages : List StageNode

namespace StageGraph

/-- The last stage that sends its rows to the node that issued the query. -/
def root? (g : StageGraph) : Option StageId :=
  (g.stages.reverse.find? (·.downstream.isHandler)).map (·.id)

/-- The stage with an id. -/
def stage? (g : StageGraph) (id : StageId) : Option StageNode := g.stages.find? (·.id == id)

/-- The stages that a node runs, in order. -/
def stagesOn (g : StageGraph) (node : NodeId) : List StageId :=
  (g.stages.filter (·.nodes.contains node)).map (·.id)

/-- The stages by node, listed once for every time that a stage names the node. -/
def assignments (g : StageGraph) : SortedMap NodeId (List StageId) :=
  g.stages.foldl (fun map s =>
    s.nodes.foldl (fun map node => map.update node fun ids => ids.getD [] ++ [s.id]) map) .empty

/-- Checks every merge stage in order. -/
def validateAll : List Stage → Except PlanFault Unit
  | [] => .ok ()
  | s :: rest => do
    s.validate
    validateAll rest

/-- Refuses an id that an earlier stage has. -/
def checkIds (seen : List StageId) : List StageNode → Except RouteFault Unit
  | [] => .ok ()
  | s :: rest =>
    if seen.contains s.id then .error (.sharedId s.id) else checkIds (s.id :: seen) rest

/-- Checks where a stage sends its rows. -/
def checkRoute (stages : List StageNode) (s : StageNode) : Except RouteFault Unit :=
  match s.downstream with
  | .handler _ => .ok ()
  | .stage nodes target =>
    match stages.find? (·.id == target) with
    | none => .error (.unknownTarget s.id target)
    | some t => if t.nodes = nodes then .ok () else .error (.wrongNodes s.id nodes target t.nodes)

/-- Checks all routes in order. -/
def checkRoutes (stages : List StageNode) : List StageNode → Except RouteFault Unit
  | [] => .ok ()
  | s :: rest => do
    checkRoute stages s
    checkRoutes stages rest

/-- Enters the neighbours of a stage: the one it sends to, and those that send to it. -/
def link (stages : List StageNode) (s : StageNode) : StageNode :=
  { s with
    parents := s.downstream.stage?.toList
    children := (stages.filter (·.downstream.stage? == some s.id)).map (·.id) }

/-- The graph of a list of stages. -/
def ofNodes (stages : List StageNode) : Except RouteFault StageGraph := do
  checkIds [] stages
  checkRoutes stages stages
  return ⟨stages.map (link stages)⟩

/-- The stages of a plan as a graph. -/
def ofPlan (p : Plan) : Except PlanFault StageGraph := do
  validateAll p.stages
  match ofNodes (p.stages.map Stage.node) with
  | .ok g => return g
  | .error fault => throw (.route fault)

end StageGraph

end ShardJoin
