/-
Ways to plan a single base table.

A table can be looked up by primary key or scanned where its shards live.  A
scan may merge on chosen nodes, and may collect only row ids and leave the
outputs to be read back.  Whatever it emits, the join outputs and the keys of
the order by come along, each once.  A strategy may also decline, fail, or
return a plan made elsewhere.
-/
import ShardJoin.Planning.Session

namespace ShardJoin

/-- How a table is scanned. -/
structure ScanOptions where
  /-- Only collect what the join needs and read the outputs back later. -/
  fetch : Bool
  /-- Merge the rows of the shards. -/
  merge : Bool
  /-- With `fetch`, collect the row id. -/
  docId : Bool
  /-- Collect the join outputs. -/
  joinOutputs : Bool
  /-- Run the scan as the last of several plans. -/
  wrap : Bool
  /-- The nodes that merge, if not the node that issued the query. -/
  mergeNodes : Option (List NodeId)

/-- A way to plan a base table. -/
inductive Strategy where
  | decline
  | fail (message : String)
  | canned (plan : Plan)
  | noOp
  | lookUp
  | scan (options : ScanOptions)

namespace Strategy

/-- Expressions followed by those of another list that are not among them yet. -/
def extend (outputs extra : List Expr) : List Expr := extra.foldl Expr.pushNew outputs

/-- What a plan emits besides its own outputs. -/
def extras (q : TableQuery) (joinOutputs : Bool) : List Expr :=
  (if joinOutputs then q.joinOutputs else []) ++
    match q.select.orderBy with
    | some o => o.keys
    | none => []

/-- A look-up by primary key. -/
def lookUpPlan (q : TableQuery) : Plan :=
  .tableGet
    { table := q.tableName
      relation := q.name
      outputs := extend q.select.outputs (extras q true)
      docKeys := q.select.whereClause.docKeys.getD ⟨[]⟩
      limit := q.select.limit }

/-- What a scan collects. -/
def scanOutputs (q : TableQuery) (options : ScanOptions) : List Expr :=
  let own :=
    if options.fetch then if options.docId then [.column q.table.docId] else []
    else q.select.outputs
  extend own (extras q options.joinOutputs)

/-- What a scan leaves to be read back. -/
def fetchPhase (q : TableQuery) (options : ScanOptions) : Option FetchPhase :=
  if options.fetch then
    some ⟨q.select.outputs, (q.select.outputs.flatMap Expr.references).filter (·.partitioned)⟩
  else none

/-- The merge stage of a scan. -/
def mergeStage (handler : NodeId) (q : TableQuery) (options : ScanOptions) (routing : Routing)
    (id : StageId) : MergeStage :=
  let outputs := scanOutputs q options
  { id
    name := "local-merge"
    executionNodes := options.mergeNodes.getD [handler]
    inputTypes := outputs.map Expr.type
    senders := .ofNat routing.nodes.length
    projections := []
    sort := q.select.orderBy.map (·.mapKeys (Expr.resolve outputs))
    downstream := .handler handler }

/-- The collect stage of a scan. -/
def collectStage (handler : NodeId) (q : TableQuery) (options : ScanOptions) (routing : Routing)
    (id : StageId) (merge : Option MergeStage) : CollectStage where
  id
  name := "collect"
  table := q.tableName
  routing
  outputs := scanOutputs q options
  whereClause := q.select.whereClause
  limit := q.select.limit
  orderBy := q.select.orderBy
  downstream := match merge with
    | some m => .stage m.executionNodes m.id
    | none => .handler handler

/-- Plans a scan. -/
def scanPlan (q : TableQuery) (options : ScanOptions) : Planning Plan := do
  let session ← get
  let handler := session.handler
  let routing ← Planning.ofExcept (session.cluster.routing q.tableName)
  let id ← Planning.takeStage
  let merge ←
    if options.merge then do
      let mergeId ← Planning.takeStage
      pure (some (mergeStage handler q options routing mergeId))
    else pure none
  if options.fetch then
    discard <| Planning.allocate routing id
  let scan := Plan.scan
    ⟨collectStage handler q options routing id merge, merge, fetchPhase q options⟩
  return if options.wrap then .iterable [.noOp [], scan] else scan

/-- The relation planner that follows a strategy. -/
def planTable (strategy : Strategy) : RelationPlanner := fun q =>
  match strategy with
  | .decline => return none
  | .fail message => throw (.planning (.stated message))
  | .canned plan => return some plan
  | .noOp => return some (.noOp q.select.outputTypes)
  | .lookUp => return some (lookUpPlan q)
  | .scan options => return some (← scanPlan q options)

end Strategy

end ShardJoin
