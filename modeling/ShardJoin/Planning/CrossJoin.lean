/-
Planning a select from several sources as nested loops.

The sources are planned one by one and joined to a left-deep tree.  A source
whose columns lead the order by comes first, so that it drives the outer loop
and the joined rows come out in the order of the pushed keys; sources without
such keys keep their order at the end.  Every join is a merge stage of its
own, which runs where the result of its left side is merged; both sides send
their rows there.
-/
import ShardJoin.Planning.ResultRow

namespace ShardJoin.CrossJoin

/-- The name under which plans are counted. -/
def plannerName : String := "cross_join"

/-- What planning a statement gives. -/
inductive Outcome where
  | planned (plan : Plan)
  | notApplicable

/-- Refuses what a cross join does not support. -/
def validate (s : Statement) : Except StatementFault Unit :=
  if !s.select.groupBy.isEmpty then .error .groupBy
  else if s.select.hasAggregates then .error .aggregates
  else if s.sources.any (·.2.isSubQuery) then .error .subQueries
  else .ok ()

/-- Whether a source goes before another one: by its first key, and after all that have one if it
has none. -/
def keyLE : Option Nat → Option Nat → Bool
  | some a, some b => a ≤ b
  | some _, none => true
  | none, some _ => false
  | none, none => true

/-- The positions of the sources in the order in which they are joined. -/
def joinOrder (firstKeys : List (Option Nat)) : List Nat :=
  (List.range firstKeys.length).mergeSort fun i j =>
    keyLE (firstKeys[i]?.getD none) (firstKeys[j]?.getD none)

/-- Joins two plans in a merge stage with the given id. -/
def nestedLoop (handler : NodeId) (id : StageId) (left right : Plan) : Plan :=
  let nodes := match left.resultStage? with
    | some stage => stage.executionNodes
    | none => [handler]
  let here := Downstream.stage nodes id
  let types := left.outputTypes ++ right.outputTypes
  .nestedLoop (left.routeResult here) (right.routeResult here) true
    { id
      name := "nested-loop"
      executionNodes := nodes
      inputTypes := types
      senders := 2
      projections := [.nestedLoopMerge (Projection.passThrough types)]
      sort := none
      downstream := .handler handler }

/-- Joins a plan with further plans, one after another, with consecutive stage ids. -/
def joinAll (handler : NodeId) (next : StageId) (left : Plan) : List Plan → Plan
  | [] => left
  | right :: rest => joinAll handler (next + 1) (nestedLoop handler next left right) rest

/-- The row that the leaves of a join emit together.  A plan has to say which expressions it
emits, and its result stage may not change the types of its row. -/
def joinedRow : List (RelationName × Plan) → Except PlanFault (List Expr)
  | [] => .ok []
  | (relation, plan) :: rest =>
    match plan.outputs? with
    | none => .error (.noOutputs relation)
    | some outputs =>
      if plan.resultTypes == plan.outputTypes then do return outputs ++ (← joinedRow rest)
      else .error (.reshaped relation)

/-- Adds the projections of the statement to the join at the root and checks the chain. -/
def finish (session : Session) (select : Select) (split : Split) (row : List Expr)
    (leaves : List Leaf) : Plan → Except PlanFault Plan
  | .nestedLoop left right outer merge => do
    let projections ← ResultRow.projections session select split row leaves
    let merge := { merge with projections := merge.projections ++ projections }
    merge.validate
    return .nestedLoop left right outer merge
  | _ => .error .singleSource

/-- Joins the plans of the sources. -/
def join (select : Select) (split : Split) (plans : List (RelationName × Plan)) :
    Planning Plan := do
  let ordered := (joinOrder split.firstKeys).filterMap (plans[·]?)
  let row ← Planning.ofExcept (joinedRow ordered)
  match ordered.map (·.2) with
  | [] => throw (.planning .noSources)
  | first :: rest =>
    let session ← get
    set (session.skipStages rest.length)
    let root := joinAll session.handler session.nextStage first rest
    let leaves := ordered.map fun (relation, plan) => Leaf.ofPlan relation plan
    Planning.ofExcept (finish session select split row leaves root)

/-- Plans a source; one that is planned stays as it is. -/
def planSource (planner : RelationPlanner) (source : Source) (share : Option TableQuery) :
    Planning Source :=
  match source, share with
  | .planned plan, _ => return .planned plan
  | _, some query => do
    match ← planner query with
    | some plan => return .planned plan
    | none => return .queried query
  | source, none => return source

/-- Plans the sources in order. -/
def planSources (planner : RelationPlanner) :
    List (RelationName × Source) → List (Option TableQuery) →
      Planning (List (RelationName × Source))
  | (name, source) :: rest, share :: shares => do
    let planned ← planSource planner source share
    return (name, planned) :: (← planSources planner rest shares)
  | _, _ => return []

/-- Refuses a statement that a cross join does not support. -/
def check (s : Statement) : Planning Unit :=
  match validate s with
  | .ok () => pure ()
  | .error cause => throw (.statement cause)

/-- Plans every base table of a statement on its own.  Tables that cannot be planned yet become
what they have to supply. -/
def planInner (planner : RelationPlanner) (s : Statement) : Planning Statement := do
  check s
  let split ← Planning.ofExcept (s.split (← get).settings)
  return { s with sources := ← planSources planner s.sources split.shares }

/-- The plans of the sources, if all are planned. -/
def allPlans? : List (RelationName × Source) → Option (List (RelationName × Plan))
  | [] => some []
  | (name, source) :: rest => do
    let plan ← source.plan?
    return (name, plan) :: (← allPlans? rest)

/-- Counts and returns a plan. -/
def built (plan : Plan) : Planning Outcome := do
  Planning.count (·.planBuilt plannerName plan.kind)
  return .planned plan

/-- Leaves the statement to another planner. -/
def deferred : Planning Outcome := do
  Planning.count (·.notApplicable plannerName)
  return .notApplicable

/-- The plan of a statement that has no rows. -/
def emptyPlan (s : Statement) : Plan := .noOp s.select.outputTypes

/-- Plans a statement as a left-deep tree of nested loops. -/
def plan (planner : RelationPlanner) (s : Statement) : Planning Outcome := do
  if s.sources.length < 2 then return ← deferred
  check s
  if s.select.whereClause.isStaticallyFalse then return ← built (emptyPlan s)
  let split ← Planning.ofExcept (s.split (← get).settings)
  let sources ← planSources planner s.sources split.shares
  match allPlans? sources with
  | none => deferred
  | some plans =>
    if plans.any (·.2.isNoOp) then built (emptyPlan s)
    else built (← join s.select split plans)

end ShardJoin.CrossJoin
