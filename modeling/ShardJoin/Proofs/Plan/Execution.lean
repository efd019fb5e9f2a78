/-
What the plans of a statement give when they are run.

An engine runs the leaves: look-ups, scans, and fetches from storage.  A nested
loop combines the rows of its sides and runs the projections of its merge stage
on them.

* `Plan.execute_routeResult` — rows do not depend on where they are sent;
* `Plan.execute_joinAll` — a left-deep tree of nested loops enumerates the
  rows of its leaves like nested loops with the first leaf outermost;
* `Plan.execute_append_projections` — projections run one after another.
-/
import ShardJoin.Planning.CrossJoin
import ShardJoin.Proofs.Plan.Typing
import ShardJoin.Proofs.Rows.Choices
import ShardJoin.Proofs.Rows.Sorting

namespace ShardJoin

variable {α : Type}

/-- How the leaves of a plan are run. -/
structure Engine (α : Type) where
  get : TableGet → List (List (Datum α))
  scan : Scan → List (List (Datum α))
  fetch : Fetch → List (List (Datum α)) → List (List (Datum α))
  /-- A scan gives the same rows wherever its collect stage sends them. -/
  scan_collect : ∀ collect merge phase consumer,
    scan ⟨{ collect with downstream := consumer }, merge, phase⟩ = scan ⟨collect, merge, phase⟩
  /-- A scan gives the same rows wherever its merge stage sends them. -/
  scan_merge : ∀ collect merge phase consumer,
    scan ⟨collect, some { merge with downstream := consumer }, phase⟩ =
      scan ⟨collect, some merge, phase⟩

variable (ι : Interpretation α) (engine : Engine α)

/-- The values of some expressions on a row. -/
def emit (outputs : List Expr) (row : List (Datum α)) : List (Datum α) :=
  outputs.map (Expr.eval ι (.ofRow row))

/-- What a projection makes of its rows. -/
def Projection.run (rows : List (List (Datum α))) : Projection → List (List (Datum α))
  | .filter query => rows.filter fun row => query.holds ι (.ofRow row)
  | .topN limit offset orderBy outputs =>
    (((sortBy ι (OrderBy.entriesOf orderBy) Env.ofRow rows).drop offset.toNat).take
      limit.toNat).map (emit ι outputs)
  | .fetch f => engine.fetch f rows
  | .nestedLoopMerge outputs => rows.map (emit ι outputs)

/-- What a merge stage makes of its rows. -/
def MergeStage.run (stage : MergeStage) (rows : List (List (Datum α))) :
    List (List (Datum α)) :=
  stage.projections.foldl (Projection.run ι engine) rows

/-- The rows of two sides combined, with one side in the outer loop. -/
def loop (leftOuter : Bool) (left right : List (List (Datum α))) : List (List (Datum α)) :=
  if leftOuter then left.flatMap fun a => right.map (a ++ ·)
  else right.flatMap fun b => left.map (· ++ b)

theorem loop_nil_left (rows : List (List (Datum α))) : loop true [[]] rows = rows := by
  simp [loop]

/-- The rows of several sides combined, the first side in the outermost loop. -/
def nestedLoops (sides : List (List (List (Datum α)))) : List (List (Datum α)) :=
  sides.foldl (loop true) [[]]

theorem nestedLoops_singleton (rows : List (List (Datum α))) : nestedLoops [rows] = rows :=
  loop_nil_left rows

/-- The two outermost loops can be combined first. -/
theorem nestedLoops_cons_cons (left right : List (List (Datum α)))
    (rest : List (List (List (Datum α)))) :
    nestedLoops (left :: right :: rest) = nestedLoops (loop true left right :: rest) := by
  unfold nestedLoops
  rw [List.foldl_cons, List.foldl_cons, List.foldl_cons, loop_nil_left, loop_nil_left]

theorem nestedLoops_eq (sides : List (List (List (Datum α)))) :
    nestedLoops sides = (choices sides).map List.flatten :=
  foldl_flatMap_append sides

namespace Plan

mutual
/-- The rows that a plan gives. -/
def execute : Plan → List (List (Datum α))
  | .tableGet get => engine.get get
  | .scan s => engine.scan s
  | .nestedLoop left right leftOuter merge =>
    merge.run ι engine (loop leftOuter left.execute right.execute)
  | .noOp _ => []
  | .iterable plans => executeLast plans

/-- The rows of the last plan of a list. -/
def executeLast : List Plan → List (List (Datum α))
  | [] => []
  | [p] => p.execute
  | _ :: p :: ps => executeLast (p :: ps)
end

/-! ### Where rows are sent -/

mutual
theorem execute_mapResultStage {f : MergeStage → MergeStage}
    (hf : ∀ stage, (f stage).projections = stage.projections)
    (hscan : ∀ collect merge phase,
      engine.scan ⟨collect, Option.map f merge, phase⟩ = engine.scan ⟨collect, merge, phase⟩) :
    ∀ p : Plan, (p.mapResultStage f).execute ι engine = p.execute ι engine
  | .tableGet get => by rw [mapResultStage]
  | .scan ⟨collect, merge, phase⟩ => by rw [mapResultStage, execute, execute, hscan]
  | .nestedLoop left right leftOuter merge => by
    rw [mapResultStage, execute, execute, MergeStage.run, MergeStage.run, hf]
  | .noOp types => by rw [mapResultStage]
  | .iterable plans => by
    rw [mapResultStage, execute, execute]
    exact executeLast_mapLastResultStage hf hscan plans

theorem executeLast_mapLastResultStage {f : MergeStage → MergeStage}
    (hf : ∀ stage, (f stage).projections = stage.projections)
    (hscan : ∀ collect merge phase,
      engine.scan ⟨collect, Option.map f merge, phase⟩ = engine.scan ⟨collect, merge, phase⟩) :
    ∀ plans : List Plan,
      executeLast ι engine (mapLastResultStage f plans) = executeLast ι engine plans
  | [] => by rw [mapLastResultStage]
  | [p] => by
    rw [mapLastResultStage, executeLast, executeLast]
    exact execute_mapResultStage hf hscan p
  | q :: p :: ps => by
    have ih := executeLast_mapLastResultStage hf hscan (p :: ps)
    obtain ⟨p', ps', hrest⟩ := exists_mapLastResultStage_cons f p ps
    rw [hrest] at ih
    rw [mapLastResultStage, hrest, executeLast, executeLast]
    exact ih
end

/-- Rows do not depend on where they are sent. -/
theorem execute_routeResult (consumer : Downstream) (p : Plan) :
    (p.routeResult consumer).execute ι engine = p.execute ι engine := by
  unfold routeResult
  split
  · rename_i collect phase
    exact engine.scan_collect collect none phase consumer
  · refine execute_mapResultStage ι engine (f := ({ · with downstream := consumer }))
      (fun _ => rfl) (fun collect merge phase => ?_) p
    cases merge with
    | none => rfl
    | some merge => exact engine.scan_merge collect merge phase consumer

/-! ### Trees of nested loops -/

/-- A row that is passed through stays as it is. -/
theorem emit_passThrough {types : List DataType} {row : List (Datum α)}
    (h : row.length = types.length) : emit ι (Projection.passThrough types) row = row := by
  unfold emit Projection.passThrough
  refine List.ext_getElem (by simp [h]) fun i hi hi' => ?_
  simp [Expr.inputAt, Expr.eval, Env.ofRow, hi']

/-- A plan whose rows have as many columns as it says. -/
def Regular (p : Plan) : Prop := ∀ row ∈ p.execute ι engine, row.length = p.outputTypes.length

variable {ι engine}

theorem execute_nestedLoop (handler : NodeId) (id : StageId) {left right : Plan}
    (hleft : left.Regular ι engine) (hright : right.Regular ι engine) :
    (CrossJoin.nestedLoop handler id left right).execute ι engine =
        loop true (left.execute ι engine) (right.execute ι engine) ∧
      (CrossJoin.nestedLoop handler id left right).Regular ι engine := by
  have hwidth : ∀ row ∈ loop true (left.execute ι engine) (right.execute ι engine),
      row.length = (left.outputTypes ++ right.outputTypes).length := by
    intro row hrow
    obtain ⟨a, ha, hrow⟩ := List.mem_flatMap.1 hrow
    obtain ⟨b, hb, rfl⟩ := List.mem_map.1 hrow
    rw [List.length_append, List.length_append, hleft a ha, hright b hb]
  have hexecute : (CrossJoin.nestedLoop handler id left right).execute ι engine =
      loop true (left.execute ι engine) (right.execute ι engine) := by
    rw [CrossJoin.nestedLoop, execute, execute_routeResult ι engine _ left,
      execute_routeResult ι engine _ right, MergeStage.run, List.foldl_cons, List.foldl_nil,
      Projection.run]
    refine (List.map_congr_left fun row hrow => emit_passThrough ι (hwidth row hrow)).trans ?_
    exact List.map_id _
  refine ⟨hexecute, fun row hrow => ?_⟩
  rw [hexecute] at hrow
  rw [hwidth row hrow, CrossJoin.nestedLoop, outputTypes, outputTypes_routeResult,
    outputTypes_routeResult]

/-- A left-deep tree of nested loops enumerates the rows of its leaves. -/
theorem execute_joinAll {handler : NodeId} {next : StageId} {left : Plan} {rest : List Plan}
    (hleft : left.Regular ι engine) (hrest : ∀ p ∈ rest, p.Regular ι engine) :
    (CrossJoin.joinAll handler next left rest).execute ι engine =
      nestedLoops ((left :: rest).map (execute ι engine)) := by
  induction rest generalizing left next with
  | nil => exact (nestedLoops_singleton _).symm
  | cons right rest ih =>
    rw [List.forall_mem_cons] at hrest
    obtain ⟨hexecute, hregular⟩ := execute_nestedLoop handler next hleft hrest.1
    rw [CrossJoin.joinAll, ih hregular hrest.2, List.map_cons, hexecute, ← nestedLoops_cons_cons,
      List.map_cons, List.map_cons]

/-- Projections that are added to a merge stage run after those it has. -/
theorem execute_append_projections (left right : Plan) (leftOuter : Bool) (merge : MergeStage)
    (added : List Projection) :
    (Plan.nestedLoop left right leftOuter
        { merge with projections := merge.projections ++ added }).execute ι engine =
      added.foldl (Projection.run ι engine)
        ((Plan.nestedLoop left right leftOuter merge).execute ι engine) := by
  rw [execute, execute, MergeStage.run, MergeStage.run, List.foldl_append]

end Plan

end ShardJoin
