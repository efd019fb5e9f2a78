/-
What stands in the columns of a row after some projections.

A projection emits a row of its own over the row that it receives, so the
expressions behind the emitted columns are those of the projection, read over
the expressions behind the received columns.  What a fetch reads back it reads
from storage, by the row ids in its row.

* `Expr.eval_unresolve` — the value of an expression that is read over a row;
* `Projection.columns` — the expressions behind the columns that a projection
  emits;
* `Engine.ReadsBack` — an engine fetches what is stored;
* `Projection.exists_turns_foldl` — rows that hold the values of some
  expressions are turned into rows that hold the values of the expressions
  behind the emitted columns;
* `Plan.keepsColumns_iff` — when the result stage of a plan leaves every value
  in its column.
-/
import Mathlib.Data.List.Perm.Subperm
import ShardJoin.Proofs.Plan.Execution

namespace ShardJoin

variable {α : Type}

/-! ### Expressions over a row -/

namespace Expr

mutual
/-- An expression with the expressions of a row in place of the positions it reads, and others in
place of its references. -/
def unresolve (row : List Expr) (column : ColumnRef → Expr) : Expr → Expr
  | .column r => column r
  | .call fn args => .call fn (unresolveAll row column args)
  | .literal v t => .literal v t
  | .input c => row[c.index]?.getD .null

/-- Reads each expression of a list over a row. -/
def unresolveAll (row : List Expr) (column : ColumnRef → Expr) : List Expr → List Expr
  | [] => []
  | e :: es => e.unresolve row column :: unresolveAll row column es
end

theorem unresolveAll_eq (row : List Expr) (column : ColumnRef → Expr) (es : List Expr) :
    unresolveAll row column es = es.map (unresolve row column) := by
  induction es with
  | nil => rfl
  | cons e es ih => rw [unresolveAll, ih, List.map_cons]

/-- An expression that is read over a row has the value that it has where positions and references
have the values of what is put in their place. -/
theorem eval_unresolve (ι : Interpretation α) {row : List Expr} {column : ColumnRef → Expr}
    {env env' : Env α} (hinput : ∀ i, env'.input i = (row[i]?.getD .null).eval ι env) {e : Expr}
    (hcolumn : ∀ r ∈ e.references, env'.column r = (column r).eval ι env) :
    (e.unresolve row column).eval ι env = e.eval ι env' := by
  induction e using induct with
  | literal v t => rfl
  | input c => exact (hinput c.index).symm
  | column r => exact (hcolumn r (by simp [references])).symm
  | call fn args ih =>
    rw [unresolve, unresolveAll_eq, eval_call, eval_call, List.map_map]
    refine congrArg _ (List.map_congr_left fun a ha => ih a ha fun r hr => ?_)
    exact hcolumn r (mem_references_call ha hr)

end Expr

/-- The values of some expressions. -/
def valuesOf (ι : Interpretation α) (row : List Expr) (env : Env α) : List (Datum α) :=
  row.map (Expr.eval ι env)

/-- The value that stands at a position. -/
theorem getElem?_valuesOf (ι : Interpretation α) (row : List Expr) (env : Env α) (i : Nat) :
    (valuesOf ι row env)[i]?.getD .null = (row[i]?.getD .null).eval ι env := by
  rw [valuesOf, List.getElem?_map]
  cases row[i]? <;> rfl

/-- Without access to storage an expression reads the row alone. -/
theorem Expr.eval_unresolve_ofRow (ι : Interpretation α) (row : List Expr) (env : Env α) (e : Expr) :
    (e.unresolve row fun _ => .null).eval ι env = e.eval ι (.ofRow (valuesOf ι row env)) :=
  eval_unresolve ι (getElem?_valuesOf ι row env) fun _ _ => rfl

/-- A row of the values of some expressions holds the values of all that are the same. -/
theorem Expr.holds_valuesOf (ι : Interpretation α) (row : List Expr) (env : Env α) :
    Expr.Holds ι env row (valuesOf ι row env) := by
  unfold Expr.Holds valuesOf
  rw [List.forall₂_map_right_iff, List.forall₂_same]
  exact fun _ _ _ hsame hregular => (Expr.eval_same ι env hsame hregular).symm

/-- An expression that is resolved in a row and read over it has its value again. -/
theorem Expr.eval_unresolve_resolve (ι : Interpretation α) {row : List Expr}
    {column : ColumnRef → Expr} {env : Env α} {e : Expr}
    (hregular : ∀ v ∈ e.literals, v.isRegular = true) (hinputs : e.inputs = [])
    (hcolumn : ∀ r ∈ (e.resolve row).references, (column r).eval ι env = env.column r) :
    ((e.resolve row).unresolve row column).eval ι env = e.eval ι env := by
  -- what is found in the row is the same as what was looked for
  have hfound : ∀ {e : Expr} {i : Nat} (type : DataType), (∀ v ∈ e.literals, v.isRegular = true) →
      e.position? row = some i → ((inputAt i type).unresolve row column).eval ι env = e.eval ι env := by
    intro e i type hregular hi
    obtain ⟨o, ho, hsame⟩ := position?_eq_some hi
    rw [inputAt, unresolve, ho]
    exact eval_same ι env hsame hregular
  induction e using induct with
  | literal v t => rfl
  | input c => simp [inputs] at hinputs
  | column r =>
    rw [resolve] at hcolumn ⊢
    cases hi : position? (.column r) row with
    | some i => exact hfound _ hregular hi
    | none => exact hcolumn r (by simp [hi, references])
  | call fn args ih =>
    rw [resolve] at hcolumn ⊢
    cases hi : position? (.call fn args) row with
    | some i => exact hfound _ hregular hi
    | none =>
      simp only [hi] at hcolumn
      rw [inputs, inputsAll_eq, List.flatMap_eq_nil_iff] at hinputs
      rw [unresolve, unresolveAll_eq, resolveAll_eq, eval_call, eval_call, List.map_map, List.map_map]
      refine congrArg _ (List.map_congr_left fun a ha => ih a ha ?_ (hinputs a ha) ?_)
      · exact fun v hv => hregular v (mem_literals_call ha hv)
      · refine fun r hr => hcolumn r (mem_references_call (a := a.resolve row) ?_ hr)
        rw [resolveAll_eq]
        exact List.mem_map_of_mem ha

/-! ### Storage -/

/-- Storage: the value of a column in the row that has an id. -/
structure Store (α : Type) where
  value : ColumnRef → Datum α → Datum α
  value_same : ∀ {r s : ColumnRef}, r.same s = true → value r = value s

/-- The columns of an environment are those of the rows whose ids it has. -/
def Env.StoredIn (store : Store α) (env : Env α) : Prop :=
  ∀ r d : ColumnRef, d.relation = r.relation → d.isDocId = true →
    env.column r = store.value r (env.column d)

namespace Fetch

/-- The column that holds the row id of a relation. -/
def docIdColumn? (f : Fetch) (relation : RelationName) : Option InputColumn :=
  (f.docIdColumns.find? (·.1 == relation)).map (·.2)

/-- What a fetch reads: its row, and the columns of the rows whose ids it has. -/
def env (f : Fetch) (store : Store α) (data : List (Datum α)) : Env α where
  column r :=
    match f.docIdColumn? r.relation with
    | some c => store.value r (data[c.index]?.getD .null)
    | none => .null
  column_same := by
    intro r s h
    have hrelation : r.relation = s.relation := by
      simp only [ColumnRef.same, Bool.and_eq_true, beq_iff_eq] at h
      exact h.1.1.1.1
    rw [hrelation, store.value_same h]
  input i := data[i]?.getD .null

/-- Every reference of the outputs is among the columns to read, and the row id of its relation is
in the row. -/
def Lists (f : Fetch) : Prop :=
  ∀ o ∈ f.outputs, ∀ r ∈ o.references, (f.docIdColumn? r.relation).isSome = true ∧
    ∃ e ∈ f.fetchColumns ++ f.partitionColumns, e.1 = r.relation ∧ ∃ c ∈ e.2, c.same r = true

/-- The row ids are where the fetch looks for them. -/
def FindsIds (f : Fetch) (row : List Expr) : Prop :=
  ∀ relation c, f.docIdColumn? relation = some c →
    ∃ d : ColumnRef, row[c.index]? = some (.column d) ∧ d.relation = relation ∧ d.isDocId = true

end Fetch

/-- An engine that fetches the columns of stored rows, of which some environments are made up. -/
def Engine.ReadsBack (ι : Interpretation α) (engine : Engine α) (tuples : Env α → Prop) : Prop :=
  ∃ store : Store α, (∀ env, tuples env → env.StoredIn store) ∧ ∀ f : Fetch, f.Lists → ∀ rows,
    engine.fetch f rows = rows.map fun data => f.outputs.map (Expr.eval ι (f.env store data))

/-- An engine whose fetches read some storage. -/
def Engine.reading (ι : Interpretation α) (engine : Engine α) (store : Store α) : Engine α :=
  { engine with fetch := fun f rows => rows.map fun data => f.outputs.map (Expr.eval ι (f.env store data)) }

theorem Engine.readsBack_reading (ι : Interpretation α) (engine : Engine α) (store : Store α) :
    (engine.reading ι store).ReadsBack ι (·.StoredIn store) :=
  ⟨store, fun _ h => h, fun _ _ _ => rfl⟩

/-! ### Columns -/

namespace Projection

/-- The expressions behind the columns that a projection emits. -/
def columns (row : List Expr) : Projection → List Expr
  | .filter _ => row
  | .topN _ _ _ outputs | .nestedLoopMerge outputs => outputs.map (Expr.unresolve row fun _ => .null)
  | .fetch f => f.outputs.map (Expr.unresolve row .column)

/-- If the projection fetches, an engine can do that. -/
def Readable (ι : Interpretation α) (engine : Engine α) (tuples : Env α → Prop)
    (row : List Expr) : Projection → Prop
  | .fetch f => f.Lists ∧ f.FindsIds row ∧ engine.ReadsBack ι tuples
  | _ => True

variable (ι : Interpretation α) (engine : Engine α)

theorem emit_valuesOf (row outputs : List Expr) (env : Env α) :
    emit ι outputs (valuesOf ι row env) =
      valuesOf ι (outputs.map (Expr.unresolve row fun _ => .null)) env := by
  show outputs.map _ = (outputs.map _).map _
  rw [List.map_map]
  exact List.map_congr_left fun o _ => (Expr.eval_unresolve_ofRow ι row env o).symm

/-- A fetch gives the values of its outputs. -/
theorem fetch_valuesOf {f : Fetch} {row : List Expr} {store : Store α} (hlists : f.Lists)
    (hids : f.FindsIds row) {env : Env α} (hstored : env.StoredIn store) :
    f.outputs.map (Expr.eval ι (f.env store (valuesOf ι row env))) =
      valuesOf ι (f.outputs.map (Expr.unresolve row .column)) env := by
  show _ = (f.outputs.map _).map _
  rw [List.map_map]
  refine List.map_congr_left fun o ho => (Expr.eval_unresolve ι ?_ fun r hr => ?_).symm
  · exact getElem?_valuesOf ι row env
  -- the row id of the relation leads to the row that the reference is about
  · obtain ⟨c, hc⟩ := Option.isSome_iff_exists.1 (hlists o ho r hr).1
    obtain ⟨d, hd, hrelation, hdocId⟩ := hids _ c hc
    have hcolumn : (f.env store (valuesOf ι row env)).column r =
        store.value r ((valuesOf ι row env)[c.index]?.getD .null) := by
      simp only [Fetch.env, hc]
    rw [hcolumn, getElem?_valuesOf, hd]
    exact (hstored r d hrelation hdocId).symm

/-- What a step makes of rows that hold the values of some expressions: for some of the
environments, in whatever order, rows that hold the values of others.  Of a row that comes out many
copies would come out, too. -/
structure Turns (step : List (List (Datum α)) → List (List (Datum α))) (row row' : List Expr)
    (envs envs' : List (Env α)) : Prop where
  subperm : envs'.Subperm envs
  eq : step (envs.map (valuesOf ι row)) = envs'.map (valuesOf ι row')
  copies : ∀ env ∈ envs', ∀ n, envs.length ≤ n → ∃ m, envs'.length ≤ m ∧
    step (List.replicate n (valuesOf ι row env)) = List.replicate m (valuesOf ι row' env)

variable {ι engine} in
/-- One step after another. -/
theorem Turns.comp {f g : List (List (Datum α)) → List (List (Datum α))}
    {first second third : List Expr} {envs between envs' : List (Env α)}
    (hf : Turns ι f first second envs between) (hg : Turns ι g second third between envs') :
    Turns ι (fun rows => g (f rows)) first third envs envs' where
  subperm := hg.subperm.trans hf.subperm
  eq := by rw [hf.eq, hg.eq]
  copies := by
    intro env henv n hn
    obtain ⟨m, hm, hcopies⟩ := hf.copies env (hg.subperm.subset henv) n hn
    rw [hcopies]
    exact hg.copies env henv m hm

variable {ι} in
/-- A step that turns every row by itself. -/
theorem Turns.of_map {step : List (List (Datum α)) → List (List (Datum α))}
    {f : List (Datum α) → List (Datum α)} (hstep : ∀ rows, step rows = rows.map f)
    {row row' : List Expr} {envs : List (Env α)}
    (hf : ∀ env ∈ envs, f (valuesOf ι row env) = valuesOf ι row' env) :
    Turns ι step row row' envs envs where
  subperm := .refl envs
  eq := by
    rw [hstep, List.map_map]
    exact List.map_congr_left hf
  copies := by
    intro env henv n hn
    refine ⟨n, hn, ?_⟩
    rw [hstep, List.map_replicate, hf env henv]

/-- A top-n sorts the rows and cuts them to a page. -/
theorem turns_topN (row : List Expr) (limit offset : UInt64) (orderBy : Option OrderBy)
    (outputs : List Expr) (envs : List (Env α)) :
    ∃ envs', Turns ι (run ι engine · (.topN limit offset orderBy outputs)) row
      (outputs.map (Expr.unresolve row fun _ => .null)) envs envs' := by
  have hsort := sortBy_map ι (OrderBy.entriesOf orderBy) (fun env => .ofRow (valuesOf ι row env))
    id (valuesOf ι row) envs fun _ _ _ _ => rfl
  rw [show (OrderBy.entriesOf orderBy).map (fun s => { s with key := id s.key }) =
    OrderBy.entriesOf orderBy from List.map_id _] at hsort
  set sorted := sortBy ι (OrderBy.entriesOf orderBy) (fun env => .ofRow (valuesOf ι row env)) envs
  have hperm : sorted.Perm envs := sortBy_perm ι _ _ envs
  refine ⟨(sorted.drop offset.toNat).take limit.toNat, ?_, ?_, fun env _ n hn => ?_⟩
  · exact ((List.take_sublist _ _).trans (List.drop_sublist _ _)).subperm.trans hperm.subperm
  · rw [run, hsort, ← List.map_drop, ← List.map_take, List.map_map]
    exact List.map_congr_left fun env _ => emit_valuesOf ι row outputs env
  -- sorting leaves copies of one row as they are
  · have hcopies := List.perm_replicate.1 (sortBy_perm ι (OrderBy.entriesOf orderBy) Env.ofRow
      (List.replicate n (valuesOf ι row env)))
    refine ⟨min limit.toNat (n - offset.toNat), ?_, ?_⟩
    · rw [List.length_take, List.length_drop, hperm.length_eq]
      omega
    · rw [run, hcopies, List.drop_replicate, List.take_replicate, List.map_replicate,
        emit_valuesOf]

/-- A filter drops some rows. -/
theorem turns_filter (row : List Expr) (query : Expr) (envs : List (Env α)) :
    ∃ envs', Turns ι (run ι engine · (.filter query)) row row envs envs' := by
  refine ⟨envs.filter fun env => query.holds ι (.ofRow (valuesOf ι row env)),
    List.filter_sublist.subperm, ?_, fun env henv n hn => ?_⟩
  · rw [run, List.filter_map]
    rfl
  · refine ⟨n, Nat.le_trans (List.length_filter_le _ _) hn, ?_⟩
    rw [run, List.filter_replicate_of_pos]
    exact (List.mem_filter.1 henv).2

/-- Rows that hold the values of some expressions are turned into rows that hold the values of
those behind the emitted columns. -/
theorem exists_turns {tuples : Env α → Prop} {row : List Expr} {p : Projection}
    (hread : p.Readable ι engine tuples row) {envs : List (Env α)}
    (henvs : ∀ env ∈ envs, tuples env) :
    ∃ envs', Turns ι (run ι engine · p) row (p.columns row) envs envs' := by
  cases p with
  | filter query => exact turns_filter ι engine row query envs
  | topN limit offset orderBy outputs =>
    exact turns_topN ι engine row limit offset orderBy outputs envs
  | nestedLoopMerge outputs =>
    exact ⟨envs, .of_map (fun _ => rfl) fun env _ => emit_valuesOf ι row outputs env⟩
  | fetch f =>
    obtain ⟨hlists, hids, store, hstored, hfetch⟩ := hread
    exact ⟨envs, .of_map (hfetch f hlists) fun env henv =>
      fetch_valuesOf ι hlists hids (hstored env (henvs env henv))⟩

/-- Whatever projections of a chain fetch, an engine can do that. -/
def ReadableAll (tuples : Env α → Prop) : List Expr → List Projection → Prop
  | _, [] => True
  | row, p :: ps => p.Readable ι engine tuples row ∧ ReadableAll tuples (p.columns row) ps

/-- So do chains of projections. -/
theorem exists_turns_foldl {tuples : Env α → Prop} {row : List Expr} {ps : List Projection}
    (hread : ReadableAll ι engine tuples row ps) {envs : List (Env α)}
    (henvs : ∀ env ∈ envs, tuples env) :
    ∃ envs', Turns ι (fun rows => ps.foldl (run ι engine) rows) row (ps.foldl columns row) envs
      envs' := by
  induction ps generalizing row envs with
  | nil => exact ⟨envs, .refl envs, rfl, fun env _ n hn => ⟨n, hn, rfl⟩⟩
  | cons p ps ih =>
    obtain ⟨between, hfirst⟩ := exists_turns ι engine hread.1 henvs
    obtain ⟨envs', hrest⟩ := ih hread.2 fun env henv => henvs env (hfirst.subperm.subset henv)
    exact ⟨envs', hfirst.comp hrest⟩

/-- A row that is passed through keeps its columns. -/
theorem columns_passThrough (row : List Expr) :
    (passThrough (row.map Expr.type)).map (Expr.unresolve row fun _ => .null) = row := by
  refine List.ext_getElem (by simp [passThrough]) fun i hi hi' => ?_
  simp [passThrough, Expr.inputAt, Expr.unresolve, hi']

/-- A projection that emits its row of the given types as it is, if at all. -/
def Passes (types : List DataType) : Projection → Prop
  | .filter _ => True
  | .topN _ _ _ outputs | .nestedLoopMerge outputs => outputs = passThrough types
  | .fetch _ => False

variable {ι engine}

theorem Passes.columns_eq {row : List Expr} {p : Projection} (h : p.Passes (row.map Expr.type)) :
    p.columns row = row := by
  cases p with
  | filter query => rfl
  | fetch f => cases h
  | nestedLoopMerge outputs =>
    obtain rfl : outputs = _ := h
    exact columns_passThrough row
  | topN limit offset orderBy outputs =>
    obtain rfl : outputs = _ := h
    exact columns_passThrough row

theorem Passes.readable {types : List DataType} {tuples : Env α → Prop} {row : List Expr}
    {p : Projection} (h : p.Passes types) : p.Readable ι engine tuples row := by
  cases p with
  | fetch f => cases h
  | filter query => exact trivial
  | topN limit offset orderBy outputs => exact trivial
  | nestedLoopMerge outputs => exact trivial

variable (ι engine) in
/-- A chain of projections that pass their rows keeps the columns. -/
theorem columns_of_passes {row : List Expr} {ps : List Projection}
    (h : ∀ p ∈ ps, p.Passes (row.map Expr.type)) :
    ps.foldl columns row = row ∧
      ∀ tuples : Env α → Prop, ReadableAll ι engine tuples row ps := by
  induction ps with
  | nil => exact ⟨rfl, fun _ => trivial⟩
  | cons p ps ih =>
    rw [List.forall_mem_cons] at h
    obtain ⟨hcolumns, hread⟩ := ih h.2
    refine ⟨?_, fun tuples => ⟨h.1.readable, ?_⟩⟩
    · rw [List.foldl_cons, h.1.columns_eq, hcolumns]
    · rw [h.1.columns_eq]
      exact hread tuples

end Projection

/-! ### The columns of a plan -/

namespace Plan

mutual
theorem outputs?_mapResultStage (f : MergeStage → MergeStage) :
    ∀ p : Plan, (p.mapResultStage f).outputs? = p.outputs? ∧
      (p.mapResultStage f).resultStage? = p.resultStage?.map f
  | .tableGet get => by
    rw [mapResultStage]
    exact ⟨rfl, rfl⟩
  | .scan s => by
    rw [mapResultStage]
    exact ⟨rfl, rfl⟩
  | .nestedLoop left right leftOuter merge => by
    rw [mapResultStage]
    exact ⟨rfl, rfl⟩
  | .noOp types => by
    rw [mapResultStage]
    exact ⟨rfl, rfl⟩
  | .iterable plans => by
    rw [mapResultStage]
    exact lastOutputs?_mapLastResultStage f plans

theorem lastOutputs?_mapLastResultStage (f : MergeStage → MergeStage) :
    ∀ plans : List Plan, lastOutputs? (mapLastResultStage f plans) = lastOutputs? plans ∧
      lastResultStage? (mapLastResultStage f plans) = (lastResultStage? plans).map f
  | [] => by
    rw [mapLastResultStage]
    exact ⟨rfl, rfl⟩
  | [p] => by
    rw [mapLastResultStage]
    exact outputs?_mapResultStage f p
  | q :: p :: ps => by
    have ih := lastOutputs?_mapLastResultStage f (p :: ps)
    obtain ⟨p', ps', hrest⟩ := exists_mapLastResultStage_cons f p ps
    rw [hrest] at ih
    rw [mapLastResultStage, hrest]
    exact ih
end

/-- The projections that turn the rows of a plan into its result. -/
def resultProjections (p : Plan) : List Projection :=
  match p.resultStage? with
  | some stage => stage.projections
  | none => []

/-- Where the rows are sent changes neither the columns nor what the result stage does. -/
theorem outputs?_routeResult (consumer : Downstream) (p : Plan) :
    (p.routeResult consumer).outputs? = p.outputs? ∧
      (p.routeResult consumer).resultTypes = p.resultTypes ∧
      (p.routeResult consumer).resultProjections = p.resultProjections := by
  have htypes := outputTypes_routeResult consumer p
  unfold routeResult at htypes ⊢
  split at htypes
  · exact ⟨rfl, rfl, rfl⟩
  · obtain ⟨houtputs, hstage⟩ := outputs?_mapResultStage ({ · with downstream := consumer }) p
    refine ⟨houtputs, ?_, ?_⟩
    · rw [resultTypes, resultTypes, hstage, htypes]
      cases p.resultStage? <;> rfl
    · rw [resultProjections, resultProjections, hstage]
      cases p.resultStage? <;> rfl

/-- The expressions behind the columns of the result, for those behind the outputs. -/
def resultColumns (p : Plan) (outputs : List Expr) : List Expr :=
  p.resultProjections.foldl Projection.columns outputs

/-- Rows that hold the values of the outputs still do after the result stage, which may drop some
of them and put them in another order. -/
def KeepsColumns (ι : Interpretation α) (engine : Engine α) (tuples : Env α → Prop) (p : Plan)
    (outputs : List Expr) : Prop :=
  ∀ envs : List (Env α), (∀ env ∈ envs, tuples env) → ∃ envs' : List (Env α), envs'.Subperm envs ∧
    p.resultProjections.foldl (Projection.run ι engine) (envs.map (valuesOf ι outputs)) =
      envs'.map (valuesOf ι outputs)

/-- What comes out where copies of one row go in is that row. -/
theorem KeepsColumns.eq_of_mem {ι : Interpretation α} {engine : Engine α} {tuples : Env α → Prop}
    {p : Plan} {outputs : List Expr} (h : p.KeepsColumns ι engine tuples outputs) {env : Env α}
    (henv : tuples env) {n : Nat} {data : List (Datum α)}
    (hdata : data ∈ p.resultProjections.foldl (Projection.run ι engine)
      (List.replicate n (valuesOf ι outputs env))) : data = valuesOf ι outputs env := by
  obtain ⟨envs', hsub, hrun⟩ := h (List.replicate n env) fun env' henv' => by
    rwa [List.eq_of_mem_replicate henv']
  rw [← List.map_replicate, hrun] at hdata
  obtain ⟨env', henv', rfl⟩ := List.mem_map.1 hdata
  rw [List.eq_of_mem_replicate (hsub.subset henv')]

/-- A result stage leaves every value in its column if, wherever it does not drop all copies of a
row, the expressions behind the columns of the result have the values of the outputs; and only
then. -/
theorem keepsColumns_iff {ι : Interpretation α} {engine : Engine α} {tuples : Env α → Prop}
    {p : Plan} {outputs : List Expr}
    (hread : Projection.ReadableAll ι engine tuples outputs p.resultProjections) :
    p.KeepsColumns ι engine tuples outputs ↔ ∀ env, tuples env → ∀ n,
      p.resultProjections.foldl (Projection.run ι engine)
          (List.replicate n (valuesOf ι outputs env)) ≠ [] →
        valuesOf ι (p.resultColumns outputs) env = valuesOf ι outputs env := by
  constructor
  · intro hkeeps env henv n hne
    have hcopies : ∀ env' ∈ List.replicate n env, tuples env' := fun env' henv' => by
      rwa [List.eq_of_mem_replicate henv']
    obtain ⟨kept, hkept, hrun⟩ := hkeeps _ hcopies
    obtain ⟨turned, hturns⟩ := Projection.exists_turns_foldl ι engine hread hcopies
    rw [hturns.eq] at hrun
    rw [← List.map_replicate, hturns.eq] at hne
    -- the first row that comes out is a copy of the one row that goes in
    cases turned with
    | nil => exact absurd rfl hne
    | cons first others =>
      cases kept with
      | nil => cases hrun
      | cons first' others' =>
        obtain rfl := List.eq_of_mem_replicate (hturns.subperm.subset List.mem_cons_self)
        obtain rfl := List.eq_of_mem_replicate (hkept.subset List.mem_cons_self)
        exact (List.cons.inj hrun).1
  · intro hcolumns envs henvs
    obtain ⟨turned, hturns⟩ := Projection.exists_turns_foldl ι engine hread henvs
    refine ⟨turned, hturns.subperm, hturns.eq.trans (List.map_congr_left fun env henv => ?_)⟩
    obtain ⟨m, hm, hcopies⟩ := hturns.copies env henv _ (Nat.le_refl _)
    refine hcolumns env (henvs env (hturns.subperm.subset henv)) envs.length fun hnil => ?_
    obtain rfl := List.replicate_eq_nil_iff _ |>.1 (hcopies.symm.trans hnil)
    exact absurd (List.length_pos_of_mem henv) (Nat.not_lt.2 hm)

/-- A result stage that passes its rows keeps their columns. -/
theorem keepsColumns_of_passes {p : Plan} {outputs : List Expr}
    (h : ∀ q ∈ p.resultProjections, q.Passes (outputs.map Expr.type)) (ι : Interpretation α)
    (engine : Engine α) (tuples : Env α → Prop) : p.KeepsColumns ι engine tuples outputs := by
  obtain ⟨hcolumns, hread⟩ := Projection.columns_of_passes ι engine h
  refine (keepsColumns_iff (hread tuples)).2 fun env _ _ _ => ?_
  rw [resultColumns, hcolumns]

end Plan

end ShardJoin
