/-
The types of the rows of plans and of merge stages.

A merge stage is valid if every projection reads columns that are there, at
their types, and only the last one fetches.

* `Plan.outputTypes_routeResult` — the types of the rows do not depend on
  where they are sent;
* `Plan.outputTypes_eq_of_outputs?` — they are the types of the expressions
  behind the columns;
* `MergeStage.checkChain_cons_eq_ok` — what a chain of projections has to keep;
* `Expr.fitsIn_resolve` — a resolved expression reads columns of its row only.
-/
import ShardJoin.Plan
import ShardJoin.Proofs.Expr.Resolution

namespace ShardJoin

/-! ### Rows of plans -/

namespace Plan

/-- Changing the result stage of the last plan of a list leaves a plan in front. -/
theorem exists_mapLastResultStage_cons (f : MergeStage → MergeStage) (p : Plan)
    (ps : List Plan) : ∃ p' ps', mapLastResultStage f (p :: ps) = p' :: ps' := by
  cases ps with
  | nil => exact ⟨_, _, rfl⟩
  | cons q qs => exact ⟨_, _, rfl⟩

mutual
theorem outputTypes_mapResultStage (f : MergeStage → MergeStage) :
    ∀ p : Plan, (p.mapResultStage f).outputTypes = p.outputTypes
  | .tableGet get => by rw [mapResultStage]
  | .scan s => by rw [mapResultStage, outputTypes, outputTypes]
  | .nestedLoop left right leftOuter merge => by rw [mapResultStage, outputTypes, outputTypes]
  | .noOp types => by rw [mapResultStage]
  | .iterable plans => by
    rw [mapResultStage, outputTypes, outputTypes]
    exact lastOutputTypes_mapLastResultStage f plans

theorem lastOutputTypes_mapLastResultStage (f : MergeStage → MergeStage) :
    ∀ plans : List Plan, lastOutputTypes (mapLastResultStage f plans) = lastOutputTypes plans
  | [] => by rw [mapLastResultStage]
  | [p] => by
    rw [mapLastResultStage, lastOutputTypes, lastOutputTypes]
    exact outputTypes_mapResultStage f p
  | q :: p :: ps => by
    have ih := lastOutputTypes_mapLastResultStage f (p :: ps)
    obtain ⟨p', ps', hrest⟩ := exists_mapLastResultStage_cons f p ps
    rw [hrest] at ih
    rw [mapLastResultStage, hrest, lastOutputTypes, lastOutputTypes]
    exact ih
end

/-- The types of the rows do not depend on where the rows are sent. -/
theorem outputTypes_routeResult (consumer : Downstream) (p : Plan) :
    (p.routeResult consumer).outputTypes = p.outputTypes := by
  unfold routeResult
  split
  · rfl
  · exact outputTypes_mapResultStage _ p

mutual
/-- The types of the rows are the types of the expressions behind them. -/
theorem outputTypes_eq_of_outputs? : ∀ {p : Plan} {outputs : List Expr},
    p.outputs? = some outputs → p.outputTypes = outputs.map Expr.type
  | .tableGet get, outputs, h => by
    obtain rfl := Option.some.inj h
    rw [outputTypes]
  | .scan s, outputs, h => by
    obtain rfl := Option.some.inj h
    rw [outputTypes, CollectStage.outputTypes]
  | .nestedLoop left right _ _, outputs, h => by
    rw [outputs?] at h
    obtain ⟨a, ha, h⟩ := Option.bind_eq_some_iff.1 h
    obtain ⟨b, hb, h⟩ := Option.bind_eq_some_iff.1 h
    obtain rfl := Option.some.inj h
    rw [outputTypes, outputTypes_eq_of_outputs? ha, outputTypes_eq_of_outputs? hb, List.map_append]
  | .iterable plans, outputs, h => by
    rw [outputTypes]
    exact lastOutputTypes_eq_of_outputs? h

theorem lastOutputTypes_eq_of_outputs? : ∀ {plans : List Plan} {outputs : List Expr},
    lastOutputs? plans = some outputs → lastOutputTypes plans = outputs.map Expr.type
  | [p], outputs, h => by
    rw [lastOutputs?] at h
    rw [lastOutputTypes]
    exact outputTypes_eq_of_outputs? h
  | _ :: p :: ps, outputs, h => by
    rw [lastOutputs?] at h
    rw [lastOutputTypes]
    exact lastOutputTypes_eq_of_outputs? h
end

end Plan

/-! ### Columns that are read -/

/-- A column that a row of the given types has, at its type. -/
def InputColumn.FitsIn (types : List DataType) (c : InputColumn) : Prop :=
  ∃ t, types[c.index]? = some t ∧ (t == c.type) = true

namespace MergeStage

theorem checkColumns_eq_ok {projection : String} {types : List DataType}
    {columns : List InputColumn} :
    checkColumns projection types columns = .ok () ↔ ∀ c ∈ columns, c.FitsIn types := by
  induction columns with
  | nil => simp [checkColumns]
  | cons c columns ih =>
    rw [checkColumns, List.forall_mem_cons, InputColumn.FitsIn]
    cases types[c.index]? with
    | none => simp
    | some t => by_cases ht : t == c.type <;> simp [ht, ih]

/-- The first projection reads columns that are there, and is the last one if it fetches. -/
theorem checkChain_cons_eq_ok {types : List DataType} {p : Projection} {rest : List Projection} :
    checkChain types (p :: rest) = .ok () ↔ (p.isFetch = true → rest = []) ∧
      (∀ c ∈ p.inputColumns, c.FitsIn types) ∧ checkChain (p.outputTypes types) rest = .ok () := by
  rw [checkChain, ← @checkColumns_eq_ok p.name]
  by_cases hfetch : p.isFetch && !rest.isEmpty
  · have hlast : ¬(p.isFetch = true → rest = []) := by simpa using hfetch
    simp [hfetch, hlast, bind, Except.bind, throw, throwThe, MonadExceptOf.throw]
  · have hlast : p.isFetch = true → rest = [] := by simpa using hfetch
    rw [and_iff_right hlast]
    cases checkColumns p.name types p.inputColumns <;> simp [hfetch, bind, Except.bind]

theorem validate_eq_ok {s : MergeStage} :
    s.validate = .ok () ↔ checkChain s.inputTypes s.projections = .ok () := by
  unfold validate
  cases checkChain s.inputTypes s.projections <;> simp

end MergeStage

namespace Projection

theorem map_type_passThrough (types : List DataType) :
    (passThrough types).map Expr.type = types := by
  refine List.ext_getElem (by simp [passThrough]) fun i hi hi' => ?_
  simp [passThrough, Expr.inputAt, Expr.type]

/-- A row that is passed through is read column by column. -/
theorem fitsIn_passThrough {types : List DataType} {c : InputColumn}
    (h : c ∈ (passThrough types).flatMap Expr.inputs) : c.FitsIn types := by
  obtain ⟨e, he, hc⟩ := List.mem_flatMap.1 h
  obtain ⟨i, hi, rfl⟩ := List.mem_mapIdx.1 he
  obtain rfl : c = ⟨i, types[i]⟩ := by simpa [Expr.inputAt, Expr.inputs] using hc
  exact ⟨types[i], List.getElem?_eq_getElem hi, BEq.rfl⟩

end Projection

/-! ### Resolved expressions -/

namespace Expr

/-- Same expressions have the same type. -/
theorem type_beq_of_same {e f : Expr} (h : (e == f) = true) : (e.type == f.type) = true := by
  have hsame : e.same f = true := h
  cases e <;> cases f <;>
    simp only [same, Bool.false_eq_true, Bool.and_eq_true] at hsame
  case column.column r s =>
    have hcolumn : r.same s = true := hsame
    simp only [ColumnRef.same, Bool.and_eq_true] at hcolumn
    exact hcolumn.1.2
  case call.call fn as gn bs =>
    have hfn : fn.same gn = true := hsame.1
    simp only [FunctionInfo.same, Bool.and_eq_true] at hfn
    exact hfn.2
  case literal.literal v t w u => exact hsame.2
  case input.input c d =>
    simp only [BEq.beq, Bool.and_eq_true] at hsame
    exact hsame.2

theorem type_resolve (row : List Expr) (e : Expr) : (e.resolve row).type = e.type := by
  cases e <;> rw [resolve] <;> first | rfl | (split <;> rfl)

/-- The position of an expression in a row is a column of the type of the expression. -/
theorem fitsIn_position {row : List Expr} {e : Expr} {i : Nat} (h : e.position? row = some i) :
    InputColumn.FitsIn (row.map Expr.type) ⟨i, e.type⟩ := by
  obtain ⟨o, ho, hsame⟩ := position?_eq_some h
  exact ⟨o.type, by rw [List.getElem?_map, ho]; rfl, type_beq_of_same hsame⟩

/-- An expression without positions reads, once resolved, columns of the row only. -/
theorem fitsIn_resolve {row : List Expr} {e : Expr} (h : e.inputs = []) :
    ∀ c ∈ (e.resolve row).inputs, c.FitsIn (row.map Expr.type) := by
  induction e using induct with
  | literal v t => simp [resolve, inputs]
  | input c => simp [inputs] at h
  | column r =>
    intro c hc
    rw [resolve] at hc
    split at hc
    · rename_i i hi
      obtain rfl : c = ⟨i, r.type⟩ := by simpa [inputAt, inputs] using hc
      exact fitsIn_position hi
    · simp [inputs] at hc
  | call fn args ih =>
    intro c hc
    rw [resolve] at hc
    split at hc
    · rename_i i hi
      obtain rfl : c = ⟨i, fn.returnType⟩ := by simpa [inputAt, inputs] using hc
      exact fitsIn_position hi
    · rw [inputs, resolveAll_eq, inputsAll_eq] at hc
      rw [inputs, inputsAll_eq, List.flatMap_eq_nil_iff] at h
      obtain ⟨e, he, hc⟩ := List.mem_flatMap.1 hc
      obtain ⟨a, ha, rfl⟩ := List.mem_map.1 he
      exact ih a ha (h a ha) c hc

end Expr

end ShardJoin
