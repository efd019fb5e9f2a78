/-
What is shipped between nodes comes back as it was.

A plan is shipped to the nodes that run it, and each of them reads off it what
it has to do: so the plan that is read has to be the plan that was written,
with the same row types of its result, and likewise for statements and for the
graphs of stages.
-/
import ShardJoin.Proofs.Wire.Plan
import ShardJoin.Wire.StageGraph
import ShardJoin.Wire.Statement

namespace ShardJoin

open Wire

/-! ### Statements -/

instance : LawfulWire ColumnInfo where
  decode_encode {c} _ := by
    unfold instWireColumnInfo
    simp

instance : Unbounded ColumnInfo := ⟨fun _ => trivial⟩

instance : LawfulWire TableInfo where
  decode_encode {t} _ := by
    unfold instWireTableInfo
    simp

instance : Unbounded TableInfo := ⟨fun _ => trivial⟩

instance : LawfulWire TableRelation where
  decode_encode {r} _ := by
    unfold instWireTableRelation
    simp

instance : Unbounded TableRelation := ⟨fun _ => trivial⟩

instance : LawfulWire SubQuery where
  Fits q := Fits q.select
  decode_encode {q} hselect := by
    unfold instWireSubQuery
    simp [hselect]
  fits_of_decode h := by
    unfold instWireSubQuery at h
    simp only [Option.bind_eq_bind, Option.bind_eq_some_iff] at h
    obtain ⟨_, -, select, hselect, h⟩ := h
    cases h
    exact fits_of_required hselect

instance : LawfulWire TableQuery where
  Fits q := Fits q.select ∧ Fits q.joinOutputs
  decode_encode {q} h := by
    obtain ⟨hselect, hjoin⟩ := h
    unfold instWireTableQuery
    simp [hselect, hjoin]
  fits_of_decode h := by
    unfold instWireTableQuery at h
    simp only [Option.bind_eq_bind, Option.bind_eq_some_iff] at h
    obtain ⟨_, -, select, hselect, join, hjoin, h⟩ := h
    cases h
    exact ⟨fits_of_required hselect, fits_of_required hjoin⟩

instance : LawfulWire Source where
  Fits
    | .table _ => True
    | .subQuery query => Fits query
    | .queried query => Fits query
    | .planned plan => Fits plan
  decode_encode {source} h := by
    unfold instWireSource
    cases source with
    | table relation => simp [Json.tagged]
    | subQuery query =>
      have hquery : Fits query := h
      simp [Json.tagged, hquery]
    | queried query =>
      have hquery : Fits query := h
      simp [Json.tagged, hquery]
    | planned plan =>
      have hplan : Fits plan := h
      simp [Json.tagged, hplan]
  fits_of_decode h := by
    unfold instWireSource at h
    dsimp only at h
    split at h
    case h_1 =>
      obtain ⟨_, -, rfl⟩ := Option.map_eq_some_iff.1 h
      exact trivial
    case h_2 =>
      obtain ⟨query, hquery, rfl⟩ := Option.map_eq_some_iff.1 h
      exact fits_of_decode hquery
    case h_3 =>
      obtain ⟨query, hquery, rfl⟩ := Option.map_eq_some_iff.1 h
      exact fits_of_decode hquery
    case h_4 =>
      obtain ⟨plan, hplan, rfl⟩ := Option.map_eq_some_iff.1 h
      exact fits_of_decode hplan
    case h_5 => cases h

instance : LawfulWire Statement where
  Fits s := Fits s.sources ∧ Fits s.select
  decode_encode {s} h := by
    obtain ⟨hsources, hselect⟩ := h
    unfold instWireStatement
    simp [hsources, hselect]
  fits_of_decode h := by
    unfold instWireStatement at h
    simp only [Option.bind_eq_bind, Option.bind_eq_some_iff] at h
    obtain ⟨sources, hsources, select, hselect, h⟩ := h
    cases h
    exact ⟨fits_of_required hsources, fits_of_required hselect⟩

/-! ### Stage graphs -/

instance : LawfulWire StageKind where
  decode_encode {kind} _ := by cases kind <;> rfl

instance : Unbounded StageKind := ⟨fun _ => trivial⟩

instance : LawfulWire StageNode where
  Fits s := Fits s.id ∧ Fits s.parents ∧ Fits s.children ∧ Fits s.downstream
  decode_encode {s} h := by
    obtain ⟨hid, hparents, hchildren, hdownstream⟩ := h
    unfold instWireStageNode
    simp [hid, hparents, hchildren, hdownstream]
  fits_of_decode h := by
    unfold instWireStageNode at h
    simp only [Option.bind_eq_bind, Option.bind_eq_some_iff] at h
    obtain ⟨id, hid, _, -, _, -, _, -, _, -, parents, hparents, children, hchildren, downstream,
      hdownstream, h⟩ := h
    cases h
    exact ⟨fits_of_required hid, fits_of_required hparents, fits_of_required hchildren,
      fits_of_required hdownstream⟩

instance : LawfulWire StageGraph where
  Fits g := Fits g.stages
  decode_encode {g} hstages := by
    unfold instWireStageGraph
    simp [hstages]
  fits_of_decode h := by
    unfold instWireStageGraph at h
    simp only [Option.bind_eq_bind, Option.bind_eq_some_iff] at h
    obtain ⟨stages, hstages, h⟩ := h
    cases h
    exact fits_of_required hstages

/-! ### What is shipped -/

namespace Wire

/-- A plan that is shipped is read as the plan that it was, so its result has the row types that it
had, and statements and stage graphs are read as they were, too.  Nothing is ever read that does
not fit, so the ranges of positions and ids are all that can be asked for. -/
theorem decode_encode_shipped :
    (∀ p : Plan, ((decode (encode p) : Option Plan) = some p ↔ Fits p) ∧
      (Fits p → (decode (encode p)).map Plan.resultTypes = some p.resultTypes)) ∧
    (∀ s : Statement, decode (encode s) = some s ↔ Fits s) ∧
    ∀ g : StageGraph, decode (encode g) = some g ↔ Fits g := by
  refine ⟨fun p => ⟨decode_encode_iff, fun hp => ?_⟩, fun _ => decode_encode_iff,
    fun _ => decode_encode_iff⟩
  have hplan : decode (encode p) = some p := decode_encode hp
  rw [hplan, Option.map_some]

/-- A plan that looks a row up by a key that is not equal to itself, reads the last position that
can be shipped, and reads back what the stage with the least of all ids has collected. -/
def extremePlan : Plan :=
  .nestedLoop
    (.tableGet {
      table := ⟨"doc", "t"⟩
      relation := "t"
      outputs := [.input ⟨18446744073709551615, .int64⟩]
      docKeys := ⟨[[.literal (.float64 ⟨0x7ff8000000000000⟩) (.scalar .float64)]]⟩
      limit := none })
    (.iterable [.noOp [.union [⟨-1, ⟨"a", .int64, true, 0, false, .empty⟩⟩] .dense]]) true
    { id := -2147483648
      name := "merge"
      executionNodes := ["n1"]
      inputTypes := [.int64]
      senders := 1
      projections := [.fetch {
        docIdColumns := [("t", ⟨0, .utf8⟩)]
        inputTypes := [.int64]
        fetchColumns := []
        outputs := []
        partitionColumns := []
        executionNodes := ⟨[(-2147483648, ["n1"])], List.pairwise_singleton ..⟩
        subContexts := .empty
        bulkSize := some 0 }]
      sort := none
      downstream := .stage ["n1"] 2147483647 }

/-- The rows of the plan, as the source of a statement. -/
def extremeStatement : Statement := ⟨[("t", .planned extremePlan)], .ofOutputs []⟩

/-- A stage that sends its rows to itself. -/
def loopedGraph : StageGraph where
  stages := [{
    id := -1
    kind := .merge
    name := "merge"
    nodes := ["n1"]
    operators := ["TopN"]
    parents := [-1]
    children := [-1]
    downstream := .stage ["n1"] (-1) }]

theorem fits_extremePlan : Fits extremePlan := by
  simp [extremePlan, Fits, LawfulKey.Fits, Plan.Fits, Plan.AllFit, Expr.inputs, Downstream.stage?,
    SortedMap.empty, Int32.toInt_maxValue, UInt64.size]

theorem fits_extremeStatement : Fits extremeStatement := by
  constructor
  · intro x hx
    rw [List.mem_singleton.1 hx]
    exact ⟨trivial, fits_extremePlan⟩
  · simp [extremeStatement, Select.ofOutputs, WhereClause.matchAll, Fits]

theorem fits_loopedGraph : Fits loopedGraph := by
  simp [loopedGraph, Fits, Downstream.stage?, Int32.toInt_maxValue]

/-- The plan comes back, on its own and as the source of a statement, and so does the graph. -/
theorem decode_encode_extremePlan :
    ((decode (encode extremePlan) : Option Plan) = some extremePlan ∧
      (decode (encode extremePlan)).map Plan.resultTypes = some extremePlan.resultTypes) ∧
    decode (encode extremeStatement) = some extremeStatement ∧
    decode (encode loopedGraph) = some loopedGraph := by
  obtain ⟨hplan, hstatement, hgraph⟩ := decode_encode_shipped
  exact ⟨⟨(hplan _).1.2 fits_extremePlan, (hplan _).2 fits_extremePlan⟩,
    (hstatement _).2 fits_extremeStatement, (hgraph _).2 fits_loopedGraph⟩

end Wire

end ShardJoin
