/-
What follows a join reads from storage, and what it puts in its columns.

* `ResultRow.Gathers.lists`, `ResultRow.Gathers.findsIds` — a fetch can be done;
* `ResultRow.readableAll_projections` — an engine that fetches what is stored
  can do what follows a join;
* `ResultRow.valuesOf_columns_projections` — what follows a join puts the
  outputs of the statement in the columns.
-/
import ShardJoin.Proofs.Plan.Columns
import ShardJoin.Proofs.Planning.Typing

namespace ShardJoin

variable {α : Type}

/-! ### What is read back -/

namespace ResultRow

variable {row outputs : List Expr}

namespace Gathers

variable {f : Fetch} {leaves : List Leaf} {entries : List LeafFetch}

/-- The row ids are where they were found. -/
theorem findsIds (h : Gathers f row outputs leaves entries) : f.FindsIds row := by
  intro relation c hc
  rw [Fetch.docIdColumn?, h.docIdColumns] at hc
  obtain ⟨x, hx, rfl⟩ := Option.map_eq_some_iff.1 hc
  obtain ⟨entry, hmem, rfl⟩ := List.mem_map.1 (List.mem_of_find?_eq_some hx)
  obtain ⟨leaf, -, hfor⟩ := h.entry entry hmem
  obtain ⟨d, hd, hrelation, hdocId⟩ := hfor.docId
  have hname := List.find?_some hx
  refine ⟨d, hd, hrelation.trans (hfor.relation.symm.trans ?_), hdocId⟩
  exact beq_iff_eq.1 hname

/-- A column of an entry is read back, those of partitions apart from the others. -/
theorem exists_columns (h : Gathers f row outputs leaves entries) {entry : LeafFetch}
    (hentry : entry ∈ entries) {c : ColumnRef} (hc : c ∈ entry.columns) :
    ∃ e ∈ f.fetchColumns ++ f.partitionColumns, e.1 = entry.relation ∧ c ∈ e.2 := by
  rw [h.columns]
  cases hpartitioned : c.partitioned with
  | false =>
    refine ⟨(entry.relation, entry.columns.filter (!·.partitioned)),
      List.mem_append_left _ (List.mem_map_of_mem hentry), rfl, List.mem_filter.2 ⟨hc, ?_⟩⟩
    rw [hpartitioned]
    rfl
  | true =>
    have hc' : c ∈ entry.columns.filter (·.partitioned) := List.mem_filter.2 ⟨hc, hpartitioned⟩
    refine ⟨(entry.relation, entry.columns.filter (·.partitioned)),
      List.mem_append_right _ (List.mem_filter.2 ⟨List.mem_map_of_mem hentry, ?_⟩), rfl, hc'⟩
    rw [Bool.not_eq_true', List.isEmpty_eq_false_iff_exists_mem]
    exact ⟨c, hc'⟩

/-- A column that the outputs refer to is read back, if it is a column of a leaf. -/
theorem listed (h : Gathers f row outputs leaves entries) {r : ColumnRef}
    (hr : r ∈ outputs.flatMap Expr.references) {leaf : Leaf} (hleaf : leaf ∈ leaves)
    (hrelation : leaf.relation = r.relation) : (f.docIdColumn? r.relation).isSome = true ∧
      ∃ e ∈ f.fetchColumns ++ f.partitionColumns, e.1 = r.relation ∧
        ∃ c ∈ e.2, c.same r = true := by
  obtain ⟨c, hc, hsame⟩ := exists_mem_missingColumns hr hrelation.symm
  rcases h.leaf leaf hleaf with hnil | ⟨entry, hentry, hfor⟩
  · rw [hnil] at hc
    cases hc
  have hname : entry.relation = r.relation := hfor.relation.trans hrelation
  refine ⟨?_, ?_⟩
  · rw [Fetch.docIdColumn?, h.docIdColumns, Option.isSome_map, List.find?_isSome]
    exact ⟨_, List.mem_map_of_mem hentry, beq_iff_eq.2 hname⟩
  · obtain ⟨listed, hlisted, hlistedName, hmem⟩ :=
      h.exists_columns hentry (c := c) (by rwa [hfor.columns])
    exact ⟨listed, hlisted, hlistedName.trans hname, c, hmem, hsame⟩

theorem lists (h : Gathers f row outputs leaves entries)
    (hleaves : ∀ e ∈ outputs, ∀ r ∈ e.references, ∃ leaf ∈ leaves, leaf.relation = r.relation) :
    f.Lists := by
  intro e he r hr
  rw [h.outputs] at he
  obtain ⟨leaf, hleaf, hrelation⟩ := hleaves e he r hr
  exact h.listed (List.mem_flatMap.2 ⟨e, he, hr⟩) hleaf hrelation

end Gathers

/-! ### The columns of a statement -/

/-- An expression that reads no positions, and whose literals equal only themselves. -/
def Settled (e : Expr) : Prop := e.inputs = [] ∧ ∀ v ∈ e.literals, v.isRegular = true

/-- Filters keep the columns. -/
theorem columns_filters {query : Option Expr} {filters : List Projection}
    (h : ResultRow.filters row query = .ok filters) (columns : List Expr) :
    filters.foldl Projection.columns columns = columns := by
  obtain ⟨rfl, -⟩ := filters_eq_ok h
  cases query <;> rfl

variable (ι : Interpretation α) {session : Session} {select : Select} {split : Split}
  {leaves : List Leaf} {all : List Projection}

/-- What follows a join puts the outputs of the statement in the columns. -/
theorem valuesOf_columns_projections (h : projections session select split row leaves = .ok all)
    (houtputs : ∀ e ∈ select.outputs, Settled e) (env : Env α) :
    valuesOf ι (all.foldl Projection.columns row) env = valuesOf ι select.outputs env := by
  -- an output has its value again if it is read over the row that it was resolved in
  have hread : ∀ column : ColumnRef → Expr, (∀ e ∈ select.outputs, ∀ r ∈ (e.resolve row).references,
      (column r).eval ι env = env.column r) →
      valuesOf ι ((select.outputs.map (Expr.resolve row)).map (Expr.unresolve row column)) env =
        valuesOf ι select.outputs env := by
    intro column hcolumn
    unfold valuesOf
    rw [List.map_map, List.map_map]
    refine List.map_congr_left fun e he => ?_
    exact Expr.eval_unresolve_resolve ι (houtputs e he).2 (houtputs e he).1 (hcolumn e he)
  obtain ⟨filters, order, hfilters, -, ⟨hresolved, rfl⟩ | ⟨-, f, hf, rfl⟩⟩ := projections_shape h
  · rw [List.foldl_append, columns_filters hfilters]
    refine hread (fun _ => .null) fun e he r hr => ?_
    rw [hresolved e he] at hr
    cases hr
  · obtain ⟨entries, hgathers⟩ := exists_gathers hf
    rw [List.foldl_append, columns_filters hfilters, List.foldl_cons, List.foldl_cons,
      List.foldl_nil, Projection.columns, Projection.columns, Projection.columns_passThrough,
      hgathers.outputs]
    exact hread .column fun _ _ _ _ => rfl

variable {ι} {engine : Engine α} {tuples : Env α → Prop}

/-- A filter in front of a chain asks nothing of the engine. -/
theorem readableAll_filters {query : Option Expr} {filters rest : List Projection}
    (h : ResultRow.filters row query = .ok filters)
    (hrest : Projection.ReadableAll ι engine tuples row rest) :
    Projection.ReadableAll ι engine tuples row (filters ++ rest) := by
  obtain ⟨rfl, -⟩ := filters_eq_ok h
  cases query with
  | none => exact hrest
  | some query => exact ⟨trivial, hrest⟩

/-- An engine that fetches what is stored can do what follows a join, if the outputs refer to
columns of the leaves. -/
theorem readableAll_projections (h : projections session select split row leaves = .ok all)
    (hleaves : ∀ e ∈ select.outputs, ∀ r ∈ e.references, ∃ leaf ∈ leaves,
      leaf.relation = r.relation) (hengine : engine.ReadsBack ι tuples) :
    Projection.ReadableAll ι engine tuples row all := by
  obtain ⟨filters, order, hfilters, -, ⟨-, rfl⟩ | ⟨-, f, hf, rfl⟩⟩ := projections_shape h
  · exact readableAll_filters hfilters ⟨trivial, trivial⟩
  · refine readableAll_filters hfilters ⟨trivial, ?_, trivial⟩
    obtain ⟨entries, hgathers⟩ := exists_gathers hf
    rw [Projection.columns, Projection.columns_passThrough]
    refine ⟨hgathers.lists fun _ hmem r hr => ?_, hgathers.findsIds, hengine⟩
    obtain ⟨e, he, rfl⟩ := List.mem_map.1 hmem
    exact hleaves e he r (Expr.mem_references_resolve hr).1

end ResultRow

end ShardJoin
