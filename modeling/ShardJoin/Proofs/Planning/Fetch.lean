/-
What a statement reads back after its rows are joined and cut.

Columns of the outputs that no leaf emits are read from storage, for each leaf
by the row id that stands in the joined row.

* `ResultRow.exists_mem_missingColumns` — every reference to a relation is
  among the columns that are missing;
* `ResultRow.isFor_leafFetch` — what has to be read back for a leaf;
* `ResultRow.exists_gathers` — what a fetch reads back, leaf by leaf.
-/
import ShardJoin.Proofs.Expr.Sameness
import ShardJoin.Proofs.Planning.Success

namespace ShardJoin

namespace ResultRow

variable {row outputs : List Expr}

/-- Every reference to a relation is among the columns that are missing, up to sameness. -/
theorem exists_mem_missingColumns {relation : RelationName} {r : ColumnRef}
    (hr : r ∈ outputs.flatMap Expr.references) (hrelation : r.relation = relation) :
    ∃ c ∈ missingColumns relation outputs, c.same r = true := by
  -- what has been found stays, and what is met next is found
  have hfold : ∀ refs found : List ColumnRef, (r ∈ refs ∨ ∃ c ∈ found, c.same r = true) →
      ∃ c ∈ refs.foldl (fun found r => if found.any (· == r) then found else found ++ [r]) found,
        c.same r = true := by
    intro refs
    induction refs with
    | nil => exact fun found h => h.resolve_left List.not_mem_nil
    | cons s refs ih =>
      intro found h
      rw [List.foldl_cons]
      refine ih _ ?_
      rcases h with h | ⟨c, hc, hsame⟩
      · rcases List.mem_cons.1 h with rfl | h
        · right
          split
          · exact List.any_eq_true.1 ‹_›
          · exact ⟨r, by simp, r.same_self⟩
        · exact .inl h
      · right
        split
        · exact ⟨c, hc, hsame⟩
        · exact ⟨c, List.mem_append_left _ hc, hsame⟩
  refine hfold _ [] (.inl (List.mem_filter.2 ⟨hr, ?_⟩))
  exact beq_iff_eq.2 hrelation

/-- What has to be read back for a leaf: the columns that are missing, by the row id. -/
structure LeafFetch.IsFor (entry : LeafFetch) (row outputs : List Expr) (leaf : Leaf) : Prop where
  relation : entry.relation = leaf.relation
  columns : entry.columns = missingColumns leaf.relation outputs
  docIdType : entry.docId.type = (row[entry.docId.index]?.map Expr.type).getD .null
  docId : ∃ d : ColumnRef, row[entry.docId.index]? = some (.column d) ∧
    d.relation = leaf.relation ∧ d.isDocId = true

theorem isFor_leafFetch {leaf : Leaf} {found : Option LeafFetch}
    (h : leafFetch? row outputs leaf = .ok found) :
    (found = none ∧ missingColumns leaf.relation outputs = []) ∨
      ∃ entry, found = some entry ∧ entry.IsFor row outputs leaf := by
  unfold leafFetch? at h
  split at h
  · exact .inl ⟨(Except.ok.inj h).symm, ‹_›⟩
  · rename_i first rest hcolumns
    split at h
    · cases h
    · rename_i i hi
      obtain ⟨hlt, hdocId, -⟩ := List.findIdx?_eq_some_iff_getElem.1 hi
      split at h
      · cases h
      · refine .inr ⟨_, (Except.ok.inj h).symm, rfl, hcolumns.symm, rfl, ?_⟩
        -- only a column can be a row id
        cases hat : row[i] with
        | column d =>
          rw [hat, isDocIdOf, Bool.and_eq_true, beq_iff_eq] at hdocId
          exact ⟨d, List.getElem?_eq_some_iff.2 ⟨hlt, hat⟩, hdocId⟩
        | literal v t => rw [hat] at hdocId; cases hdocId
        | call fn args => rw [hat] at hdocId; cases hdocId
        | input c => rw [hat] at hdocId; cases hdocId

/-- What a fetch reads back, leaf by leaf. -/
structure Gathers (f : Fetch) (row outputs : List Expr) (leaves : List Leaf)
    (entries : List LeafFetch) : Prop where
  entry : ∀ entry ∈ entries, ∃ leaf ∈ leaves, entry.IsFor row outputs leaf
  leaf : ∀ leaf ∈ leaves, missingColumns leaf.relation outputs = [] ∨
    ∃ entry ∈ entries, entry.IsFor row outputs leaf
  outputs : f.outputs = outputs
  docIdColumns : f.docIdColumns = entries.map fun e => (e.relation, e.docId)
  columns : f.fetchColumns ++ f.partitionColumns =
    (entries.map fun e => (e.relation, e.columns.filter (!·.partitioned))) ++
      (entries.map fun e => (e.relation, e.columns.filter (·.partitioned))).filter (!·.2.isEmpty)

theorem exists_gathers {session : Session} {leaves : List Leaf} {limit : UInt64} {f : Fetch}
    (h : fetch session row outputs leaves limit = .ok f) :
    ∃ entries, Gathers f row outputs leaves entries := by
  obtain ⟨found, hfound, h⟩ := Except.bind_eq_ok.1 h
  have hspec := (Except.mapM_eq_ok.1 hfound).imp fun _ _ => isFor_leafFetch
  obtain rfl := Except.ok.inj h
  refine ⟨found.filterMap id, fun entry hentry => ?_, fun leaf hleaf => ?_, rfl, rfl, rfl⟩
  · obtain ⟨_, hmem, rfl⟩ := List.mem_filterMap.1 hentry
    obtain ⟨i, hi⟩ := List.mem_iff_getElem?.1 hmem
    obtain ⟨leaf, hleaf, ⟨hnone, -⟩ | ⟨entry', hsome, hfor⟩⟩ :=
      exists_getElem?_of_forall₂ hspec hi
    · cases hnone
    · obtain rfl := Option.some.inj hsome
      exact ⟨leaf, List.mem_of_getElem? hleaf, hfor⟩
  · obtain ⟨i, hi, rfl⟩ := List.mem_iff_getElem.1 hleaf
    have hi' : i < found.length := hspec.length_eq ▸ hi
    rcases hspec.get hi hi' with ⟨-, hnil⟩ | ⟨entry, hsome, hfor⟩
    · exact .inl hnil
    · exact .inr ⟨entry, List.mem_filterMap.2 ⟨_, List.getElem_mem hi', hsome⟩, hfor⟩

end ResultRow

end ShardJoin
