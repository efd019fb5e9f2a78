/-
Scans give what is asked of a table.

* `Engine.scanning` — an engine that runs scans over stored tables;
* `Strategy.scan_honours` — a scan that collects the outputs and the join
  outputs of a table gives what is asked of it;
* `Statement.OverTables.scan_honoursShares` — so it does for all tables of a
  statement.
-/
import ShardJoin.Planning.Strategy
import ShardJoin.Proofs.Planning.SortKeys

namespace ShardJoin

variable {α : Type} (ι : Interpretation α)

/-- Runs scans over stored tables; look-ups and fetches are run elsewhere. -/
def Engine.scanning (tables : TableName → List (TableRow α))
    (get : TableGet → List (List (Datum α)))
    (fetch : Fetch → List (List (Datum α)) → List (List (Datum α))) : Engine α where
  get := get
  scan s :=
    (cut s.collect.limit (sortBy ι (OrderBy.entriesOf s.collect.orderBy) TableRow.env
      ((tables s.collect.table).filter fun row => s.collect.whereClause.holds ι row.env))).map
        fun row => s.collect.outputs.map (Expr.eval ι row.env)
  fetch := fetch
  scan_collect _ _ _ _ := rfl
  scan_merge _ _ _ _ := rfl

/-! ### What a scan collects -/

namespace Strategy

theorem mem_extras {q : TableQuery} {e : Expr} (h : e ∈ extras q true) : e ∈ q.required := by
  unfold extras at h
  unfold TableQuery.required
  simp only [if_true, List.mem_append] at h ⊢
  rcases h with h | h
  · exact .inl (.inr h)
  · exact .inr h

/-- A scan collects required expressions only. -/
theorem mem_scanOutputs {q : TableQuery} {options : ScanOptions} (hfetch : options.fetch = false)
    (hjoin : options.joinOutputs = true) {o : Expr} (h : o ∈ scanOutputs q options) :
    o ∈ q.required := by
  unfold scanOutputs extend at h
  simp only [hfetch, hjoin] at h
  rcases Expr.mem_foldl_pushNew h with h | h
  · exact List.mem_append_left _ (List.mem_append_left _ h)
  · exact mem_extras h

/-- A scan collects every required expression, up to sameness. -/
theorem foundIn_scanOutputs {q : TableQuery} {options : ScanOptions}
    (hfetch : options.fetch = false) (hjoin : options.joinOutputs = true) :
    q.FoundIn (scanOutputs q options) := by
  intro e he
  unfold scanOutputs extend
  simp only [hfetch, hjoin]
  unfold TableQuery.required at he
  rw [List.append_assoc] at he
  rcases List.mem_append.1 he with he | he
  · exact ⟨e, Expr.subset_foldl_pushNew _ _ he, .inl rfl⟩
  · exact Expr.exists_mem_foldl_pushNew _ he

/-- A scan whose merge stage, if any, only merges, perhaps as the last of several plans. -/
theorem gives_scanPlan {q : TableQuery} {options : ScanOptions}
    {σ σ' : Session} {p : Plan} (h : Planning.Gives (scanPlan q options) σ p σ') :
    ∃ collect merge phase, collect.table = q.tableName ∧
      collect.outputs = scanOutputs q options ∧ collect.whereClause = q.select.whereClause ∧
      collect.limit = q.select.limit ∧ collect.orderBy = q.select.orderBy ∧
      (∀ stage ∈ merge, stage.projections = []) ∧
      (p = .scan ⟨collect, merge, phase⟩ ∨
        p = .iterable [.noOp [], .scan ⟨collect, merge, phase⟩]) := by
  unfold scanPlan at h
  obtain ⟨session, _, -, h⟩ := Planning.gives_bind.1 h
  obtain ⟨routing, _, -, h⟩ := Planning.gives_bind.1 h
  obtain ⟨id, _, -, h⟩ := Planning.gives_bind.1 h
  -- with or without a merge stage, with or without searches to be kept open
  have hscan : ∃ merge : Option MergeStage, (∀ stage ∈ merge, stage.projections = []) ∧
      p = if options.wrap then Plan.iterable [.noOp [], .scan
        ⟨collectStage session.handler q options routing id merge, merge, fetchPhase q options⟩]
        else .scan ⟨collectStage session.handler q options routing id merge, merge,
          fetchPhase q options⟩ := by
    have hlast : ∀ (merge : Option MergeStage) (σ : Session), Planning.Gives (do
        if options.fetch then discard <| Planning.allocate routing id
        let scan := Plan.scan
          ⟨collectStage session.handler q options routing id merge, merge, fetchPhase q options⟩
        return if options.wrap then .iterable [.noOp [], scan] else scan) σ p σ' →
        p = if options.wrap then Plan.iterable [.noOp [], .scan
          ⟨collectStage session.handler q options routing id merge, merge, fetchPhase q options⟩]
          else .scan ⟨collectStage session.handler q options routing id merge, merge,
            fetchPhase q options⟩ := by
      intro merge σ h
      cases hfetch : options.fetch with
      | false =>
        simp only [hfetch, Bool.false_eq_true, if_false] at h
        exact (Planning.gives_pure.1 h).1.symm
      | true =>
        simp only [hfetch, if_true] at h
        obtain ⟨_, _, -, h⟩ := Planning.gives_bind.1 h
        exact (Planning.gives_pure.1 h).1.symm
    cases hmerge : options.merge with
    | true =>
      simp only [hmerge, if_true] at h
      obtain ⟨mergeId, _, -, h⟩ := Planning.gives_bind.1 h
      obtain ⟨_, σ, hstage, h⟩ := Planning.gives_bind.1 h
      obtain ⟨rfl, -⟩ := Planning.gives_pure.1 hstage
      exact ⟨_, by simp [mergeStage], hlast _ σ h⟩
    | false =>
      simp only [hmerge, Bool.false_eq_true, if_false] at h
      obtain ⟨_, σ, hstage, h⟩ := Planning.gives_bind.1 h
      obtain ⟨rfl, -⟩ := Planning.gives_pure.1 hstage
      exact ⟨none, by simp, hlast none σ h⟩
  obtain ⟨merge, hprojections, rfl⟩ := hscan
  refine ⟨collectStage session.handler q options routing id merge, merge, fetchPhase q options,
    rfl, rfl, rfl, rfl, rfl, hprojections, ?_⟩
  split
  · exact .inr rfl
  · exact .inl rfl

/-- A scan that collects the outputs and the join outputs gives what is asked of a table, if the
required expressions are over the table. -/
theorem scan_honours {tables : TableName → List (TableRow α)}
    {get : TableGet → List (List (Datum α))}
    {fetch : Fetch → List (List (Datum α)) → List (List (Datum α))} {options : ScanOptions}
    (hfetch : options.fetch = false) (hjoin : options.joinOutputs = true) {name : RelationName}
    {q : TableQuery} (hrequired : ∀ e ∈ q.required, e.Over [name]) :
    Honours ι (.scanning ι tables get fetch) (planTable (.scan options)) name
      (tables q.tableName) q := by
  intro σ σ' p h
  obtain ⟨made, _, hmade, h⟩ := Planning.gives_bind.1 h
  obtain rfl := Option.some.inj (Planning.gives_pure.1 h).1
  obtain ⟨collect, merge, phase, htable, houtputs, hwhere, hlimit, horder, -, hp⟩ :=
    gives_scanPlan hmade
  have hscan : (Plan.scan ⟨collect, merge, phase⟩).execute ι (.scanning ι tables get fetch) =
      (q.wanted ι (tables q.tableName)).map
        fun row => (scanOutputs q options).map (Expr.eval ι row.env) := by
    rw [Plan.execute]
    simp only [Engine.scanning, TableQuery.wanted, htable, houtputs, hwhere, hlimit, horder]
  -- the outputs have all that is required, and columns of no other relation
  have hcover : ∀ e ∈ q.required, ∃ o ∈ scanOutputs q options, (o == e) = true := by
    intro e he
    obtain ⟨o, ho, rfl | hsame⟩ := foundIn_scanOutputs hfetch hjoin e he
    · exact ⟨o, ho, (hrequired o he).same_self⟩
    · exact ⟨o, ho, hsame⟩
  have hown : ∀ o ∈ scanOutputs q options, ∀ r ∈ o.references, r.relation = name := by
    intro o ho r hr
    simpa using (hrequired o (mem_scanOutputs hfetch hjoin ho)).references r hr
  rcases hp with rfl | rfl
  · refine .rows ?_ hcover hown hscan
    rw [Plan.outputs?, houtputs]
  · refine .rows ?_ hcover hown ?_
    · rw [Plan.outputs?, Plan.lastOutputs?, Plan.lastOutputs?, Plan.outputs?, houtputs]
    · rw [Plan.execute, Plan.executeLast, Plan.executeLast, hscan]

end Strategy

/-! ### Tables of a statement -/

namespace Statement

variable {s : Statement}

theorem mem_partsOf {i : Nat} {es : List Expr} {m : Expr} (h : m ∈ s.partsOf i es) :
    ∃ e ∈ es, ∃ name, (name, m) ∈ e.parts ∧ s.tablePosition? name = some i := by
  unfold partsOf at h
  rw [← List.foldl_map (f := Prod.snd) (g := Expr.pushNew)] at h
  rcases Expr.mem_foldl_pushNew h with h | h
  · cases h
  · obtain ⟨p, hp, rfl⟩ := List.mem_map.1 h
    obtain ⟨hmem, hi⟩ := List.mem_filter.1 hp
    obtain ⟨e, he, hpart⟩ := List.mem_flatMap.1 hmem
    rw [beq_iff_eq] at hi
    exact ⟨e, he, p.1, hpart, hi⟩

namespace OverTables

variable (hs : s.OverTables)
include hs

/-- What is asked of a table is over the table. -/
theorem required_over {default : UInt64} {i : Nat} {name : RelationName} {source : Source}
    {q : TableQuery} (hsource : s.sources[i]? = some (name, source))
    (hshare : s.shareOf default i = .ok (some q)) : ∀ e ∈ q.required, e.Over [name] := by
  obtain ⟨houtputs, -, horder, -, hjoin⟩ := shareOf_eq_ok hshare
  -- an expression of the statement whose references are at the position is over the table
  have hover : ∀ {e : Expr}, e.Over (s.sources.map (·.1)) →
      (∀ r ∈ e.references, s.position? r.relation = some i) → e.Over [name] := by
    intro e he hhome
    refine ⟨fun r hr => ?_, he.inputs, he.literals⟩
    obtain ⟨source', hsource'⟩ := position?_eq_some (hhome r hr)
    rw [hsource, Option.some.injEq, Prod.mk.injEq] at hsource'
    exact List.mem_singleton.2 hsource'.1.symm
  have hpart : ∀ {es : List Expr}, (∀ e ∈ es, e.Over (s.sources.map (·.1))) →
      ∀ m ∈ s.partsOf i es, m.Over [name] := by
    intro es hes m hm
    obtain ⟨e, he, relation, hmem, hi⟩ := mem_partsOf hm
    rw [tablePosition?_eq hs.tables] at hi
    obtain ⟨hsole, hm⟩ := (hes e he).parts hmem
    refine hover hm fun r hr => ?_
    rw [(Expr.soleRelation?_eq_some.1 hsole).2 r hr]
    exact hi
  intro e he
  unfold TableQuery.required at he
  rw [houtputs, hjoin] at he
  rcases List.mem_append.1 he with he | he
  · rcases List.mem_append.1 he with he | he
    · exact hpart (fun e he => hs.exprs e (by simp [Statement.exprs, he])) e he
    · exact hpart hs.joinExprs e he
  · -- the keys of the table are those whose home it is
    unfold orderByOf at horder
    split at horder
    · rename_i o k ks ho _ hkeys
      split at horder
      · rename_i sub hsub
        rw [← Except.ok.inj horder] at he
        obtain ⟨n, hn, rfl⟩ := List.mem_iff_getElem.1 he
        have hspec := OrderBy.keys_of_subset? hsub
        have hn' : n < (k :: ks).length := by rwa [hspec.length_eq]
        have hget := hspec.get hn' hn
        have hmem : (k :: ks)[n] ∈ s.keysOf i := by
          rw [hkeys]
          exact List.getElem_mem hn'
        have hhome := mem_keysOf.1 hmem
        simp only [List.get_eq_getElem] at hget
        rw [keyHomes, List.getElem?_map, sortKeys, ho, hget, Option.map_some,
          Option.some.injEq] at hhome
        refine hover (hs.exprs _ ?_) (position?_of_home? hhome)
        refine List.mem_append_right _ ?_
        rw [sortKeys, ho]
        exact List.mem_of_getElem? hget
      · cases horder
    · rw [← Except.ok.inj horder] at he
      cases he

/-- Scans give what is asked of the tables of a statement. -/
theorem scan_honoursShares {tables : TableName → List (TableRow α)}
    {get : TableGet → List (List (Datum α))}
    {fetch : Fetch → List (List (Datum α)) → List (List (Datum α))} {options : ScanOptions}
    (hfetch : options.fetch = false) (hjoin : options.joinOutputs = true)
    {data : RelationName → List (TableRow α)}
    (hdata : ∀ x ∈ s.sources, ∀ table ∈ x.2.table?, data x.1 = tables table.table.name)
    (default : UInt64) :
    HonoursShares ι (.scanning ι tables get fetch) (Strategy.planTable (.scan options)) s data
      default := by
  intro i name source q hsource hshare
  have htable := tableAt?_of_share hshare
  rw [tableAt?, hsource, Option.bind_some] at htable
  rw [hdata _ (List.mem_of_getElem? hsource) q.table htable]
  exact Strategy.scan_honours ι hfetch hjoin (hs.required_over hsource hshare)

end OverTables

end Statement

end ShardJoin
