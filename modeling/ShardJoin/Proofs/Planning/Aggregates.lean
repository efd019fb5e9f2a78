/-
Aggregates of a statement over several sources.

A statement that groups its rows, or has an output that calls an aggregate
function, is refused before anything is planned.  That is all that is looked
at: a conjunct of the predicate or a key of the order by that calls an
aggregate is given to a table or evaluated on the joined row like any other
one.

* `Expr.CallsAggregate` — an aggregate is called at some depth;
* `Statement.tracesAggregates` — the shares of the tables and what remains call
  aggregates exactly if the predicate or the order by does;
* `CrossJoin.aggregates_plan` — which statements are refused, and where the
  aggregates of a planned one stand;
* `CrossJoin.gives_maximum` — a join of a table that is asked for an aggregate.
-/
import ShardJoin.Proofs.Planning.JoinOutputs
import ShardJoin.Proofs.Planning.JoinTree
import ShardJoin.Proofs.Planning.Requests
import ShardJoin.Proofs.Planning.Scanning
import ShardJoin.Proofs.Planning.Supply
import ShardJoin.Proofs.Planning.TwoSteps

namespace ShardJoin

/-! ### Expressions that call aggregates -/

namespace Expr

/-- An aggregate function is called at some depth of an expression. -/
def CallsAggregate (e : Expr) : Prop :=
  ∃ fn args, .call fn args ∈ e.subtrees ∧ fn.kind = .aggregate

theorem callsAggregate_call {fn : FunctionInfo} {args : List Expr} :
    (Expr.call fn args).CallsAggregate ↔
      fn.kind = .aggregate ∨ ∃ a ∈ args, a.CallsAggregate := by
  constructor
  · rintro ⟨g, bs, hmem, hkind⟩
    rcases mem_subtrees_call.1 hmem with heq | ⟨a, ha, hmem⟩
    · obtain ⟨rfl, -⟩ := call.inj heq
      exact .inl hkind
    · exact .inr ⟨a, ha, g, bs, hmem, hkind⟩
  · rintro (hkind | ⟨a, ha, g, bs, hmem, hkind⟩)
    · exact ⟨fn, args, mem_subtrees_call.2 (.inl rfl), hkind⟩
    · exact ⟨g, bs, mem_subtrees_call.2 (.inr ⟨a, ha, hmem⟩), hkind⟩

@[simp] theorem not_callsAggregate_column (r : ColumnRef) : ¬(Expr.column r).CallsAggregate := by
  simp [CallsAggregate, subtrees]

@[simp] theorem not_callsAggregate_literal (v : Value) (t : DataType) :
    ¬(Expr.literal v t).CallsAggregate := by
  simp [CallsAggregate, subtrees]

@[simp] theorem not_callsAggregate_input (c : InputColumn) : ¬(Expr.input c).CallsAggregate := by
  simp [CallsAggregate, subtrees]

theorem hasAggregates_iff {e : Expr} : e.hasAggregates = true ↔ e.CallsAggregate := by
  induction e using induct with
  | column r => simp [hasAggregates]
  | literal v t => simp [hasAggregates]
  | input c => simp [hasAggregates]
  | call fn args ih =>
    rw [hasAggregates, anyHasAggregates_eq, Bool.or_eq_true, beq_iff_eq, List.any_eq_true,
      callsAggregate_call]
    exact or_congr_right (exists_congr fun a => and_congr_right fun ha => ih a ha)

/-- Reading parts of an expression from a row brings no aggregate in. -/
theorem callsAggregate_of_resolve {row : List Expr} {e : Expr}
    (h : (e.resolve row).CallsAggregate) : e.CallsAggregate := by
  induction e using induct with
  | column r =>
    rw [resolve] at h
    split at h
    · exact absurd h (not_callsAggregate_input _)
    · exact h
  | literal v t => exact h
  | input c =>
    rw [resolve] at h
    split at h
    · exact absurd h (not_callsAggregate_input _)
    · exact h
  | call fn args ih =>
    rw [resolve] at h
    split at h
    · exact absurd h (not_callsAggregate_input _)
    · rw [callsAggregate_call, resolveAll_eq] at h
      rw [callsAggregate_call]
      refine h.imp_right ?_
      rintro ⟨_, hmem, hcalls⟩
      obtain ⟨a, ha, rfl⟩ := List.mem_map.1 hmem
      exact ⟨a, ha, ih a ha hcalls⟩

/-- Folding brings no aggregate in. -/
theorem callsAggregate_of_fold {e : Expr} (h : e.fold.CallsAggregate) : e.CallsAggregate := by
  induction e using induct with
  | column r => exact h
  | literal v t => exact h
  | input c => exact h
  | call fn args ih =>
    rw [callsAggregate_call]
    have hfolded : ∀ a ∈ foldAll args, a.CallsAggregate → ∃ a ∈ args, a.CallsAggregate := by
      intro a ha hcalls
      rw [foldAll_eq] at ha
      obtain ⟨b, hb, rfl⟩ := List.mem_map.1 ha
      exact ⟨b, hb, ih b hb hcalls⟩
    rw [fold] at h
    rcases foldCall_cases fn (foldAll args) with hmem | ⟨b, hb⟩ | hn | ⟨kept, hsub, -, hkept⟩
    · exact .inr (hfolded _ hmem h)
    · rw [hb] at h
      exact absurd h (not_callsAggregate_literal _ _)
    · rw [hn] at h
      exact absurd h (not_callsAggregate_literal _ _)
    · rw [hkept, callsAggregate_call] at h
      refine h.imp_right ?_
      rintro ⟨a, ha, hcalls⟩
      exact hfolded a (hsub.subset ha) hcalls

theorem callsAggregate_of_conjunct {e c : Expr} (hc : c ∈ e.conjuncts) (h : c.CallsAggregate) :
    e.CallsAggregate := by
  by_contra hnot
  refine forall_conjuncts (P := fun e => ¬e.CallsAggregate)
    (fun fn args _ hcall a ha hcalls => ?_) hnot c hc h
  exact hcall (callsAggregate_call.2 (.inr ⟨a, ha, hcalls⟩))

theorem callsAggregate_of_part {e : Expr} {p : RelationName × Expr} (hp : p ∈ e.parts)
    (h : p.2.CallsAggregate) : e.CallsAggregate := by
  by_contra hnot
  refine (mem_parts (P := fun e => ¬e.CallsAggregate) (fun fn args hcall a ha hcalls => ?_)
    hnot hp).2 h
  exact hcall (callsAggregate_call.2 (.inr ⟨a, ha, hcalls⟩))

theorem callsAggregate_and {a b : Expr} :
    (a.and b).CallsAggregate ↔ a.CallsAggregate ∨ b.CallsAggregate := by
  simp [and, apply, callsAggregate_call, FunctionInfo.ofOperator]

/-- A conjunction calls an aggregate if one of its members does. -/
theorem callsAggregate_conjoin? {es : List Expr} :
    (∃ query ∈ conjoin? es, query.CallsAggregate) ↔ ∃ e ∈ es, e.CallsAggregate := by
  have hchain : ∀ (es : List Expr) (e : Expr), (es.foldl and e).CallsAggregate ↔
      e.CallsAggregate ∨ ∃ e' ∈ es, e'.CallsAggregate := by
    intro es
    induction es with
    | nil => simp
    | cons e' es ih =>
      intro e
      rw [List.foldl_cons, ih, callsAggregate_and, or_assoc, List.exists_mem_cons_iff]
  cases es with
  | nil => simp [conjoin?]
  | cons e es => simp [conjoin?, hchain]

end Expr

theorem WhereClause.callsAggregate_of_conjunct {w : WhereClause} {c : Expr}
    (hc : c ∈ w.conjuncts) (h : c.CallsAggregate) : ∃ query ∈ w.query, query.CallsAggregate := by
  unfold conjuncts at hc
  split at hc
  · rename_i query hquery
    exact ⟨query, hquery,
      Expr.callsAggregate_of_fold (Expr.callsAggregate_of_conjunct hc h)⟩
  · cases hc

theorem WhereClause.callsAggregate_ofConjuncts {es : List Expr} :
    (∃ query ∈ (ofConjuncts es).query, query.CallsAggregate) ↔ ∃ e ∈ es, e.CallsAggregate := by
  rw [← Expr.callsAggregate_conjoin?, ofConjuncts]
  split
  · rename_i query hquery
    rw [hquery]
    rfl
  · rename_i hnone
    rw [hnone]
    rfl

/-- A key of an order by calls an aggregate, if there is an order by. -/
def OrderBy.CallsAggregate (order : Option OrderBy) : Prop :=
  ∃ o ∈ order, ∃ key ∈ o.keys, key.CallsAggregate

/-- The predicate or a key that is left for the joined row calls an aggregate. -/
def Split.LeavesAggregate (split : Split) : Prop :=
  (∃ query ∈ split.remainingQuery, query.CallsAggregate) ∨
    OrderBy.CallsAggregate split.remainingOrderBy

/-! ### Taking statements apart -/

namespace Statement

variable {s : Statement} {settings : PlannerSettings} {split : Split}

/-- Where the aggregates of a statement without aggregates in its outputs are when it is taken
apart: where its predicate and its order by have them. -/
structure TracesAggregates (s : Statement) (split : Split) : Prop where
  /-- No table is asked for an output that calls one. -/
  outputs : ∀ q, some q ∈ split.shares → ∀ e ∈ q.select.outputs, ¬e.CallsAggregate
  /-- Folding brings none into the predicate. -/
  folded : (∃ c ∈ s.select.whereClause.conjuncts, c.CallsAggregate) →
    ∃ query ∈ s.select.whereClause.query, query.CallsAggregate
  /-- A conjunct of the folded predicate with one is given to a table, or remains. -/
  predicate : (∃ c ∈ s.select.whereClause.conjuncts, c.CallsAggregate) ↔
    (∃ q, some q ∈ split.shares ∧
      ∃ query ∈ q.select.whereClause.query, query.CallsAggregate) ∨
      ∃ query ∈ split.remainingQuery, query.CallsAggregate
  /-- A key with one is given to a table, or remains. -/
  keys : OrderBy.CallsAggregate s.select.orderBy ↔
    (∃ q, some q ∈ split.shares ∧ OrderBy.CallsAggregate q.select.orderBy) ∨
      OrderBy.CallsAggregate split.remainingOrderBy
  /-- What the tables collect for the joined row has one only if what remains has one. -/
  joinOutputs : ∀ q, some q ∈ split.shares → ∀ e ∈ q.joinOutputs, e.CallsAggregate →
    split.LeavesAggregate

theorem exists_share_iff (hsplit : split.IsOf s settings) {P : TableQuery → Prop} :
    (∃ q, some q ∈ split.shares ∧ P q) ↔
      ∃ i q, s.shareOf settings.selectLimit i = .ok (some q) ∧ P q := by
  constructor
  · rintro ⟨q, hq, hP⟩
    obtain ⟨i, hi⟩ := List.mem_iff_getElem?.1 hq
    exact ⟨i, q, hsplit.shareOf_eq hi, hP⟩
  · rintro ⟨i, q, hshare, hP⟩
    obtain ⟨q', hmem, hshare'⟩ := exists_tableQuery hsplit (tableAt?_of_share hshare)
    obtain rfl := Option.some.inj (Except.ok.inj (hshare'.symm.trans hshare))
    exact ⟨q', List.mem_of_getElem? hmem, hP⟩

theorem callsAggregate_of_mem_partsOf {i : Nat} {es : List Expr} {e : Expr}
    (he : e ∈ s.partsOf i es) (h : e.CallsAggregate) : ∃ e' ∈ es, e'.CallsAggregate := by
  obtain ⟨e', he', name, hpart, -⟩ := mem_partsOf he
  exact ⟨e', he', Expr.callsAggregate_of_part hpart h⟩

/-- A conjunct that calls an aggregate is one of a table or remains. -/
theorem exists_conjunct_iff :
    (∃ c ∈ s.select.whereClause.conjuncts, c.CallsAggregate) ↔
      (∃ i, ∃ c ∈ s.conjunctsOf i, c.CallsAggregate) ∨
        ∃ c ∈ s.remainingConjuncts, c.CallsAggregate := by
  have htrue : ∀ c, (c == Expr.bool true) = true → ¬c.CallsAggregate := by
    intro c hc
    obtain ⟨type, rfl⟩ := Expr.eq_of_beq_bool hc
    exact Expr.not_callsAggregate_literal _ _
  have h := not_congr (forall_conjuncts_iff (s := s) htrue)
  simpa only [not_and_or, not_forall, not_not, exists_prop] using h

/-- The table at a position evaluates the conjuncts that it owns. -/
theorem exists_predicate_iff (hsplit : split.IsOf s settings) :
    (∃ q, some q ∈ split.shares ∧ ∃ query ∈ q.select.whereClause.query, query.CallsAggregate) ↔
      ∃ i, ∃ c ∈ s.conjunctsOf i, c.CallsAggregate := by
  rw [exists_share_iff hsplit]
  refine exists_congr fun i => ⟨?_, fun h => ?_⟩
  · rintro ⟨q, hshare, h⟩
    rw [(shareOf_eq_ok hshare).2.1] at h
    exact WhereClause.callsAggregate_ofConjuncts.1 h
  · obtain ⟨c, hc, hcalls⟩ := h
    obtain ⟨name, -, -, htable⟩ := owner?_eq_some.1 (mem_conjunctsOf.1 hc).2
    obtain ⟨table, htable⟩ := Option.isSome_iff_exists.1 htable
    obtain ⟨q, -, hshare⟩ := exists_tableQuery hsplit htable
    refine ⟨q, hshare, ?_⟩
    rw [(shareOf_eq_ok hshare).2.1]
    exact WhereClause.callsAggregate_ofConjuncts.2 ⟨c, hc, hcalls⟩

/-- The keys of the table at a position are keys of the statement. -/
theorem mem_sortKeys_of_orderByOf {i : Nat} {o : OrderBy} (h : s.orderByOf i = .ok (some o))
    {key : Expr} (hkey : key ∈ o.keys) : ∃ whole ∈ s.select.orderBy, key ∈ whole.keys := by
  unfold orderByOf at h
  split at h
  · rename_i whole _ _ hwhole _ _
    split at h
    · rename_i sub hsub
      obtain rfl := Option.some.inj (Except.ok.inj h)
      obtain ⟨n, hn⟩ := List.mem_iff_getElem?.1 hkey
      obtain ⟨k, -, hk⟩ := exists_getElem?_of_forall₂ (OrderBy.keys_of_subset? hsub) hn
      exact ⟨whole, hwhole, List.mem_of_getElem? hk⟩
    · cases h
  · cases h

/-- If no key remains, every key is given to the table that it refers to. -/
theorem exists_share_of_key (hsplit : split.IsOf s settings) {o : OrderBy}
    (ho : s.select.orderBy = some o) (hseparate : s.keysSeparate = true) {key : Expr}
    (hkey : key ∈ o.keys) :
    ∃ q, some q ∈ split.shares ∧ ∃ sub ∈ q.select.orderBy, key ∈ sub.keys := by
  have hnone : s.remainingOrderBy = none := if_pos hseparate
  obtain ⟨k, hk⟩ := List.mem_iff_getElem?.1 hkey
  rw [keysSeparate, Bool.and_eq_true, List.all_eq_true] at hseparate
  have hhome := hseparate.1 (s.home? key) (List.mem_map_of_mem (by rwa [sortKeys, ho]))
  obtain ⟨table, htable⟩ := Option.isSome_iff_exists.1 hhome
  obtain ⟨i, hi, htable⟩ := Option.bind_eq_some_iff.1 htable
  obtain ⟨q, hmem, hshare⟩ := exists_tableQuery hsplit htable
  exact ⟨q, List.mem_of_getElem? hmem,
    exists_mem_keys_of_orderByOf ho hnone hk hi (shareOf_eq_ok hshare).2.2.1⟩

theorem callsAggregate_orderBy_iff (hsplit : split.IsOf s settings) :
    OrderBy.CallsAggregate s.select.orderBy ↔
      (∃ q, some q ∈ split.shares ∧ OrderBy.CallsAggregate q.select.orderBy) ∨
        OrderBy.CallsAggregate split.remainingOrderBy := by
  rw [hsplit.remainingOrderBy]
  constructor
  · rintro ⟨o, ho, key, hkey, hcalls⟩
    cases hseparate : s.keysSeparate with
    | true =>
      obtain ⟨q, hq, sub, hsub, hmem⟩ := exists_share_of_key hsplit ho hseparate hkey
      exact .inl ⟨q, hq, sub, hsub, key, hmem, hcalls⟩
    | false =>
      refine .inr ⟨o, ?_, key, hkey, hcalls⟩
      rw [remainingOrderBy, hseparate]
      exact ho
  · rintro (h | ⟨o, ho, key, hkey, hcalls⟩)
    · obtain ⟨i, q, hshare, sub, hsub, key, hkey, hcalls⟩ := (exists_share_iff hsplit).1 h
      have horder := (shareOf_eq_ok hshare).2.2.1
      rw [Option.mem_def.1 hsub] at horder
      obtain ⟨whole, hwhole, hmem⟩ := mem_sortKeys_of_orderByOf horder hkey
      exact ⟨whole, hwhole, key, hmem, hcalls⟩
    · unfold remainingOrderBy at ho
      split at ho
      · cases ho
      · exact ⟨o, ho, key, hkey, hcalls⟩

theorem leavesAggregate_of_mem (hsplit : split.IsOf s settings) {e : Expr}
    (he : e ∈ s.joinExprs) (h : e.CallsAggregate) : split.LeavesAggregate := by
  rw [Split.LeavesAggregate, hsplit.remainingQuery, hsplit.remainingOrderBy]
  rcases List.mem_append.1 he with hkey | hquery
  · cases horder : s.remainingOrderBy with
    | none => simp [horder] at hkey
    | some o =>
      rw [horder] at hkey
      exact .inr ⟨o, rfl, e, hkey, h⟩
  · exact .inl ⟨e, Option.mem_toList.1 hquery, h⟩

/-- Taking a statement apart neither adds aggregates to its clauses nor drops any. -/
theorem tracesAggregates (hsplit : s.split settings = .ok split)
    (houtputs : ∀ e ∈ s.select.outputs, ¬e.CallsAggregate) : s.TracesAggregates split := by
  have hspec := s.split_spec hsplit
  have hshare : ∀ q, some q ∈ split.shares →
      ∃ i, q.select.outputs = s.partsOf i s.select.outputs ∧
        q.joinOutputs = s.partsOf i s.joinExprs := by
    intro q hq
    obtain ⟨i, hi⟩ := List.mem_iff_getElem?.1 hq
    obtain ⟨hout, -, -, -, hjoin⟩ := shareOf_eq_ok (hspec.shareOf_eq hi)
    exact ⟨i, hout, hjoin⟩
  refine ⟨fun q hq e he hcalls => ?_, fun ⟨c, hc, hcalls⟩ => ?_, ?_,
    callsAggregate_orderBy_iff hspec, fun q hq e he hcalls => ?_⟩
  · obtain ⟨i, hout, -⟩ := hshare q hq
    rw [hout] at he
    obtain ⟨e', he', hcalls⟩ := callsAggregate_of_mem_partsOf he hcalls
    exact houtputs e' he' hcalls
  · exact WhereClause.callsAggregate_of_conjunct hc hcalls
  · rw [exists_conjunct_iff, exists_predicate_iff hspec, hspec.remainingQuery, remainingQuery,
      Expr.callsAggregate_conjoin?]
  · obtain ⟨i, -, hjoin⟩ := hshare q hq
    rw [hjoin] at he
    obtain ⟨e', he', hcalls⟩ := callsAggregate_of_mem_partsOf he hcalls
    exact leavesAggregate_of_mem hspec he' hcalls

end Statement

/-! ### The joined row -/

theorem Projection.not_callsAggregate_passThrough {types : List DataType} {e : Expr}
    (he : e ∈ passThrough types) : ¬e.CallsAggregate := by
  obtain ⟨i, -, rfl⟩ := List.mem_mapIdx.1 he
  exact Expr.not_callsAggregate_input _

namespace ResultRow

variable {row : List Expr} {session : Session} {select : Select} {split : Split}
  {leaves : List Leaf} {all : List Projection}

/-- On the joined row, aggregates are evaluated only for what remains, and no output calls one. -/
theorem aggregates_projections (h : projections session select split row leaves = .ok all)
    (houtputs : ∀ e ∈ select.outputs, ¬e.CallsAggregate) :
    (∀ projection ∈ all, ∀ e ∈ projection.evaluated, e.CallsAggregate → split.LeavesAggregate) ∧
      ∀ f, .fetch f ∈ all → ∀ e ∈ f.outputs, ¬e.CallsAggregate := by
  obtain ⟨filters, order, hfilters, horder, hrest⟩ := projections_shape h
  obtain ⟨rfl, -⟩ := filters_eq_ok hfilters
  obtain ⟨rfl, -⟩ := orderBy_eq_ok horder
  have hresolved : ∀ e ∈ select.outputs.map (Expr.resolve row), ¬e.CallsAggregate :=
    List.forall_mem_map.2 fun e he hcalls => houtputs e he (Expr.callsAggregate_of_resolve hcalls)
  have hfilter : ∀ projection ∈ split.remainingQuery.toList.map
      fun query => Projection.filter (query.resolve row),
      ∀ e ∈ projection.evaluated, e.CallsAggregate → split.LeavesAggregate := by
    intro projection hprojection e he hcalls
    obtain ⟨query, hmem, rfl⟩ := List.mem_map.1 hprojection
    obtain rfl := List.mem_singleton.1 he
    exact .inl ⟨query, Option.mem_toList.1 hmem, Expr.callsAggregate_of_resolve hcalls⟩
  have hnofetch : ∀ f, Projection.fetch f ∉ split.remainingQuery.toList.map
      fun query => Projection.filter (query.resolve row) := by simp
  have hkey : ∀ e ∈ (split.remainingOrderBy.map (·.mapKeys (Expr.resolve row))).toList.flatMap
      OrderBy.keys, e.CallsAggregate → split.LeavesAggregate := by
    intro e he hcalls
    obtain ⟨o, ho, he⟩ := List.mem_flatMap.1 he
    obtain ⟨o, hmem, rfl⟩ := Option.map_eq_some_iff.1 (Option.mem_toList.1 ho)
    obtain ⟨key, hmemKey, rfl⟩ := List.mem_map.1 he
    exact .inr ⟨o, hmem, key, hmemKey, Expr.callsAggregate_of_resolve hcalls⟩
  rcases hrest with ⟨-, rfl⟩ | ⟨-, f, hf, rfl⟩
  · refine ⟨List.forall_mem_append.2 ⟨hfilter, List.forall_mem_singleton.2 ?_⟩, fun f hf => ?_⟩
    · refine List.forall_mem_append.2 ⟨fun e he hcalls => ?_, hkey⟩
      exact absurd hcalls (hresolved e he)
    · rcases List.mem_append.1 hf with hf | hf
      · exact absurd hf (hnofetch f)
      · cases List.mem_singleton.1 hf
  · refine ⟨List.forall_mem_append.2 ⟨hfilter, List.forall_mem_cons.2 ⟨?_, ?_⟩⟩, fun g hg => ?_⟩
    · refine List.forall_mem_append.2 ⟨fun e he hcalls => ?_, hkey⟩
      exact absurd hcalls (Projection.not_callsAggregate_passThrough he)
    · exact List.forall_mem_singleton.2 fun _ he => nomatch he
    · rcases List.mem_append.1 hg with hg | hg
      · exact absurd hg (hnofetch g)
      · obtain rfl : g = f := by simpa using hg
        obtain ⟨entries, hgathers⟩ := exists_gathers hf
        rw [hgathers.outputs]
        exact hresolved

end ResultRow

/-! ### Planning -/

namespace CrossJoin

open Planning

variable {planner : RelationPlanner} {s : Statement} {before after : Session}

theorem validate_eq_ok (h : validate s = .ok ()) :
    s.select.groupBy = [] ∧ ∀ e ∈ s.select.outputs, ¬e.CallsAggregate := by
  unfold validate at h
  split at h
  · cases h
  · rename_i hgroup
    split at h
    · cases h
    · rename_i haggregates
      refine ⟨by simpa using hgroup, fun e he hcalls => haggregates ?_⟩
      exact List.any_eq_true.2 ⟨e, he, Expr.hasAggregates_iff.2 hcalls⟩

/-- A statement over two sources or more that is not valid is refused before anything is
planned. -/
theorem fails_of_validate (hlength : 2 ≤ s.sources.length) {cause : StatementFault}
    (h : validate s = .error cause) : Fails (plan planner s) before (.statement cause) before := by
  unfold plan
  rw [if_neg (Nat.not_lt.2 hlength)]
  refine fails_bind.2 (.inl ?_)
  rw [check, h]
  exact fails_throw.2 ⟨rfl, rfl⟩

/-- The aggregates of a planned join: none in its outputs, and those of its other clauses where
these are evaluated. -/
structure AggregatesPass (s : Statement) (settings : PlannerSettings) (merge : MergeStage) :
    Prop where
  groupBy : s.select.groupBy = []
  outputs : ∀ e ∈ s.select.outputs, ¬e.CallsAggregate
  exists_split : ∃ split, s.split settings = .ok split ∧ s.TracesAggregates split ∧
    (∀ projection ∈ merge.projections, ∀ e ∈ projection.evaluated,
      e.CallsAggregate → split.LeavesAggregate) ∧
    ∀ f, .fetch f ∈ merge.projections → ∀ e ∈ f.outputs, ¬e.CallsAggregate

/-- Grouped rows and aggregates in the outputs are refused, in this order, and nothing has been
planned then; no statement with either becomes a join.  A join is asked for the aggregates of the
predicate and of the order by, and has no others. -/
theorem aggregates_plan (planner : RelationPlanner) (s : Statement) (before : Session)
    (hlength : 2 ≤ s.sources.length) :
    (s.select.groupBy ≠ [] → Fails (plan planner s) before (.statement .groupBy) before) ∧
      (s.select.groupBy = [] → (∃ e ∈ s.select.outputs, e.CallsAggregate) →
        Fails (plan planner s) before (.statement .aggregates) before) ∧
      ∀ ⦃left right leftOuter merge after⦄,
        Gives (plan planner s) before (.planned (.nestedLoop left right leftOuter merge)) after →
          AggregatesPass s before.settings merge := by
  refine ⟨fun hgroup => fails_of_validate hlength ?_,
    fun hgroup haggregates => fails_of_validate hlength ?_,
    fun left right leftOuter merge after h => ?_⟩
  · rw [validate, if_pos (by simpa using hgroup)]
  · obtain ⟨e, he, hcalls⟩ := haggregates
    have hselect : s.select.hasAggregates = true :=
      List.any_eq_true.2 ⟨e, he, Expr.hasAggregates_iff.2 hcalls⟩
    rw [validate, hgroup, hselect]
    rfl
  · cases plannedBy_of_gives h with
    | joined hready hjoin _ =>
      obtain ⟨hgroup, houtputs⟩ := validate_eq_ok hready.valid
      obtain ⟨row, first, second, rest, -, -, hfinish, -, -⟩ := hready.gives_join hjoin
      obtain ⟨_, _, _, root, projections, hroot, hprojections, -, hplan⟩ := finish_eq_ok hfinish
      obtain ⟨_, _, _, _, hjoined, -, -, hpassed⟩ := exists_joinAll _ _ first second rest
      rw [hroot] at hjoined
      cases hjoined
      cases hplan
      obtain ⟨hevaluated, hfetch⟩ := ResultRow.aggregates_projections hprojections houtputs
      refine ⟨hgroup, houtputs, _, hready.splits,
        Statement.tracesAggregates hready.splits houtputs, ?_, fun f hf => ?_⟩
      · rw [hpassed]
        refine List.forall_mem_append.2 ⟨List.forall_mem_singleton.2 ?_, hevaluated⟩
        exact fun e he hcalls =>
          absurd hcalls (Projection.not_callsAggregate_passThrough he)
      · rw [hpassed] at hf
        refine hfetch f ((List.mem_append.1 hf).resolve_left fun hf => ?_)
        cases List.mem_singleton.1 hf

/-! ### A maximum -/

open Statement

/-- The largest number of the first table. -/
def maximum : Expr := .call ⟨"max", .aggregate, .int64⟩ (columnTable "t" "a").allColumns

/-- The numbers of the second table, if the largest number of the first one is one, sorted by it. -/
def maximumIsOne : Statement :=
  { pairs with
    select :=
      { Select.ofOutputs (columnTable "u" "b").allColumns with
        whereClause := .ofQuery (maximum.eq (.int64 1))
        orderBy := some (.asc [maximum]) } }

theorem joinOrder_maximumIsOne : joinOrder [some 0, none] = [0, 1] :=
  List.mergeSort_of_pairwise (by decide)

/-- The statement is planned as a join, although its predicate and its order by call an
aggregate. -/
theorem gives_maximum :
    (∃ query ∈ maximumIsOne.select.whereClause.query, query.CallsAggregate) ∧
      OrderBy.CallsAggregate maximumIsOne.select.orderBy ∧
      ∃ left right leftOuter merge after,
        Gives (plan (Strategy.planTable (.scan plainScan)) maximumIsOne)
          (.start oneNode ⟨10000, 10000⟩ 1) (.planned (.nestedLoop left right leftOuter merge))
          after := by
  have hready : ReadyToJoin (Strategy.planTable (.scan plainScan)) maximumIsOne
      (.start oneNode ⟨10000, 10000⟩ 1) _ _ _ :=
    ⟨Nat.le_refl 2, rfl, rfl, rfl, ⟨_, rfl, rfl⟩, rfl⟩
  exact ⟨⟨_, rfl, Expr.hasAggregates_iff.1 rfl⟩,
    ⟨_, rfl, maximum, List.mem_singleton_self _, Expr.hasAggregates_iff.1 rfl⟩,
    _, _, _, _, _, hready.gives_plan_of_steps joinOrder_maximumIsOne rfl rfl rfl⟩

/-- As an output the aggregate is refused. -/
theorem refused_maximum :
    2 ≤ pairs.sources.length ∧
      Fails (plan (Strategy.planTable (.scan plainScan))
          { pairs with select := .ofOutputs [maximum] })
        (.start oneNode ⟨10000, 10000⟩ 1) (.statement .aggregates)
        (.start oneNode ⟨10000, 10000⟩ 1) := by
  have hlength : 2 ≤ pairs.sources.length := by decide
  obtain ⟨-, hrefused, -⟩ := aggregates_plan (Strategy.planTable (.scan plainScan))
    { pairs with select := .ofOutputs [maximum] } (.start oneNode ⟨10000, 10000⟩ 1) hlength
  exact ⟨hlength, hrefused rfl
    ⟨maximum, List.mem_singleton_self _, Expr.hasAggregates_iff.1 rfl⟩⟩

end CrossJoin

end ShardJoin
