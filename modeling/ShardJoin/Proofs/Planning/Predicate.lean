/-
What becomes of the predicate when a statement is taken apart.

Its conjuncts go to the tables, or remain.  The sources may be tables, shares of
tables and plans, and references may name relations that are no source.

* `Statement.forall_shares_iff` — the predicates of the shares are true if the
  conjuncts of the tables are;
* `Statement.split_keeps_predicate` — what remains and the predicates of the
  shares are true together if the predicate of the statement is, and each
  conjunct over one base table is among the predicate of its share.
-/
import ShardJoin.Proofs.Expr.Conjunction
import ShardJoin.Proofs.Planning.Contract

namespace ShardJoin

namespace Statement

variable {s : Statement} {settings : PlannerSettings} {split : Split}

/-! ### The predicates of the shares -/

/-- The predicate of a share is the conjunction of what its table evaluates. -/
theorem query_of_share {default : UInt64} {i : Nat} {q : TableQuery}
    (h : s.shareOf default i = .ok (some q)) :
    q.select.whereClause.query = Expr.conjoin? (s.conjunctsOf i) := by
  rw [(shareOf_eq_ok h).2.1, WhereClause.query_ofConjuncts]

/-- A table evaluates conjuncts that refer to it alone. -/
theorem relations_of_share {default : UInt64} {i : Nat} {q : TableQuery}
    (h : s.shareOf default i = .ok (some q)) {own : Expr}
    (hown : own ∈ q.select.whereClause.query) :
    ∃ x, s.sources[i]? = some x ∧ own.relations = [x.1] := by
  rw [query_of_share h] at hown
  -- there is a conjunct, since there is a conjunction
  have hne : s.conjunctsOf i ≠ [] := fun hnil => by
    rw [Expr.conjoin?_eq_none_iff.2 hnil] at hown
    cases hown
  obtain ⟨c, hc⟩ := List.exists_mem_of_ne_nil _ hne
  obtain ⟨name, -, hposition, -⟩ := owner?_eq_some.1 (mem_conjunctsOf.1 hc).2
  obtain ⟨source, hsource⟩ := position?_eq_some hposition
  refine ⟨_, hsource, Expr.relations_eq_singleton_iff.2 ?_⟩
  refine Expr.soleRelation?_conjoin? (fun c hc => ?_) hown
  obtain ⟨name', hsole, hposition', -⟩ := owner?_eq_some.1 (mem_conjunctsOf.1 hc).2
  obtain ⟨source', hsource'⟩ := position?_eq_some hposition'
  rw [hsource] at hsource'
  rw [hsole, (Prod.mk.inj (Option.some.inj hsource')).1]

/-- The predicates of the shares are true if all conjuncts of the tables are. -/
theorem forall_shares_iff {α : Type} {v : Valuation α} (hsplit : split.IsOf s settings) {e : Expr}
    (hconjuncts : s.select.whereClause.conjuncts = e.conjuncts) (hargs : e.truthArgs v = true) :
    (∀ q, some q ∈ split.shares → ∀ own ∈ q.select.whereClause.query, own.kleene v = .bool true) ↔
      ∀ i, ∀ c ∈ s.conjunctsOf i, c.kleene v = .bool true := by
  have hsub : ∀ i, (s.conjunctsOf i).Sublist e.conjuncts := fun i =>
    hconjuncts ▸ List.filter_sublist
  constructor
  · intro h i c hc
    obtain ⟨name, -, -, htable⟩ := owner?_eq_some.1 (mem_conjunctsOf.1 hc).2
    obtain ⟨table, htable⟩ := Option.isSome_iff_exists.1 htable
    obtain ⟨q, hat, hshare⟩ := exists_tableQuery hsplit htable
    have hquery := h q (List.mem_of_getElem? hat)
    rw [query_of_share hshare] at hquery
    exact (Expr.kleene_conjoin? hargs (hsub i)).1 hquery c hc
  · intro h q hq
    obtain ⟨i, hi⟩ := List.mem_iff_getElem?.1 hq
    rw [query_of_share (hsplit.shareOf_eq hi)]
    exact (Expr.kleene_conjoin? hargs (hsub i)).2 (h i)

/-! ### The predicate of the statement -/

/-- No conjunct that remains refers to one base table alone. -/
theorem relations_of_remaining (hnames : (s.sources.map (·.1)).Nodup) {c : Expr}
    (hc : c ∈ s.remainingConjuncts) {x : RelationName × Source} (hx : x ∈ s.sources)
    (htable : x.2.table?.isSome = true) : c.relations ≠ [x.1] := by
  intro hrelations
  obtain ⟨i, hi⟩ := List.mem_iff_getElem?.1 hx
  have howner : s.owner? c = some i := owner?_eq_some.2
    ⟨x.1, Expr.relations_eq_singleton_iff.1 hrelations, s.position?_getElem hnames hi, by
      rwa [tableAt?, hi]⟩
  rw [(mem_remainingConjuncts.1 hc).2.1] at howner
  cases howner

/-- The predicate of a statement is true if what remains of it and the predicates of all shares
are; a share is asked for conjuncts that refer to its source alone, and no conjunct that remains
refers to one base table alone. -/
theorem split_keeps_predicate (hnames : (s.sources.map (·.1)).Nodup)
    (hsplit : s.split settings = .ok split) :
    (∀ query ∈ s.select.whereClause.query, ∀ (α : Type) (v : Valuation α),
      query.truthArgs v = true →
        (query.kleene v = .bool true ↔
          (∀ rest ∈ split.remainingQuery, rest.kleene v = .bool true) ∧
          ∀ q, some q ∈ split.shares → ∀ own ∈ q.select.whereClause.query,
            own.kleene v = .bool true)) ∧
    (∀ (i : Nat) (q : TableQuery), split.shares[i]? = some (some q) →
      ∀ own ∈ q.select.whereClause.query, ∃ x : RelationName × Source,
        s.sources[i]? = some x ∧ own.relations = [x.1]) ∧
    ∀ rest ∈ split.remainingQuery, ∀ c ∈ rest.conjuncts, ∀ x ∈ s.sources,
      x.2.table?.isSome = true → c.relations ≠ [x.1] := by
  have hspec := s.split_spec hsplit
  refine ⟨fun query hquery α v hargs => ?_, fun i q hi own hown => ?_, fun rest hrest c hc => ?_⟩
  · have hconjuncts : s.select.whereClause.conjuncts = query.fold.conjuncts := by
      rw [WhereClause.conjuncts, Option.mem_def.1 hquery]
    have hfolded := Expr.truthArgs_fold hargs
    have hremaining : s.remainingConjuncts.Sublist query.fold.conjuncts :=
      hconjuncts ▸ List.filter_sublist
    have htrue : ∀ c, (c == Expr.bool true) = true → c.kleene v = .bool true := by
      intro c hc
      obtain ⟨type, rfl⟩ := Expr.eq_of_beq_bool hc
      rfl
    calc query.kleene v = .bool true
      _ ↔ query.fold.kleene v = .bool true := by rw [Expr.kleene_fold hargs]
      _ ↔ ∀ c ∈ s.select.whereClause.conjuncts, c.kleene v = .bool true := by
        rw [hconjuncts, Expr.kleene_iff_conjuncts hfolded]
      _ ↔ (∀ i, ∀ c ∈ s.conjunctsOf i, c.kleene v = .bool true) ∧
          ∀ c ∈ s.remainingConjuncts, c.kleene v = .bool true := forall_conjuncts_iff htrue
      _ ↔ _ := by
        rw [and_comm, forall_shares_iff hspec hconjuncts hfolded, hspec.remainingQuery,
          remainingQuery, Expr.kleene_conjoin? hfolded hremaining]
  · exact relations_of_share (hspec.shareOf_eq hi) hown
  · rw [hspec.remainingQuery] at hrest
    have hself : ∀ c ∈ s.remainingConjuncts, c.conjuncts = [c] := fun c hc =>
      WhereClause.conjuncts_of_mem_conjuncts (mem_remainingConjuncts.1 hc).1
    rw [Expr.conjuncts_conjoin? hself hrest] at hc
    exact fun x hx => relations_of_remaining hnames hc hx

/-- The flag of a relation. -/
def flag (relation : RelationName) : Expr :=
  .column ⟨relation, ⟨"doc", relation⟩, "flag", .boolean, false⟩

/-- A table and a plan, with a predicate over both of them and a relation that is no source. -/
def flags : Statement where
  sources := [("t", .table ⟨"t", ⟨⟨"doc", "t"⟩, [⟨"flag", .boolean⟩], [], []⟩⟩),
    ("p", .planned (.noOp [.boolean]))]
  select := { Select.ofOutputs [] with
    whereClause := .ofQuery
      ((flag "t").and ((Expr.apply .or [flag "t", flag "p"]).and ((flag "p").and (flag "x")))) }

/-- With all flags set the predicate is true; the table evaluates its own flag, and the disjunction
and the other two flags remain. -/
theorem split_keeps_predicate_flags :
    let v : Valuation Empty := ⟨fun _ => .bool true, fun _ => .null, fun _ _ => .null⟩
    ∃ query split q rest, flags.select.whereClause.query = some query ∧
      query.kleene v = .bool true ∧ flags.split .standard = .ok split ∧
      split.shares = [some q, none] ∧ q.select.whereClause.query = some (flag "t") ∧
      (flag "t").relations = ["t"] ∧ split.remainingQuery = some rest ∧
      rest.kleene v = .bool true ∧ rest.conjuncts.length = 3 ∧
      ∀ c ∈ rest.conjuncts, c.relations ≠ ["t"] := by
  intro v
  have hnames : (flags.sources.map (·.1)).Nodup := by decide
  obtain ⟨hmeaning, hshares, hrest⟩ :=
    split_keeps_predicate hnames (rfl : flags.split .standard = .ok _)
  refine ⟨_, _, _, _, rfl, rfl, rfl, rfl, rfl, ?_, rfl, ?_, rfl, ?_⟩
  · obtain ⟨x, hx, hrelations⟩ := hshares 0 _ rfl _ rfl
    obtain rfl := Option.some.inj hx
    exact hrelations
  · exact ((hmeaning _ rfl Empty v rfl).1 rfl).1 _ rfl
  · exact fun c hc => hrest _ rfl c hc _ List.mem_cons_self rfl

end Statement

end ShardJoin
