/-
Conjuncts over constants in the predicate of a statement.

A conjunct that refers to no column belongs to no table.  If folding makes a
literal of it, it is dropped, or the statement is known to have no rows.  If it
does not, the conjunct remains for the joined row, and no limit is given to the
tables.

* `WhereClause.fold_constant` — a constant conjunct with at most one open null is
  true, unless the clause is statically false;
* `Statement.exists_remaining` — one with more open nulls remains;
* `Statement.split_folds_constants` — together with what it means for the limit.
-/
import ShardJoin.Proofs.Expr.Constants
import ShardJoin.Proofs.Planning.SortKeys

namespace ShardJoin

/-! ### Where clauses -/

namespace WhereClause

variable {w : WhereClause} {query : Expr}

/-- What can never be true is no conjunct of a clause that is not statically false. -/
theorem neverTrue_of_mem (hquery : w.query = some query) (hlive : w.isStaticallyFalse = false)
    {d : Expr} (hd : d ∈ query.fold.conjuncts) : neverTrue d = false := by
  rw [isStaticallyFalse, Bool.or_eq_false_iff] at hlive
  have hall := List.any_eq_false.1 hlive.2
  rw [conjuncts, hquery] at hall
  exact Bool.eq_false_iff.2 (hall d hd)

/-- What folding a conjunct leaves is among the conjuncts of the folded predicate, true literals
apart. -/
theorem mem_conjuncts_fold (hquery : w.query = some query) (hlive : w.isStaticallyFalse = false)
    {c : Expr} (hc : c ∈ query.conjuncts) {d : Expr} (hd : d ∈ c.fold.conjuncts) :
    d.isBool true = true ∨ d ∈ query.fold.conjuncts := by
  rcases Expr.conjunct_fold hc with hfalse | hkept
  · have hmem : Expr.bool false ∈ query.fold.conjuncts := by
      rw [hfalse]
      exact List.mem_singleton_self _
    cases neverTrue_of_mem hquery hlive hmem
  · exact hkept d hd

/-- A constant conjunct with at most one open null is folded to true, unless the clause is
statically false. -/
theorem fold_constant (hquery : w.query = some query) (hlive : w.isStaticallyFalse = false)
    {c : Expr} (hc : c ∈ query.conjuncts) (hconstant : c.Constant) (hle : c.openNulls ≤ 1) :
    c.fold = .bool true := by
  obtain ⟨v, t, hliteral⟩ := hconstant.fold_isLiteral_iff.2 hle
  have hself : c.fold ∈ c.fold.conjuncts := by
    rw [hliteral]
    exact List.mem_singleton_self _
  refine hconstant.fold_eq_true hle ?_
  rcases mem_conjuncts_fold hquery hlive hc hself with htrue | hmem
  · obtain ⟨type, htrue⟩ := Expr.eq_of_isBool htrue
    rw [htrue]
    rfl
  · exact neverTrue_of_mem hquery hlive hmem

end WhereClause

namespace Statement

variable {s : Statement} {query : Expr}

/-- What remains is left of one conjunct, and not of a constant with at most one open null. -/
theorem conjunct_of_remaining (hquery : s.select.whereClause.query = some query)
    (hlive : s.select.whereClause.isStaticallyFalse = false) {d : Expr}
    (hd : d ∈ s.remainingConjuncts) :
    ∃ c ∈ query.conjuncts, d ∈ c.fold.conjuncts ∧ (c.Constant → 1 < c.openNulls) := by
  obtain ⟨hmem, -, hliteral⟩ := mem_remainingConjuncts.1 hd
  rw [WhereClause.conjuncts, hquery] at hmem
  rcases Expr.conjunct_of_fold hmem with ⟨b, rfl⟩ | ⟨c, hc, hdc⟩
  · cases b with
    | true => cases hliteral
    | false => cases WhereClause.neverTrue_of_mem hquery hlive hmem
  · refine ⟨c, hc, hdc, fun hconstant => ?_⟩
    by_contra hle
    have hfold := WhereClause.fold_constant hquery hlive hc hconstant (Nat.le_of_not_lt hle)
    rw [hfold] at hdc
    obtain rfl := List.mem_singleton.1 hdc
    cases hliteral

/-- What is left of a constant conjunct with two open nulls or more remains. -/
theorem exists_remaining (hquery : s.select.whereClause.query = some query)
    (hlive : s.select.whereClause.isStaticallyFalse = false) {c : Expr}
    (hc : c ∈ query.conjuncts) (hconstant : c.Constant) (hlt : 1 < c.openNulls) :
    ∃ d ∈ c.fold.conjuncts, d ∈ s.remainingConjuncts := by
  obtain ⟨d, hd, hreferences, hvalue⟩ := hconstant.exists_conjunct hlt
  have hmem : d ∈ s.select.whereClause.conjuncts := by
    rw [WhereClause.conjuncts, hquery]
    refine (WhereClause.mem_conjuncts_fold hquery hlive hc hd).resolve_left fun htrue => ?_
    obtain ⟨type, rfl⟩ := Expr.eq_of_isBool htrue
    exact hvalue rfl
  have howner : s.owner? d = none := by
    rw [owner?, Expr.soleRelation?, hreferences]
    rfl
  refine ⟨d, hd, mem_remainingConjuncts.2 ⟨hmem, howner, Bool.eq_false_iff.2 fun htrue => ?_⟩⟩
  obtain ⟨type, rfl⟩ := Expr.eq_of_beq_bool htrue
  exact hvalue rfl

/-- What becomes of the constants among the conjuncts of a predicate, unless it is statically
false. -/
structure FoldsConstants (s : Statement) (query : Expr) (split : Split) : Prop where
  /-- With at most one open null a constant is folded to true. -/
  folded : ∀ c ∈ query.conjuncts, c.Constant → c.openNulls ≤ 1 → c.fold = .bool true
  /-- With more it remains, and so no limit is given to the tables. -/
  stuck : ∀ c ∈ query.conjuncts, c.Constant → 1 < c.openNulls →
    (∃ d ∈ c.fold.conjuncts, d ∈ s.remainingConjuncts) ∧ split.pushesLimit = false
  /-- Nothing that remains is left of other constants. -/
  remaining : ∀ d ∈ s.remainingConjuncts, ∃ c ∈ query.conjuncts,
    d ∈ c.fold.conjuncts ∧ (c.Constant → 1 < c.openNulls)
  /-- If there are only such, whether a limit is given depends on the order by alone. -/
  pushes : (∀ c ∈ query.conjuncts, c.Constant ∧ c.openNulls ≤ 1) →
    split.remainingQuery = none ∧ split.pushesLimit = split.remainingOrderBy.isNone

theorem foldsConstants {settings : PlannerSettings} {split : Split}
    (hsplit : s.split settings = .ok split)
    (hquery : s.select.whereClause.query = some query)
    (hlive : s.select.whereClause.isStaticallyFalse = false) : FoldsConstants s query split := by
  have hspec := s.split_spec hsplit
  have hremaining := fun d => conjunct_of_remaining hquery hlive (d := d)
  refine ⟨fun c hc => WhereClause.fold_constant hquery hlive hc, fun c hc hconstant hlt => ?_,
    hremaining, fun hall => ?_⟩
  · obtain ⟨d, hd, hmem⟩ := exists_remaining hquery hlive hc hconstant hlt
    refine ⟨⟨d, hd, hmem⟩, ?_⟩
    have hsome : split.remainingQuery ≠ none := by
      rw [hspec.remainingQuery, remainingQuery, ne_eq, Expr.conjoin?_eq_none_iff]
      exact List.ne_nil_of_mem hmem
    rw [Split.pushesLimit, Option.isNone_eq_false_iff.2 (Option.isSome_iff_ne_none.2 hsome),
      Bool.false_and]
  · have hnil : s.remainingConjuncts = [] := by
      refine List.eq_nil_iff_forall_not_mem.2 fun d hd => ?_
      obtain ⟨c, hc, -, hlt⟩ := hremaining d hd
      obtain ⟨hconstant, hle⟩ := hall c hc
      exact Nat.not_lt.2 hle (hlt hconstant)
    have hnone : split.remainingQuery = none := by
      rw [hspec.remainingQuery, remainingQuery, hnil]
      rfl
    exact ⟨hnone, by rw [Split.pushesLimit, hnone, Option.isNone_none, Bool.true_and]⟩

/-- Folding makes a literal of a constant exactly if at most one null is open in it, the truth value
that it has if it is true or false.  Such a conjunct is dropped from the predicate of a statement, or
the predicate is statically false; one with more open nulls remains, so that no limit is given to the
tables. -/
theorem split_folds_constants {e : Expr} (he : e.Constant) (s : Statement)
    (settings : PlannerSettings) (split : Split) (query : Expr) :
    ((∃ v t, e.fold = .literal v t) ↔ e.openNulls ≤ 1) ∧
      (∀ b, e.fold = .bool b ↔ e.truthValue = .ofBool b) ∧
      (s.split settings = .ok split → s.select.whereClause.query = some query →
        s.select.whereClause.isStaticallyFalse = true ∨ FoldsConstants s query split) := by
  refine ⟨he.fold_isLiteral_iff, fun b => he.fold_eq_bool_iff, fun hsplit hquery => ?_⟩
  cases hlive : s.select.whereClause.isStaticallyFalse with
  | true => exact .inl rfl
  | false => exact .inr (foldsConstants hsplit hquery hlive)

/-- The pairs of numbers in any order that meet a predicate. -/
def filteredPairs (query : Expr) : Statement :=
  { pairs with select := { pairs.select with orderBy := none, whereClause := .ofQuery query } }

theorem constant_or {a b : Expr} (ha : a.Constant) (hb : b.Constant) : (a.or b).Constant :=
  .connective (.inr (Operator.ofName?_name .or)) (by simpa using ⟨ha, hb⟩)

/-- `NULL OR 1 = 1` is folded to true, and the limit is given to the tables. -/
theorem split_folds_constants_tautology :
    let query := Expr.null.or ((Expr.int64 1).eq (.int64 1))
    query.Constant ∧ query.fold = .bool true ∧
      ∃ split, (filteredPairs query).split .standard = .ok split ∧
        split.remainingQuery = none ∧ split.pushesLimit = true := by
  intro query
  have hequal : ((Expr.int64 1).eq (.int64 1)).Constant :=
    .comparison (Operator.ofName?_name (.comparison .eq)) (.int64 1 1)
  have hconstant : query.Constant := constant_or (.null .null) hequal
  obtain ⟨-, hfold, hsplit⟩ :=
    split_folds_constants hconstant (filteredPairs query) .standard _ query
  refine ⟨hconstant, (hfold true).2 rfl, _, rfl, ?_⟩
  rcases hsplit rfl rfl with hfalse | hfolds
  · cases hfalse
  · refine hfolds.pushes fun c hc => ?_
    obtain rfl := List.mem_singleton.1 hc
    exact ⟨hconstant, Nat.zero_le 1⟩

/-- `NULL OR NULL` is not folded to a literal; it remains, and no limit is given to the tables. -/
theorem not_split_folds_nulls :
    let query := Expr.null.or .null
    query.Constant ∧ (¬∃ v t, query.fold = .literal v t) ∧
      (filteredPairs query).select.whereClause.isStaticallyFalse = false ∧
      ∃ split, (filteredPairs query).split .standard = .ok split ∧
        split.remainingQuery = some query ∧ split.pushesLimit = false := by
  intro query
  refine ⟨constant_or (.null .null) (.null .null), ?_, rfl, _, rfl, rfl, rfl⟩
  rintro ⟨v, t, h⟩
  cases h

end Statement

end ShardJoin
