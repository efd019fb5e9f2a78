/-
A predicate as the list of its top-level conjuncts, and a list of conjuncts as
a predicate.

* `conjuncts` flattens nested conjunctions of any arity; a conjunction without
  arguments has no conjuncts;
* `conjoin?` chains conjuncts to the left; the empty list has no predicate.
-/
import ShardJoin.Expr

namespace ShardJoin.Expr

mutual
/-- The conjuncts of a predicate, from left to right. -/
def conjuncts : Expr → List Expr
  | .call fn args =>
    if fn.operator? = some .and then conjunctsAll args else [.call fn args]
  | e => [e]

/-- The conjuncts of each predicate of a list, in order. -/
def conjunctsAll : List Expr → List Expr
  | [] => []
  | e :: es => e.conjuncts ++ conjunctsAll es
end

theorem conjunctsAll_eq (es : List Expr) : conjunctsAll es = es.flatMap conjuncts := by
  induction es with
  | nil => simp [conjunctsAll]
  | cons e es ih => simp [conjunctsAll, ih]

/-- The conjunction of a list of predicates, if there is one. -/
def conjoin? : List Expr → Option Expr
  | [] => none
  | e :: es => some (es.foldl and e)

end ShardJoin.Expr
