/-
The parts of an expression that one relation alone can supply: the largest
subexpressions that refer to exactly one relation, from left to right.
-/
import ShardJoin.Expr

namespace ShardJoin.Expr

mutual
/-- The largest subexpressions that refer to exactly one relation, each with its relation. -/
def parts : Expr → List (RelationName × Expr)
  | .call fn args =>
    match (Expr.call fn args).soleRelation? with
    | some r => [(r, .call fn args)]
    | none => partsAll args
  | .column c => [(c.relation, .column c)]
  | .literal .. | .input _ => []

/-- The parts of each expression of a list, in order. -/
def partsAll : List Expr → List (RelationName × Expr)
  | [] => []
  | e :: es => e.parts ++ partsAll es
end

theorem partsAll_eq (es : List Expr) : partsAll es = es.flatMap parts := by
  induction es with
  | nil => simp [partsAll]
  | cons e es ih => simp [partsAll, ih]

end ShardJoin.Expr
