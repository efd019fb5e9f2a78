/-
Constant folding.

`fold` evaluates the connectives and the comparisons of literals, from the
leaves upwards.  In a conjunction a false literal decides, true literals are
dropped, and a single survivor stands for the whole; disjunctions are dual.
Negations of truth values and of nulls are evaluated, and so are comparisons
of two literals that can be compared.  All other calls keep their shape with
folded arguments.
-/
import ShardJoin.Expr

namespace ShardJoin.Expr

/-- Whether the expression is a literal with a given truth value. -/
def isBool (b : Bool) : Expr → Bool
  | .literal (.boolean c) _ => b == c
  | _ => false

/-- Folds a connective over folded arguments.  `neutral` is the truth value that can be dropped;
the other one decides. -/
def foldConnective (neutral : Bool) (fn : FunctionInfo) (args : List Expr) : Expr :=
  if args.any (isBool (!neutral)) then bool (!neutral)
  else match args.filter (!isBool neutral ·) with
    | [] => bool neutral
    | [e] => e
    | rest => .call fn rest

/-- Folds a negation over folded arguments. -/
def foldNegation (fn : FunctionInfo) (args : List Expr) : Expr :=
  match args with
  | [.literal (.boolean b) _] => bool (!b)
  | [.literal .null _] => null
  | _ => .call fn args

/-- Folds a comparison over folded arguments. -/
def foldComparison (op : CompareOp) (fn : FunctionInfo) (args : List Expr) : Expr :=
  match args with
  | [.literal v _, .literal w _] =>
    match v.compare w with
    | .unknown => null
    | .ordered o => bool (op.holds o)
    | .incomparable => .call fn args
  | _ => .call fn args

/-- Folds a call whose arguments are folded. -/
def foldCall (fn : FunctionInfo) (args : List Expr) : Expr :=
  match fn.operator? with
  | some .and => foldConnective true fn args
  | some .or => foldConnective false fn args
  | some .not => foldNegation fn args
  | some (.comparison op) => foldComparison op fn args
  | none => .call fn args

mutual
/-- Evaluates the operators whose arguments are literals. -/
def fold : Expr → Expr
  | .call fn args => foldCall fn (foldAll args)
  | .column r => .column r
  | .literal v t => .literal v t
  | .input c => .input c

/-- Folds each expression of a list. -/
def foldAll : List Expr → List Expr
  | [] => []
  | e :: es => e.fold :: foldAll es
end

theorem foldAll_eq (es : List Expr) : foldAll es = es.map fold := by
  induction es with
  | nil => simp [foldAll]
  | cons e es ih => simp [foldAll, ih]

end ShardJoin.Expr
