/-
The operators that are evaluated while planning: the three connectives and six
comparisons.  A function call is one of them if it has its name, whatever kind
of function it is declared to be.
-/
import ShardJoin.Value

namespace ShardJoin

/-- A comparison. -/
inductive CompareOp where
  | eq
  | ne
  | lt
  | le
  | gt
  | ge
  deriving DecidableEq

/-- Whether the comparison holds of two values in the given order. -/
def CompareOp.holds : CompareOp → Ordering → Bool
  | .eq, o => o.isEq
  | .ne, o => o.isNe
  | .lt, o => o.isLT
  | .le, o => o.isLE
  | .gt, o => o.isGT
  | .ge, o => o.isGE

/-- An operator with a meaning of its own. -/
inductive Operator where
  | and
  | or
  | not
  | comparison (op : CompareOp)
  deriving DecidableEq

namespace Operator

/-- The function name of an operator. -/
def name : Operator → String
  | .and => "op_and"
  | .or => "op_or"
  | .not => "op_not"
  | .comparison .eq => "op_="
  | .comparison .ne => "op_<>"
  | .comparison .lt => "op_<"
  | .comparison .le => "op_<="
  | .comparison .gt => "op_>"
  | .comparison .ge => "op_>="

/-- All operators. -/
def all : List Operator :=
  [.and, .or, .not, .comparison .eq, .comparison .ne, .comparison .lt, .comparison .le,
    .comparison .gt, .comparison .ge]

/-- The operator with a function name. -/
def ofName? (s : String) : Option Operator := all.find? (·.name == s)

theorem ofName?_name (op : Operator) : ofName? op.name = some op := by
  cases op with
  | comparison c => cases c <;> decide
  | _ => decide

end Operator

end ShardJoin
