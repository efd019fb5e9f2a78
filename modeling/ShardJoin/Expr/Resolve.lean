/-
Expressions over a row of known columns.

A row has one column per expression of a list.  `resolve` replaces
every subexpression that is the same as an entry of that list by the position
of the first such entry.  A larger match wins over the matches inside it, and
literals are left alone.  What is left unresolved are references that no
column of the row covers.
-/
import ShardJoin.Expr

namespace ShardJoin.Expr

/-- The position of an expression in a row. -/
def position? (e : Expr) (row : List Expr) : Option Nat :=
  row.findIdx? (· == e)

mutual
/-- Reads the parts of an expression that a row holds from that row. -/
def resolve (row : List Expr) : Expr → Expr
  | .literal v t => .literal v t
  | .call fn args =>
    match position? (.call fn args) row with
    | some i => inputAt i fn.returnType
    | none => .call fn (resolveAll row args)
  | .column r =>
    match position? (.column r) row with
    | some i => inputAt i r.type
    | none => .column r
  | .input c =>
    match position? (.input c) row with
    | some i => inputAt i c.type
    | none => .input c

/-- Resolves each expression of a list. -/
def resolveAll (row : List Expr) : List Expr → List Expr
  | [] => []
  | e :: es => e.resolve row :: resolveAll row es
end

theorem resolveAll_eq (row es : List Expr) :
    resolveAll row es = es.map (resolve row) := by
  induction es with
  | nil => simp [resolveAll]
  | cons e es ih => simp [resolveAll, ih]

/-- Whether a row covers every reference of the expression. -/
def resolvesIn (e : Expr) (row : List Expr) : Bool :=
  (e.resolve row).references.isEmpty

end ShardJoin.Expr
