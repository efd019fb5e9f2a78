/-
The clauses of a select statement over resolved expressions.

A where clause may be known to match nothing without looking at any row: it is
flagged so, or one of its folded conjuncts is a false or null literal.  An
order-by clause keeps its keys, their directions and their null placements in
three lists, which `validate` requires to be equally long.
-/
import ShardJoin.Expr.Conjunct
import ShardJoin.Expr.Fold
import ShardJoin.Expr.Resolve
import ShardJoin.Fault

namespace ShardJoin

/-- The primary key values that a statement asks for. -/
structure DocKeys where
  keys : List (List Expr)

/-- The condition on the rows of a statement. -/
structure WhereClause where
  query : Option Expr
  noMatch : Bool
  docKeys : Option DocKeys

namespace WhereClause

/-- No condition. -/
def matchAll : WhereClause := ⟨none, false, none⟩

/-- The condition that no row meets. -/
def matchNone : WhereClause := ⟨none, true, none⟩

/-- The condition that a predicate is true. -/
def ofQuery (query : Expr) : WhereClause := ⟨some query, false, none⟩

/-- The condition that all predicates of a list are true. -/
def ofConjuncts (conjuncts : List Expr) : WhereClause :=
  match Expr.conjoin? conjuncts with
  | some query => ofQuery query
  | none => matchAll

/-- Whether there is a predicate. -/
def hasQuery (w : WhereClause) : Bool := w.query.isSome

/-- The conjuncts of the folded predicate. -/
def conjuncts (w : WhereClause) : List Expr :=
  match w.query with
  | some query => query.fold.conjuncts
  | none => []

/-- Whether a conjunct can never be true. -/
def neverTrue : Expr → Bool
  | .literal (.boolean b) _ => !b
  | .literal .null _ => true
  | _ => false

/-- Whether the clause is known to match nothing. -/
def isStaticallyFalse (w : WhereClause) : Bool := w.noMatch || w.conjuncts.any neverTrue

end WhereClause

/-- The keys that rows are sorted by, each with its direction and null placement. -/
structure OrderBy where
  keys : List Expr
  descending : List Bool
  nullsFirst : List (Option Bool)

namespace OrderBy

/-- Ascending order with default null placement. -/
def asc (keys : List Expr) : OrderBy :=
  ⟨keys, List.replicate keys.length false, List.replicate keys.length none⟩

/-- The number of keys. -/
def length (o : OrderBy) : Nat := o.keys.length

/-- Whether there is no key. -/
def isEmpty (o : OrderBy) : Bool := o.keys.isEmpty

/-- Every key needs its own direction and null placement. -/
def validate (o : OrderBy) : Except PlanFault Unit :=
  if o.descending.length = o.keys.length ∧ o.nullsFirst.length = o.keys.length then .ok ()
  else .error (.sortFlags o.keys.length o.descending.length o.nullsFirst.length)

/-- The entries at the given positions, each with its own flags; nothing if a position is
beyond the end of one of the three lists. -/
def subset? (o : OrderBy) (positions : List Nat) : Option OrderBy := do
  let keys ← positions.mapM (o.keys[·]?)
  let descending ← positions.mapM (o.descending[·]?)
  let nullsFirst ← positions.mapM (o.nullsFirst[·]?)
  return ⟨keys, descending, nullsFirst⟩

/-- Changes the keys and keeps the flags. -/
def mapKeys (f : Expr → Expr) (o : OrderBy) : OrderBy := { o with keys := o.keys.map f }

end OrderBy

/-- An analyzed select: of a whole statement or of one of its sources. -/
structure Select where
  outputs : List Expr
  whereClause : WhereClause
  groupBy : List Expr
  orderBy : Option OrderBy
  limit : Option UInt64
  offset : UInt64

namespace Select

/-- A select that only lists its outputs. -/
def ofOutputs (outputs : List Expr) : Select := ⟨outputs, .matchAll, [], none, none, 0⟩

/-- Whether an output calls an aggregate function. -/
def hasAggregates (s : Select) : Bool := s.outputs.any Expr.hasAggregates

/-- The types of the outputs. -/
def outputTypes (s : Select) : List DataType := s.outputs.map Expr.type

end Select

end ShardJoin
