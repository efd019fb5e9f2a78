/-
What each base table of a statement has to supply.

* A conjunct of the folded predicate goes to the table that it refers to, if
  it refers to that table alone; a literal truth is dropped; the conjunction
  of the others is the remaining query, evaluated on the joined row.
* The outputs of a table are the parts of the statement's outputs that it
  alone can supply.
* The order by is given to the tables key by key if every key refers to one
  table alone and the keys of a table stand together; otherwise all of it
  remains for the joined row.
* What remains needs join outputs, again the parts that one table can supply;
  if nothing remains, no table needs more rows than limit and offset together.
-/
import ShardJoin.Expr.Part
import ShardJoin.Settings
import ShardJoin.Statement

namespace ShardJoin

namespace Statement

/-- The base table at a position, if it is still to be planned. -/
def tableAt? (s : Statement) (i : Nat) : Option TableRelation :=
  s.sources[i]?.bind (·.2.table?)

/-- The position of the base table with a name. -/
def tablePosition? (s : Statement) (name : RelationName) : Option Nat :=
  (s.position? name).filter fun i => (s.tableAt? i).isSome

/-- The position of the source that an expression refers to, if it refers to one source alone. -/
def home? (s : Statement) (e : Expr) : Option Nat := e.soleRelation?.bind s.position?

/-- The position of the base table that alone can evaluate an expression. -/
def owner? (s : Statement) (e : Expr) : Option Nat := e.soleRelation?.bind s.tablePosition?

/-- The parts of some expressions that the table at a position supplies, without repetition. -/
def partsOf (s : Statement) (i : Nat) (es : List Expr) : List Expr :=
  ((es.flatMap Expr.parts).filter fun p => s.tablePosition? p.1 == some i).foldl
    (fun found p => Expr.pushNew found p.2) []

/-- The conjuncts of the predicate that the table at a position evaluates. -/
def conjunctsOf (s : Statement) (i : Nat) : List Expr :=
  s.select.whereClause.conjuncts.filter fun c => s.owner? c == some i

/-- The conjuncts of the predicate that no table can evaluate alone. -/
def remainingConjuncts (s : Statement) : List Expr :=
  s.select.whereClause.conjuncts.filter fun c => s.owner? c == none && !(c == Expr.bool true)

/-- The part of the predicate that is left for the joined row. -/
def remainingQuery (s : Statement) : Option Expr := Expr.conjoin? s.remainingConjuncts

/-- The keys of the order by. -/
def sortKeys (s : Statement) : List Expr :=
  match s.select.orderBy with
  | some o => o.keys
  | none => []

/-- The source that each key of the order by refers to. -/
def keyHomes (s : Statement) : List (Option Nat) := s.sortKeys.map s.home?

/-- The position of the first key that refers to the source at a position alone. -/
def firstKeyOf? (s : Statement) (i : Nat) : Option Nat := s.keyHomes.findIdx? (· == some i)

/-- The positions of all keys that refer to the source at a position alone. -/
def keysOf (s : Statement) (i : Nat) : List Nat :=
  (List.range s.keyHomes.length).filter fun k => s.keyHomes[k]? == some (some i)

/-- A list without repetitions of neighbours. -/
def collapse : List (Option Nat) → List (Option Nat)
  | a :: b :: rest => if a = b then collapse (b :: rest) else a :: collapse (b :: rest)
  | l => l

/-- Whether every key refers to one base table alone and the keys of each table stand together. -/
def keysSeparate (s : Statement) : Bool :=
  s.keyHomes.all (fun home => (home.bind s.tableAt?).isSome) && (collapse s.keyHomes).Nodup

/-- The order by that is left for the joined row: all of it, or nothing. -/
def remainingOrderBy (s : Statement) : Option OrderBy :=
  if s.keysSeparate then none else s.select.orderBy

/-- The expressions that have to be evaluated on the joined row. -/
def joinExprs (s : Statement) : List Expr :=
  (match s.remainingOrderBy with
    | some o => o.keys
    | none => []) ++ s.remainingQuery.toList

/-- Whether nothing is left to be evaluated on the joined row before it is cut to the limit. -/
def nothingRemains (s : Statement) : Bool :=
  s.remainingQuery.isNone && s.remainingOrderBy.isNone

/-- The order by of the table at a position. -/
def orderByOf (s : Statement) (i : Nat) : Except PlanFault (Option OrderBy) :=
  match s.select.orderBy, s.remainingOrderBy, s.keysOf i with
  | some o, none, k :: ks =>
    match o.subset? (k :: ks) with
    | some sub => .ok (some sub)
    | none => .error .missingSortKey
  | _, _, _ => .ok none

/-- The limit of the statement, or the given one. -/
def limitOr (s : Statement) (default : UInt64) : UInt64 := s.select.limit.getD default

/-- The number of rows that a table has to supply at most. -/
def tableLimit (s : Statement) (default : UInt64) : Option UInt64 :=
  if s.nothingRemains then some (Word.saturatingAdd (s.limitOr default) s.select.offset) else none

/-- What the table at a position has to supply. -/
def shareOf (s : Statement) (default : UInt64) (i : Nat) :
    Except PlanFault (Option TableQuery) :=
  match s.tableAt? i with
  | none => .ok none
  | some table => do
    let orderBy ← s.orderByOf i
    return some
      { table
        select :=
          { outputs := s.partsOf i s.select.outputs
            whereClause := .ofConjuncts (s.conjunctsOf i)
            groupBy := []
            orderBy
            limit := s.tableLimit default
            offset := 0 }
        joinOutputs := s.partsOf i s.joinExprs }

end Statement

/-- A statement taken apart, in the order of its sources. -/
structure Split where
  /-- What each source has to supply; nothing for sources that are planned already. -/
  shares : List (Option TableQuery)
  /-- The predicate that is left for the joined row. -/
  remainingQuery : Option Expr
  /-- The order by that is left for the joined row, always the whole one. -/
  remainingOrderBy : Option OrderBy
  /-- For each source, the position of the first key that refers to it alone. -/
  firstKeys : List (Option Nat)
  /-- The limit of the statement, or the default. -/
  limit : UInt64

namespace Split

/-- Whether the sources are cut to the limit. -/
def pushesLimit (s : Split) : Bool := s.remainingQuery.isNone && s.remainingOrderBy.isNone

end Split

/-- Refuses statements over sub queries. -/
def Statement.checkSources : List (RelationName × Source) → Except PlanFault Unit
  | [] => .ok ()
  | (name, source) :: rest =>
    if source.isSubQuery then .error (.subQuerySource name) else checkSources rest

/-- Takes a statement apart. -/
def Statement.split (s : Statement) (settings : PlannerSettings) : Except PlanFault Split := do
  checkSources s.sources
  match s.select.orderBy with
  | some o => o.validate
  | none => pure ()
  let positions := List.range s.sources.length
  let shares ← positions.mapM (s.shareOf settings.selectLimit)
  return { shares
           remainingQuery := s.remainingQuery
           remainingOrderBy := s.remainingOrderBy
           firstKeys := positions.map s.firstKeyOf?
           limit := s.limitOr settings.selectLimit }

end ShardJoin
