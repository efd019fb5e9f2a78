/-
Statements over several sources.

A source is a base table, a sub query, the share of a statement that a base
table has to supply, or a plan.  Relations are found by the name they have in
the statement; columns of a table by the catalog's description of it.
-/
import ShardJoin.Plan

namespace ShardJoin

/-- A declared column. -/
structure ColumnInfo where
  name : String
  type : DataType

/-- What the catalog knows about a table.  The values of the columns it is partitioned by live
in the partitions. -/
structure TableInfo where
  name : TableName
  columns : List ColumnInfo
  partitionedBy : List String
  primaryKey : List String

namespace TableInfo

/-- The first column with a name. -/
def column? (t : TableInfo) (name : String) : Option ColumnInfo :=
  t.columns.find? (·.name == name)

def isPartitioned (t : TableInfo) : Bool := !t.partitionedBy.isEmpty

end TableInfo

/-- The tables that names stand for. -/
structure Catalog where
  table : TableName → Except PlanFault TableInfo

/-- The catalog of a list of tables; the first of equal names counts. -/
def Catalog.ofTables (tables : List TableInfo) : Catalog where
  table name :=
    match tables.find? (·.name == name) with
    | some t => .ok t
    | none => .error (.unknownTable name)

/-- A base table under the name it has in a statement. -/
structure TableRelation where
  name : RelationName
  table : TableInfo

namespace TableRelation

/-- Looks a table up; without a given name the relation has the table's own name. -/
def find (catalog : Catalog) (name : TableName) (given : Option String) :
    Except PlanFault TableRelation := do
  let table ← catalog.table name
  return ⟨given.getD name.name, table⟩

/-- The row id column. -/
def docId (r : TableRelation) : ColumnRef := .docId r.name r.table.name

/-- The reference to a declared column. -/
def refTo (r : TableRelation) (c : ColumnInfo) : ColumnRef :=
  ⟨r.name, r.table.name, c.name, c.type, r.table.partitionedBy.contains c.name⟩

/-- The column of the relation with a name; every table has a row id. -/
def reference (r : TableRelation) (column : String) : Except PlanFault Expr :=
  if column == ColumnRef.docIdName then .ok (.column r.docId)
  else match r.table.column? column with
    | some c => .ok (.column (r.refTo c))
    | none => .error (.unknownColumn column r.table.name)

/-- All declared columns in the order of declaration. -/
def allColumns (r : TableRelation) : List Expr := r.table.columns.map (.column <| r.refTo ·)

end TableRelation

/-- A select as a source. -/
structure SubQuery where
  name : RelationName
  select : Select

/-- What a base table has to supply for a statement.  The join outputs are needed for the join
itself, so they are collected and never left to be read back later. -/
structure TableQuery where
  table : TableRelation
  select : Select
  joinOutputs : List Expr

namespace TableQuery

def name (q : TableQuery) : RelationName := q.table.name

def tableName (q : TableQuery) : TableName := q.table.table.name

end TableQuery

/-- A source of a statement. -/
inductive Source where
  | table (relation : TableRelation)
  | subQuery (query : SubQuery)
  | queried (query : TableQuery)
  | planned (plan : Plan)

namespace Source

/-- The name of the kind of source. -/
def kind : Source → String
  | .table _ => "Table"
  | .subQuery _ => "SubQuery"
  | .queried _ => "Queried"
  | .planned _ => "Planned"

/-- The plan of a planned source. -/
def plan? : Source → Option Plan
  | .planned plan => some plan
  | _ => none

/-- Whether the source is a sub query. -/
def isSubQuery : Source → Bool
  | .subQuery _ => true
  | _ => false

/-- The base table behind a source that is still to be planned. -/
def table? : Source → Option TableRelation
  | .table relation => some relation
  | .queried query => some query.table
  | .subQuery _ | .planned _ => none

end Source

/-- A select from several sources, in the order of declaration. -/
structure Statement where
  sources : List (RelationName × Source)
  select : Select

namespace Statement

/-- A statement over base tables. -/
def ofTables (tables : List TableRelation) (select : Select) : Statement :=
  ⟨tables.map fun t => (t.name, .table t), select⟩

/-- The position of the first source with a name. -/
def position? (s : Statement) (name : RelationName) : Option Nat :=
  s.sources.findIdx? (·.1 == name)

end Statement

end ShardJoin
