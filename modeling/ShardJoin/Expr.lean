/-
Expressions over the columns of a statement.

An expression is a tree of function calls over column references, literals and
input columns.  A reference names a column of one relation of the statement;
an input column is a position in the row that a stage receives.

Two expressions are the same (`Expr.same`, also written `==`) when they have
the same shape, column types agree up to dictionary bookkeeping and float
literals are equal as numbers.  So an expression with a NaN literal is not the
same as itself.
-/
import ShardJoin.DataType
import ShardJoin.Ident
import ShardJoin.Operator

namespace ShardJoin

/-- A column of a relation of the statement.  Two aliases of one table have different references.
The value of a partition column lives in the partition and not in the row. -/
structure ColumnRef where
  relation : RelationName
  table : TableName
  column : String
  type : DataType
  partitioned : Bool

namespace ColumnRef

/-- The name of the column that holds the row id. -/
def docIdName : String := "_docid"

/-- The row id column of a relation. -/
def docId (relation : RelationName) (table : TableName) : ColumnRef :=
  ⟨relation, table, docIdName, .utf8, false⟩

/-- Whether the column holds the row id. -/
def isDocId (r : ColumnRef) : Bool := r.column == docIdName

/-- Sameness of references: everything agrees, types up to dictionary bookkeeping. -/
def same (r s : ColumnRef) : Bool :=
  r.relation == s.relation && r.table == s.table && r.column == s.column && r.type == s.type &&
    r.partitioned == s.partitioned

instance : BEq ColumnRef := ⟨same⟩

end ColumnRef

/-- What kind of function a call is declared to be. -/
inductive FunctionKind where
  | scalar
  | operator
  | aggregate
  deriving DecidableEq

/-- A function as a call names it. -/
structure FunctionInfo where
  name : String
  kind : FunctionKind
  returnType : DataType

namespace FunctionInfo

/-- Sameness of functions. -/
def same (f g : FunctionInfo) : Bool :=
  f.name == g.name && f.kind == g.kind && f.returnType == g.returnType

instance : BEq FunctionInfo := ⟨same⟩

/-- The operator that the function is, if it is one. -/
def operator? (f : FunctionInfo) : Option Operator := Operator.ofName? f.name

/-- The function of an operator. -/
def ofOperator (op : Operator) : FunctionInfo := ⟨op.name, .operator, .boolean⟩

end FunctionInfo

/-- A position in the row that a stage receives. -/
structure InputColumn where
  index : Nat
  type : DataType

instance : BEq InputColumn := ⟨fun c d => c.index == d.index && c.type == d.type⟩

/-- An expression. -/
inductive Expr where
  | column (ref : ColumnRef)
  | call (fn : FunctionInfo) (args : List Expr)
  | literal (value : Value) (type : DataType)
  | input (column : InputColumn)

namespace Expr

instance : Inhabited Expr := ⟨.literal .null .null⟩

/-- The type of the values of an expression. -/
def type : Expr → DataType
  | .column r => r.type
  | .call fn _ => fn.returnType
  | .literal _ t => t
  | .input c => c.type

/-! ### Building expressions -/

/-- A call of an operator. -/
def apply (op : Operator) (args : List Expr) : Expr := .call (.ofOperator op) args

/-- Equality of two expressions. -/
def eq (a b : Expr) : Expr := apply (.comparison .eq) [a, b]

/-- Conjunction. -/
def and (a b : Expr) : Expr := apply .and [a, b]

/-- Disjunction. -/
def or (a b : Expr) : Expr := apply .or [a, b]

/-- Negation. -/
def not (a : Expr) : Expr := apply .not [a]

/-- An integer literal. -/
def int64 (n : Int64) : Expr := .literal (.int64 n) .int64

/-- A truth value. -/
def bool (b : Bool) : Expr := .literal (.boolean b) .boolean

/-- A text literal. -/
def text (s : String) : Expr := .literal (.utf8 s) .utf8

/-- The null literal. -/
def null : Expr := .literal .null .null

/-- The input column at a position. -/
def inputAt (index : Nat) (type : DataType) : Expr := .input ⟨index, type⟩

/-! ### Leaves -/

mutual
/-- The column references from left to right, with repetitions. -/
def references : Expr → List ColumnRef
  | .column r => [r]
  | .call _ args => referencesAll args
  | .literal .. | .input _ => []

/-- The column references of a list of expressions. -/
def referencesAll : List Expr → List ColumnRef
  | [] => []
  | e :: es => e.references ++ referencesAll es
end

mutual
/-- The input columns from left to right, with repetitions. -/
def inputs : Expr → List InputColumn
  | .input c => [c]
  | .call _ args => inputsAll args
  | .literal .. | .column _ => []

/-- The input columns of a list of expressions. -/
def inputsAll : List Expr → List InputColumn
  | [] => []
  | e :: es => e.inputs ++ inputsAll es
end

mutual
/-- Whether an aggregate function is called anywhere in the expression. -/
def hasAggregates : Expr → Bool
  | .call fn args => fn.kind == .aggregate || anyHasAggregates args
  | .column _ | .literal .. | .input _ => false

/-- Whether an aggregate function is called in any of the expressions. -/
def anyHasAggregates : List Expr → Bool
  | [] => false
  | e :: es => e.hasAggregates || anyHasAggregates es
end

theorem referencesAll_eq (es : List Expr) : referencesAll es = es.flatMap references := by
  induction es with
  | nil => simp [referencesAll]
  | cons e es ih => simp [referencesAll, ih]

theorem inputsAll_eq (es : List Expr) : inputsAll es = es.flatMap inputs := by
  induction es with
  | nil => simp [inputsAll]
  | cons e es ih => simp [inputsAll, ih]

theorem anyHasAggregates_eq (es : List Expr) : anyHasAggregates es = es.any hasAggregates := by
  induction es with
  | nil => simp [anyHasAggregates]
  | cons e es ih => simp [anyHasAggregates, ih]

/-! ### Relations -/

/-- The names of the relations that the expression refers to, increasing and without repetition. -/
def relations (e : Expr) : List RelationName :=
  (SortedMap.ofList (e.references.map fun r => (r.relation, ()))).keys

/-- The relation of an expression that refers to exactly one. -/
def soleRelation? (e : Expr) : Option RelationName :=
  match e.references with
  | [] => none
  | r :: rs => if rs.all (·.relation == r.relation) then some r.relation else none

/-- Whether the expression refers to the given relation and to no other. -/
def belongsOnlyTo (e : Expr) (relation : RelationName) : Bool := e.soleRelation? == some relation

/-! ### Sameness -/

mutual
/-- Same shape, types up to dictionary bookkeeping, floats as numbers. -/
def same : Expr → Expr → Bool
  | .column r, .column s => r == s
  | .call f as, .call g bs => f == g && sameAll as bs
  | .literal v t, .literal w u => v.same w && t == u
  | .input c, .input d => c == d
  | _, _ => false

/-- Sameness of expression lists, one by one. -/
def sameAll : List Expr → List Expr → Bool
  | [], [] => true
  | a :: as, b :: bs => a.same b && sameAll as bs
  | _, _ => false
end

instance : BEq Expr := ⟨same⟩

/-- Appends an expression unless the same one is already there. -/
def pushNew (es : List Expr) (e : Expr) : List Expr :=
  if es.any (· == e) then es else es ++ [e]

/-! ### Text -/

mutual
/-- The text of an expression, as outlines and answers show it. -/
def render : Expr → String
  | .column r => r.relation ++ "." ++ r.column
  | .call fn args => fn.name ++ "(" ++ ", ".intercalate (renderAll args) ++ ")"
  | .literal v _ => v.text
  | .input c => "IC(" ++ toString c.index ++ ")"

/-- The texts of a list of expressions. -/
def renderAll : List Expr → List String
  | [] => []
  | e :: es => e.render :: renderAll es
end

end Expr

end ShardJoin
