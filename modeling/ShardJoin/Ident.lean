/-
The names and numbers by which the parts of a query are known.
-/

namespace ShardJoin

/-- A node of the cluster. -/
abbrev NodeId := String

/-- The name a relation goes by in one statement: its alias or its table's name. -/
abbrev RelationName := String

/-- A job; every executed statement is one job. -/
abbrev JobId := UInt64

/-- A collect or merge stage of one plan.  Stages refer to each other by id, since their
descriptions are sent to other nodes. -/
abbrev StageId := Int

/-- A sub-context of a job, such as the search of one shard. -/
abbrev SubContextId := Int

/-- A number that is a word of 32 bits, as the ids of stages and sub-contexts are.  They are counted
as integers here, so what depends on their width is stated for counts that have not left it. -/
def IsWord32 (n : Int) : Prop := -2147483648 ≤ n ∧ n ≤ 2147483647

instance (n : Int) : Decidable (IsWord32 n) := inferInstanceAs (Decidable (_ ∧ _))

/-- A table with the schema it belongs to. -/
structure TableName where
  schema : String
  name : String
  deriving DecidableEq, Inhabited

/-- The qualified name. -/
def TableName.text (t : TableName) : String := t.schema ++ "." ++ t.name

end ShardJoin
