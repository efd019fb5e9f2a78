/-
Values of literals and of evaluated expressions, and how they compare.

A comparison with a null is unknown.  Integers and floats compare as numbers,
an integer being rounded to the nearest double first; texts compare by code
point, `false` is below `true`.  Values of different kinds, and a NaN with
anything, do not compare.
-/
import ShardJoin.Number.Decimal

namespace ShardJoin

/-- A value. -/
inductive Value where
  | int64 (n : Int64)
  | float64 (x : Binary64)
  | utf8 (s : String)
  | boolean (b : Bool)
  | null
  deriving DecidableEq, Inhabited

/-- What comparing two values gives. -/
inductive Comparison where
  | unknown
  | ordered (o : Ordering)
  | incomparable
  deriving DecidableEq

namespace Comparison

def ofOption : Option Ordering → Comparison
  | some o => .ordered o
  | none => .incomparable

end Comparison

namespace Value

/-- Equality of values, floats as numbers: a NaN differs from itself, the zeros are equal. -/
def same : Value → Value → Bool
  | .int64 a, .int64 b => a == b
  | .float64 x, .float64 y => x.same y
  | .utf8 s, .utf8 t => s == t
  | .boolean a, .boolean b => a == b
  | .null, .null => true
  | _, _ => false

/-- Compares two values. -/
def compare : Value → Value → Comparison
  | .null, _ => .unknown
  | _, .null => .unknown
  | .int64 a, .int64 b => .ordered (Ord.compare a.toInt b.toInt)
  | .float64 x, .float64 y => .ofOption (x.compare? y)
  | .int64 a, .float64 y => .ofOption ((Binary64.ofInt a.toInt).compare? y)
  | .float64 x, .int64 b => .ofOption (x.compare? (Binary64.ofInt b.toInt))
  | .utf8 s, .utf8 t => .ordered (Ord.compare s t)
  | .boolean a, .boolean b => .ordered (Ord.compare a.toNat b.toNat)
  | _, _ => .incomparable

/-- Whether the value is a truth value or the null. -/
def isTruth : Value → Bool
  | .boolean _ | .null => true
  | _ => false

/-- The text of a value; texts stand in single quotes. -/
def text : Value → String
  | .int64 n => toString n.toInt
  | .float64 x => x.text
  | .utf8 s => "'" ++ s ++ "'"
  | .boolean b => if b then "true" else "false"
  | .null => "NULL"

end Value

end ShardJoin
