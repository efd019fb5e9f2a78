/-
Positions that are read instead of expressions.

* `Expr.resolve_keeps_meaning` — under every meaning of columns, literals and
  calls, a resolved expression has on the values of the row the value and the
  type of the original, and reads columns of the row in their types only.

The row may list an expression twice, or together with its parts, and need not
have all parts of the expression: columns that it does not have keep their
meaning.
-/
import ShardJoin.Proofs.Plan.Typing

namespace ShardJoin

namespace Expr

/-- Reading parts of an expression from a row that holds the values of a list of expressions keeps
the value and the type of the expression, and reads existing columns of the row in the types of
their expressions. -/
theorem resolve_keeps_meaning {β : Type} (S : Semantics β) {e : Expr} (hinputs : e.inputs = [])
    (hregular : ∀ v ∈ e.literals, v.isRegular = true) (row : List Expr) (input data : Nat → β)
    (hdata : ∀ i o, row[i]? = some o → data i = o.valueIn S input) :
    (e.resolve row).valueIn S data = e.valueIn S input ∧ (e.resolve row).type = e.type ∧
      ∀ c ∈ (e.resolve row).inputs, c.index < row.length ∧
        ∃ o, row[c.index]? = some o ∧ (o.type == c.type) = true := by
  refine ⟨valueIn_resolve (fun f i hi hf => ?_) hregular hinputs, type_resolve row e,
    fun c hc => ?_⟩
  · obtain ⟨o, ho, hsame⟩ := position?_eq_some hi
    rw [hdata i o ho]
    exact valueIn_same S input hsame hf
  · obtain ⟨t, ht, htype⟩ := fitsIn_resolve hinputs c hc
    rw [List.getElem?_map, Option.map_eq_some_iff] at ht
    obtain ⟨o, ho, rfl⟩ := ht
    exact ⟨(List.getElem?_eq_some_iff.1 ho).1, o, ho, htype⟩

/-- The names of the columns that an expression reads, from left to right. -/
def readNames : Semantics (List String) where
  column r := [r.column]
  column_same h := by rw [ColumnRef.column_eq_of_same h]
  literal _ := []
  apply _ args := args.flatten
  apply_same _ := rfl

/-- A column of a table with integers. -/
def number (column : String) : Expr := .column ⟨"t", ⟨"doc", "t"⟩, column, .int64, false⟩

/-- The sum of two integers. -/
def sum (a b : Expr) : Expr := .call ⟨"add", .scalar, .int64⟩ [a, b]

/-- The row has a column twice, and a sum of it; another column is left. -/
theorem resolve_keeps_meaning_sums :
    let row := [number "a", sum (number "a") (number "b"), number "a"]
    let data := fun i => ((row.map (valueIn readNames fun _ => []))[i]?).getD []
    let e := sum (sum (number "a") (number "b")) (sum (number "a") (number "c"))
    e.resolve row = sum (.inputAt 1 .int64) (sum (.inputAt 0 .int64) (number "c")) ∧
      (e.resolve row).valueIn readNames data = ["a", "b", "a", "c"] ∧
      (e.resolve row).type = .int64 ∧ ∀ c ∈ (e.resolve row).inputs, c.index < 3 := by
  intro row data e
  have hinputs : e.inputs = [] := by decide
  have hregular : ∀ v ∈ e.literals, v.isRegular = true := by decide
  have hdata : ∀ i o, row[i]? = some o → data i = o.valueIn readNames fun _ => [] := by
    intro i o ho
    simp only [data, List.getElem?_map, ho, Option.map_some, Option.getD_some]
  obtain ⟨hvalue, htype, hread⟩ :=
    resolve_keeps_meaning readNames hinputs hregular row (fun _ => []) data hdata
  exact ⟨rfl, hvalue.trans rfl, htype, fun c hc => (hread c hc).1⟩

end Expr

end ShardJoin
