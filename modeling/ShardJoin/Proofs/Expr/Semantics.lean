/-
Meanings of expressions.

A meaning says what columns, literals and calls stand for, in values of any
kind; the positions of a row are given separately.  It does not tell columns
and functions apart that only differ in dictionary bookkeeping.

* `Expr.valueIn` — the value of an expression;
* `Expr.valueIn_same` — same expressions without irregular literals have one
  value.
-/
import ShardJoin.Proofs.Expr.Sameness

namespace ShardJoin

/-- What columns, literals and calls stand for. -/
structure Semantics (β : Type) where
  column : ColumnRef → β
  column_same : ∀ {r s : ColumnRef}, r.same s = true → column r = column s
  literal : Value → β
  apply : FunctionInfo → List β → β
  apply_same : ∀ {f g : FunctionInfo}, f.same g = true → apply f = apply g

variable {β : Type}

namespace Expr

mutual
/-- The value of an expression on a row. -/
def valueIn (S : Semantics β) (row : Nat → β) : Expr → β
  | .column r => S.column r
  | .call fn args => S.apply fn (valuesIn S row args)
  | .literal v _ => S.literal v
  | .input c => row c.index

/-- The values of a list of expressions on a row. -/
def valuesIn (S : Semantics β) (row : Nat → β) : List Expr → List β
  | [] => []
  | e :: es => e.valueIn S row :: valuesIn S row es
end

variable (S : Semantics β) (row : Nat → β)

theorem valuesIn_eq (es : List Expr) : valuesIn S row es = es.map (valueIn S row) := by
  induction es with
  | nil => simp [valuesIn]
  | cons e es ih => simp [valuesIn, ih]

theorem valueIn_call (fn : FunctionInfo) (args : List Expr) :
    (Expr.call fn args).valueIn S row = S.apply fn (args.map (valueIn S row)) := by
  rw [valueIn, valuesIn_eq]

theorem map_eq_of_sameAll {f : Expr → β} {as bs : List Expr} (h : sameAll as bs = true)
    (heq : ∀ b ∈ bs, ∀ a : Expr, a.same b = true → f a = f b) : as.map f = bs.map f := by
  induction bs generalizing as with
  | nil =>
    cases as with
    | nil => rfl
    | cons _ _ => simp [sameAll] at h
  | cons b bs ih =>
    cases as with
    | nil => simp [sameAll] at h
    | cons a as =>
      rw [sameAll, Bool.and_eq_true] at h
      rw [List.map_cons, List.map_cons, heq b List.mem_cons_self a h.1,
        ih h.2 fun b' hb' => heq b' (List.mem_cons_of_mem _ hb')]

/-- Same expressions have the same value, if the literals of one of them are regular. -/
theorem valueIn_same {e f : Expr} (h : e.same f = true)
    (hregular : ∀ v ∈ f.literals, v.isRegular = true) : e.valueIn S row = f.valueIn S row := by
  induction f using induct generalizing e with
  | column s =>
    cases e <;> simp only [same, Bool.false_eq_true] at h
    exact S.column_same h
  | literal w u =>
    cases e <;> simp only [same, Bool.false_eq_true, Bool.and_eq_true] at h
    rename_i v _
    have hw : w.isRegular = true := hregular w (by simp [literals])
    rw [valueIn, valueIn, Value.eq_of_same (Value.same_comm v w ▸ h.1) hw]
  | input d =>
    cases e <;> simp only [same, Bool.false_eq_true] at h
    rename_i c
    have hindex : c.index = d.index := by
      simp only [BEq.beq, Bool.and_eq_true, decide_eq_true_eq] at h
      exact h.1
    rw [valueIn, valueIn, hindex]
  | call g bs ih =>
    cases e <;> simp only [same, Bool.false_eq_true, Bool.and_eq_true] at h
    rename_i f as
    rw [valueIn_call, valueIn_call, S.apply_same h.1]
    refine congrArg _ (map_eq_of_sameAll h.2 fun b hb a hab => ?_)
    exact ih b hb hab fun v hv => hregular v (mem_literals_call hb hv)

end Expr

end ShardJoin
