/-
What an expression means on a row.

A row holds data: the values that literals can write and any others, such as
dates or lists.  The connectives and the comparisons of comparable data have a
meaning of their own, in three-valued logic; what all other calls give is left
to an interpretation, which may depend on the whole function but not on
dictionary bookkeeping.

* `Expr.eval` — the value of an expression;
* `Expr.eval_congr` — it depends only on the columns the expression reads;
* `Expr.eval_eq_valueIn` — it is one meaning of expressions among others, so that
  same expressions without irregular literals have one value (`Expr.eval_same`);
* `Datum.isTrue_conjunction` — a conjunction is true if all of it is true.
-/
import Mathlib.Data.List.Basic
import ShardJoin.Proofs.Expr.Semantics

namespace ShardJoin

/-- What a row can hold in a column: a value that a literal can write, or another one. -/
inductive Datum (α : Type) where
  | plain (v : Value)
  | other (a : α)

namespace Datum

variable {α : Type}

def null : Datum α := .plain .null

def bool (b : Bool) : Datum α := .plain (.boolean b)

instance : Inhabited (Datum α) := ⟨null⟩

/-- Whether the datum is a given truth value. -/
def isBool (b : Bool) : Datum α → Bool
  | .plain (.boolean c) => b == c
  | _ => false

def isNull : Datum α → Bool
  | .plain .null => true
  | _ => false

/-- Compares two data; nothing is known about a null. -/
def compare : Datum α → Datum α → Comparison
  | .plain v, .plain w => v.compare w
  | .plain .null, .other _ | .other _, .plain .null => .unknown
  | _, _ => .incomparable

/-- What a connective gives.  The opposite of the neutral truth value decides, neutral arguments
do not count, a single other argument is the result, and nothing is known of several. -/
def connective (neutral : Bool) (args : List (Datum α)) : Datum α :=
  if args.any (isBool (!neutral)) then bool (!neutral)
  else match args.filter (!isBool neutral ·) with
    | [] => bool neutral
    | [d] => d
    | _ => null

/-- The opposite of a truth value; nothing is known of a null. -/
def negation? : List (Datum α) → Option (Datum α)
  | [.plain (.boolean b)] => some (bool !b)
  | [.plain .null] => some null
  | _ => none

/-- Whether a comparison holds of two data that can be compared. -/
def comparison? (op : CompareOp) : List (Datum α) → Option (Datum α)
  | [a, b] =>
    match a.compare b with
    | .unknown => some null
    | .ordered o => some (bool (op.holds o))
    | .incomparable => none
  | _ => none

theorem eq_of_isBool {b : Bool} {d : Datum α} (h : d.isBool b = true) : d = bool b := by
  unfold isBool at h
  split at h
  · rw [beq_iff_eq] at h
    rw [h]
    rfl
  · cases h

@[simp] theorem isBool_bool (b c : Bool) : (bool c : Datum α).isBool b = (b == c) := rfl

@[simp] theorem isBool_null (b : Bool) : (null : Datum α).isBool b = false := rfl

theorem isBool_not_of_isBool {b : Bool} {d : Datum α} (h : d.isBool b = true) :
    d.isBool (!b) = false := by
  rw [eq_of_isBool h, isBool_bool]
  cases b <;> rfl

/-- A connective of one argument. -/
theorem connective_singleton (neutral : Bool) (d : Datum α) : connective neutral [d] = d := by
  unfold connective
  simp only [List.any_cons, List.any_nil, Bool.or_false]
  split
  · exact (eq_of_isBool ‹_›).symm
  · cases hd : d.isBool neutral with
    | true => simp [eq_of_isBool hd]
    | false => simp [hd]

/-- Arguments with a neutral value can be dropped. -/
theorem connective_map_filter {β : Type} (neutral : Bool) (f : β → Datum α) (p : β → Bool)
    (args : List β) (h : ∀ b ∈ args, p b = false → (f b).isBool neutral = true) :
    connective neutral ((args.filter p).map f) = connective neutral (args.map f) := by
  -- what is left out is neutral, so it does not decide
  have hany : ((args.filter p).map f).any (isBool (!neutral)) =
      (args.map f).any (isBool (!neutral)) := by
    simp only [List.any_map, List.any_filter]
    rw [Bool.eq_iff_iff, List.any_eq_true, List.any_eq_true]
    constructor
    · rintro ⟨b, hb, hp⟩
      rw [Bool.and_eq_true] at hp
      exact ⟨b, hb, hp.2⟩
    · rintro ⟨b, hb, hdec⟩
      refine ⟨b, hb, ?_⟩
      cases hp : p b with
      | true => simpa using hdec
      | false =>
        have := isBool_not_of_isBool (h b hb hp)
        rw [Function.comp_apply, this] at hdec
        cases hdec
  have hfilter : ((args.filter p).map f).filter (!isBool neutral ·) =
      (args.map f).filter (!isBool neutral ·) := by
    rw [List.filter_map, List.filter_map, List.filter_filter]
    refine congrArg _ (List.filter_congr fun b hb => ?_)
    cases hp : p b with
    | true => simp
    | false => simp [h b hb hp]
  unfold connective
  rw [hany, hfilter]

/-- A conjunction is true if all of it is true. -/
theorem isTrue_conjunction (args : List (Datum α)) :
    (connective true args).isBool true = true ↔ ∀ d ∈ args, d.isBool true = true := by
  unfold connective
  split
  · -- a false argument decides
    rename_i hany
    obtain ⟨d, hd, hfalse⟩ := List.any_eq_true.1 hany
    constructor
    · intro h
      cases h
    · intro h
      rw [eq_of_isBool hfalse] at hd
      exact absurd (h _ hd) (by simp)
  · cases hrest : args.filter (!isBool true ·) with
    | nil =>
      rw [List.filter_eq_nil_iff] at hrest
      simpa using hrest
    | cons d rest =>
      have hmem : d ∈ args.filter (!isBool true ·) := hrest ▸ List.mem_cons_self
      obtain ⟨hd, hnot⟩ := List.mem_filter.1 hmem
      rw [Bool.not_eq_true'] at hnot
      constructor
      · intro h
        cases rest with
        | nil => exact absurd h (by simp [hnot])
        | cons _ _ => exact absurd h (by simp)
      · intro h
        rw [h d hd] at hnot
        cases hnot

end Datum

/-- The meaning of what expressions call, and the order that rows are sorted in. -/
structure Interpretation (α : Type) where
  /-- What a call gives, if the planner does not know it better. -/
  apply : FunctionInfo → List (Datum α) → Datum α
  apply_same : ∀ {f g : FunctionInfo}, f.same g = true → apply f = apply g
  /-- The order of data that are not null. -/
  order : Datum α → Datum α → Ordering
  order_trans : Std.TransCmp order
  /-- Whether nulls come first by default, for keys that do or do not descend. -/
  nullsFirst : Bool → Bool

/-- Integers are sorted by their values; of all other data nothing is known. -/
def Interpretation.integers : Interpretation Empty where
  apply _ _ := .null
  apply_same _ := rfl
  order := compareOn fun
    | .plain (.int64 n) => n.toInt
    | _ => 0
  order_trans := inferInstance
  nullsFirst descending := descending

/-- What an expression is evaluated on: the values of column references and of the positions of
the input row. -/
structure Env (α : Type) where
  column : ColumnRef → Datum α
  column_same : ∀ {r s : ColumnRef}, r.same s = true → column r = column s
  input : Nat → Datum α

variable {α : Type}

/-- What a call gives. -/
def Interpretation.call (ι : Interpretation α) (fn : FunctionInfo) (args : List (Datum α)) :
    Datum α :=
  match fn.operator? with
  | some .and => .connective true args
  | some .or => .connective false args
  | some .not => (Datum.negation? args).getD (ι.apply fn args)
  | some (.comparison op) => (Datum.comparison? op args).getD (ι.apply fn args)
  | none => ι.apply fn args

theorem Interpretation.call_same (ι : Interpretation α) {f g : FunctionInfo}
    (h : f.same g = true) (args : List (Datum α)) : ι.call f args = ι.call g args := by
  unfold call
  rw [FunctionInfo.operator?_eq_of_same h, ι.apply_same h]

/-- What columns, literals and calls stand for in an environment. -/
def Interpretation.semantics (ι : Interpretation α) (env : Env α) : Semantics (Datum α) where
  column := env.column
  column_same := env.column_same
  literal := .plain
  apply := ι.call
  apply_same h := funext (ι.call_same h)

namespace Expr

variable (ι : Interpretation α)

mutual
/-- The value of an expression. -/
def eval (env : Env α) : Expr → Datum α
  | .column r => env.column r
  | .call fn args => ι.call fn (evalAll env args)
  | .literal v _ => .plain v
  | .input c => env.input c.index

/-- The values of a list of expressions. -/
def evalAll (env : Env α) : List Expr → List (Datum α)
  | [] => []
  | e :: es => e.eval env :: evalAll env es
end

theorem evalAll_eq (env : Env α) (es : List Expr) : evalAll ι env es = es.map (eval ι env) := by
  induction es with
  | nil => simp [evalAll]
  | cons e es ih => simp [evalAll, ih]

theorem eval_call (env : Env α) (fn : FunctionInfo) (args : List Expr) :
    (Expr.call fn args).eval ι env = ι.call fn (args.map (eval ι env)) := by
  rw [eval, evalAll_eq]

/-- Whether a predicate is true. -/
def holds (env : Env α) (e : Expr) : Bool := (e.eval ι env).isBool true

/-- The value depends only on the columns that the expression reads. -/
theorem eval_congr {env env' : Env α} {e : Expr}
    (hcolumn : ∀ r ∈ e.references, env.column r = env'.column r)
    (hinput : ∀ c ∈ e.inputs, env.input c.index = env'.input c.index) :
    e.eval ι env = e.eval ι env' := by
  induction e using induct with
  | column r => exact hcolumn r (by simp [references])
  | literal v t => rfl
  | input c => exact hinput c (by simp [inputs])
  | call fn args ih =>
    rw [eval_call, eval_call]
    refine congrArg _ (List.map_congr_left fun a ha => ih a ha ?_ ?_)
    · exact fun r hr => hcolumn r (mem_references_call ha hr)
    · exact fun c hc => hinput c (mem_inputs_call ha hc)

theorem eval_eq_valueIn (env : Env α) (e : Expr) :
    e.eval ι env = e.valueIn (ι.semantics env) env.input := by
  induction e using induct with
  | column r => rfl
  | literal v t => rfl
  | input c => rfl
  | call fn args ih =>
    rw [eval_call, valueIn_call]
    exact congrArg _ (List.map_congr_left ih)

/-- Same expressions have the same value, if the literals of one of them are regular. -/
theorem eval_same (env : Env α) {e f : Expr} (h : e.same f = true)
    (hregular : ∀ v ∈ f.literals, v.isRegular = true) : e.eval ι env = f.eval ι env := by
  rw [eval_eq_valueIn, eval_eq_valueIn]
  exact valueIn_same _ _ h hregular

end Expr

end ShardJoin
