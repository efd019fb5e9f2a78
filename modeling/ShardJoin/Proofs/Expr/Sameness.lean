/-
Sameness of expressions as a relation.

Sameness is transitive, and it is reflexive where no literal is a NaN.  A NaN
is the only value that differs from itself and the two zeros are the only
different values that are equal, so away from these (`Value.isRegular`) same
values are identical.

* `DataType.same_trans`, `Expr.same_trans` — transitivity;
* `Expr.same_self` — an expression without NaN is the same as itself;
* `Value.eq_of_same` — a regular value is identical with its equals.
-/
import ShardJoin.Expr

namespace ShardJoin

/-! ### Values -/

namespace Binary64

/-- A double is given by its sign and its magnitude. -/
theorem bits_eq (x : Binary64) :
    x.bits.toNat = (if x.isNegative then signUnit else 0) + x.magnitude := by
  have hlt := x.bits.toNat_lt_size
  unfold isNegative magnitude
  simp only [decide_eq_true_eq]
  have hsize : UInt64.size = 2 * signUnit := rfl
  split
  · rename_i hneg
    rw [Nat.mod_eq_sub_mod hneg, Nat.mod_eq_of_lt (by omega)]
    omega
  · rw [Nat.mod_eq_of_lt (by omega)]
    omega

/-- Equal doubles that are not zero are identical. -/
theorem eq_of_same {x y : Binary64} (h : x.same y = true) (hx : x.isZero = false) : x = y := by
  obtain ⟨-, -, hrank⟩ := same_iff.1 h
  have hpos : x.magnitude ≠ 0 := by simpa [isZero] using hx
  have hbits : x.bits.toNat = y.bits.toNat := by
    rw [bits_eq x, bits_eq y]
    unfold rank at hrank
    cases hxs : x.isNegative <;> cases hys : y.isNegative <;>
      simp only [hxs, hys, if_true, if_false, Bool.false_eq_true] at hrank ⊢ <;> omega
  obtain ⟨bx⟩ := x
  obtain ⟨bY⟩ := y
  exact congrArg _ (UInt64.toNat_inj.1 hbits)

theorem same_comm (x y : Binary64) : x.same y = y.same x := by
  rw [Bool.eq_iff_iff, same_iff, same_iff]
  exact ⟨fun h => ⟨h.2.1, h.1, h.2.2.symm⟩, fun h => ⟨h.2.1, h.1, h.2.2.symm⟩⟩

theorem same_trans {x y z : Binary64} (h : x.same y = true) (h' : y.same z = true) :
    x.same z = true := by
  rw [same_iff] at h h' ⊢
  exact ⟨h.1, h'.2.1, h.2.2.trans h'.2.2⟩

end Binary64

namespace Value

/-- Neither a NaN nor a zero of floating point. -/
def isRegular : Value → Bool
  | .float64 x => !x.isNaN && !x.isZero
  | _ => true

/-- Not a NaN. -/
def isNumber : Value → Bool
  | .float64 x => !x.isNaN
  | _ => true

theorem isNumber_of_isRegular {v : Value} (h : v.isRegular = true) : v.isNumber = true := by
  cases v with
  | float64 x =>
    rw [isRegular, Bool.and_eq_true] at h
    exact h.1
  | _ => rfl

theorem same_self {v : Value} (h : v.isNumber = true) : v.same v = true := by
  cases v with
  | float64 x =>
    rw [isNumber, Bool.not_eq_true'] at h
    exact Binary64.same_iff.2 ⟨h, h, rfl⟩
  | _ => simp [same.eq_def]

theorem same_comm (v w : Value) : v.same w = w.same v := by
  cases v <;> cases w <;> simp only [same.eq_def]
  case float64.float64 x y => exact Binary64.same_comm x y
  all_goals exact Bool.beq_comm

theorem same_trans {u v w : Value} (h : u.same v = true) (h' : v.same w = true) :
    u.same w = true := by
  cases u <;> cases v <;> simp only [same.eq_def, Bool.false_eq_true, beq_iff_eq] at h <;>
    cases w <;> simp only [same.eq_def, Bool.false_eq_true, beq_iff_eq] at h' ⊢
  case float64.float64.float64 => exact Binary64.same_trans h h'
  all_goals exact h.trans h'

/-- A regular value is identical with its equals. -/
theorem eq_of_same {v w : Value} (h : v.same w = true) (hv : v.isRegular = true) : v = w := by
  cases v <;> cases w <;> simp only [same.eq_def, Bool.false_eq_true, beq_iff_eq] at h
  case float64.float64 x y =>
    rw [isRegular, Bool.and_eq_true, Bool.not_eq_true', Bool.not_eq_true'] at hv
    rw [Binary64.eq_of_same h hv.2]
  case null.null => rfl
  all_goals rw [h]

end Value

/-! ### Types -/

mutual
theorem DataType.same_trans : ∀ {s t u : DataType}, s.same t = true → t.same u = true →
    s.same u = true
  | .scalar _, t, u, h, h' => by
    cases t <;> simp only [DataType.same, Bool.false_eq_true, beq_iff_eq] at h
    rw [h]
    exact h'
  | .dictionary _ _, t, u, h, h' => by
    cases t <;> simp only [DataType.same, Bool.false_eq_true, Bool.and_eq_true] at h
    cases u <;> simp only [DataType.same, Bool.false_eq_true, Bool.and_eq_true] at h' ⊢
    exact ⟨DataType.same_trans h.1 h'.1, DataType.same_trans h.2 h'.2⟩
  | .list _, t, u, h, h' | .listView _, t, u, h, h' | .largeList _, t, u, h, h'
  | .largeListView _, t, u, h, h' => by
    cases t <;> simp only [DataType.same, Bool.false_eq_true] at h
    cases u <;> simp only [DataType.same, Bool.false_eq_true] at h' ⊢
    exact Field.same_trans h h'
  | .struct _, t, u, h, h' => by
    cases t <;> simp only [DataType.same, Bool.false_eq_true] at h
    cases u <;> simp only [DataType.same, Bool.false_eq_true] at h' ⊢
    exact Field.sameAll_trans h h'
  | .fixedSizeList _ _, t, u, h, h' | .map _ _, t, u, h, h' => by
    cases t <;> simp only [DataType.same, Bool.false_eq_true, Bool.and_eq_true, beq_iff_eq] at h
    cases u <;> simp only [DataType.same, Bool.false_eq_true, Bool.and_eq_true, beq_iff_eq] at h' ⊢
    exact ⟨Field.same_trans h.1 h'.1, h.2.trans h'.2⟩
  | .union _ _, t, u, h, h' => by
    cases t <;> simp only [DataType.same, Bool.false_eq_true, Bool.and_eq_true, beq_iff_eq] at h
    cases u <;> simp only [DataType.same, Bool.false_eq_true, Bool.and_eq_true, beq_iff_eq] at h' ⊢
    exact ⟨UnionMember.sameAll_trans h.1 h'.1, h.2.trans h'.2⟩
  | .runEndEncoded _ _, t, u, h, h' => by
    cases t <;> simp only [DataType.same, Bool.false_eq_true, Bool.and_eq_true] at h
    cases u <;> simp only [DataType.same, Bool.false_eq_true, Bool.and_eq_true] at h' ⊢
    exact ⟨Field.same_trans h.1 h'.1, Field.same_trans h.2 h'.2⟩

theorem Field.same_trans : ∀ {f g k : Field}, f.same g = true → g.same k = true →
    f.same k = true
  | ⟨_, _, _, _, _, _⟩, ⟨_, _, _, _, _, _⟩, ⟨_, _, _, _, _, _⟩, h, h' => by
    simp only [Field.same, Bool.and_eq_true, beq_iff_eq] at h h' ⊢
    exact ⟨⟨⟨h.1.1.1.trans h'.1.1.1, DataType.same_trans h.1.1.2 h'.1.1.2⟩, h.1.2.trans h'.1.2⟩,
      h.2.trans h'.2⟩

theorem Field.sameAll_trans : ∀ {fs gs ks : List Field}, Field.sameAll fs gs = true →
    Field.sameAll gs ks = true → Field.sameAll fs ks = true
  | [], gs, _, h, h' => by
    cases gs <;> simp only [Field.sameAll, Bool.false_eq_true] at h
    exact h'
  | _ :: _, gs, ks, h, h' => by
    cases gs <;> simp only [Field.sameAll, Bool.false_eq_true, Bool.and_eq_true] at h
    cases ks <;> simp only [Field.sameAll, Bool.false_eq_true, Bool.and_eq_true] at h' ⊢
    exact ⟨Field.same_trans h.1 h'.1, Field.sameAll_trans h.2 h'.2⟩

theorem UnionMember.same_trans : ∀ {m n o : UnionMember}, m.same n = true → n.same o = true →
    m.same o = true
  | ⟨_, _⟩, ⟨_, _⟩, ⟨_, _⟩, h, h' => by
    simp only [UnionMember.same, Bool.and_eq_true, beq_iff_eq] at h h' ⊢
    exact ⟨h.1.trans h'.1, Field.same_trans h.2 h'.2⟩

theorem UnionMember.sameAll_trans : ∀ {ms ns os : List UnionMember},
    UnionMember.sameAll ms ns = true → UnionMember.sameAll ns os = true →
    UnionMember.sameAll ms os = true
  | [], ns, _, h, h' => by
    cases ns <;> simp only [UnionMember.sameAll, Bool.false_eq_true] at h
    exact h'
  | _ :: _, ns, os, h, h' => by
    cases ns <;> simp only [UnionMember.sameAll, Bool.false_eq_true, Bool.and_eq_true] at h
    cases os <;> simp only [UnionMember.sameAll, Bool.false_eq_true, Bool.and_eq_true] at h' ⊢
    exact ⟨UnionMember.same_trans h.1 h'.1, UnionMember.sameAll_trans h.2 h'.2⟩
end

theorem DataType.beq_trans {s t u : DataType} (h : (s == t) = true) (h' : (t == u) = true) :
    (s == u) = true :=
  DataType.same_trans h h'

mutual
theorem DataType.same_symm : ∀ {s t : DataType}, s.same t = true → t.same s = true
  | .scalar _, t, h => by
    cases t <;> simp only [DataType.same, Bool.false_eq_true, beq_iff_eq] at h ⊢
    exact h.symm
  | .dictionary _ _, t, h => by
    cases t <;> simp only [DataType.same, Bool.false_eq_true, Bool.and_eq_true] at h ⊢
    exact ⟨DataType.same_symm h.1, DataType.same_symm h.2⟩
  | .list _, t, h | .listView _, t, h | .largeList _, t, h | .largeListView _, t, h => by
    cases t <;> simp only [DataType.same, Bool.false_eq_true] at h ⊢
    exact Field.same_symm h
  | .struct _, t, h => by
    cases t <;> simp only [DataType.same, Bool.false_eq_true] at h ⊢
    exact Field.sameAll_symm h
  | .fixedSizeList _ _, t, h | .map _ _, t, h => by
    cases t <;> simp only [DataType.same, Bool.false_eq_true, Bool.and_eq_true, beq_iff_eq] at h ⊢
    exact ⟨Field.same_symm h.1, h.2.symm⟩
  | .union _ _, t, h => by
    cases t <;> simp only [DataType.same, Bool.false_eq_true, Bool.and_eq_true, beq_iff_eq] at h ⊢
    exact ⟨UnionMember.sameAll_symm h.1, h.2.symm⟩
  | .runEndEncoded _ _, t, h => by
    cases t <;> simp only [DataType.same, Bool.false_eq_true, Bool.and_eq_true] at h ⊢
    exact ⟨Field.same_symm h.1, Field.same_symm h.2⟩

theorem Field.same_symm : ∀ {f g : Field}, f.same g = true → g.same f = true
  | ⟨_, _, _, _, _, _⟩, ⟨_, _, _, _, _, _⟩, h => by
    simp only [Field.same, Bool.and_eq_true, beq_iff_eq] at h ⊢
    exact ⟨⟨⟨h.1.1.1.symm, DataType.same_symm h.1.1.2⟩, h.1.2.symm⟩, h.2.symm⟩

theorem Field.sameAll_symm : ∀ {fs gs : List Field}, Field.sameAll fs gs = true →
    Field.sameAll gs fs = true
  | [], gs, h => by
    cases gs <;> simp only [Field.sameAll, Bool.false_eq_true] at h ⊢
  | _ :: _, gs, h => by
    cases gs <;> simp only [Field.sameAll, Bool.false_eq_true, Bool.and_eq_true] at h ⊢
    exact ⟨Field.same_symm h.1, Field.sameAll_symm h.2⟩

theorem UnionMember.same_symm : ∀ {m n : UnionMember}, m.same n = true → n.same m = true
  | ⟨_, _⟩, ⟨_, _⟩, h => by
    simp only [UnionMember.same, Bool.and_eq_true, beq_iff_eq] at h ⊢
    exact ⟨h.1.symm, Field.same_symm h.2⟩

theorem UnionMember.sameAll_symm : ∀ {ms ns : List UnionMember},
    UnionMember.sameAll ms ns = true → UnionMember.sameAll ns ms = true
  | [], ns, h => by
    cases ns <;> simp only [UnionMember.sameAll, Bool.false_eq_true] at h ⊢
  | _ :: _, ns, h => by
    cases ns <;> simp only [UnionMember.sameAll, Bool.false_eq_true, Bool.and_eq_true] at h ⊢
    exact ⟨UnionMember.same_symm h.1, UnionMember.sameAll_symm h.2⟩
end

theorem ColumnRef.same_self (r : ColumnRef) : r.same r = true := by
  simp [ColumnRef.same]

theorem ColumnRef.same_trans {r s t : ColumnRef} (h : r.same s = true) (h' : s.same t = true) :
    r.same t = true := by
  simp only [ColumnRef.same, Bool.and_eq_true, beq_iff_eq] at h h' ⊢
  exact ⟨⟨⟨⟨h.1.1.1.1.trans h'.1.1.1.1, h.1.1.1.2.trans h'.1.1.1.2⟩,
    h.1.1.2.trans h'.1.1.2⟩, DataType.beq_trans h.1.2 h'.1.2⟩, h.2.trans h'.2⟩

theorem ColumnRef.same_symm {r s : ColumnRef} (h : r.same s = true) : s.same r = true := by
  simp only [ColumnRef.same, Bool.and_eq_true, beq_iff_eq] at h ⊢
  exact ⟨⟨⟨⟨h.1.1.1.1.symm, h.1.1.1.2.symm⟩, h.1.1.2.symm⟩, DataType.same_symm h.1.2⟩, h.2.symm⟩

instance : EquivBEq ColumnRef where
  rfl := ColumnRef.same_self _
  symm := ColumnRef.same_symm
  trans := ColumnRef.same_trans

theorem ColumnRef.column_eq_of_same {r s : ColumnRef} (h : r.same s = true) :
    r.column = s.column := by
  simp only [ColumnRef.same, Bool.and_eq_true, beq_iff_eq] at h
  exact h.1.1.2

theorem ColumnRef.relation_eq_of_same {r s : ColumnRef} (h : r.same s = true) :
    r.relation = s.relation := by
  simp only [ColumnRef.same, Bool.and_eq_true, beq_iff_eq] at h
  exact h.1.1.1.1

theorem FunctionInfo.same_self (f : FunctionInfo) : f.same f = true := by
  simp [FunctionInfo.same]

theorem FunctionInfo.same_trans {f g k : FunctionInfo} (h : f.same g = true)
    (h' : g.same k = true) : f.same k = true := by
  simp only [FunctionInfo.same, Bool.and_eq_true, beq_iff_eq] at h h' ⊢
  exact ⟨⟨h.1.1.trans h'.1.1, h.1.2.trans h'.1.2⟩, DataType.beq_trans h.2 h'.2⟩

/-- Same functions are the same operator. -/
theorem FunctionInfo.operator?_eq_of_same {f g : FunctionInfo} (h : f.same g = true) :
    f.operator? = g.operator? := by
  simp only [FunctionInfo.same, Bool.and_eq_true, beq_iff_eq] at h
  rw [operator?, operator?, h.1.1]

/-! ### Expressions -/

namespace Expr

/-- Induction over expressions, with the hypothesis for every argument of a call. -/
@[elab_as_elim]
theorem induct {motive : Expr → Prop} (column : ∀ r, motive (.column r))
    (call : ∀ fn args, (∀ a ∈ args, motive a) → motive (.call fn args))
    (literal : ∀ v t, motive (.literal v t)) (input : ∀ c, motive (.input c)) :
    ∀ e, motive e
  | .column r => column r
  | .literal v t => literal v t
  | .input c => input c
  | .call fn args => call fn args (induct_args args)
where
  induct_args : ∀ args : List Expr, ∀ a ∈ args, motive a
    | [], _, h => absurd h List.not_mem_nil
    | b :: bs, a, h => (List.mem_cons.1 h).elim
        (fun hab => hab ▸ induct column call literal input b) (induct_args bs a)

mutual
/-- The values of the literals from left to right, with repetitions. -/
def literals : Expr → List Value
  | .literal v _ => [v]
  | .call _ args => literalsAll args
  | .column _ | .input _ => []

/-- The values of the literals of a list of expressions. -/
def literalsAll : List Expr → List Value
  | [] => []
  | e :: es => e.literals ++ literalsAll es
end

theorem literalsAll_eq (es : List Expr) : literalsAll es = es.flatMap literals := by
  induction es with
  | nil => simp [literalsAll]
  | cons e es ih => simp [literalsAll, ih]

mutual
/-- The expression and all that it is made up of, from the root on, with repetitions. -/
def subtrees : Expr → List Expr
  | .call fn args => .call fn args :: subtreesAll args
  | .column r => [.column r]
  | .literal v t => [.literal v t]
  | .input c => [.input c]

/-- All that a list of expressions is made up of. -/
def subtreesAll : List Expr → List Expr
  | [] => []
  | e :: es => e.subtrees ++ subtreesAll es
end

theorem subtreesAll_eq (es : List Expr) : subtreesAll es = es.flatMap subtrees := by
  induction es with
  | nil => simp [subtreesAll]
  | cons e es ih => simp [subtreesAll, ih]

theorem mem_subtrees_call {fn : FunctionInfo} {args : List Expr} {e : Expr} :
    e ∈ (Expr.call fn args).subtrees ↔ e = .call fn args ∨ ∃ a ∈ args, e ∈ a.subtrees := by
  rw [subtrees, subtreesAll_eq, List.mem_cons, List.mem_flatMap]

theorem mem_literals_call {fn : FunctionInfo} {args : List Expr} {a : Expr} (ha : a ∈ args)
    {v : Value} (hv : v ∈ a.literals) : v ∈ (Expr.call fn args).literals := by
  rw [literals, literalsAll_eq]
  exact List.mem_flatMap.2 ⟨a, ha, hv⟩

theorem mem_references_call {fn : FunctionInfo} {args : List Expr} {a : Expr} (ha : a ∈ args)
    {r : ColumnRef} (hr : r ∈ a.references) : r ∈ (Expr.call fn args).references := by
  rw [references, referencesAll_eq]
  exact List.mem_flatMap.2 ⟨a, ha, hr⟩

theorem mem_inputs_call {fn : FunctionInfo} {args : List Expr} {a : Expr} (ha : a ∈ args)
    {c : InputColumn} (hc : c ∈ a.inputs) : c ∈ (Expr.call fn args).inputs := by
  rw [inputs, inputsAll_eq]
  exact List.mem_flatMap.2 ⟨a, ha, hc⟩

theorem sameAll_self {es : List Expr} (h : ∀ e ∈ es, e.same e = true) :
    sameAll es es = true := by
  induction es with
  | nil => simp [sameAll]
  | cons e es ih =>
    rw [sameAll, h e List.mem_cons_self, ih fun e' he' => h e' (List.mem_cons_of_mem _ he')]
    rfl

/-- An expression without NaN is the same as itself. -/
theorem same_self {e : Expr} (h : ∀ v ∈ e.literals, v.isNumber = true) : e.same e = true := by
  induction e using induct with
  | column r => exact r.same_self
  | literal v t =>
    have hv := h v (by simp [literals])
    simp [same, Value.same_self hv]
  | input c => simp [same, BEq.beq, DataType.same_self]
  | call fn args ih =>
    have hargs : sameAll args args = true :=
      sameAll_self fun a ha => ih a ha fun v hv => h v (mem_literals_call ha hv)
    rw [same, hargs, Bool.and_true]
    exact fn.same_self

mutual
theorem same_trans : ∀ {e f g : Expr}, e.same f = true → f.same g = true → e.same g = true
  | .column _, .column _, .column _, h, h' => by
    rw [same] at h h' ⊢
    exact ColumnRef.same_trans h h'
  | .call _ _, .call _ _, .call _ _, h, h' => by
    rw [same, Bool.and_eq_true] at h h' ⊢
    exact ⟨FunctionInfo.same_trans h.1 h'.1, sameAll_trans h.2 h'.2⟩
  | .literal _ _, .literal _ _, .literal _ _, h, h' => by
    rw [same, Bool.and_eq_true] at h h' ⊢
    exact ⟨Value.same_trans h.1 h'.1, DataType.beq_trans h.2 h'.2⟩
  | .input c, .input d, .input k, h, h' => by
    simp only [same, BEq.beq, Bool.and_eq_true, decide_eq_true_eq] at h h' ⊢
    exact ⟨h.1.trans h'.1, DataType.same_trans h.2 h'.2⟩

theorem sameAll_trans : ∀ {es fs gs : List Expr}, sameAll es fs = true → sameAll fs gs = true →
    sameAll es gs = true
  | [], [], [], _, _ => by simp [sameAll]
  | _ :: _, _ :: _, _ :: _, h, h' => by
    rw [sameAll, Bool.and_eq_true] at h h' ⊢
    exact ⟨same_trans h.1 h'.1, sameAll_trans h.2 h'.2⟩
end

theorem beq_trans {e f g : Expr} (h : (e == f) = true) (h' : (f == g) = true) :
    (e == g) = true :=
  same_trans h h'

/-- Only literals are the same as a truth value. -/
theorem eq_of_beq_bool {e : Expr} {b : Bool} (h : (e == Expr.bool b) = true) :
    ∃ type, e = .literal (.boolean b) type := by
  cases e with
  | literal value type =>
    have hsame : (value.same (.boolean b) && type == .boolean) = true := h
    rw [Bool.and_eq_true] at hsame
    cases value with
    | boolean b' =>
      obtain rfl := beq_iff_eq.1 hsame.1
      exact ⟨type, rfl⟩
    | _ => cases hsame.1
  | _ => cases h

end Expr

end ShardJoin
