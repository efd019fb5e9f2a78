/-
Folding and taking apart predicates without changing what they mean.

* `Expr.eval_fold` — a folded expression has the value of the expression;
* `Expr.holds_iff_conjuncts` — a predicate is true if all its conjuncts are;
* `Expr.holds_conjoin?` — a conjunction is true if all its members are;
* `WhereClause.holds_iff_conjuncts` — a where clause is met if the conjuncts of
  its folded predicate are true, and a statically false one is never met.

Folding and splitting neither add references nor literals other than truth
values and nulls.
-/
import ShardJoin.Proofs.Expr.Evaluation
import ShardJoin.Select

namespace ShardJoin

variable {α : Type} (ι : Interpretation α)

namespace Expr

/-! ### Values of folded expressions -/

theorem eval_bool (env : Env α) (b : Bool) : (Expr.bool b).eval ι env = .bool b := rfl

/-- Only literals are truth values. -/
theorem eq_of_isBool {e : Expr} {b : Bool} (h : e.isBool b = true) :
    ∃ type, e = .literal (.boolean b) type := by
  unfold isBool at h
  split at h
  · exact ⟨_, by rw [beq_iff_eq.1 h]⟩
  · cases h

/-- A truth value as a literal is one as a datum. -/
theorem isBool_eval_of_isBool (env : Env α) {b : Bool} {e : Expr} (h : e.isBool b = true) :
    (e.eval ι env).isBool b = true := by
  obtain ⟨type, rfl⟩ := eq_of_isBool h
  exact beq_self_eq_true b

theorem eval_foldConnective (env : Env α) (neutral : Bool) {fn : FunctionInfo}
    (hfn : ∀ args, ι.call fn args = .connective neutral args) (args : List Expr) :
    (foldConnective neutral fn args).eval ι env =
      .connective neutral (args.map (eval ι env)) := by
  unfold foldConnective
  split
  · rename_i hany
    obtain ⟨e, he, hdec⟩ := List.any_eq_true.1 hany
    have : (args.map (eval ι env)).any (Datum.isBool (!neutral)) = true :=
      List.any_eq_true.2 ⟨_, List.mem_map_of_mem he, isBool_eval_of_isBool ι env hdec⟩
    rw [Datum.connective, if_pos this, eval_bool]
  · -- the dropped literals are neutral, so the survivors have the same connective
    have hdrop := Datum.connective_map_filter neutral (eval ι env) (!isBool neutral ·) args
      fun e _ he => isBool_eval_of_isBool ι env (by simpa using he)
    rw [← hdrop]
    cases hrest : args.filter (!isBool neutral ·) with
    | nil => rfl
    | cons e rest =>
      cases rest with
      | nil => rw [List.map_cons, List.map_nil, Datum.connective_singleton]
      | cons e' rest => rw [eval_call, hfn]

theorem eval_foldNegation (env : Env α) {fn : FunctionInfo} (hfn : fn.operator? = some .not)
    (args : List Expr) :
    (foldNegation fn args).eval ι env = ι.call fn (args.map (eval ι env)) := by
  have hcall : ∀ args, ι.call fn args = (Datum.negation? args).getD (ι.apply fn args) := by
    intro args
    simp only [Interpretation.call, hfn]
  unfold foldNegation
  split
  · rw [hcall]
    rfl
  · rw [hcall]
    rfl
  · rw [eval_call]

theorem eval_foldComparison (env : Env α) {op : CompareOp} {fn : FunctionInfo}
    (hfn : fn.operator? = some (.comparison op)) (args : List Expr) :
    (foldComparison op fn args).eval ι env = ι.call fn (args.map (eval ι env)) := by
  have hcall : ∀ args, ι.call fn args = (Datum.comparison? op args).getD (ι.apply fn args) := by
    intro args
    simp only [Interpretation.call, hfn]
  unfold foldComparison
  split
  · rename_i v t w u
    have hargs : [Expr.literal v t, .literal w u].map (eval ι env) = [.plain v, .plain w] := rfl
    have hcompare : Datum.compare (.plain v : Datum α) (.plain w) = v.compare w := rfl
    cases hvw : v.compare w with
    | unknown =>
      rw [hcall, hargs, Datum.comparison?, hcompare, hvw]
      rfl
    | ordered o =>
      rw [hcall, hargs, Datum.comparison?, hcompare, hvw]
      rfl
    | incomparable => rw [eval_call]
  · rw [eval_call]

/-- Folding does not change the value of an expression. -/
theorem eval_fold (env : Env α) (e : Expr) : e.fold.eval ι env = e.eval ι env := by
  induction e using induct with
  | column r => rfl
  | literal v t => rfl
  | input c => rfl
  | call fn args ih =>
    have hargs : (foldAll args).map (eval ι env) = args.map (eval ι env) := by
      rw [foldAll_eq, List.map_map]
      exact List.map_congr_left ih
    rw [fold, eval_call, ← hargs, foldCall]
    split
    · rename_i hfn
      have hcall : ∀ args, ι.call fn args = .connective true args := by
        intro args
        simp only [Interpretation.call, hfn]
      rw [eval_foldConnective ι env true hcall, hcall]
    · rename_i hfn
      have hcall : ∀ args, ι.call fn args = .connective false args := by
        intro args
        simp only [Interpretation.call, hfn]
      rw [eval_foldConnective ι env false hcall, hcall]
    · rename_i hfn
      exact eval_foldNegation ι env hfn _
    · rename_i hfn
      exact eval_foldComparison ι env hfn _
    · rw [eval_call]

/-! ### What folding leaves -/

/-- Whether folding does away with a call over such arguments: a connective with a truth value
among them or with fewer than two, the negation of a truth value or a null, the comparison of two
literals that can be compared. -/
def foldsAway (fn : FunctionInfo) (args : List Expr) : Bool :=
  match fn.operator? with
  | some .and | some .or => args.length < 2 || args.any fun a => a.isBool true || a.isBool false
  | some .not =>
    match args with
    | [.literal v _] => v.isTruth
    | _ => false
  | some (.comparison _) =>
    match args with
    | [.literal v _, .literal w _] => v.compare w != .incomparable
    | _ => false
  | none => false

/-- A connective keeps two or more arguments that are no truth values. -/
theorem foldsAway_connective {fn : FunctionInfo}
    (hfn : fn.operator? = some .and ∨ fn.operator? = some .or) {args : List Expr} :
    foldsAway fn args = false ↔
      2 ≤ args.length ∧ ∀ a ∈ args, ∀ b, a.isBool b = false := by
  have hargs : foldsAway fn args =
      (decide (args.length < 2) || args.any fun a => a.isBool true || a.isBool false) := by
    rcases hfn with hfn | hfn <;> simp only [foldsAway, hfn]
  rw [hargs, Bool.or_eq_false_iff, decide_eq_false_iff_not, Nat.not_lt, List.any_eq_false]
  simp [Bool.forall_bool, and_comm]

/-- A connective is folded to one of its arguments or to a truth value, or it keeps some arguments
over which it does not fold again. -/
theorem foldConnective_cases (neutral : Bool) {fn : FunctionInfo}
    (hfn : fn.operator? = some .and ∨ fn.operator? = some .or) (args : List Expr) :
    foldConnective neutral fn args ∈ args ∨ (∃ b, foldConnective neutral fn args = bool b) ∨
      ∃ kept, kept.Sublist args ∧ foldsAway fn kept = false ∧
        foldConnective neutral fn args = .call fn kept := by
  unfold foldConnective
  split
  · exact .inr (.inl ⟨_, rfl⟩)
  rename_i hdecides
  split
  · exact .inr (.inl ⟨_, rfl⟩)
  · rename_i e he
    exact .inl (List.mem_of_mem_filter (he ▸ List.mem_singleton_self e))
  rename_i hnone hone
  refine .inr (.inr ⟨_, List.filter_sublist, (foldsAway_connective hfn).2 ⟨?_, ?_⟩, rfl⟩)
  · -- a single survivor would stand for the whole
    match hkept : args.filter (!isBool neutral ·) with
    | [] => exact absurd hkept hnone
    | [e] => exact absurd hkept (hone e)
    | _ :: _ :: _ => exact Nat.le_add_left 2 _
  · intro a ha b
    obtain ⟨hmem, hneutral⟩ := List.mem_filter.1 ha
    have hother : a.isBool (!neutral) = false :=
      Bool.eq_false_iff.2 fun h => hdecides (List.any_eq_true.2 ⟨a, hmem, h⟩)
    rw [Bool.not_eq_true'] at hneutral
    cases Decidable.em (b = neutral) with
    | inl heq => rw [heq, hneutral]
    | inr hne => rw [Bool.eq_not.2 hne, hother]

/-- A negation is folded to a truth value or a null, or it does not fold at all. -/
theorem foldNegation_cases {fn : FunctionInfo} (hfn : fn.operator? = some .not)
    (args : List Expr) :
    (∃ b, foldNegation fn args = bool b) ∨ foldNegation fn args = null ∨
      foldsAway fn args = false ∧ foldNegation fn args = .call fn args := by
  unfold foldNegation
  split
  · exact .inl ⟨_, rfl⟩
  · exact .inr (.inl rfl)
  · rename_i htruth hnull
    refine .inr (.inr ⟨?_, rfl⟩)
    simp only [foldsAway, hfn]
    split
    · rename_i v t
      cases v with
      | boolean b => exact absurd rfl (htruth b t)
      | null => exact absurd rfl (hnull t)
      | _ => rfl
    · rfl

/-- A comparison is folded to a truth value or a null, or it does not fold at all. -/
theorem foldComparison_cases {op : CompareOp} {fn : FunctionInfo}
    (hfn : fn.operator? = some (.comparison op)) (args : List Expr) :
    (∃ b, foldComparison op fn args = bool b) ∨ foldComparison op fn args = null ∨
      foldsAway fn args = false ∧ foldComparison op fn args = .call fn args := by
  unfold foldComparison
  split
  · split
    · exact .inr (.inl rfl)
    · exact .inl ⟨_, rfl⟩
    · rename_i hcompare
      exact .inr (.inr ⟨by simp [foldsAway, hfn, hcompare], rfl⟩)
  · exact .inr (.inr ⟨by simp only [foldsAway, hfn], rfl⟩)

/-- A folded call is one of the folded arguments, a truth value or a null, or a call of the same
function with some of the folded arguments, over which it does not fold again. -/
theorem foldCall_cases (fn : FunctionInfo) (args : List Expr) :
    foldCall fn args ∈ args ∨ (∃ b, foldCall fn args = bool b) ∨ foldCall fn args = null ∨
      ∃ kept, kept.Sublist args ∧ foldsAway fn kept = false ∧
        foldCall fn args = .call fn kept := by
  unfold foldCall
  split
  · rename_i hfn
    rcases foldConnective_cases true (.inl hfn) args with h | h | h
    exacts [.inl h, .inr (.inl h), .inr (.inr (.inr h))]
  · rename_i hfn
    rcases foldConnective_cases false (.inr hfn) args with h | h | h
    exacts [.inl h, .inr (.inl h), .inr (.inr (.inr h))]
  · rename_i hfn
    rcases foldNegation_cases hfn args with h | h | ⟨hopen, h⟩
    exacts [.inr (.inl h), .inr (.inr (.inl h)), .inr (.inr (.inr ⟨_, .refl _, hopen, h⟩))]
  · rename_i hfn
    rcases foldComparison_cases hfn args with h | h | ⟨hopen, h⟩
    exacts [.inr (.inl h), .inr (.inr (.inl h)), .inr (.inr (.inr ⟨_, .refl _, hopen, h⟩))]
  · rename_i hfn
    exact .inr (.inr (.inr ⟨_, .refl _, by simp only [foldsAway, hfn], rfl⟩))

/-- A property of calls that arguments pass on, and that truth values and nulls have, is kept by
folding. -/
theorem forall_fold {P : Expr → Prop} (hbool : ∀ b, P (bool b)) (hnull : P null)
    (hargs : ∀ fn args, P (.call fn args) ↔ ∀ a ∈ args, P a) {e : Expr} (h : P e) :
    P e.fold := by
  induction e using induct with
  | column r => exact h
  | literal v t => exact h
  | input c => exact h
  | call fn args ih =>
    have hfolded : ∀ a ∈ foldAll args, P a := by
      intro a ha
      rw [foldAll_eq] at ha
      obtain ⟨b, hb, rfl⟩ := List.mem_map.1 ha
      exact ih b hb ((hargs fn args).1 h b hb)
    rw [fold]
    rcases foldCall_cases fn (foldAll args) with hmem | ⟨b, hb⟩ | hn | ⟨kept, hsub, -, hkept⟩
    · exact hfolded _ hmem
    · rw [hb]
      exact hbool b
    · rw [hn]
      exact hnull
    · rw [hkept, hargs]
      exact fun a ha => hfolded a (hsub.subset ha)

/-- What conjunctions pass on to their arguments is passed on to the conjuncts. -/
theorem forall_conjuncts {P : Expr → Prop}
    (hargs : ∀ fn args, fn.operator? = some .and → P (.call fn args) → ∀ a ∈ args, P a)
    {e : Expr} (h : P e) : ∀ c ∈ e.conjuncts, P c := by
  induction e using induct with
  | column r => simpa [conjuncts] using h
  | literal v t => simpa [conjuncts] using h
  | input c => simpa [conjuncts] using h
  | call fn args ih =>
    rw [conjuncts]
    split
    · rename_i hfn
      rw [conjunctsAll_eq]
      intro c hc
      obtain ⟨a, ha, hc⟩ := List.mem_flatMap.1 hc
      exact ih a ha (hargs fn args hfn h a ha) c hc
    · simpa using h

/-! ### Truth of conjunctions -/

/-- A predicate is true if all its conjuncts are. -/
theorem holds_iff_conjuncts (env : Env α) (e : Expr) :
    e.holds ι env = true ↔ ∀ c ∈ e.conjuncts, c.holds ι env = true := by
  induction e using induct with
  | column r => simp [conjuncts]
  | literal v t => simp [conjuncts]
  | input c => simp [conjuncts]
  | call fn args ih =>
    rw [conjuncts]
    split
    · rename_i hfn
      rw [conjunctsAll_eq, holds, eval_call, Interpretation.call, hfn, Datum.isTrue_conjunction]
      simp only [List.mem_map, forall_exists_index, and_imp, forall_apply_eq_imp_iff₂,
        List.mem_flatMap]
      exact ⟨fun h c a ha hc => (ih a ha).1 (h a ha) c hc,
        fun h a ha => (ih a ha).2 fun c hc => h c a ha hc⟩
    · simp

theorem references_and (a b : Expr) : (a.and b).references = a.references ++ b.references := by
  simp [and, apply, references, referencesAll_eq]

theorem holds_and (env : Env α) (a b : Expr) :
    (a.and b).holds ι env = true ↔ a.holds ι env = true ∧ b.holds ι env = true := by
  have hfn : (FunctionInfo.ofOperator .and).operator? = some .and := Operator.ofName?_name .and
  rw [and, apply, holds, eval_call, Interpretation.call, hfn, Datum.isTrue_conjunction]
  simp [holds]

/-- A conjunction is true if all its members are. -/
theorem holds_conjoin? (env : Env α) {es : List Expr} {query : Expr}
    (h : conjoin? es = some query) :
    query.holds ι env = true ↔ ∀ e ∈ es, e.holds ι env = true := by
  cases es with
  | nil => cases h
  | cons e es =>
    obtain rfl := Option.some.inj h
    induction es generalizing e with
    | nil => simp
    | cons e' es ih =>
      rw [List.foldl_cons, ih (e.and e') rfl, List.forall_mem_cons, holds_and,
        List.forall_mem_cons, List.forall_mem_cons, and_assoc]

/-- What a call has if its arguments have it, a conjunction has if its members have it. -/
theorem forall_conjoin? {P : Expr → Prop}
    (hargs : ∀ fn args, (∀ a ∈ args, P a) → P (.call fn args)) {es : List Expr}
    (h : ∀ e ∈ es, P e) {query : Expr} (hquery : conjoin? es = some query) : P query := by
  cases es with
  | nil => cases hquery
  | cons e es =>
    obtain rfl := Option.some.inj hquery
    rw [List.forall_mem_cons] at h
    obtain ⟨he, hes⟩ := h
    clear hquery
    induction es generalizing e with
    | nil => exact he
    | cons e' es ih =>
      rw [List.forall_mem_cons] at hes
      refine ih (e.and e') ?_ hes.2
      exact hargs _ _ (by simpa using ⟨he, hes.1⟩)

theorem conjoin?_eq_none_iff {es : List Expr} : conjoin? es = none ↔ es = [] := by
  cases es <;> simp [conjoin?]

end Expr

namespace WhereClause

/-- Whether a row meets the clause.  The primary keys of a clause only repeat what its predicate
says. -/
def holds (env : Env α) (w : WhereClause) : Bool :=
  !w.noMatch && w.query.all (Expr.holds ι env)

/-- What a predicate has, and folding and splitting keep, its conjuncts have. -/
theorem forall_conjuncts {P : Expr → Prop} (hbool : ∀ b, P (.bool b)) (hnull : P .null)
    (hargs : ∀ fn args, P (.call fn args) ↔ ∀ a ∈ args, P a) {w : WhereClause}
    (h : ∀ query ∈ w.query, P query) : ∀ c ∈ w.conjuncts, P c := by
  unfold conjuncts
  split
  · rename_i query hquery
    exact Expr.forall_conjuncts (fun fn args _ => (hargs fn args).1)
      (Expr.forall_fold hbool hnull hargs (h query hquery))
  · exact fun c hc => absurd hc List.not_mem_nil

theorem holds_iff_conjuncts (env : Env α) {w : WhereClause} (h : w.noMatch = false) :
    w.holds ι env = true ↔ ∀ c ∈ w.conjuncts, c.holds ι env = true := by
  rw [holds, h, conjuncts]
  cases w.query with
  | none => simp
  | some query =>
    rw [← Expr.holds_iff_conjuncts, Expr.holds, Expr.eval_fold]
    rfl

/-- A conjunct that can never be true is not true. -/
theorem holds_of_neverTrue (env : Env α) {c : Expr} (h : neverTrue c = true) :
    c.holds ι env = false := by
  unfold neverTrue at h
  split at h
  · rename_i b t
    rw [Bool.not_eq_true'] at h
    rw [h]
    rfl
  · rfl
  · cases h

/-- A statically false clause is never met. -/
theorem holds_of_isStaticallyFalse (env : Env α) {w : WhereClause}
    (h : w.isStaticallyFalse = true) : w.holds ι env = false := by
  rw [isStaticallyFalse, Bool.or_eq_true] at h
  cases hnone : w.noMatch with
  | true => simp [holds, hnone]
  | false =>
    rw [hnone] at h
    obtain ⟨c, hc, hnever⟩ := List.any_eq_true.1 (h.resolve_left (by simp))
    rw [← Bool.not_eq_true, holds_iff_conjuncts ι env hnone]
    intro hall
    have := hall c hc
    rw [holds_of_neverTrue ι env hnever] at this
    cases this

theorem query_ofConjuncts (es : List Expr) : (ofConjuncts es).query = Expr.conjoin? es := by
  unfold ofConjuncts
  cases Expr.conjoin? es <;> rfl

theorem holds_ofConjuncts (env : Env α) (es : List Expr) :
    (ofConjuncts es).holds ι env = true ↔ ∀ e ∈ es, e.holds ι env = true := by
  unfold ofConjuncts
  cases h : Expr.conjoin? es with
  | none =>
    rw [Expr.conjoin?_eq_none_iff] at h
    simp [h, holds, matchAll]
  | some query =>
    rw [← Expr.holds_conjoin? ι env h]
    rfl

end WhereClause

end ShardJoin
