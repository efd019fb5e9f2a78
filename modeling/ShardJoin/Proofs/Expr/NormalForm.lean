/-
Folding reaches a normal form.

An expression is normal if no call in it, at the root or further down, can be
folded away: no connective has a truth value among its arguments or fewer than
two of them, no truth value or null is negated, and no two literals that can be
compared are compared.

* `Expr.isNormal_fold` — what folding leaves is normal, whatever it started from;
* `Expr.fold_eq_self_iff` — the normal expressions are those that folding leaves
  as they are;
* `Expr.fold_reaches_normalForm` — so one pass is enough.

That an expression stays as it is means that it is identical afterwards, with
every float literal bit by bit and every type of a literal as it was.
-/
import ShardJoin.Proofs.Expr.Folding

namespace ShardJoin.Expr

/-- Whether no call in the expression can be folded away. -/
def IsNormal (e : Expr) : Prop :=
  ∀ fn args, Expr.call fn args ∈ e.subtrees → foldsAway fn args = false

theorem isNormal_column (r : ColumnRef) : (Expr.column r).IsNormal := by
  intro fn args h
  cases List.mem_singleton.1 h

theorem isNormal_literal (v : Value) (t : DataType) : (Expr.literal v t).IsNormal := by
  intro fn args h
  cases List.mem_singleton.1 h

theorem isNormal_input (c : InputColumn) : (Expr.input c).IsNormal := by
  intro fn args h
  cases List.mem_singleton.1 h

/-- A call is normal if its arguments are and it cannot be folded away itself. -/
theorem isNormal_call {fn : FunctionInfo} {args : List Expr} :
    (Expr.call fn args).IsNormal ↔ foldsAway fn args = false ∧ ∀ a ∈ args, a.IsNormal := by
  constructor
  · intro h
    refine ⟨h fn args (mem_subtrees_call.2 (.inl rfl)), fun a ha g bs hg => ?_⟩
    exact h g bs (mem_subtrees_call.2 (.inr ⟨a, ha, hg⟩))
  · rintro ⟨hopen, hargs⟩ g bs hg
    rcases mem_subtrees_call.1 hg with heq | ⟨a, ha, hg⟩
    · obtain ⟨rfl, rfl⟩ := Expr.call.inj heq
      exact hopen
    · exact hargs a ha g bs hg

/-! ### Folding leaves a normal expression -/

/-- A call of normal arguments is folded to a normal expression. -/
theorem isNormal_foldCall (fn : FunctionInfo) {args : List Expr}
    (hargs : ∀ a ∈ args, a.IsNormal) : (foldCall fn args).IsNormal := by
  rcases foldCall_cases fn args with hmem | ⟨b, hb⟩ | hnull | ⟨kept, hsub, hopen, hkept⟩
  · exact hargs _ hmem
  · rw [hb]
    exact isNormal_literal _ _
  · rw [hnull]
    exact isNormal_literal _ _
  · rw [hkept, isNormal_call]
    exact ⟨hopen, fun a ha => hargs a (hsub.subset ha)⟩

theorem isNormal_fold (e : Expr) : e.fold.IsNormal := by
  induction e using induct with
  | column r => exact isNormal_column r
  | literal v t => exact isNormal_literal v t
  | input c => exact isNormal_input c
  | call fn args ih =>
    rw [fold]
    refine isNormal_foldCall fn fun a ha => ?_
    rw [foldAll_eq] at ha
    obtain ⟨b, hb, rfl⟩ := List.mem_map.1 ha
    exact ih b hb

/-! ### Normal expressions are left alone -/

/-- A connective of two or more arguments that are no truth values stays as it is. -/
theorem foldConnective_eq_self (neutral : Bool) (fn : FunctionInfo) {args : List Expr}
    (hlength : 2 ≤ args.length) (hopen : ∀ a ∈ args, ∀ b, a.isBool b = false) :
    foldConnective neutral fn args = .call fn args := by
  have hany : args.any (isBool (!neutral)) = false :=
    List.any_eq_false.2 fun a ha => Bool.eq_false_iff.1 (hopen a ha _)
  have hfilter : args.filter (!isBool neutral ·) = args :=
    List.filter_eq_self.2 fun a ha => by rw [hopen a ha]; rfl
  unfold foldConnective
  rw [if_neg (Bool.eq_false_iff.1 hany), hfilter]
  match args, hlength with
  | _ :: _ :: _, _ => rfl

/-- A call that cannot be folded away stays as it is. -/
theorem foldCall_eq_self {fn : FunctionInfo} {args : List Expr}
    (h : foldsAway fn args = false) : foldCall fn args = .call fn args := by
  unfold foldCall
  split
  · rename_i hfn
    obtain ⟨hlength, hopen⟩ := (foldsAway_connective (.inl hfn)).1 h
    exact foldConnective_eq_self true fn hlength hopen
  · rename_i hfn
    obtain ⟨hlength, hopen⟩ := (foldsAway_connective (.inr hfn)).1 h
    exact foldConnective_eq_self false fn hlength hopen
  · rename_i hfn
    simp only [foldsAway, hfn] at h
    unfold foldNegation
    split
    · cases h
    · cases h
    · rfl
  · rename_i op hfn
    simp only [foldsAway, hfn] at h
    unfold foldComparison
    split
    · split
      · simp_all
      · simp_all
      · rfl
    · rfl
  · rfl

/-- Folding leaves normal expressions as they are. -/
theorem fold_eq_self {e : Expr} (h : e.IsNormal) : e.fold = e := by
  induction e using induct with
  | column r => rfl
  | literal v t => rfl
  | input c => rfl
  | call fn args ih =>
    obtain ⟨hopen, hargs⟩ := isNormal_call.1 h
    have hfolded : foldAll args = args := by
      rw [foldAll_eq]
      exact (List.map_congr_left fun a ha => ih a ha (hargs a ha)).trans (List.map_id args)
    rw [fold, hfolded, foldCall_eq_self hopen]

theorem fold_eq_self_iff {e : Expr} : e.fold = e ↔ e.IsNormal :=
  ⟨fun h => h ▸ isNormal_fold e, fold_eq_self⟩

/-- One pass of folding reaches a normal form, which further passes do not change. -/
theorem fold_reaches_normalForm (e : Expr) : e.fold.IsNormal ∧ e.fold.fold = e.fold :=
  ⟨isNormal_fold e, fold_eq_self (isNormal_fold e)⟩

end ShardJoin.Expr
