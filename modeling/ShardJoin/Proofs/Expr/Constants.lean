/-
Predicates over constants.

A constant is built from truth values, nulls and comparisons of literals that
can be compared, by connectives of any arity.  It refers to no column, so it has
one value under every valuation, and folding could replace it by a literal.

* `Expr.Constant.leaves` — what folding makes of a constant: the truth value that
  it has, a null, or a call if it is unknown because of two or more nulls;
* `Expr.Constant.fold_isLiteral_iff` — so a constant is folded to a literal if at
  most one null is open in it;
* `Expr.conjunct_of_fold`, `Expr.conjunct_fold` — folding a predicate and then
  splitting it gives what folding and splitting each conjunct gives, but for
  truth values.

Two nulls that meet in a connective are kept: only truth values are dropped.
-/
import Mathlib.Algebra.BigOperators.Group.List.Basic
import Mathlib.Algebra.GroupWithZero.Nat
import ShardJoin.Proofs.Expr.Conjunction

namespace ShardJoin

/-- Two literals of one kind of which there is an order, or a null and any literal. -/
inductive Value.OneKind : Value → Value → Prop where
  | nullLeft (w : Value) : OneKind .null w
  | nullRight (v : Value) : OneKind v .null
  | int64 (m n : Int64) : OneKind (.int64 m) (.int64 n)
  | utf8 (s t : String) : OneKind (.utf8 s) (.utf8 t)
  | boolean (b c : Bool) : OneKind (.boolean b) (.boolean c)

/-- Literals of one kind can be compared. -/
theorem Value.OneKind.compare_ne {v w : Value} (h : v.OneKind w) :
    v.compare w ≠ .incomparable := by
  cases h with
  | nullRight v => cases v <;> exact Comparison.noConfusion
  | _ => exact Comparison.noConfusion

/-- What counts nothing can be dropped from a sum. -/
theorem sum_map_filter {β : Type} (f : β → Nat) (p : β → Bool) (l : List β)
    (h : ∀ b ∈ l, p b = false → f b = 0) : ((l.filter p).map f).sum = (l.map f).sum := by
  have hsplit := List.sum_map_filter_add_sum_map_filter_not (p · = true) f l
  have hdropped : ((l.filter fun b => ¬p b = true).map f).sum = 0 := by
    refine List.sum_eq_zero fun n hn => ?_
    obtain ⟨b, hb, rfl⟩ := List.mem_map.1 hn
    obtain ⟨hmem, hp⟩ := List.mem_filter.1 hb
    exact h b hmem (by simpa using hp)
  rw [hdropped, Nat.add_zero] at hsplit
  simpa using hsplit

/-- The valuation of predicates that refer to nothing. -/
def Valuation.blank : Valuation Empty := ⟨fun _ => .null, fun _ => .null, fun _ _ => .null⟩

namespace Expr

/-- A predicate over constants. -/
inductive Constant : Expr → Prop where
  | bool (b : Bool) : Constant (.bool b)
  | null (t : DataType) : Constant (.literal .null t)
  | connective {fn : FunctionInfo} {args : List Expr}
      (hfn : fn.operator? = some .and ∨ fn.operator? = some .or)
      (hargs : ∀ a ∈ args, Constant a) : Constant (.call fn args)
  | negation {fn : FunctionInfo} {a : Expr} (hfn : fn.operator? = some .not)
      (ha : Constant a) : Constant (.call fn [a])
  | comparison {fn : FunctionInfo} {op : CompareOp} {v w : Value} {t u : DataType}
      (hfn : fn.operator? = some (.comparison op)) (hkind : v.OneKind w) :
      Constant (.call fn [.literal v t, .literal w u])

/-- The truth value of a predicate that refers to nothing. -/
def truthValue (e : Expr) : Truth := (e.kleene .blank).truth

mutual
/-- The number of nulls, and of comparisons with nulls, that leave a predicate unknown.  Those in a
part whose truth value is decided do not count. -/
def openNulls : Expr → Nat
  | .call fn args =>
    if (Expr.call fn args).truthValue = .unknown then
      match fn.operator? with
      | some (.comparison _) => 1
      | _ => openNullsAll args
    else 0
  | .literal v _ => if v = .null then 1 else 0
  | .column _ | .input _ => 0

/-- The number of nulls that leave predicates unknown. -/
def openNullsAll : List Expr → Nat
  | [] => 0
  | e :: es => e.openNulls + openNullsAll es
end

theorem openNullsAll_eq (es : List Expr) : openNullsAll es = (es.map openNulls).sum := by
  induction es with
  | nil => simp [openNullsAll]
  | cons e es ih => simp [openNullsAll, ih]

/-! ### The value of a constant -/

/-- A comparison of literals of one kind is folded. -/
theorem foldComparison_of_oneKind {fn : FunctionInfo} {op : CompareOp}
    (hfn : fn.operator? = some (.comparison op)) {v w : Value} (hkind : v.OneKind w)
    (t u : DataType) :
    (∃ b, foldComparison op fn [.literal v t, .literal w u] = .bool b) ∨
      foldComparison op fn [.literal v t, .literal w u] = .null := by
  rcases foldComparison_cases hfn [.literal v t, .literal w u] with h | h | ⟨hopen, -⟩
  · exact .inl h
  · exact .inr h
  · simp only [foldsAway, hfn, bne_eq_false_iff_eq] at hopen
    exact absurd hopen hkind.compare_ne

theorem truthValue_bool (b : Bool) : (Expr.bool b).truthValue = .ofBool b := rfl

/-- Arguments of connectives in a constant are truth values, and so is the constant. -/
theorem Constant.isTruth {e : Expr} (h : e.Constant) {α : Type} (v : Valuation α) :
    e.truthArgs v = true ∧ (e.kleene v).isTruth = true := by
  induction h with
  | bool b => exact ⟨rfl, rfl⟩
  | null t => exact ⟨rfl, rfl⟩
  | @connective fn args hfn hargs ih =>
    have htruth : ∀ a ∈ args, (a.kleene v).isTruth = true := fun a ha => (ih a ha).2
    refine ⟨(truthArgs_call v).2 ⟨fun a ha => (ih a ha).1, fun _ => htruth⟩, ?_⟩
    rw [kleene_call]
    rcases hfn with hfn | hfn
    · rw [call_connective true hfn htruth, Datum.isTruth_ofTruth]
    · rw [call_connective false hfn htruth, Datum.isTruth_ofTruth]
  | @negation fn a hfn ha ih =>
    refine ⟨(truthArgs_call v).2 ⟨by simpa using ih.1, fun _ => by simpa using ih.2⟩, ?_⟩
    rw [kleene_call]
    simp [Valuation.call, hfn, ih.2]
  | @comparison fn op x y t u hfn hkind =>
    have hopen : fn.isConnective = false := by simp [FunctionInfo.isConnective, hfn]
    refine ⟨(truthArgs_call v).2 ⟨by simp [truthArgs], fun h => ?_⟩, ?_⟩
    · rw [hopen] at h
      cases h
    · rw [kleene_call, ← kleene_foldComparison hfn]
      rcases foldComparison_of_oneKind hfn hkind t u with ⟨b, h⟩ | h <;> rw [h] <;> rfl

/-- A constant refers to no column. -/
theorem Constant.references_eq {e : Expr} (h : e.Constant) : e.references = [] := by
  induction h with
  | bool b => rfl
  | null t => rfl
  | connective hfn hargs ih =>
    rw [references, referencesAll_eq, List.flatMap_eq_nil_iff]
    exact ih
  | negation hfn ha ih => simpa [references, referencesAll_eq] using ih
  | comparison hfn hkind => simp [references, referencesAll_eq]

/-- The truth value of a connective of constants. -/
theorem truthValue_connective (neutral : Bool) {fn : FunctionInfo}
    (hfn : fn.operator? = some (if neutral then .and else .or)) {args : List Expr}
    (hargs : ∀ a ∈ args, a.Constant) :
    (Expr.call fn args).truthValue = .connective neutral (args.map truthValue) := by
  rw [truthValue, kleene_call,
    call_connective neutral hfn fun a ha => ((hargs a ha).isTruth .blank).2, Datum.truth_ofTruth]
  rfl

theorem truthValue_negation {fn : FunctionInfo} (hfn : fn.operator? = some .not) {a : Expr}
    (ha : a.Constant) : (Expr.call fn [a]).truthValue = a.truthValue.not := by
  have htruth := (ha.isTruth .blank).2
  simp [truthValue, kleene_call, Valuation.call, hfn, htruth]

/-! ### What folding makes of a constant -/

/-- What is left of a constant in which so many nulls are open and that has a truth value. -/
inductive Leaves : Nat → Truth → Expr → Prop where
  | decided (b : Bool) : Leaves 0 (.ofBool b) (.bool b)
  | null (t : DataType) : Leaves 1 .unknown (.literal .null t)
  | stuck {n : Nat} (hn : 2 ≤ n) (fn : FunctionInfo) (args : List Expr) :
      Leaves n .unknown (.call fn args)

namespace Leaves

variable {n : Nat} {t : Truth} {e : Expr}

theorem eq_ofBool (h : Leaves n t e) {b : Bool} (he : e.isBool b = true) :
    n = 0 ∧ t = .ofBool b := by
  cases h with
  | decided c =>
    obtain rfl : b = c := by simpa [isBool, Expr.bool] using he
    exact ⟨rfl, rfl⟩
  | null t => cases he
  | stuck hn fn args => cases he

/-- What is no truth value is unknown. -/
theorem eq_unknown (h : Leaves n t e) (he : ∀ b, e.isBool b = false) : t = .unknown ∧ 0 < n := by
  cases h with
  | decided b => exact absurd (he b) (by simp [isBool, Expr.bool])
  | null t => exact ⟨rfl, Nat.one_pos⟩
  | stuck hn fn args => exact ⟨rfl, by omega⟩

theorem eq_unknown_of_lt (h : Leaves n t e) (hlt : 1 < n) : t = .unknown := by
  cases h with
  | decided b => omega
  | null t => rfl
  | stuck hn fn args => rfl

end Leaves

/-- A connective of unknown arguments is unknown, if there are any. -/
theorem connective_of_unknown (neutral : Bool) {args : List Expr} (hne : args ≠ [])
    (h : ∀ a ∈ args, a.truthValue = .unknown) :
    Truth.connective neutral (args.map truthValue) = .unknown := by
  induction args with
  | nil => exact absurd rfl hne
  | cons a rest ih =>
    rw [List.forall_mem_cons] at h
    rw [List.map_cons, h.1]
    cases rest with
    | nil => exact Truth.connective_singleton neutral _
    | cons b rest =>
      have hrest : Truth.connective neutral ((b :: rest).map truthValue) =
          Truth.connective neutral [.unknown] := by
        rw [ih (List.cons_ne_nil b rest) h.2, Truth.connective_singleton]
      rw [Truth.connective_cons_congr hrest]
      cases neutral <;> rfl

/-- What is left of a connective all of whose arguments are unknown. -/
theorem leaves_of_unknown (neutral : Bool) (fn : FunctionInfo) {args : List Expr}
    (hleaves : ∀ a ∈ args, Leaves a.openNulls a.truthValue a.fold)
    (hopen : ∀ a ∈ args, a.truthValue = .unknown ∧ 0 < a.openNulls) :
    Leaves (if Truth.connective neutral (args.map truthValue) = .unknown
        then (args.map openNulls).sum else 0)
      (.connective neutral (args.map truthValue))
      (match args.map fold with
        | [] => .bool neutral
        | [e] => e
        | rest => .call fn rest) := by
  match args with
  | [] =>
    rw [List.map_nil, Truth.connective_nil, if_neg (Truth.ofBool_ne_unknown _)]
    exact .decided neutral
  | [a] =>
    have ha := hleaves a List.mem_cons_self
    rw [(hopen a List.mem_cons_self).1] at ha
    rw [connective_of_unknown neutral (List.cons_ne_nil _ _) fun a ha => (hopen a ha).1, if_pos rfl]
    simpa using ha
  | a :: b :: rest =>
    rw [connective_of_unknown neutral (List.cons_ne_nil _ _) fun a ha => (hopen a ha).1, if_pos rfl]
    refine .stuck ?_ fn _
    have ha := (hopen a List.mem_cons_self).2
    have hb := (hopen b (List.mem_cons_of_mem _ List.mem_cons_self)).2
    simp only [List.map_cons, List.sum_cons]
    omega

/-- A connective keeps the arguments that are no truth values. -/
theorem leaves_foldConnective (neutral : Bool) (fn : FunctionInfo) {args : List Expr}
    (h : ∀ a ∈ args, Leaves a.openNulls a.truthValue a.fold) :
    Leaves (if Truth.connective neutral (args.map truthValue) = .unknown
        then (args.map openNulls).sum else 0)
      (.connective neutral (args.map truthValue))
      (foldConnective neutral fn (args.map fold)) := by
  rw [foldConnective, List.any_map]
  by_cases hany : args.any (isBool (!neutral) ∘ fold) = true
  · -- one argument decides
    obtain ⟨a, ha, hdecides⟩ := List.any_eq_true.1 hany
    have hvalue := ((h a ha).eq_ofBool hdecides).2
    rw [if_pos hany, Truth.connective_of_mem (List.mem_map.2 ⟨a, ha, hvalue⟩),
      if_neg (Truth.ofBool_ne_unknown _)]
    exact .decided _
  · have hdropped : ∀ a ∈ args, (!a.fold.isBool neutral) = false →
        a.openNulls = 0 ∧ a.truthValue = .ofBool neutral :=
      fun a ha hneutral => (h a ha).eq_ofBool (by simpa using hneutral)
    -- neither the value nor the number of nulls depends on what is dropped
    have hvalue := Truth.connective_map_filter neutral truthValue _ args
      fun a ha hneutral => (hdropped a ha hneutral).2
    have hsum := sum_map_filter openNulls _ args fun a ha hneutral => (hdropped a ha hneutral).1
    have hopen : ∀ a ∈ args.filter (fun a => !a.fold.isBool neutral),
        a.truthValue = .unknown ∧ 0 < a.openNulls := by
      intro a ha
      obtain ⟨hmem, hneutral⟩ := List.mem_filter.1 ha
      refine (h a hmem).eq_unknown fun b => ?_
      have hother : a.fold.isBool (!neutral) = false :=
        Bool.eq_false_iff.2 fun hdecides => hany (List.any_eq_true.2 ⟨a, hmem, hdecides⟩)
      rw [Bool.not_eq_true'] at hneutral
      cases neutral <;> cases b <;> assumption
    rw [if_neg hany, List.filter_map, ← hvalue, ← hsum]
    exact leaves_of_unknown neutral fn (fun a ha => h a (List.mem_of_mem_filter ha)) hopen

/-- The negation of a truth value or a null is folded. -/
theorem Leaves.foldNegation {n : Nat} {t : Truth} {e : Expr} (h : Leaves n t e)
    (fn : FunctionInfo) :
    Leaves (if t.not = .unknown then n else 0) t.not (foldNegation fn [e]) := by
  cases h with
  | decided b =>
    have hnot : (Truth.ofBool b).not = .ofBool (!b) := by cases b <;> rfl
    rw [hnot, if_neg (Truth.ofBool_ne_unknown _)]
    exact .decided _
  | null t => exact .null _
  | stuck hn g args => exact .stuck hn fn _

theorem openNulls_call {fn : FunctionInfo} (hfn : fn.isConnective = true) (args : List Expr) :
    (Expr.call fn args).openNulls =
      if (Expr.call fn args).truthValue = .unknown then (args.map openNulls).sum else 0 := by
  rw [openNulls, openNullsAll_eq]
  unfold FunctionInfo.isConnective at hfn
  split at hfn <;> simp_all

/-- What folding makes of a constant depends on its truth value and on the nulls open in it. -/
theorem Constant.leaves {e : Expr} (h : e.Constant) :
    Leaves e.openNulls e.truthValue e.fold := by
  induction h with
  | bool b =>
    have := Leaves.decided b
    simpa [openNulls, Expr.bool, truthValue, kleene, Datum.truth, fold] using this
  | null t => exact .null t
  | @connective fn args hfn hargs ih =>
    rw [fold, foldAll_eq, foldCall]
    rcases hfn with hfn | hfn
    · rw [openNulls_call (by simp [FunctionInfo.isConnective, hfn]),
        truthValue_connective true hfn hargs, hfn]
      exact leaves_foldConnective true fn ih
    · rw [openNulls_call (by simp [FunctionInfo.isConnective, hfn]),
        truthValue_connective false hfn hargs, hfn]
      exact leaves_foldConnective false fn ih
  | @negation fn a hfn ha ih =>
    rw [fold, foldAll_eq, foldCall, openNulls_call (by simp [FunctionInfo.isConnective, hfn]),
      truthValue_negation hfn ha, hfn]
    simpa using ih.foldNegation fn
  | @comparison fn op v w t u hfn hkind =>
    have hvalue : (Expr.call fn [.literal v t, .literal w u]).truthValue =
        (foldComparison op fn [.literal v t, .literal w u]).truthValue := by
      rw [truthValue, truthValue, kleene_foldComparison hfn, kleene_call]
    have hfold : (Expr.call fn [.literal v t, .literal w u]).fold =
        foldComparison op fn [.literal v t, .literal w u] := by
      simp [fold, foldAll_eq, foldCall, hfn]
    have hnulls : (Expr.call fn [.literal v t, .literal w u]).openNulls =
        if (Expr.call fn [.literal v t, .literal w u]).truthValue = .unknown then 1 else 0 := by
      rw [openNulls, hfn]
    rw [hnulls, hfold, hvalue]
    rcases foldComparison_of_oneKind hfn hkind t u with ⟨b, h⟩ | h
    · rw [h, truthValue_bool, if_neg (Truth.ofBool_ne_unknown b)]
      exact .decided b
    · rw [h]
      exact .null _

/-- A constant is folded to a literal if at most one null is open in it. -/
theorem Constant.fold_isLiteral_iff {e : Expr} (h : e.Constant) :
    (∃ v t, e.fold = .literal v t) ↔ e.openNulls ≤ 1 := by
  have hleaves := h.leaves
  generalize e.openNulls = n, e.truthValue = t, e.fold = f at hleaves
  cases hleaves with
  | decided b => exact ⟨fun _ => Nat.zero_le 1, fun _ => ⟨_, _, rfl⟩⟩
  | null t => exact ⟨fun _ => Nat.le_refl 1, fun _ => ⟨_, _, rfl⟩⟩
  | stuck hn fn args => exact ⟨fun ⟨_, _, hcall⟩ => (nomatch hcall), fun hle => by omega⟩

/-- A constant that is true or false is folded to that truth value, and only such a one is. -/
theorem Constant.fold_eq_bool_iff {e : Expr} (h : e.Constant) {b : Bool} :
    e.fold = .bool b ↔ e.truthValue = .ofBool b := by
  have hleaves := h.leaves
  generalize e.openNulls = n, e.truthValue = t, e.fold = f at hleaves
  cases hleaves with
  | decided c => cases b <;> cases c <;> simp [Expr.bool, Truth.ofBool]
  | null t => cases b <;> simp [Expr.bool, Truth.ofBool]
  | stuck hn fn args => cases b <;> simp [Expr.bool, Truth.ofBool]

/-- A constant with at most one open null can never be true, or it is folded to true. -/
theorem Constant.fold_eq_true {e : Expr} (h : e.Constant) (hle : e.openNulls ≤ 1)
    (hpossible : WhereClause.neverTrue e.fold = false) : e.fold = .bool true := by
  have hleaves := h.leaves
  generalize e.openNulls = n, e.truthValue = t, e.fold = f at hleaves hle hpossible
  cases hleaves with
  | decided b =>
    cases b with
    | true => rfl
    | false => cases hpossible
  | null t => cases hpossible
  | stuck hn fn args => omega

/-- Something that is not true is left of a constant with two open nulls or more. -/
theorem Constant.exists_conjunct {e : Expr} (h : e.Constant) (hlt : 1 < e.openNulls) :
    ∃ d ∈ e.fold.conjuncts, d.references = [] ∧ d.kleene .blank ≠ .bool true := by
  obtain ⟨hargs, -⟩ := h.isTruth .blank
  have hvalue : e.fold.kleene .blank ≠ .bool true := by
    have hunknown := h.leaves.eq_unknown_of_lt hlt
    rw [kleene_fold hargs]
    intro htrue
    rw [truthValue, htrue] at hunknown
    exact Truth.ofBool_ne_unknown true hunknown
  rw [ne_eq, kleene_iff_conjuncts (truthArgs_fold hargs)] at hvalue
  push Not at hvalue
  obtain ⟨d, hd, hne⟩ := hvalue
  refine ⟨d, hd, List.eq_nil_iff_forall_not_mem.2 fun r hr => ?_, hne⟩
  have hmem : r ∈ e.fold.references := by
    rw [← references_conjuncts]
    exact List.mem_flatMap.2 ⟨d, hd, hr⟩
  have hnone := references_fold_subset e hmem
  rw [h.references_eq] at hnone
  cases hnone

/-! ### Folding and splitting -/

theorem foldCall_and {fn : FunctionInfo} (hfn : fn.operator? = some .and) (args : List Expr) :
    foldCall fn args = foldConnective true fn args := by
  rw [foldCall, hfn]

/-- A conjunct of a folded predicate is a truth value or stems from folding one conjunct. -/
theorem conjunct_of_fold {e d : Expr} (h : d ∈ e.fold.conjuncts) :
    (∃ b, d = .bool b) ∨ ∃ c ∈ e.conjuncts, d ∈ c.fold.conjuncts := by
  induction e using induct with
  | column r => exact .inr ⟨_, List.mem_singleton_self _, h⟩
  | literal v t => exact .inr ⟨_, List.mem_singleton_self _, h⟩
  | input c => exact .inr ⟨_, List.mem_singleton_self _, h⟩
  | call fn args ih =>
    rw [conjuncts]
    split
    · rename_i hfn
      -- all arguments of a conjunction that are left stem from its arguments
      have hargs : ∀ f ∈ foldAll args, d ∈ f.conjuncts →
          (∃ b, d = .bool b) ∨ ∃ c ∈ conjunctsAll args, d ∈ c.fold.conjuncts := by
        intro f hf hd
        rw [foldAll_eq] at hf
        obtain ⟨a, ha, rfl⟩ := List.mem_map.1 hf
        rcases ih a ha hd with hbool | ⟨c, hc, hd⟩
        · exact .inl hbool
        · refine .inr ⟨c, ?_, hd⟩
          rw [conjunctsAll_eq]
          exact List.mem_flatMap.2 ⟨a, ha, hc⟩
      rw [fold, foldCall_and hfn] at h
      rcases foldConnective_cases true (.inl hfn) (foldAll args) with
        hmem | ⟨b, hb⟩ | ⟨kept, hsub, -, hkept⟩
      · exact hargs _ hmem h
      · rw [hb] at h
        exact .inl ⟨b, List.mem_singleton.1 h⟩
      · rw [hkept, conjuncts, if_pos hfn, conjunctsAll_eq] at h
        obtain ⟨f, hf, hd⟩ := List.mem_flatMap.1 h
        exact hargs f (hsub.subset hf) hd
    · exact .inr ⟨_, List.mem_singleton_self _, h⟩

/-- A truth value is its own only conjunct. -/
theorem mem_conjuncts_of_isBool {f d : Expr} {b : Bool} (hf : f.isBool b = true)
    (hd : d ∈ f.conjuncts) : d = f := by
  obtain ⟨type, rfl⟩ := eq_of_isBool hf
  exact List.mem_singleton.1 hd

/-- A folded conjunction is false, or it keeps the conjuncts of its arguments, true literals
apart. -/
theorem conjuncts_foldConnective {fn : FunctionInfo} (hfn : fn.operator? = some .and)
    {args : List Expr} {f : Expr} (hf : f ∈ args) :
    foldConnective true fn args = .bool false ∨ f.isBool false = false ∧
      ∀ d ∈ f.conjuncts, d.isBool true = true ∨ d ∈ (foldConnective true fn args).conjuncts := by
  unfold foldConnective
  split
  · exact .inl rfl
  rename_i hany
  have hopen : f.isBool false = false :=
    Bool.eq_false_iff.2 fun h => hany (List.any_eq_true.2 ⟨f, hf, h⟩)
  refine .inr ⟨hopen, fun d hd => ?_⟩
  cases htrue : f.isBool true with
  | true => exact .inl (mem_conjuncts_of_isBool htrue hd ▸ htrue)
  | false =>
    have hkept : f ∈ args.filter (!isBool true ·) := List.mem_filter.2 ⟨hf, by rw [htrue]; rfl⟩
    refine .inr ?_
    split
    · rename_i hnil
      rw [hnil] at hkept
      cases hkept
    · rename_i e hone
      rw [hone, List.mem_singleton] at hkept
      rwa [← hkept]
    · rw [conjuncts, if_pos hfn, conjunctsAll_eq]
      exact List.mem_flatMap.2 ⟨f, hkept, hd⟩

/-- Folding a predicate keeps what folding a conjunct leaves, but for true literals, unless the
predicate is found to be false. -/
theorem conjunct_fold {e c : Expr} (hc : c ∈ e.conjuncts) :
    e.fold = .bool false ∨ ∀ d ∈ c.fold.conjuncts, d.isBool true = true ∨ d ∈ e.fold.conjuncts := by
  induction e using induct with
  | column r =>
    obtain rfl := List.mem_singleton.1 hc
    exact .inr fun d hd => .inr hd
  | literal v t =>
    obtain rfl := List.mem_singleton.1 hc
    exact .inr fun d hd => .inr hd
  | input i =>
    obtain rfl := List.mem_singleton.1 hc
    exact .inr fun d hd => .inr hd
  | call fn args ih =>
    rw [conjuncts] at hc
    split at hc
    · rename_i hfn
      rw [conjunctsAll_eq] at hc
      obtain ⟨a, ha, hc⟩ := List.mem_flatMap.1 hc
      have hmem : a.fold ∈ foldAll args := foldAll_eq args ▸ List.mem_map_of_mem ha
      rw [fold, foldCall_and hfn]
      rcases conjuncts_foldConnective hfn hmem with hfalse | ⟨hopen, hargs⟩
      · exact .inl hfalse
      refine .inr fun d hd => ?_
      rcases ih a ha hc with hfalse | hkept
      · rw [hfalse] at hopen
        cases hopen
      · exact (hkept d hd).elim .inl (hargs d)
    · obtain rfl := List.mem_singleton.1 hc
      exact .inr fun d hd => .inr hd

end Expr

end ShardJoin
