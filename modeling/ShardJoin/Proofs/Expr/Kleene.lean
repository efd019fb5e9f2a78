/-
Folding in Kleene's three-valued logic.

The logic is written down here without reference to folding: a truth table for
each connective, extended to any number of arguments, and the comparison of
data.  A valuation chooses the data of columns and positions and what all other
calls give, those of connectives on data that are no truth values and of
comparisons of incomparable data among them.

* `Expr.kleene` — the value of an expression under a valuation;
* `Expr.kleene_fold` — folding keeps it;
* `Expr.references_fold_subset` — folding adds no reference;
* `Expr.kleene_iff_conjuncts` — a predicate is true if all its conjuncts are;
* `Expr.fold_preserves_meaning` — all of it, and what it means for a where
  clause that is found to be statically false.
-/
import ShardJoin.Proofs.Expr.Folding

namespace ShardJoin

/-! ### The logic -/

/-- A truth value of three-valued logic. -/
inductive Truth where
  | no
  | unknown
  | yes
  deriving DecidableEq

namespace Truth

def ofBool : Bool → Truth
  | true => .yes
  | false => .no

theorem ofBool_ne_unknown (b : Bool) : ofBool b ≠ .unknown := by
  cases b <;> exact Truth.noConfusion

protected def not : Truth → Truth
  | .no => .yes
  | .unknown => .unknown
  | .yes => .no

protected def and : Truth → Truth → Truth
  | .no, _ => .no
  | .yes, t => t
  | .unknown, .no => .no
  | .unknown, _ => .unknown

protected def or : Truth → Truth → Truth
  | .yes, _ => .yes
  | .no, t => t
  | .unknown, .yes => .yes
  | .unknown, _ => .unknown

/-- Conjunction of any number of truth values, `yes` if there are none. -/
def all (ts : List Truth) : Truth := ts.foldr .and .yes

/-- Disjunction of any number of truth values, `no` if there are none. -/
def any (ts : List Truth) : Truth := ts.foldr .or .no

/-- The connective with a given neutral truth value. -/
def connective : Bool → List Truth → Truth
  | true => all
  | false => any

@[simp] theorem connective_nil (neutral : Bool) : connective neutral [] = ofBool neutral := by
  cases neutral <;> rfl

theorem connective_cons_neutral (neutral : Bool) (ts : List Truth) :
    connective neutral (ofBool neutral :: ts) = connective neutral ts := by
  cases neutral <;> rfl

theorem connective_cons_deciding (neutral : Bool) (ts : List Truth) :
    connective neutral (ofBool (!neutral) :: ts) = ofBool (!neutral) := by
  cases neutral <;> rfl

theorem connective_singleton (neutral : Bool) (t : Truth) : connective neutral [t] = t := by
  cases neutral <;> cases t <;> rfl

/-- What is put in front counts only together with what the rest gives. -/
theorem connective_cons_congr {neutral : Bool} {ts us : List Truth}
    (h : connective neutral ts = connective neutral us) (t : Truth) :
    connective neutral (t :: ts) = connective neutral (t :: us) := by
  cases neutral with
  | true => exact congrArg t.and h
  | false => exact congrArg t.or h

/-- One deciding argument is enough. -/
theorem connective_of_mem {neutral : Bool} {ts : List Truth} (h : ofBool (!neutral) ∈ ts) :
    connective neutral ts = ofBool (!neutral) := by
  induction ts with
  | nil => cases h
  | cons t ts ih =>
    rcases List.mem_cons.1 h with rfl | h
    · exact connective_cons_deciding neutral ts
    · have hrest : connective neutral ts = connective neutral [ofBool (!neutral)] := by
        rw [ih h, connective_singleton]
      rw [connective_cons_congr hrest]
      cases neutral <;> cases t <;> rfl

/-- Neutral truth values can be dropped from a connective. -/
theorem connective_map_filter {β : Type} (neutral : Bool) (f : β → Truth) (p : β → Bool)
    (l : List β) (h : ∀ b ∈ l, p b = false → f b = ofBool neutral) :
    connective neutral ((l.filter p).map f) = connective neutral (l.map f) := by
  induction l with
  | nil => rfl
  | cons b l ih =>
    rw [List.forall_mem_cons] at h
    cases hp : p b with
    | true =>
      rw [List.filter_cons_of_pos hp, List.map_cons, List.map_cons]
      exact connective_cons_congr (ih h.2) _
    | false =>
      rw [List.filter_cons_of_neg (by simp [hp]), ih h.2, List.map_cons, h.1 hp,
        connective_cons_neutral]

protected theorem and_assoc (t u w : Truth) : (t.and u).and w = t.and (u.and w) := by
  cases t <;> cases u <;> cases w <;> rfl

theorem all_append (ts us : List Truth) : all (ts ++ us) = (all ts).and (all us) := by
  induction ts with
  | nil => rfl
  | cons t ts ih =>
    change t.and (all (ts ++ us)) = (t.and (all ts)).and (all us)
    rw [ih, Truth.and_assoc]

/-- A conjunction of conjunctions is one conjunction. -/
theorem all_flatMap {β : Type} (f : β → List Truth) (l : List β) :
    all (l.flatMap f) = all (l.map fun b => all (f b)) := by
  induction l with
  | nil => rfl
  | cons b l ih =>
    rw [List.flatMap_cons, all_append, ih]
    rfl

theorem and_eq_yes_iff {t u : Truth} : t.and u = .yes ↔ t = .yes ∧ u = .yes := by
  cases t <;> cases u <;> decide

/-- A conjunction is true if all its members are. -/
theorem all_eq_yes_iff {ts : List Truth} : all ts = .yes ↔ ∀ t ∈ ts, t = .yes := by
  induction ts with
  | nil => simp [all]
  | cons t ts ih =>
    rw [List.forall_mem_cons, ← ih]
    exact and_eq_yes_iff

end Truth

namespace Datum

variable {α : Type}

/-- Whether the datum is true, false or null. -/
def isTruth : Datum α → Bool
  | .plain v => v.isTruth
  | .other _ => false

/-- A datum as a truth value; nothing is known of those that are none. -/
def truth : Datum α → Truth
  | .plain (.boolean b) => .ofBool b
  | _ => .unknown

/-- A truth value as a datum. -/
def ofTruth : Truth → Datum α
  | .no => bool false
  | .unknown => null
  | .yes => bool true

@[simp] theorem truth_bool (b : Bool) : (bool b : Datum α).truth = .ofBool b := rfl

@[simp] theorem ofTruth_ofBool (b : Bool) : (ofTruth (.ofBool b) : Datum α) = bool b := by
  cases b <;> rfl

theorem ofTruth_truth {d : Datum α} (h : d.isTruth = true) : ofTruth d.truth = d := by
  unfold isTruth at h
  split at h
  · rename_i v
    cases v <;> first | rfl | cases h
    rename_i b
    exact ofTruth_ofBool b
  · cases h

@[simp] theorem truth_ofTruth (t : Truth) : (ofTruth t : Datum α).truth = t := by
  cases t <;> rfl

@[simp] theorem ofTruth_eq_bool_true {t : Truth} :
    (ofTruth t : Datum α) = bool true ↔ t = .yes := by
  cases t <;> simp [ofTruth, bool, null]

@[simp] theorem isTruth_ofTruth (t : Truth) : (ofTruth t : Datum α).isTruth = true := by
  cases t <;> rfl

theorem truth_eq_yes_iff {d : Datum α} (h : d.isTruth = true) : d.truth = .yes ↔ d = bool true := by
  rw [← ofTruth_eq_bool_true (α := α), ofTruth_truth h]

end Datum

/-! ### Valuations -/

/-- Whether a function takes truth values. -/
def FunctionInfo.isConnective (fn : FunctionInfo) : Bool :=
  match fn.operator? with
  | some .and | some .or | some .not => true
  | _ => false

/-- What columns and positions hold, and what calls give that the logic leaves open. -/
structure Valuation (α : Type) where
  column : ColumnRef → Datum α
  input : InputColumn → Datum α
  apply : FunctionInfo → List (Datum α) → Datum α

variable {α : Type}

/-- What a call gives: Kleene's tables on truth values, the order of comparable data, null for a
comparison with null, and otherwise what the valuation says. -/
def Valuation.call (v : Valuation α) (fn : FunctionInfo) (args : List (Datum α)) : Datum α :=
  match fn.operator? with
  | some .and =>
    if args.all Datum.isTruth then .ofTruth (.all (args.map Datum.truth)) else v.apply fn args
  | some .or =>
    if args.all Datum.isTruth then .ofTruth (.any (args.map Datum.truth)) else v.apply fn args
  | some .not =>
    match args with
    | [d] => if d.isTruth then .ofTruth d.truth.not else v.apply fn [d]
    | _ => v.apply fn args
  | some (.comparison op) => (Datum.comparison? op args).getD (v.apply fn args)
  | none => v.apply fn args

namespace Expr

variable (v : Valuation α)

mutual
/-- The value of an expression. -/
def kleene : Expr → Datum α
  | .column r => v.column r
  | .call fn args => v.call fn (kleeneAll args)
  | .literal c _ => .plain c
  | .input c => v.input c

/-- The values of a list of expressions. -/
def kleeneAll : List Expr → List (Datum α)
  | [] => []
  | e :: es => e.kleene :: kleeneAll es
end

mutual
/-- Whether all arguments of connectives are true, false or null. -/
def truthArgs : Expr → Bool
  | .call fn args =>
    truthArgsAll args && (!fn.isConnective || (kleeneAll v args).all Datum.isTruth)
  | .column _ | .literal .. | .input _ => true

/-- Whether all arguments of connectives in a list of expressions are true, false or null. -/
def truthArgsAll : List Expr → Bool
  | [] => true
  | e :: es => e.truthArgs && truthArgsAll es
end

theorem kleeneAll_eq (es : List Expr) : kleeneAll v es = es.map (kleene v) := by
  induction es with
  | nil => simp [kleeneAll]
  | cons e es ih => simp [kleeneAll, ih]

theorem kleene_call (fn : FunctionInfo) (args : List Expr) :
    (Expr.call fn args).kleene v = v.call fn (args.map (kleene v)) := by
  rw [kleene, kleeneAll_eq]

theorem kleene_bool (b : Bool) : (Expr.bool b).kleene v = .bool b := rfl

theorem truthArgsAll_eq (es : List Expr) : truthArgsAll v es = es.all (truthArgs v) := by
  induction es with
  | nil => simp [truthArgsAll]
  | cons e es ih => simp [truthArgsAll, ih]

theorem truthArgs_call {fn : FunctionInfo} {args : List Expr} :
    (Expr.call fn args).truthArgs v = true ↔ (∀ a ∈ args, a.truthArgs v = true) ∧
      (fn.isConnective = true → ∀ a ∈ args, (a.kleene v).isTruth = true) := by
  rw [truthArgs, truthArgsAll_eq, kleeneAll_eq]
  cases fn.isConnective <;> simp

/-! ### Folding keeps the value -/

variable {v}

theorem truth_of_isBool {b : Bool} {e : Expr} (h : e.isBool b = true) :
    (e.kleene v).truth = .ofBool b := by
  obtain ⟨type, rfl⟩ := eq_of_isBool h
  rfl

/-- A connective of truth values under a valuation. -/
theorem call_connective (neutral : Bool) {fn : FunctionInfo}
    (hfn : fn.operator? = some (if neutral then .and else .or)) {args : List Expr}
    (hargs : ∀ a ∈ args, (a.kleene v).isTruth = true) :
    v.call fn (args.map (kleene v)) =
      .ofTruth (.connective neutral (args.map fun a => (a.kleene v).truth)) := by
  have hall : (args.map (kleene v)).all Datum.isTruth = true := by simpa using hargs
  cases neutral with
  | true =>
    simp only [if_true] at hfn
    simp only [Valuation.call, hfn, hall, if_true, List.map_map]
    rfl
  | false =>
    simp only [Bool.false_eq_true, if_false] at hfn
    simp only [Valuation.call, hfn, hall, if_true, List.map_map]
    rfl

theorem kleene_foldConnective (neutral : Bool) {fn : FunctionInfo}
    (hfn : fn.operator? = some (if neutral then .and else .or)) {args : List Expr}
    (hargs : ∀ a ∈ args, (a.kleene v).isTruth = true) :
    (foldConnective neutral fn args).kleene v = v.call fn (args.map (kleene v)) := by
  rw [call_connective neutral hfn hargs]
  unfold foldConnective
  split
  · -- an argument decides
    rename_i hany
    obtain ⟨a, ha, hdec⟩ := List.any_eq_true.1 hany
    have hmem : Truth.ofBool (!neutral) ∈ args.map fun a => (a.kleene v).truth :=
      List.mem_map.2 ⟨a, ha, truth_of_isBool hdec⟩
    rw [Truth.connective_of_mem hmem, Datum.ofTruth_ofBool, kleene_bool]
  · have hkept : ∀ a ∈ args.filter (!isBool neutral ·), (a.kleene v).isTruth = true :=
      fun a ha => hargs a (List.mem_of_mem_filter ha)
    rw [← Truth.connective_map_filter neutral _ (!isBool neutral ·) args
      fun a _ ha => truth_of_isBool (by simpa using ha)]
    cases hrest : args.filter (!isBool neutral ·) with
    | nil => rw [List.map_nil, Truth.connective_nil, Datum.ofTruth_ofBool, kleene_bool]
    | cons a rest =>
      rw [hrest] at hkept
      cases rest with
      | nil =>
        -- a single survivor stands for the whole, since it is a truth value
        rw [List.map_cons, List.map_nil, Truth.connective_singleton,
          Datum.ofTruth_truth (hkept a List.mem_cons_self)]
      | cons b rest => rw [kleene_call, call_connective neutral hfn hkept]

theorem kleene_foldNegation {fn : FunctionInfo} (hfn : fn.operator? = some .not)
    (args : List Expr) :
    (foldNegation fn args).kleene v = v.call fn (args.map (kleene v)) := by
  unfold foldNegation
  split
  · rename_i b _
    simp only [Valuation.call, hfn]
    cases b <;> rfl
  · simp only [Valuation.call, hfn]
    rfl
  · rw [kleene_call]

theorem kleene_foldComparison {op : CompareOp} {fn : FunctionInfo}
    (hfn : fn.operator? = some (.comparison op)) (args : List Expr) :
    (foldComparison op fn args).kleene v = v.call fn (args.map (kleene v)) := by
  unfold foldComparison
  split
  · rename_i c t d u
    have hargs : [Expr.literal c t, .literal d u].map (kleene v) = [.plain c, .plain d] := rfl
    have hcompare : Datum.compare (.plain c : Datum α) (.plain d) = c.compare d := rfl
    cases hcd : c.compare d with
    | unknown =>
      simp only [Valuation.call, hfn, hargs, Datum.comparison?, hcompare, hcd]
      rfl
    | ordered o =>
      simp only [Valuation.call, hfn, hargs, Datum.comparison?, hcompare, hcd]
      rfl
    | incomparable => rw [kleene_call]
  · rw [kleene_call]

theorem kleene_foldCall {fn : FunctionInfo} {args : List Expr}
    (hargs : fn.isConnective = true → ∀ a ∈ args, (a.kleene v).isTruth = true) :
    (foldCall fn args).kleene v = v.call fn (args.map (kleene v)) := by
  unfold foldCall
  split
  · rename_i hfn
    have htruth := hargs (by simp only [FunctionInfo.isConnective, hfn])
    exact kleene_foldConnective true hfn htruth
  · rename_i hfn
    have htruth := hargs (by simp only [FunctionInfo.isConnective, hfn])
    exact kleene_foldConnective false hfn htruth
  · rename_i hfn
    exact kleene_foldNegation hfn args
  · rename_i hfn
    exact kleene_foldComparison hfn args
  · exact kleene_call v fn args

/-- Folding does not change the value of an expression. -/
theorem kleene_fold {e : Expr} (h : e.truthArgs v = true) : e.fold.kleene v = e.kleene v := by
  induction e using induct with
  | column r => rfl
  | literal c t => rfl
  | input c => rfl
  | call fn args ih =>
    obtain ⟨hargs, htruth⟩ := (truthArgs_call v).1 h
    have hfolded : (foldAll args).map (kleene v) = args.map (kleene v) := by
      rw [foldAll_eq, List.map_map]
      exact List.map_congr_left fun a ha => ih a ha (hargs a ha)
    rw [fold, kleene_call, ← hfolded]
    refine kleene_foldCall fun hfn a ha => ?_
    rw [foldAll_eq] at ha
    obtain ⟨b, hb, rfl⟩ := List.mem_map.1 ha
    rw [ih b hb (hargs b hb)]
    exact htruth hfn b hb

/-- The arguments of the connectives that folding leaves are truth values. -/
theorem truthArgs_fold {e : Expr} (h : e.truthArgs v = true) : e.fold.truthArgs v = true := by
  induction e using induct with
  | column r => rfl
  | literal c t => rfl
  | input c => rfl
  | call fn args ih =>
    obtain ⟨hargs, htruth⟩ := (truthArgs_call v).1 h
    have hfolded : ∀ b ∈ foldAll args,
        b.truthArgs v = true ∧ (fn.isConnective = true → (b.kleene v).isTruth = true) := by
      intro b hb
      rw [foldAll_eq] at hb
      obtain ⟨a, ha, rfl⟩ := List.mem_map.1 hb
      refine ⟨ih a ha (hargs a ha), fun hfn => ?_⟩
      rw [kleene_fold (hargs a ha)]
      exact htruth hfn a ha
    rw [fold]
    rcases foldCall_cases fn (foldAll args) with hmem | ⟨b, hb⟩ | hn | ⟨kept, hsub, -, hkept⟩
    · exact (hfolded _ hmem).1
    · rw [hb]
      rfl
    · rw [hn]
      rfl
    · rw [hkept, truthArgs_call]
      exact ⟨fun a ha => (hfolded a (hsub.subset ha)).1,
        fun hfn a ha => (hfolded a (hsub.subset ha)).2 hfn⟩

/-- Folding adds no reference. -/
theorem references_fold_subset (e : Expr) : e.fold.references ⊆ e.references := by
  refine forall_fold (P := fun f => f.references ⊆ e.references) (fun b => ?_) ?_ ?_
    (List.Subset.refl _)
  · exact List.nil_subset _
  · exact List.nil_subset _
  · intro fn args
    rw [references, referencesAll_eq]
    simp only [List.subset_def, List.mem_flatMap, forall_exists_index, and_imp]
    exact ⟨fun h a ha r hr => h a ha hr, fun h r a ha hr => h a ha hr⟩

/-! ### Truth of conjunctions -/

/-- A call of the conjunction is true if all its arguments are. -/
theorem call_and_eq_true_iff {fn : FunctionInfo} (hfn : fn.operator? = some .and)
    {args : List Expr} (hargs : ∀ a ∈ args, (a.kleene v).isTruth = true) :
    v.call fn (args.map (kleene v)) = .bool true ↔ ∀ a ∈ args, a.kleene v = .bool true := by
  rw [call_connective true hfn hargs, Datum.ofTruth_eq_bool_true]
  change Truth.all _ = .yes ↔ _
  rw [Truth.all_eq_yes_iff, List.forall_mem_map]
  exact forall₂_congr fun a ha => Datum.truth_eq_yes_iff (hargs a ha)

/-- A predicate is true if all its conjuncts are. -/
theorem kleene_iff_conjuncts {e : Expr} (h : e.truthArgs v = true) :
    e.kleene v = .bool true ↔ ∀ c ∈ e.conjuncts, c.kleene v = .bool true := by
  induction e using induct with
  | column r => simp [conjuncts]
  | literal c t => simp [conjuncts]
  | input c => simp [conjuncts]
  | call fn args ih =>
    rw [conjuncts]
    split
    · rename_i hfn
      obtain ⟨hargs, htruth⟩ := (truthArgs_call v).1 h
      rw [kleene_call, call_and_eq_true_iff hfn (htruth (by simp [FunctionInfo.isConnective, hfn])),
        conjunctsAll_eq]
      simp only [List.mem_flatMap, forall_exists_index, and_imp]
      exact ⟨fun h c a ha hc => (ih a ha (hargs a ha)).1 (h a ha) c hc,
        fun h a ha => (ih a ha (hargs a ha)).2 fun c hc => h c a ha hc⟩
    · simp

/-! ### Statically false clauses -/

theorem kleene_of_neverTrue {c : Expr} (h : WhereClause.neverTrue c = true) :
    c.kleene v ≠ .bool true := by
  unfold WhereClause.neverTrue at h
  split at h
  · rename_i b _
    cases b with
    | true => cases h
    | false => simp [kleene, Datum.bool]
  · simp [kleene, Datum.bool]
  · cases h

/-- The predicate of a clause that is found to be statically false is not true. -/
theorem kleene_of_isStaticallyFalse {w : WhereClause} (hmatch : w.noMatch = false)
    (hfalse : w.isStaticallyFalse = true) (h : ∀ query ∈ w.query, query.truthArgs v = true) :
    ∃ query ∈ w.query, query.kleene v ≠ .bool true := by
  rw [WhereClause.isStaticallyFalse, hmatch, Bool.false_or] at hfalse
  obtain ⟨c, hc, hnever⟩ := List.any_eq_true.1 hfalse
  unfold WhereClause.conjuncts at hc
  split at hc
  · rename_i query hquery
    refine ⟨query, hquery, fun htrue => kleene_of_neverTrue (v := v) hnever ?_⟩
    have hargs := h query hquery
    rw [← kleene_fold hargs] at htrue
    exact (kleene_iff_conjuncts (truthArgs_fold hargs)).1 htrue c hc
  · cases hc

/-- Folding adds no reference and keeps the value under every valuation under which the arguments
of connectives are truth values; a clause that is then found to be statically false is true under
none of them. -/
theorem fold_preserves_meaning :
    (∀ e : Expr, e.fold.references ⊆ e.references) ∧
    ∀ (α : Type) (v : Valuation α),
      (∀ e : Expr, e.truthArgs v = true → e.fold.kleene v = e.kleene v) ∧
      ∀ w : WhereClause, w.noMatch = false → w.isStaticallyFalse = true →
        (∀ query ∈ w.query, query.truthArgs v = true) →
        ∃ query ∈ w.query, query.kleene v ≠ .bool true :=
  ⟨references_fold_subset, fun _ _ => ⟨fun _ => kleene_fold, fun _ => kleene_of_isStaticallyFalse⟩⟩

/-- `a AND NOT (TRUE OR NULL)` with an unknown `a` is folded to false, which it is. -/
theorem fold_preserves_meaning_contradiction :
    let a : ColumnRef := ⟨"t", ⟨"doc", "t"⟩, "a", .boolean, false⟩
    let query := (Expr.column a).and (.apply .not [.apply .or [.bool true, .null]])
    let v : Valuation Empty := ⟨fun _ => .null, fun _ => .null, fun _ _ => .null⟩
    query.truthArgs v = true ∧ query.fold = .bool false ∧ query.kleene v = .bool false ∧
      (WhereClause.ofQuery query).isStaticallyFalse = true ∧ query.kleene v ≠ .bool true := by
  intro a query v
  obtain ⟨hvalue, hclause⟩ := fold_preserves_meaning.2 Empty v
  have hargs : query.truthArgs v = true := by decide
  have hfold : query.fold = .bool false := by rfl
  have hstatic : (WhereClause.ofQuery query).isStaticallyFalse = true := by decide
  refine ⟨hargs, hfold, ?_, hstatic, ?_⟩
  · rw [← hvalue query hargs, hfold]
    rfl
  · have hqueries : ∀ q ∈ (WhereClause.ofQuery query).query, q.truthArgs v = true := by
      rintro q ⟨⟩
      exact hargs
    obtain ⟨q, ⟨⟩, hq⟩ := hclause (.ofQuery query) rfl hstatic hqueries
    exact hq

end Expr

end ShardJoin
