/-
Conjunctions that are taken apart and put together again.

* `Expr.conjuncts_conjoin?` — conjuncts are the conjuncts of their conjunction;
* `Expr.kleene_conjuncts` — a predicate has the value of the conjunction of its
  conjuncts;
* `Expr.splits_and_joins` — taking apart and putting together, in both orders;
* `Expr.soleRelation?_conjoin?` — a conjunction refers to the one relation that
  all its members refer to;
* `Expr.kleene_conjoin?` — the conjunction of some conjuncts of a predicate is
  true if they are.

For the last, the members of the conjunction have to be truth values.  A
predicate that is its own only conjunct need not be one; it is left alone.
-/
import ShardJoin.Proofs.Expr.Kleene
import ShardJoin.Proofs.Expr.Resolution

namespace ShardJoin

namespace Expr

/-! ### Conjuncts of conjunctions -/

/-- Whether the expression is a conjunction at its root. -/
def isConjunction : Expr → Bool
  | .call fn _ => fn.operator? == some .and
  | _ => false

theorem conjuncts_eq_self {e : Expr} (h : e.isConjunction = false) : e.conjuncts = [e] := by
  cases e with
  | call fn args =>
    have hfn : ¬fn.operator? = some .and := by simpa [isConjunction] using h
    rw [conjuncts, if_neg hfn]
  | _ => rfl

/-- No conjunct is itself a conjunction. -/
theorem isConjunction_of_mem_conjuncts {e c : Expr} (h : c ∈ e.conjuncts) :
    c.isConjunction = false := by
  induction e using induct with
  | column r =>
    obtain rfl := List.mem_singleton.1 h
    rfl
  | literal v t =>
    obtain rfl := List.mem_singleton.1 h
    rfl
  | input i =>
    obtain rfl := List.mem_singleton.1 h
    rfl
  | call fn args ih =>
    rw [conjuncts] at h
    split at h
    · rw [conjunctsAll_eq] at h
      obtain ⟨a, ha, h⟩ := List.mem_flatMap.1 h
      exact ih a ha h
    · rename_i hfn
      obtain rfl := List.mem_singleton.1 h
      simpa [isConjunction] using hfn

/-- A conjunct is its own only conjunct. -/
theorem conjuncts_of_mem_conjuncts {e c : Expr} (h : c ∈ e.conjuncts) : c.conjuncts = [c] :=
  conjuncts_eq_self (isConjunction_of_mem_conjuncts h)

/-- What a conjunction lists argument by argument, a predicate lists conjunct by conjunct. -/
theorem flatMap_conjuncts {γ : Type} {f : Expr → List γ}
    (hargs : ∀ fn args, f (.call fn args) = args.flatMap f) (e : Expr) :
    e.conjuncts.flatMap f = f e := by
  induction e using induct with
  | column r => exact List.flatMap_singleton f _
  | literal v t => exact List.flatMap_singleton f _
  | input i => exact List.flatMap_singleton f _
  | call fn args ih =>
    rw [conjuncts]
    split
    · rw [conjunctsAll_eq, List.flatMap_assoc, List.flatMap_congr ih, hargs]
    · exact List.flatMap_singleton f _

theorem references_conjuncts (e : Expr) : e.conjuncts.flatMap references = e.references :=
  flatMap_conjuncts (fun fn args => by rw [references, referencesAll_eq]) e

theorem operator?_and : (FunctionInfo.ofOperator .and).operator? = some .and :=
  Operator.ofName?_name .and

theorem conjuncts_and (a b : Expr) : (a.and b).conjuncts = a.conjuncts ++ b.conjuncts := by
  rw [and, apply, conjuncts, if_pos operator?_and, conjunctsAll_eq]
  simp

/-- What the conjunction of two predicates lists one after the other, that of any number does. -/
theorem flatMap_conjoin? {γ : Type} {f : Expr → List γ} (hand : ∀ a b, f (a.and b) = f a ++ f b)
    {es : List Expr} {query : Expr} (h : conjoin? es = some query) : f query = es.flatMap f := by
  cases es with
  | nil => cases h
  | cons e es =>
    obtain rfl := Option.some.inj h
    clear h
    induction es generalizing e with
    | nil => simp
    | cons e' es ih => rw [List.foldl_cons, ih, List.flatMap_cons, hand, List.flatMap_cons,
        List.flatMap_cons, List.append_assoc]

/-- Conjuncts are the conjuncts of their conjunction. -/
theorem conjuncts_conjoin? {es : List Expr} (hself : ∀ c ∈ es, c.conjuncts = [c]) {query : Expr}
    (h : conjoin? es = some query) : query.conjuncts = es := by
  rw [flatMap_conjoin? conjuncts_and h, List.flatMap_congr hself, List.flatMap_singleton']

/-- Splitting the conjunction of some expressions gives them back, if there are any and none is a
conjunction itself. -/
theorem map_conjuncts_conjoin? {es : List Expr} (hes : es ≠ [])
    (hself : ∀ e ∈ es, e.isConjunction = false) : (conjoin? es).map conjuncts = some es := by
  cases hquery : conjoin? es with
  | none => exact absurd (conjoin?_eq_none_iff.1 hquery) hes
  | some query =>
    have hconjuncts := conjuncts_conjoin? (fun e he => conjuncts_eq_self (hself e he)) hquery
    rw [Option.map_some, hconjuncts]

/-- A conjunction refers to the one relation that all its members refer to. -/
theorem soleRelation?_conjoin? {es : List Expr} {name : RelationName}
    (hall : ∀ e ∈ es, e.soleRelation? = some name) {query : Expr} (h : conjoin? es = some query) :
    query.soleRelation? = some name := by
  have hreferences := flatMap_conjoin? references_and h
  have hes : es ≠ [] := fun hnil => by
    rw [conjoin?_eq_none_iff.2 hnil] at h
    cases h
  obtain ⟨e, he⟩ := List.exists_mem_of_ne_nil _ hes
  rw [soleRelation?_eq_some, hreferences]
  refine ⟨fun hnil => ?_, fun r hr => ?_⟩
  · exact (soleRelation?_eq_some.1 (hall e he)).1 (List.flatMap_eq_nil_iff.1 hnil e he)
  · obtain ⟨c, hc, hr⟩ := List.mem_flatMap.1 hr
    exact (soleRelation?_eq_some.1 (hall c hc)).2 r hr

/-! ### Truth values -/

variable {α : Type} {v : Valuation α}

/-- A predicate has the value of the conjunction of its conjuncts, if these are truth values. -/
theorem kleene_conjuncts {e : Expr} (h : ∀ c ∈ e.conjuncts, (c.kleene v).isTruth = true) :
    .ofTruth (.all (e.conjuncts.map fun c => (c.kleene v).truth)) = e.kleene v := by
  have hself : ∀ c : Expr, (c.kleene v).isTruth = true →
      .ofTruth (.all ([c].map fun c => (c.kleene v).truth)) = c.kleene v := by
    intro c hc
    have hsingle : Truth.all [(c.kleene v).truth] = (c.kleene v).truth :=
      Truth.connective_singleton true _
    rw [List.map_singleton, hsingle, Datum.ofTruth_truth hc]
  induction e using induct with
  | column r => exact hself _ (h _ (List.mem_singleton_self _))
  | literal c t => exact hself _ (h _ (List.mem_singleton_self _))
  | input c => exact hself _ (h _ (List.mem_singleton_self _))
  | call fn args ih =>
    rw [conjuncts] at h ⊢
    split at h
    · rename_i hfn
      rw [conjunctsAll_eq] at h
      have hargs : ∀ a ∈ args,
          .ofTruth (.all (a.conjuncts.map fun c => (c.kleene v).truth)) = a.kleene v :=
        fun a ha => ih a ha fun c hc => h c (List.mem_flatMap.2 ⟨a, ha, hc⟩)
      -- so the arguments are truth values, and the call is their conjunction
      have htruth : ∀ a ∈ args, (a.kleene v).isTruth = true := by
        intro a ha
        rw [← hargs a ha]
        exact Datum.isTruth_ofTruth _
      rw [if_pos hfn, conjunctsAll_eq, kleene_call, call_connective true hfn htruth,
        List.map_flatMap, Truth.all_flatMap]
      refine congrArg (Datum.ofTruth ∘ Truth.all) (List.map_congr_left fun a ha => ?_)
      rw [← hargs a ha, Datum.truth_ofTruth]
    · rename_i hfn
      rw [if_neg hfn]
      exact hself _ (h _ (List.mem_singleton_self _))

/-- Whether the arguments of all conjunctions in an expression are truth values. -/
def ConjoinsTruths (v : Valuation α) (e : Expr) : Prop :=
  ∀ fn args, .call fn args ∈ e.subtrees → fn.operator? = some .and →
    ∀ a ∈ args, (a.kleene v).isTruth = true

/-- If a predicate and the arguments of all conjunctions in it are truth values, so are its
conjuncts. -/
theorem isTruth_conjuncts_of_conjoinsTruths {e : Expr} (h : (e.kleene v).isTruth = true)
    (hargs : e.ConjoinsTruths v) : ∀ c ∈ e.conjuncts, (c.kleene v).isTruth = true := by
  have hall : ∀ c ∈ e.conjuncts, (c.kleene v).isTruth = true ∧ c.ConjoinsTruths v := by
    refine forall_conjuncts (P := fun c => (c.kleene v).isTruth = true ∧ c.ConjoinsTruths v)
      (fun fn args hfn h a ha => ⟨?_, fun g bs hg => ?_⟩) ⟨h, hargs⟩
    · exact h.2 fn args (mem_subtrees_call.2 (.inl rfl)) hfn a ha
    · exact h.2 g bs (mem_subtrees_call.2 (.inr ⟨a, ha, hg⟩))
  exact fun c hc => (hall c hc).1

/-- A conjunction passes on to its arguments that they are truth values. -/
theorem truth_of_mem_args {fn : FunctionInfo} (hfn : fn.operator? = some .and) {args : List Expr}
    (h : (Expr.call fn args).truthArgs v = true) {a : Expr} (ha : a ∈ args) :
    a.truthArgs v = true ∧ (a.kleene v).isTruth = true := by
  obtain ⟨hargs, hall⟩ := (truthArgs_call v).1 h
  exact ⟨hargs a ha, hall (by simp [FunctionInfo.isConnective, hfn]) a ha⟩

theorem conjoinsTruths_of_truthArgs {e : Expr} (h : e.truthArgs v = true) :
    e.ConjoinsTruths v := by
  induction e using induct with
  | column r => exact fun _ _ hmem => nomatch List.mem_singleton.1 hmem
  | literal c t => exact fun _ _ hmem => nomatch List.mem_singleton.1 hmem
  | input c => exact fun _ _ hmem => nomatch List.mem_singleton.1 hmem
  | call fn args ih =>
    intro g bs hg hfn
    rcases mem_subtrees_call.1 hg with heq | ⟨a, ha, hg⟩
    · obtain ⟨rfl, rfl⟩ := Expr.call.inj heq
      exact fun b hb => (truth_of_mem_args hfn h hb).2
    · exact ih a ha (((truthArgs_call v).1 h).1 a ha) g bs hg hfn

theorem truthArgs_conjuncts {e : Expr} (h : e.truthArgs v = true) :
    ∀ c ∈ e.conjuncts, c.truthArgs v = true :=
  forall_conjuncts (P := fun c => c.truthArgs v = true)
    (fun _ _ hfn h _ ha => (truth_of_mem_args hfn h ha).1) h

/-- The conjuncts of a truth value are truth values. -/
theorem isTruth_conjuncts {e : Expr}
    (h : e.truthArgs v = true ∧ (e.kleene v).isTruth = true) :
    ∀ c ∈ e.conjuncts, c.truthArgs v = true ∧ (c.kleene v).isTruth = true :=
  forall_conjuncts (P := fun c => c.truthArgs v = true ∧ (c.kleene v).isTruth = true)
    (fun _ _ hfn h _ ha => truth_of_mem_args hfn h.1 ha) h

/-- A single expression, or truth values. -/
def Conjoinable (v : Valuation α) (es : List Expr) : Prop :=
  es.length ≤ 1 ∨ ∀ e ∈ es, (e.kleene v).isTruth = true

theorem Conjoinable.sublist {es fs : List Expr} (h : Conjoinable v es) (hsub : fs.Sublist es) :
    Conjoinable v fs :=
  h.imp (Nat.le_trans hsub.length_le) fun hall e he => hall e (hsub.subset he)

theorem conjoinable_conjuncts {e : Expr} (h : e.truthArgs v = true) :
    Conjoinable v e.conjuncts := by
  cases e with
  | column r => exact .inl (Nat.le_refl 1)
  | literal c t => exact .inl (Nat.le_refl 1)
  | input c => exact .inl (Nat.le_refl 1)
  | call fn args =>
    rw [conjuncts]
    split
    · rename_i hfn
      refine .inr fun c hc => ?_
      rw [conjunctsAll_eq] at hc
      obtain ⟨a, ha, hc⟩ := List.mem_flatMap.1 hc
      exact (isTruth_conjuncts (truth_of_mem_args hfn h ha) c hc).2
    · exact .inl (Nat.le_refl 1)

theorem truthArgs_and (a b : Expr) : (a.and b).truthArgs v = true ↔
    (a.truthArgs v = true ∧ (a.kleene v).isTruth = true) ∧
      b.truthArgs v = true ∧ (b.kleene v).isTruth = true := by
  have hconnective : (FunctionInfo.ofOperator .and).isConnective = true := by
    rw [FunctionInfo.isConnective, operator?_and]
  rw [and, apply, truthArgs_call]
  simp only [hconnective, List.mem_cons, List.not_mem_nil, or_false, forall_eq_or_imp, forall_eq,
    forall_const]
  exact and_and_and_comm

theorem isTruth_and {a b : Expr} (h : (a.and b).truthArgs v = true) :
    ((a.and b).kleene v).isTruth = true := by
  obtain ⟨⟨-, ha⟩, -, hb⟩ := (truthArgs_and a b).1 h
  have hargs : ∀ c ∈ [a, b], (c.kleene v).isTruth = true := by
    simp only [List.mem_cons, List.not_mem_nil, or_false, forall_eq_or_imp, forall_eq]
    exact ⟨ha, hb⟩
  rw [and, apply, kleene_call, call_connective true operator?_and hargs]
  exact Datum.isTruth_ofTruth _

theorem truthArgs_foldl_and {e : Expr} {es : List Expr}
    (h : ∀ c ∈ e :: es, c.truthArgs v = true ∧ (c.kleene v).isTruth = true) :
    (es.foldl and e).truthArgs v = true := by
  induction es generalizing e with
  | nil => exact (h e List.mem_cons_self).1
  | cons e' es ih =>
    obtain ⟨he, hes⟩ := List.forall_mem_cons.1 h
    obtain ⟨he', hes⟩ := List.forall_mem_cons.1 hes
    have hand := (truthArgs_and e e').2 ⟨he, he'⟩
    exact ih (List.forall_mem_cons.2 ⟨⟨hand, isTruth_and hand⟩, hes⟩)

theorem truthArgs_conjoin? {es : List Expr} (hargs : ∀ e ∈ es, e.truthArgs v = true)
    (h : Conjoinable v es) {query : Expr} (hquery : conjoin? es = some query) :
    query.truthArgs v = true := by
  cases es with
  | nil => cases hquery
  | cons e es =>
    obtain rfl := Option.some.inj hquery
    rcases h with hlength | hall
    · obtain rfl : es = [] := List.eq_nil_of_length_eq_zero (by simpa using hlength)
      exact hargs e List.mem_cons_self
    · exact truthArgs_foldl_and fun c hc => ⟨hargs c hc, hall c hc⟩

/-- The conjunction of some conjuncts of a predicate is true if they are. -/
theorem kleene_conjoin? {e : Expr} (h : e.truthArgs v = true) {es : List Expr}
    (hsub : es.Sublist e.conjuncts) :
    (∀ query ∈ conjoin? es, query.kleene v = .bool true) ↔ ∀ c ∈ es, c.kleene v = .bool true := by
  cases hquery : conjoin? es with
  | none => simp [conjoin?_eq_none_iff.1 hquery]
  | some query =>
    have hargs := truthArgs_conjoin? (fun c hc => truthArgs_conjuncts h c (hsub.subset hc))
      ((conjoinable_conjuncts h).sublist hsub) hquery
    have hconjuncts := conjuncts_conjoin?
      (fun c hc => conjuncts_of_mem_conjuncts (hsub.subset hc)) hquery
    rw [← hconjuncts, ← kleene_iff_conjuncts hargs]
    simp

/-- Taking predicates apart and putting them together.  The conjuncts of a predicate are no
conjunctions, they have its references in their order, and the value of their conjunction is that
of the predicate where this and all arguments of conjunctions are truth values.  Expressions that
are no conjunctions are the conjuncts of their conjunction; so are the conjuncts of a predicate. -/
theorem splits_and_joins :
    (∀ e : Expr, (∀ c ∈ e.conjuncts, c.isConjunction = false) ∧
      e.conjuncts.flatMap references = e.references ∧
      ∀ (α : Type) (v : Valuation α), (e.kleene v).isTruth = true → e.ConjoinsTruths v →
        .ofTruth (.all (e.conjuncts.map fun c => (c.kleene v).truth)) = e.kleene v) ∧
    (∀ es : List Expr, es ≠ [] → (∀ e ∈ es, e.isConjunction = false) →
      (conjoin? es).map conjuncts = some es) ∧
    ∀ e : Expr, e.conjuncts ≠ [] → (conjoin? e.conjuncts).map conjuncts = some e.conjuncts := by
  refine ⟨fun e => ⟨fun c => isConjunction_of_mem_conjuncts, references_conjuncts e, ?_⟩,
    fun es => map_conjuncts_conjoin?, fun e he => ?_⟩
  · exact fun α v h hargs => kleene_conjuncts (isTruth_conjuncts_of_conjoinsTruths h hargs)
  · exact map_conjuncts_conjoin? he fun c => isConjunction_of_mem_conjuncts

/-- `AND(AND(), AND(a, NOT b), b)` with a true `a` and an unknown `b` has three conjuncts and is
unknown as these are together; they are also the conjuncts of their own conjunction. -/
theorem splits_and_joins_nested :
    let a : Expr := .column ⟨"t", ⟨"doc", "t"⟩, "a", .boolean, false⟩
    let b : Expr := .column ⟨"t", ⟨"doc", "t"⟩, "b", .boolean, false⟩
    let e : Expr := .apply .and [.apply .and [], .and a (.not b), b]
    let v : Valuation Empty :=
      ⟨fun r => if r.column == "a" then .bool true else .null, fun _ => .null, fun _ _ => .null⟩
    (e.kleene v).isTruth = true ∧ e.ConjoinsTruths v ∧ e.conjuncts = [a, .not b, b] ∧
      e.references = (a.and (.not b) |>.and b).references ∧ e.kleene v = .null ∧
      (conjoin? e.conjuncts).map conjuncts = some e.conjuncts := by
  intro a b e v
  obtain ⟨hsplit, hjoin, -⟩ := splits_and_joins
  obtain ⟨hself, hreferences, hvalue⟩ := hsplit e
  have hconjuncts : e.conjuncts = [a, .not b, b] := by rfl
  have htruth : (e.kleene v).isTruth = true := by decide
  have hargs : e.ConjoinsTruths v := conjoinsTruths_of_truthArgs (by decide)
  refine ⟨htruth, hargs, hconjuncts, ?_, ?_, ?_⟩
  · rw [← hreferences, hconjuncts]
    rfl
  · rw [← hvalue Empty v htruth hargs, hconjuncts]
    rfl
  · exact hjoin _ (by rw [hconjuncts]; simp) hself

end Expr

theorem WhereClause.conjuncts_of_mem_conjuncts {w : WhereClause} {c : Expr}
    (h : c ∈ w.conjuncts) : c.conjuncts = [c] := by
  unfold conjuncts at h
  split at h
  · exact Expr.conjuncts_of_mem_conjuncts h
  · cases h

end ShardJoin
