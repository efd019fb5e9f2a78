/-
Resolution as coverage.

A place in an expression is a path from the root: the positions of the
arguments to go down to.  A row covers a place if it has the expression that
stands there or at a place above it.

* `Expr.resolvesIn_iff` — an expression resolves in a row exactly if the row
  covers all places of its references;
* `Expr.resolve_resolve` — in a row without input columns, what has been
  resolved is not resolved further;
* `Expr.resolves_by_coverage` — both together, and that more columns do no harm.

That resolution takes the outermost match is no matter for coverage: what the
matches further down would cover lies below it.  For the second resolution it
matters that nothing new appears in a resolved expression but input columns.
-/
import ShardJoin.Proofs.Expr.Resolution

namespace ShardJoin.Expr

/-! ### Places -/

/-- What stands at the end of a path. -/
def at? : Expr → List Nat → Option Expr
  | e, [] => some e
  | .call _ args, i :: path => args[i]?.bind (at? · path)
  | .column _, _ :: _ | .literal .., _ :: _ | .input _, _ :: _ => none

/-- A row has what stands at a place or at one above it. -/
def Covers (row : List Expr) (e : Expr) (path : List Nat) : Prop :=
  ∃ above t, above <+: path ∧ e.at? above = some t ∧ ∃ o ∈ row, (o == t) = true

/-- A row covers every place where a reference stands. -/
def CoversReferences (row : List Expr) (e : Expr) : Prop :=
  ∀ path r, e.at? path = some (.column r) → Covers row e path

@[simp] theorem at?_nil (e : Expr) : e.at? [] = some e := by
  cases e <;> rfl

theorem at?_call_cons (fn : FunctionInfo) (args : List Expr) (i : Nat) (path : List Nat) :
    (Expr.call fn args).at? (i :: path) = args[i]?.bind (at? · path) := rfl

/-! ### Coverage -/

theorem position?_eq_none_iff {e : Expr} {row : List Expr} :
    e.position? row = none ↔ ¬∃ o ∈ row, (o == e) = true := by
  simp [position?]

/-- What a row has itself is covered everywhere. -/
theorem covers_of_mem {row : List Expr} {e : Expr} (h : ∃ o ∈ row, (o == e) = true)
    (path : List Nat) : Covers row e path :=
  ⟨[], e, List.nil_prefix, at?_nil e, h⟩

/-- Below an argument, a row that does not have the call covers what it covers in the argument. -/
theorem covers_cons_iff {row : List Expr} {fn : FunctionInfo} {args : List Expr}
    (hnone : ¬∃ o ∈ row, (o == .call fn args) = true) {i : Nat} {a : Expr} (hi : args[i]? = some a)
    {path : List Nat} : Covers row (.call fn args) (i :: path) ↔ Covers row a path := by
  constructor
  · rintro ⟨_ | ⟨j, above⟩, t, hprefix, hat, ho⟩
    · obtain rfl : Expr.call fn args = t := by simpa using hat
      exact absurd ho hnone
    · obtain ⟨rfl, hbelow⟩ := List.cons_prefix_cons.1 hprefix
      rw [at?_call_cons, hi, Option.bind_some] at hat
      exact ⟨above, t, hbelow, hat, ho⟩
  · rintro ⟨above, t, hprefix, hat, ho⟩
    refine ⟨i :: above, t, List.cons_prefix_cons.2 ⟨rfl, hprefix⟩, ?_, ho⟩
    rw [at?_call_cons, hi, Option.bind_some, hat]

/-- A row covers the references of a call if it has the call, or those of every argument. -/
theorem coversReferences_call {row : List Expr} {fn : FunctionInfo} {args : List Expr} :
    CoversReferences row (.call fn args) ↔
      (∃ o ∈ row, (o == .call fn args) = true) ∨ ∀ a ∈ args, CoversReferences row a := by
  by_cases hrow : ∃ o ∈ row, (o == .call fn args) = true
  · exact iff_of_true (fun path _ _ => covers_of_mem hrow path) (.inl hrow)
  rw [or_iff_right hrow]
  constructor
  · intro h a ha path r hr
    obtain ⟨i, hi⟩ := List.getElem?_of_mem ha
    refine (covers_cons_iff hrow hi).1 (h (i :: path) r ?_)
    rw [at?_call_cons, hi, Option.bind_some, hr]
  · rintro h (_ | ⟨i, path⟩) r hr
    · cases hr
    · obtain ⟨a, hi, hr⟩ := Option.bind_eq_some_iff.1 hr
      exact (covers_cons_iff hrow hi).2 (h a (List.mem_of_getElem? hi) path r hr)

/-- A call resolves in a row that has it, or in which every argument resolves. -/
theorem resolvesIn_call {row : List Expr} {fn : FunctionInfo} {args : List Expr} :
    (Expr.call fn args).resolvesIn row = true ↔
      (∃ o ∈ row, (o == .call fn args) = true) ∨ ∀ a ∈ args, a.resolvesIn row = true := by
  rw [resolvesIn, resolve]
  cases hi : position? (.call fn args) row with
  | some i =>
    obtain ⟨o, ho, hsame⟩ := position?_eq_some hi
    exact iff_of_true rfl (.inl ⟨o, List.mem_of_getElem? ho, hsame⟩)
  | none =>
    rw [or_iff_right (position?_eq_none_iff.1 hi)]
    simp [references, resolveAll_eq, referencesAll_eq, resolvesIn]

/-- An expression resolves in a row exactly if the row covers its references. -/
theorem resolvesIn_iff {e : Expr} {row : List Expr} :
    e.resolvesIn row = true ↔ CoversReferences row e := by
  induction e using induct with
  | column r =>
    rw [resolvesIn, resolve]
    cases hi : position? (.column r) row with
    | some i =>
      obtain ⟨o, ho, hsame⟩ := position?_eq_some hi
      exact iff_of_true rfl fun path _ _ => covers_of_mem ⟨o, List.mem_of_getElem? ho, hsame⟩ path
    | none =>
      refine iff_of_false (by simp [references]) fun h => ?_
      -- the root is the only place
      obtain ⟨above, t, hprefix, hat, ho⟩ := h [] r rfl
      obtain rfl := List.prefix_nil.1 hprefix
      obtain rfl : Expr.column r = t := by simpa using hat
      exact position?_eq_none_iff.1 hi ho
  | literal v t =>
    refine iff_of_true rfl ?_
    rintro (_ | ⟨i, path⟩) r hr <;> cases hr
  | input c =>
    refine iff_of_true ?_ ?_
    · rw [resolvesIn, resolve]
      split <;> rfl
    · rintro (_ | ⟨i, path⟩) r hr <;> cases hr
  | call fn args ih =>
    rw [resolvesIn_call, coversReferences_call]
    exact or_congr_right (forall₂_congr ih)

theorem CoversReferences.mono {row row' : List Expr} (hrow : row ⊆ row') {e : Expr}
    (h : CoversReferences row e) : CoversReferences row' e := by
  intro path r hr
  obtain ⟨above, t, hprefix, hat, o, ho, hsame⟩ := h path r hr
  exact ⟨above, t, hprefix, hat, o, hrow ho, hsame⟩

/-! ### Resolving once more -/

/-- What is the same as an expression with input columns has some as well. -/
theorem exists_input_of_same {e f : Expr} (h : e.same f = true) {c : InputColumn}
    (hc : c ∈ f.inputs) : ∃ d, d ∈ e.inputs := by
  induction f using induct generalizing e with
  | column s => cases hc
  | literal w u => cases hc
  | input d =>
    cases e <;> simp only [same, Bool.false_eq_true] at h
    exact ⟨_, List.mem_singleton.2 rfl⟩
  | call g bs ih =>
    cases e <;> simp only [same, Bool.false_eq_true, Bool.and_eq_true] at h
    rw [inputs, inputsAll_eq] at hc
    obtain ⟨b, hb, hc⟩ := List.mem_flatMap.1 hc
    obtain ⟨a, ha, hab⟩ := exists_mem_of_sameAll h.2 hb
    obtain ⟨d, hd⟩ := ih b hb hab hc
    exact ⟨d, mem_inputs_call ha hd⟩

/-- A row without input columns does not have an expression with some. -/
theorem position?_eq_none_of_inputs {row : List Expr} (hrow : ∀ o ∈ row, o.inputs = []) {e : Expr}
    (he : e.inputs ≠ []) : e.position? row = none := by
  rw [position?_eq_none_iff]
  rintro ⟨o, ho, hsame⟩
  obtain ⟨c, hc⟩ := List.exists_mem_of_ne_nil _ he
  obtain ⟨d, hd⟩ := exists_input_of_same hsame hc
  rw [hrow o ho] at hd
  cases hd

/-- A resolved expression without input columns is the original. -/
theorem resolve_eq_self_of_inputs {row : List Expr} {e : Expr} (h : (e.resolve row).inputs = []) :
    e.resolve row = e := by
  induction e using induct with
  | column r =>
    rw [resolve] at h ⊢
    split at h
    · cases h
    · rfl
  | literal v t => rfl
  | input c =>
    rw [resolve] at h
    split at h <;> cases h
  | call fn args ih =>
    rw [resolve] at h ⊢
    split at h
    · cases h
    · rw [inputs, inputsAll_eq, List.flatMap_eq_nil_iff, resolveAll_eq] at h
      rw [resolveAll_eq]
      have hargs : args.map (resolve row) = args.map id :=
        List.map_congr_left fun a ha => ih a ha (h _ (List.mem_map_of_mem ha))
      rw [hargs, List.map_id]

/-- In a row without input columns, resolving once more changes nothing. -/
theorem resolve_resolve {row : List Expr} (hrow : ∀ o ∈ row, o.inputs = []) (e : Expr) :
    (e.resolve row).resolve row = e.resolve row := by
  have hinput : ∀ i t, (inputAt i t).resolve row = inputAt i t := fun i t => by
    have hnone : position? (.input ⟨i, t⟩) row = none :=
      position?_eq_none_of_inputs hrow (List.cons_ne_nil _ _)
    rw [inputAt, resolve, hnone]
  induction e using induct with
  | column r =>
    rw [resolve]
    split
    · exact hinput _ _
    · rename_i hnone
      rw [resolve, hnone]
  | literal v t => rfl
  | input c =>
    rw [resolve]
    split <;> exact hinput _ _
  | call fn args ih =>
    cases hi : position? (.call fn args) row with
    | some i =>
      rw [resolve, hi]
      exact hinput _ _
    | none =>
      have hcall : (Expr.call fn args).resolve row = .call fn (args.map (resolve row)) := by
        rw [resolve, hi, resolveAll_eq]
      -- the call is as it was, or it has got an input column that no column of the row has
      have hnone : position? ((Expr.call fn args).resolve row) row = none := by
        by_cases hinputs : ((Expr.call fn args).resolve row).inputs = []
        · rw [resolve_eq_self_of_inputs hinputs, hi]
        · exact position?_eq_none_of_inputs hrow hinputs
      rw [hcall] at hnone ⊢
      rw [resolve, hnone, resolveAll_eq, List.map_map]
      exact congrArg _ (List.map_congr_left ih)

/-- An expression resolves in a row exactly if the row has, for every place of a reference, what
stands there or above it; it then resolves in every row with the same columns and more.  In a row
without input columns, resolving twice is resolving once. -/
theorem resolves_by_coverage (e : Expr) (row : List Expr) :
    (e.resolvesIn row = true ↔ CoversReferences row e) ∧
      (∀ row', row ⊆ row' → e.resolvesIn row = true → e.resolvesIn row' = true) ∧
      ((∀ o ∈ row, o.inputs = []) → (e.resolve row).resolve row = e.resolve row) := by
  refine ⟨resolvesIn_iff, fun row' hrow h => ?_, fun hrow => resolve_resolve hrow e⟩
  exact resolvesIn_iff.2 ((resolvesIn_iff.1 h).mono hrow)

/-- A column with amounts. -/
def amount (column : String) : Expr := .column ⟨"t", ⟨"doc", "t"⟩, column, .int64, false⟩

/-- The total of some amounts. -/
def total (amounts : List Expr) : Expr := .call ⟨"total", .scalar, .int64⟩ amounts

/-- One total is a column of the row, an amount in it is another one, and a third amount stands
alone; the other row has its columns in another order, and a larger match. -/
theorem resolves_by_coverage_totals :
    let row := [amount "a", total [amount "a", amount "b"], amount "c"]
    let wider := [total [amount "c", total [amount "a", amount "b"]], amount "c",
      total [amount "a", amount "b"], amount "a"]
    let e := total
      [total [amount "c", total [amount "a", amount "b"]], amount "a", .inputAt 7 .int64]
    CoversReferences row e ∧ e.resolvesIn wider = true ∧
      e.resolve row = total [total [.inputAt 2 .int64, .inputAt 1 .int64], .inputAt 0 .int64,
        .inputAt 7 .int64] ∧
      e.resolve wider = total [.inputAt 0 .int64, .inputAt 3 .int64, .inputAt 7 .int64] ∧
      (e.resolve row).resolve row = e.resolve row := by
  intro row wider e
  obtain ⟨hcovers, hmono, htwice⟩ := resolves_by_coverage e row
  have hresolves : e.resolvesIn row = true := by decide
  have hwider : row ⊆ wider := by simp [row, wider]
  exact ⟨hcovers.1 hresolves, hmono wider hwider hresolves, rfl, rfl, htwice (by decide)⟩

/-- An input column further down in a row would be found again. -/
example :
    let row := [amount "a", total [.inputAt 0 .int64]]
    (total [amount "a"]).resolve row = total [.inputAt 0 .int64] ∧
      ((total [amount "a"]).resolve row).resolve row = .inputAt 1 .int64 :=
  ⟨rfl, rfl⟩

end ShardJoin.Expr
