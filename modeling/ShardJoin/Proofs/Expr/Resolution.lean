/-
Resolved expressions have the value of the expressions they come from.

* `Expr.valueIn_resolve` — on a row whose columns hold the values of the
  expressions it was resolved in, a resolved expression has the value of the
  original;
* `Expr.exists_part_of_mem_references` — a reference that is left stands in a
  part that the row does not have;
* `Expr.references_resolve` — if the row has every part that one relation can
  supply, no reference is left;
* `Expr.exists_mem_pushNew` — of a list without repetitions nothing is lost up
  to sameness.
-/
import Mathlib.Data.List.Forall2
import ShardJoin.Expr.Part
import ShardJoin.Expr.Resolve
import ShardJoin.Proofs.Expr.Evaluation
import ShardJoin.Proofs.SortedMap

namespace ShardJoin

variable {α : Type} (ι : Interpretation α)

/-- The data of a row by position. -/
def Env.ofRow (row : List (Datum α)) : Env α where
  column _ := .null
  column_same _ := rfl
  input i := row[i]?.getD .null

namespace Expr

/-! ### Sole relations -/

theorem soleRelation?_eq_some {e : Expr} {name : RelationName} :
    e.soleRelation? = some name ↔
      e.references ≠ [] ∧ ∀ r ∈ e.references, r.relation = name := by
  unfold soleRelation?
  cases e.references with
  | nil => simp
  | cons r rs =>
    constructor
    · intro h
      simp only [Option.ite_none_right_eq_some, List.all_eq_true, beq_iff_eq] at h
      obtain ⟨hall, hname⟩ := h
      obtain rfl := Option.some.inj hname
      exact ⟨List.cons_ne_nil _ _, List.forall_mem_cons.2 ⟨rfl, hall⟩⟩
    · rintro ⟨-, hall⟩
      rw [List.forall_mem_cons] at hall
      obtain ⟨rfl, hall⟩ := hall
      exact if_pos (by simpa using hall)

theorem mem_relations {e : Expr} {name : RelationName} :
    name ∈ e.relations ↔ ∃ r ∈ e.references, r.relation = name := by
  rw [relations, SortedMap.mem_keys_ofList]
  simp

/-- The relations of an expression are one if it has a sole relation. -/
theorem relations_eq_singleton_iff {e : Expr} {name : RelationName} :
    e.relations = [name] ↔ e.soleRelation? = some name := by
  rw [soleRelation?_eq_some]
  constructor
  · intro h
    have hmem : ∀ n, (∃ r ∈ e.references, r.relation = n) ↔ n = name := fun n => by
      rw [← mem_relations, h, List.mem_singleton]
    obtain ⟨r, hr, -⟩ := (hmem name).2 rfl
    exact ⟨List.ne_nil_of_mem hr, fun r hr => (hmem _).1 ⟨r, hr, rfl⟩⟩
  · rintro ⟨hne, hall⟩
    obtain ⟨r, hr⟩ := List.exists_mem_of_ne_nil _ hne
    refine List.perm_singleton.1 ((List.perm_ext_iff_of_nodup (SortedMap.nodup_keys _)
      (List.pairwise_singleton _ name)).2 fun n => ?_)
    rw [List.mem_singleton]
    refine mem_relations.trans ⟨?_, ?_⟩
    · rintro ⟨r, hr, rfl⟩
      exact hall r hr
    · rintro rfl
      exact ⟨r, hr, hall r hr⟩

theorem exists_mem_of_sameAll {as bs : List Expr} (h : sameAll as bs = true) {b : Expr}
    (hb : b ∈ bs) : ∃ a ∈ as, a.same b = true := by
  induction bs generalizing as with
  | nil => cases hb
  | cons b' bs ih =>
    cases as with
    | nil => simp [sameAll] at h
    | cons a as =>
      rw [sameAll, Bool.and_eq_true] at h
      rcases List.mem_cons.1 hb with rfl | hb
      · exact ⟨a, List.mem_cons_self, h.1⟩
      · obtain ⟨a', ha', hsame⟩ := ih h.2 hb
        exact ⟨a', List.mem_cons_of_mem _ ha', hsame⟩

/-- Same expressions refer to the same relations. -/
theorem exists_reference_of_same {e f : Expr} (h : e.same f = true) {r : ColumnRef}
    (hr : r ∈ f.references) : ∃ r' ∈ e.references, r'.relation = r.relation := by
  induction f using induct generalizing e with
  | column s =>
    cases e <;> simp only [same, Bool.false_eq_true] at h
    rename_i s'
    obtain rfl : r = s := by simpa [references] using hr
    exact ⟨s', by simp [references], ColumnRef.relation_eq_of_same h⟩
  | literal w u => simp [references] at hr
  | input d => simp [references] at hr
  | call g bs ih =>
    cases e <;> simp only [same, Bool.false_eq_true, Bool.and_eq_true] at h
    rename_i f as
    rw [references, referencesAll_eq] at hr
    obtain ⟨b, hb, hr⟩ := List.mem_flatMap.1 hr
    obtain ⟨a, ha, hab⟩ := exists_mem_of_sameAll h.2 hb
    obtain ⟨r', hr', hrel⟩ := ih b hb hab hr
    exact ⟨r', mem_references_call ha hr', hrel⟩

/-! ### Values of resolved expressions -/

/-- Where a row holds an expression. -/
theorem position?_eq_some {e : Expr} {row : List Expr} {i : Nat} (h : e.position? row = some i) :
    ∃ o, row[i]? = some o ∧ (o == e) = true := by
  obtain ⟨hi, hsame, -⟩ := List.findIdx?_eq_some_iff_getElem.1 h
  exact ⟨row[i], List.getElem?_eq_getElem hi, hsame⟩

/-- A row of data holds the values of some expressions, and of all that are the same. -/
def Holds (env : Env α) (row : List Expr) (data : List (Datum α)) : Prop :=
  List.Forall₂ (fun o d => ∀ e : Expr, (o == e) = true → (∀ v ∈ e.literals, v.isRegular = true) →
    e.eval ι env = d) row data

variable {ι}

/-- What stands at the position of an expression is its value. -/
theorem Holds.eval_position {env : Env α} {row : List Expr} {data : List (Datum α)}
    (hrow : Holds ι env row data) {e : Expr} (hregular : ∀ v ∈ e.literals, v.isRegular = true)
    {i : Nat} (hi : e.position? row = some i) : data[i]?.getD .null = e.eval ι env := by
  obtain ⟨o, ho, hsame⟩ := position?_eq_some hi
  obtain ⟨hlt, rfl⟩ := List.getElem?_eq_some_iff.1 ho
  have hlt' : i < data.length := hrow.length_eq ▸ hlt
  rw [List.getElem?_eq_getElem hlt', Option.getD_some]
  exact (hrow.get hlt hlt' e hsame hregular).symm

/-- If a row holds what a list of expressions stands for, reading from it what can be read keeps
the value of an expression without positions. -/
theorem valueIn_resolve {β : Type} {S : Semantics β} {input data : Nat → β} {row : List Expr}
    (hrow : ∀ (e : Expr) (i : Nat), e.position? row = some i →
      (∀ v ∈ e.literals, v.isRegular = true) → data i = e.valueIn S input)
    {e : Expr} (hregular : ∀ v ∈ e.literals, v.isRegular = true) (hinputs : e.inputs = []) :
    (e.resolve row).valueIn S data = e.valueIn S input := by
  induction e using induct with
  | literal v t => rfl
  | input c => simp [inputs] at hinputs
  | column r =>
    rw [resolve]
    cases hi : position? (.column r) row with
    | none => rfl
    | some i => exact hrow _ i hi hregular
  | call fn args ih =>
    rw [resolve]
    cases hi : position? (.call fn args) row with
    | some i => exact hrow _ i hi hregular
    | none =>
      rw [inputs, inputsAll_eq, List.flatMap_eq_nil_iff] at hinputs
      rw [valueIn_call, valueIn_call, resolveAll_eq, List.map_map]
      refine congrArg _ (List.map_congr_left fun a ha => ih a ha ?_ (hinputs a ha))
      exact fun v hv => hregular v (mem_literals_call ha hv)

/-- A resolved expression without references has the value of the original. -/
theorem eval_resolve {env : Env α} {row : List Expr} {data : List (Datum α)}
    (hrow : Holds ι env row data) {e : Expr} (hregular : ∀ v ∈ e.literals, v.isRegular = true)
    (hinputs : e.inputs = []) (hresolved : (e.resolve row).references = []) :
    (e.resolve row).eval ι (.ofRow data) = e.eval ι env := by
  calc (e.resolve row).eval ι (.ofRow data)
    _ = (e.resolve row).eval ι { env with input := (Env.ofRow data).input } :=
      eval_congr ι (by simp [hresolved]) fun _ _ => rfl
    _ = e.eval ι env := by
      rw [eval_eq_valueIn, eval_eq_valueIn]
      refine valueIn_resolve (fun o i hi ho => ?_) hregular hinputs
      exact (hrow.eval_position ho hi).trans (eval_eq_valueIn ι env o)

/-! ### What is left unresolved -/

/-- What is left are references of the expression that the row does not have. -/
theorem mem_references_resolve {row : List Expr} {e : Expr} {r : ColumnRef}
    (h : r ∈ (e.resolve row).references) :
    r ∈ e.references ∧ ∀ o ∈ row, (o == .column r) = false := by
  induction e using induct with
  | literal v t => cases h
  | input c =>
    rw [resolve] at h
    split at h <;> cases h
  | column s =>
    rw [resolve] at h
    split at h
    · cases h
    · rename_i hnone
      obtain rfl : r = s := by simpa [references] using h
      exact ⟨by simp [references], List.findIdx?_eq_none_iff.1 hnone⟩
  | call fn args ih =>
    rw [resolve] at h
    split at h
    · cases h
    · rw [references, resolveAll_eq, referencesAll_eq] at h
      obtain ⟨_, hmem, hr⟩ := List.mem_flatMap.1 h
      obtain ⟨a, ha, rfl⟩ := List.mem_map.1 hmem
      obtain ⟨hr, hnot⟩ := ih a ha hr
      exact ⟨mem_references_call ha hr, hnot⟩

/-- What is left stands in a part that the row does not have. -/
theorem exists_part_of_mem_references {row : List Expr} {e : Expr} {r : ColumnRef}
    (h : r ∈ (e.resolve row).references) :
    ∃ p ∈ e.parts, r ∈ p.2.references ∧ ∀ o ∈ row, (o == p.2) = false := by
  have hreference := (mem_references_resolve h).1
  induction e using induct with
  | literal v t => cases h
  | input c => cases hreference
  | column s =>
    obtain rfl : r = s := by simpa [references] using hreference
    exact ⟨(r.relation, .column r), by simp [parts], hreference, (mem_references_resolve h).2⟩
  | call fn args ih =>
    rw [resolve] at h
    split at h
    · cases h
    · rename_i hnone
      cases hsole : (Expr.call fn args).soleRelation? with
      | some name =>
        exact ⟨(name, .call fn args), by simp [parts, hsole], hreference,
          List.findIdx?_eq_none_iff.1 hnone⟩
      | none =>
        -- the call is no part itself, its parts are those of its arguments
        rw [references, resolveAll_eq, referencesAll_eq] at h
        obtain ⟨_, hmem, hr⟩ := List.mem_flatMap.1 h
        obtain ⟨a, ha, rfl⟩ := List.mem_map.1 hmem
        obtain ⟨p, hp, hpart⟩ := ih a ha hr (mem_references_resolve hr).1
        refine ⟨p, ?_, hpart⟩
        rw [parts, hsole, partsAll_eq]
        exact List.mem_flatMap.2 ⟨a, ha, hp⟩

/-- If a row has every part that one relation can supply, no reference is left. -/
theorem references_resolve {row : List Expr} {e : Expr}
    (hparts : ∀ p ∈ e.parts, ∃ o ∈ row, (o == p.2) = true) : (e.resolve row).references = [] := by
  refine List.eq_nil_iff_forall_not_mem.2 fun r hr => ?_
  obtain ⟨p, hp, -, hnone⟩ := exists_part_of_mem_references hr
  obtain ⟨o, ho, hsame⟩ := hparts p hp
  rw [hnone o ho] at hsame
  cases hsame

theorem parts_eq_nil {e : Expr} (h : e.references = []) : e.parts = [] := by
  induction e using induct with
  | literal v t => rfl
  | input c => rfl
  | column r => cases h
  | call fn args ih =>
    have hsole : (Expr.call fn args).soleRelation? = none := by rw [soleRelation?, h]
    rw [references, referencesAll_eq, List.flatMap_eq_nil_iff] at h
    rw [parts, hsole, partsAll_eq, List.flatMap_eq_nil_iff]
    exact fun a ha => ih a ha (h a ha)

theorem parts_of_soleRelation? {e : Expr} {name : RelationName} (h : e.soleRelation? = some name) :
    e.parts = [(name, e)] := by
  cases e with
  | literal v t => cases h
  | input c => cases h
  | column r =>
    have hname : r.relation = name := (soleRelation?_eq_some.1 h).2 r (List.mem_singleton_self r)
    rw [parts, hname]
  | call fn args => rw [parts, h]

/-- A part refers to its relation alone, and has what calls pass on to their arguments. -/
theorem mem_parts {P : Expr → Prop} (hargs : ∀ fn args, P (.call fn args) → ∀ a ∈ args, P a)
    {e : Expr} (he : P e) {p : RelationName × Expr} (h : p ∈ e.parts) :
    p.2.soleRelation? = some p.1 ∧ P p.2 := by
  induction e using induct with
  | literal v t => simp [parts] at h
  | input c => simp [parts] at h
  | column r =>
    obtain rfl : p = (r.relation, .column r) := by simpa [parts] using h
    exact ⟨by simp [soleRelation?, references], he⟩
  | call fn args ih =>
    rw [parts] at h
    cases hsole : (Expr.call fn args).soleRelation? with
    | some name =>
      obtain rfl : p = (name, .call fn args) := by simpa [hsole] using h
      exact ⟨hsole, he⟩
    | none =>
      rw [hsole, partsAll_eq] at h
      obtain ⟨a, ha, hp⟩ := List.mem_flatMap.1 h
      exact ih a ha (hargs fn args he a ha) hp

/-! ### Lists without repetitions -/

theorem mem_pushNew {es : List Expr} {e f : Expr} (h : f ∈ pushNew es e) : f ∈ es ∨ f = e := by
  unfold pushNew at h
  split at h
  · exact .inl h
  · simpa using h

/-- Afterwards the expression is in the list, or it was there up to sameness. -/
theorem exists_mem_pushNew (es : List Expr) (e : Expr) :
    ∃ o ∈ pushNew es e, o = e ∨ (o == e) = true := by
  unfold pushNew
  split
  · rename_i h
    obtain ⟨o, ho, hsame⟩ := List.any_eq_true.1 h
    exact ⟨o, ho, .inr hsame⟩
  · exact ⟨e, by simp, .inl rfl⟩

theorem subset_pushNew (es : List Expr) (e : Expr) : es ⊆ pushNew es e := by
  unfold pushNew
  split
  · exact fun _ h => h
  · exact List.subset_append_left _ _

theorem subset_foldl_pushNew (es fs : List Expr) : fs ⊆ es.foldl pushNew fs := by
  induction es generalizing fs with
  | nil => exact fun _ h => h
  | cons e es ih => exact fun f hf => ih (pushNew fs e) (subset_pushNew fs e hf)

/-- Collecting without repetitions loses nothing up to sameness. -/
theorem exists_mem_foldl_pushNew {es : List Expr} (fs : List Expr) {e : Expr} (he : e ∈ es) :
    ∃ o ∈ es.foldl pushNew fs, o = e ∨ (o == e) = true := by
  induction es generalizing fs with
  | nil => cases he
  | cons e' es ih =>
    rcases List.mem_cons.1 he with rfl | he
    · obtain ⟨o, ho, hsame⟩ := exists_mem_pushNew fs e
      exact ⟨o, subset_foldl_pushNew es _ ho, hsame⟩
    · exact ih (pushNew fs e') he

theorem mem_foldl_pushNew {es fs : List Expr} {f : Expr} (h : f ∈ es.foldl pushNew fs) :
    f ∈ fs ∨ f ∈ es := by
  induction es generalizing fs with
  | nil => exact .inl h
  | cons e es ih =>
    rcases ih h with h | h
    · rcases mem_pushNew h with h | rfl
      · exact .inl h
      · exact .inr List.mem_cons_self
    · exact .inr (List.mem_cons_of_mem _ h)

end Expr

end ShardJoin
