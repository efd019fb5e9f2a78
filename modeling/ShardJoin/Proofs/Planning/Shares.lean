/-
What the shares of a statement over base tables have to do with its rows.

* `Statement.exists_mem_partsOf` — every part of an expression that one table
  can supply is asked of its table;
* `Statement.holds_whereClause` — a joined row meets the predicate if the row
  of each table meets the conjuncts of the table and the joined row meets what
  remains;
* `joinedRows_cut` — cutting the tables to limit and offset together does not
  change the rows up to the limit.
-/
import ShardJoin.Proofs.Expr.Folding
import ShardJoin.Proofs.Rows.Table

namespace ShardJoin

variable {α : Type}

/-! ### Expressions over some relations -/

/-- An expression that refers to some relations only, reads no input and has regular literals. -/
structure Expr.Over (names : List RelationName) (e : Expr) : Prop where
  references : ∀ r ∈ e.references, r.relation ∈ names
  inputs : e.inputs = []
  literals : ∀ v ∈ e.literals, v.isRegular = true

namespace Expr.Over

variable {names : List RelationName}

theorem call_iff (fn : FunctionInfo) (args : List Expr) :
    Over names (.call fn args) ↔ ∀ a ∈ args, Over names a := by
  constructor
  · intro h a ha
    refine ⟨fun r hr => h.references r (mem_references_call ha hr), ?_,
      fun v hv => h.literals v (mem_literals_call ha hv)⟩
    rw [List.eq_nil_iff_forall_not_mem]
    intro c hc
    have hmem : c ∈ (Expr.call fn args).inputs := mem_inputs_call ha hc
    rw [h.inputs] at hmem
    cases hmem
  · intro h
    refine ⟨fun r hr => ?_, ?_, fun v hv => ?_⟩
    · rw [Expr.references, referencesAll_eq] at hr
      obtain ⟨a, ha, hr⟩ := List.mem_flatMap.1 hr
      exact (h a ha).references r hr
    · rw [Expr.inputs, inputsAll_eq, List.flatMap_eq_nil_iff]
      exact fun a ha => (h a ha).inputs
    · rw [Expr.literals, literalsAll_eq] at hv
      obtain ⟨a, ha, hv⟩ := List.mem_flatMap.1 hv
      exact (h a ha).literals v hv

theorem bool (b : Bool) : Over names (Expr.bool b) :=
  ⟨by simp [Expr.bool, Expr.references], rfl, by simp [Expr.bool, Expr.literals, Value.isRegular]⟩

theorem null : Over names Expr.null :=
  ⟨by simp [Expr.null, Expr.references], rfl, by simp [Expr.null, Expr.literals, Value.isRegular]⟩

theorem parts {e : Expr} (h : Over names e) {p : RelationName × Expr} (hp : p ∈ e.parts) :
    p.2.soleRelation? = some p.1 ∧ Over names p.2 :=
  mem_parts (fun fn args => (call_iff fn args).1) h hp

theorem same_self {e : Expr} (h : Over names e) : e.same e = true :=
  Expr.same_self fun v hv => Value.isNumber_of_isRegular (h.literals v hv)

end Expr.Over

/-! ### Statements over base tables -/

namespace Statement

/-- The expressions of a statement. -/
def exprs (s : Statement) : List Expr :=
  s.select.outputs ++ s.select.whereClause.query.toList ++ s.sortKeys

/-- A statement over base tables with different names, whose expressions refer to them only. -/
structure OverTables (s : Statement) : Prop where
  tables : ∀ x ∈ s.sources, x.2.table?.isSome = true
  names : (s.sources.map (·.1)).Nodup
  exprs : ∀ e ∈ s.exprs, e.Over (s.sources.map (·.1))

variable {s : Statement}

/-- What holds of the expressions of a statement, and of calls together with their arguments, holds
of what has to be evaluated on the joined row. -/
theorem forall_joinExprs {P : Expr → Prop} (hbool : ∀ b, P (.bool b)) (hnull : P .null)
    (hargs : ∀ fn args, P (.call fn args) ↔ ∀ a ∈ args, P a) (h : ∀ e ∈ s.exprs, P e) :
    ∀ e ∈ s.joinExprs, P e := by
  intro e he
  rcases List.mem_append.1 he with hkey | hquery
  · refine h e (List.mem_append_right _ ?_)
    cases horder : s.remainingOrderBy with
    | none => simp [horder] at hkey
    | some o =>
      rw [horder] at hkey
      unfold remainingOrderBy at horder
      split at horder
      · cases horder
      · rwa [sortKeys, horder]
  · have hconjuncts : ∀ c ∈ s.select.whereClause.conjuncts, P c :=
      WhereClause.forall_conjuncts hbool hnull hargs fun query hquery =>
        h query (by simp [exprs, Option.mem_def.1 hquery])
    exact Expr.forall_conjoin? (fun fn args => (hargs fn args).2)
      (fun c hc => hconjuncts c (List.mem_of_mem_filter hc)) (Option.mem_toList.1 hquery)

theorem position?_eq_some {name : RelationName} {i : Nat} (h : s.position? name = some i) :
    ∃ source, s.sources[i]? = some (name, source) := by
  obtain ⟨hi, hname, -⟩ := List.findIdx?_eq_some_iff_getElem.1 h
  rw [beq_iff_eq] at hname
  exact ⟨s.sources[i].2, by rw [List.getElem?_eq_getElem hi, ← hname]⟩

theorem lt_of_position? {name : RelationName} {i : Nat} (h : s.position? name = some i) :
    i < s.sources.length := by
  obtain ⟨source, hsource⟩ := position?_eq_some h
  exact (List.getElem?_eq_some_iff.1 hsource).1

theorem exists_position? {name : RelationName} (h : name ∈ s.sources.map (·.1)) :
    ∃ i, s.position? name = some i := by
  rw [← Option.isSome_iff_exists, position?, List.findIdx?_isSome, List.any_eq_true]
  obtain ⟨x, hx, rfl⟩ := List.mem_map.1 h
  exact ⟨x, hx, by simp⟩

/-- Sources with different names are found by their names. -/
theorem position?_getElem (hnames : (s.sources.map (·.1)).Nodup) {i : Nat}
    {x : RelationName × Source} (h : s.sources[i]? = some x) : s.position? x.1 = some i := by
  obtain ⟨hi, rfl⟩ := List.getElem?_eq_some_iff.1 h
  refine List.findIdx?_eq_some_iff_getElem.2 ⟨hi, by simp, fun j hj => ?_⟩
  rw [Bool.not_eq_true, beq_eq_false_iff_ne]
  intro heq
  have hne := List.pairwise_iff_getElem.1 hnames j i (by simp; omega) (by simpa using hi) hj
  rw [List.getElem_map, List.getElem_map] at hne
  exact hne heq

theorem exists_tableAt? (htables : ∀ x ∈ s.sources, x.2.table?.isSome = true) {i : Nat}
    (hi : i < s.sources.length) : ∃ table, s.tableAt? i = some table := by
  rw [← Option.isSome_iff_exists, tableAt?, List.getElem?_eq_getElem hi]
  exact htables _ (List.getElem_mem hi)

theorem tablePosition?_eq (htables : ∀ x ∈ s.sources, x.2.table?.isSome = true)
    (name : RelationName) : s.tablePosition? name = s.position? name := by
  unfold tablePosition?
  cases h : s.position? name with
  | none => rfl
  | some i =>
    obtain ⟨table, htable⟩ := exists_tableAt? htables (lt_of_position? h)
    rw [Option.filter_some, htable]
    rfl

/-! ### Who evaluates the conjuncts -/

theorem owner?_eq_some {e : Expr} {i : Nat} :
    s.owner? e = some i ↔ ∃ name, e.soleRelation? = some name ∧ s.position? name = some i ∧
      (s.tableAt? i).isSome = true := by
  unfold owner? tablePosition?
  simp only [Option.bind_eq_some_iff, Option.filter_eq_some_iff]

theorem mem_conjunctsOf {i : Nat} {c : Expr} :
    c ∈ s.conjunctsOf i ↔ c ∈ s.select.whereClause.conjuncts ∧ s.owner? c = some i := by
  rw [conjunctsOf, List.mem_filter, beq_iff_eq]

theorem mem_remainingConjuncts {c : Expr} :
    c ∈ s.remainingConjuncts ↔ c ∈ s.select.whereClause.conjuncts ∧ s.owner? c = none ∧
      (c == Expr.bool true) = false := by
  rw [remainingConjuncts, List.mem_filter, Bool.and_eq_true, beq_iff_eq, Bool.not_eq_true']

/-- A literal truth aside, every conjunct of the predicate is one of a table or remains. -/
theorem forall_conjuncts_iff {P : Expr → Prop} (htrue : ∀ c, (c == Expr.bool true) = true → P c) :
    (∀ c ∈ s.select.whereClause.conjuncts, P c) ↔
      (∀ i, ∀ c ∈ s.conjunctsOf i, P c) ∧ ∀ c ∈ s.remainingConjuncts, P c := by
  constructor
  · exact fun h => ⟨fun i c hc => h c (mem_conjunctsOf.1 hc).1,
      fun c hc => h c (mem_remainingConjuncts.1 hc).1⟩
  · rintro ⟨htables, hrest⟩ c hc
    cases howner : s.owner? c with
    | some i => exact htables i c (mem_conjunctsOf.2 ⟨hc, howner⟩)
    | none =>
      cases hliteral : c == Expr.bool true with
      | true => exact htrue c hliteral
      | false => exact hrest c (mem_remainingConjuncts.2 ⟨hc, howner, hliteral⟩)

/-- A part of an expression is asked of the table that supplies it. -/
theorem mem_partsOf_of_part {es : List Expr} {e : Expr} (he : e ∈ es) {p : RelationName × Expr}
    (hp : p ∈ e.parts) {i : Nat} (hi : s.tablePosition? p.1 = some i)
    (hself : p.2.same p.2 = true) : ∃ m ∈ s.partsOf i es, (m == p.2) = true := by
  have hmem : p.2 ∈ ((es.flatMap Expr.parts).filter
      fun p => s.tablePosition? p.1 == some i).map (·.2) :=
    List.mem_map_of_mem (List.mem_filter.2 ⟨List.mem_flatMap.2 ⟨e, he, hp⟩, by simp [hi]⟩)
  unfold partsOf
  rw [← List.foldl_map (f := Prod.snd) (g := Expr.pushNew)]
  obtain ⟨m, hm, heq | hsame⟩ := Expr.exists_mem_foldl_pushNew [] hmem
  · exact ⟨m, hm, by rw [heq]; exact hself⟩
  · exact ⟨m, hm, hsame⟩

namespace OverTables

variable (hs : s.OverTables)
include hs

theorem joinExprs : ∀ e ∈ s.joinExprs, e.Over (s.sources.map (·.1)) :=
  forall_joinExprs Expr.Over.bool Expr.Over.null Expr.Over.call_iff hs.exprs

theorem remainingQuery {query : Expr} (h : s.remainingQuery = some query) :
    query.Over (s.sources.map (·.1)) :=
  hs.joinExprs query (List.mem_append_right _ (Option.mem_toList.2 h))

/-- Every part that one table can supply is asked of its table. -/
theorem exists_mem_partsOf {es : List Expr} {e : Expr} (he : e ∈ es)
    (hover : e.Over (s.sources.map (·.1))) {p : RelationName × Expr} (hp : p ∈ e.parts) :
    ∃ i, s.position? p.1 = some i ∧ ∃ m ∈ s.partsOf i es, (m == p.2) = true := by
  obtain ⟨hsole, hpart⟩ := hover.parts hp
  obtain ⟨hne, hall⟩ := Expr.soleRelation?_eq_some.1 hsole
  obtain ⟨r, hr⟩ := List.exists_mem_of_ne_nil _ hne
  obtain ⟨i, hi⟩ := exists_position? (hpart.references r hr)
  rw [hall r hr] at hi
  refine ⟨i, hi, ?_⟩
  exact mem_partsOf_of_part he hp (by rw [tablePosition?_eq hs.tables, hi]) hpart.same_self

end OverTables

/-! ### The predicate -/

variable (ι : Interpretation α)

/-- A joined row meets the predicate if every table's row meets the conjuncts of the table and
the joined row meets what remains. -/
theorem holds_whereClause (hmatch : s.select.whereClause.noMatch = false)
    {joint : JoinedRow α} (hkeys : (joint.map (·.1)).Nodup)
    (hrows : ∀ i < s.sources.length, ∃ row, (i, row) ∈ joint) :
    s.select.whereClause.holds ι (s.env joint) = true ↔
      (∀ x ∈ joint, (WhereClause.ofConjuncts (s.conjunctsOf x.1)).holds ι x.2.env = true) ∧
        ∀ query ∈ s.remainingQuery, query.holds ι (s.env joint) = true := by
  -- a conjunct of a table has on the joined row the value that it has on the row of the table
  have hown : ∀ x ∈ joint, ∀ c, s.owner? c = some x.1 →
      c.holds ι (s.env joint) = c.holds ι x.2.env := by
    intro x hx c hc
    unfold Expr.holds
    rw [eval_env ι s (lookup_of_mem hkeys hx) (position?_of_home? (home?_of_owner? hc))]
  have hremaining : (∀ query ∈ s.remainingQuery, query.holds ι (s.env joint) = true) ↔
      ∀ c ∈ s.remainingConjuncts, c.holds ι (s.env joint) = true := by
    cases hquery : s.remainingQuery with
    | none =>
      rw [Statement.remainingQuery, Expr.conjoin?_eq_none_iff] at hquery
      simp [hquery]
    | some query =>
      rw [← Expr.holds_conjoin? ι _ hquery]
      simp
  have htrue : ∀ c, (c == Expr.bool true) = true → c.holds ι (s.env joint) = true := by
    intro c hc
    obtain ⟨type, rfl⟩ := Expr.eq_of_beq_bool hc
    rfl
  rw [WhereClause.holds_iff_conjuncts ι _ hmatch, hremaining, forall_conjuncts_iff htrue]
  refine and_congr_left' ⟨fun hall x hx => ?_, fun htables i c hc => ?_⟩
  · rw [WhereClause.holds_ofConjuncts]
    intro c hc
    rw [← hown x hx c (mem_conjunctsOf.1 hc).2]
    exact hall x.1 c hc
  · have howner := (mem_conjunctsOf.1 hc).2
    obtain ⟨name, -, hi, -⟩ := owner?_eq_some.1 howner
    obtain ⟨row, hrow⟩ := hrows i (lt_of_position? hi)
    rw [hown (i, row) hrow c howner]
    exact (WhereClause.holds_ofConjuncts ι _ _).1 (htables (i, row) hrow) c hc

end Statement

/-! ### The limit -/

/-- The first rows of a list, if there is a limit. -/
def cut {β : Type} (limit : Option UInt64) (rows : List β) : List β :=
  match limit with
  | some n => rows.take n.toNat
  | none => rows

/-- A list that is cut to limit and offset together starts alike, if it has no more elements than
a word can count: either the sum fits, or it is larger than every such list. -/
theorem take_cut {β : Type} {rows : List β} (hsize : rows.length < UInt64.size)
    (limit offset : UInt64) :
    (cut (some (Word.saturatingAdd limit offset)) rows).take (limit.toNat + offset.toNat) =
      rows.take (limit.toNat + offset.toNat) := by
  change (rows.take _).take _ = _
  rw [List.take_take, Word.toNat_saturatingAdd, List.take_eq_take_iff]
  omega

/-- Tables that are cut to limit and offset together give the same rows between the offset and
the limit, if no table has more rows than a word can count. -/
theorem joinedRows_cut {rows : Nat → List (TableRow α)} {order : List Nat}
    (hsize : ∀ i ∈ order, (rows i).length < UInt64.size) (limit offset : UInt64) :
    ((joinedRows (fun i => cut (some (Word.saturatingAdd limit offset)) (rows i)) order).drop
        offset.toNat).take limit.toNat =
      ((joinedRows rows order).drop offset.toNat).take limit.toNat := by
  rw [List.take_drop, List.take_drop, Nat.add_comm offset.toNat,
    joinedRows_take_congr fun i hi => take_cut (hsize i hi) limit offset]

end ShardJoin
