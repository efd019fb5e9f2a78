/-
Statements some of whose tables are planned already.

Taken apart again, such a statement asks the other tables for no less than
before.  Of the planned ones nothing can be asked any more: what they were
asked for at first has to do.

* `Snapshot` — of every table either what is asked of it is left to be planned,
  or there is a plan that collects it;
* `Snapshot.references_output`, `Snapshot.references_key` — outputs and keys
  are found in the joined row;
* `Snapshot.exists_conjunct` — what is not found there is a column in a
  conjunct that was left to a planned table.
-/
import ShardJoin.Proofs.Planning.Requests

namespace ShardJoin

/-- A plan collects all that is asked of a table, and its rows come out as they are collected. -/
structure Collects (q : TableQuery) (p : Plan) : Prop where
  required : ∃ outputs, p.outputs? = some outputs ∧ q.FoundIn outputs
  unshaped : (p.resultTypes == p.outputTypes) = true

theorem Collects.isNoOp {q : TableQuery} {p : Plan} (h : Collects q p) : p.isNoOp = false := by
  obtain ⟨outputs, houtputs, -⟩ := h.required
  cases p with
  | noOp types => cases houtputs
  | tableGet get => rfl
  | scan scan => rfl
  | nestedLoop left right outer merge => rfl
  | iterable plans => rfl

/-- What a planning step makes of a table: a table that is declined is left with what is asked of
it, any other one gets a plan that collects it. -/
inductive Attempt (declines : TableQuery → Bool) (q : TableQuery) : Source → Prop
  | declined (h : declines q = true) : Attempt declines q (.queried q)
  | planned {p : Plan} (h : declines q = false) (hcollects : Collects q p) :
    Attempt declines q (.planned p)

/-- A statement over tables after a planning step. -/
structure Snapshot (declines : TableQuery → Bool) (default : UInt64) (s s' : Statement) : Prop where
  select : s'.select = s.select
  names : s'.sources.map (·.1) = s.sources.map (·.1)
  source : ∀ i x, s'.sources[i]? = some x →
    ∃ q, s.shareOf default i = .ok (some q) ∧ Attempt declines q x.2

/-- A row has what every table is asked for: at first, if the table is planned then, or again. -/
def Covers (default default' : UInt64) (s s' : Statement) (row : List Expr) : Prop :=
  ∀ i < s.sources.length,
    (∃ q, s.shareOf default i = .ok (some q) ∧ q.FoundIn row) ∧ s'.tableAt? i = none ∨
      ∃ q, s'.shareOf default' i = .ok (some q) ∧ q.FoundIn row

namespace Snapshot

open Statement

variable {declines : TableQuery → Bool} {default : UInt64} {s s' : Statement}
  (h : Snapshot declines default s s')
include h

/-! ### What stays the same -/

theorem length_sources : s'.sources.length = s.sources.length := by
  simpa using congrArg List.length h.names

theorem position?_eq (name : RelationName) : s'.position? name = s.position? name := by
  have hnames : ∀ t : Statement, t.position? name = (t.sources.map (·.1)).findIdx? (· == name) := by
    intro t
    rw [List.findIdx?_map]
    rfl
  rw [hnames, hnames, h.names]

theorem exprs_eq : s'.exprs = s.exprs := by
  rw [exprs, exprs, sortKeys, sortKeys, h.select]

/-- A table of a statement is still to be planned, or it is planned. -/
theorem cases_tableAt? {i : Nat} (hi : i < s.sources.length) :
    ∃ q, s.shareOf default i = .ok (some q) ∧ (s'.tableAt? i = some q.table ∨
      s'.tableAt? i = none ∧ ∃ name p, s'.sources[i]? = some (name, .planned p) ∧
        Collects q p) := by
  have hi' : i < s'.sources.length := h.length_sources ▸ hi
  obtain ⟨⟨name, source⟩, hsource⟩ : ∃ x, s'.sources[i]? = some x :=
    ⟨_, List.getElem?_eq_getElem hi'⟩
  obtain ⟨q, hshare, hattempt⟩ := h.source i _ hsource
  refine ⟨q, hshare, ?_⟩
  rw [tableAt?, hsource, Option.bind_some]
  cases hattempt with
  | declined _ => exact .inl rfl
  | @planned p _ hcollects => exact .inr ⟨rfl, name, p, rfl, hcollects⟩

theorem tableAt?_eq {i : Nat} {table : TableRelation} (htable : s'.tableAt? i = some table) :
    s.tableAt? i = some table := by
  obtain ⟨x, hx, -⟩ := Option.bind_eq_some_iff.1 htable
  have hi : i < s.sources.length := by
    rw [← h.length_sources]
    exact (List.getElem?_eq_some_iff.1 hx).1
  obtain ⟨q, hshare, hcases⟩ := h.cases_tableAt? hi
  rw [tableAt?_of_share hshare]
  rcases hcases with hqueried | ⟨hplanned, -⟩
  · rw [← hqueried, htable]
  · rw [hplanned] at htable
    cases htable

theorem tablePosition?_eq_some {name : RelationName} {i : Nat} :
    s'.tablePosition? name = some i ↔
      s.tablePosition? name = some i ∧ (s'.tableAt? i).isSome = true := by
  unfold tablePosition?
  rw [h.position?_eq, Option.filter_eq_some_iff, Option.filter_eq_some_iff]
  constructor
  · rintro ⟨hposition, hsome⟩
    obtain ⟨table, htable⟩ := Option.isSome_iff_exists.1 hsome
    exact ⟨⟨hposition, by rw [h.tableAt?_eq htable]; rfl⟩, hsome⟩
  · rintro ⟨⟨hposition, -⟩, hsome⟩
    exact ⟨hposition, hsome⟩

/-- Expressions keep their table, if that is still to be planned. -/
theorem owner?_eq_some {c : Expr} {i : Nat} :
    s'.owner? c = some i ↔ s.owner? c = some i ∧ (s'.tableAt? i).isSome = true := by
  simp only [owner?, Option.bind_eq_some_iff, h.tablePosition?_eq_some, ← and_assoc,
    exists_and_right]

/-- Conjuncts that remain at first remain. -/
theorem remainingConjuncts_subset : s.remainingConjuncts ⊆ s'.remainingConjuncts := by
  intro c hc
  obtain ⟨hmem, howner, htrue⟩ := mem_remainingConjuncts.1 hc
  refine mem_remainingConjuncts.2 ⟨by rwa [h.select], ?_, htrue⟩
  rw [Option.eq_none_iff_forall_ne_some]
  intro i hi
  rw [(h.owner?_eq_some.1 hi).1] at howner
  cases howner

/-! ### What is found in the joined row -/

variable {default' : UInt64} {row : List Expr}
  (hrow : Covers default default' s s' row)
include hrow

/-- What all tables are asked for, at first and again, is found in the joined row. -/
theorem references_resolve {e : Expr} (hreads : s.Reads e) (hfirst : s.Asks default e)
    (hagain : s'.Asks default' e) : (e.resolve row).references = [] := by
  refine Expr.references_resolve fun p hp => ?_
  obtain ⟨hself, i, hi, hposition⟩ := hreads.part hp
  have hfound : ∀ q : TableQuery, q.FoundIn row → (∃ m ∈ q.required, (m == p.2) = true) →
      ∃ o ∈ row, (o == p.2) = true := by
    rintro q hq ⟨m, hm, hsame⟩
    obtain ⟨o, ho, rfl | hom⟩ := hq m hm
    · exact ⟨o, ho, hsame⟩
    · exact ⟨o, ho, Expr.beq_trans hom hsame⟩
  rcases hrow i hi with ⟨⟨q, hshare, hq⟩, -⟩ | ⟨q, hshare, hq⟩
  · exact hfound q hq (hfirst i q hshare p hp hposition hself)
  · have hposition' : s'.tablePosition? p.1 = some i := by
      rw [h.tablePosition?_eq_some, tableAt?_of_share hshare]
      exact ⟨hposition, rfl⟩
    exact hfound q hq (hagain i q hshare p hp hposition' hself)

variable (hs : s.ReadsTables)
include hs

theorem references_output {e : Expr} (he : e ∈ s.select.outputs) :
    (e.resolve row).references = [] := by
  have he' : e ∈ s'.select.outputs := by rwa [h.select]
  exact h.references_resolve hrow (hs.reads (by simp [exprs, he]))
    (asks_of_mem (List.mem_append_left _ he)) (asks_of_mem (List.mem_append_left _ he'))

theorem references_key {o : OrderBy} (ho : s'.remainingOrderBy = some o) {key : Expr}
    (hkey : key ∈ o.keys) : (key.resolve row).references = [] := by
  have horder : s.select.orderBy = some o := by
    unfold remainingOrderBy at ho
    split at ho
    · cases ho
    · rwa [← h.select]
  have hagain : s'.Asks default' key :=
    asks_of_mem (List.mem_append_right _ (by simp [joinExprs, ho, hkey]))
  have hfirst : s.Asks default key := by
    by_cases hseparate : s.keysSeparate = true
    -- the keys were given to the tables
    · exact asks_key horder (by rw [remainingOrderBy, if_pos hseparate]) hkey
    · have hremaining : s.remainingOrderBy = some o := by
        rw [remainingOrderBy, if_neg hseparate, horder]
      exact asks_of_mem (List.mem_append_right _ (by simp [joinExprs, hremaining, hkey]))
  refine h.references_resolve hrow (hs.reads ?_) hfirst hagain
  exact List.mem_append_right _ (by rwa [sortKeys, horder])

theorem references_conjunct {c : Expr} (hc : c ∈ s.remainingConjuncts) :
    (c.resolve row).references = [] := by
  obtain ⟨hmem, howner, -⟩ := mem_remainingConjuncts.1 hc
  have hsole := hs.soleRelation?_eq_none hmem howner
  exact h.references_resolve hrow (hs.reads_conjunct hmem) (asks_conjunct hc hsole)
    (asks_conjunct (h.remainingConjuncts_subset hc) hsole)

/-- What is not found in the joined row is a column in a conjunct that was left to a table which
is planned now. -/
theorem exists_conjunct {query : Expr} (hquery : s'.remainingQuery = some query) {r : ColumnRef}
    (hr : r ∈ (query.resolve row).references) :
    ∃ i c, i < s.sources.length ∧ s'.tableAt? i = none ∧ c ∈ s.conjunctsOf i ∧
      r ∈ c.references ∧ ∀ o ∈ row, (o == .column r) = false := by
  obtain ⟨c, hc, hr⟩ := Expr.exists_mem_references_resolve hquery hr
  obtain ⟨hmem, hremains, htrue⟩ := mem_remainingConjuncts.1 hc
  rw [h.select] at hmem
  cases howner : s.owner? c with
  | none =>
    have hfirst := mem_remainingConjuncts.2 ⟨hmem, howner, htrue⟩
    rw [h.references_conjunct hrow hs hfirst] at hr
    cases hr
  | some i =>
    obtain ⟨name, -, hi, -⟩ := Statement.owner?_eq_some.1 howner
    refine ⟨i, c, lt_of_position? hi, ?_, mem_conjunctsOf.2 ⟨hmem, howner⟩,
      Expr.mem_references_resolve hr⟩
    -- a table that is still to be planned would evaluate the conjunct again
    cases htable : s'.tableAt? i with
    | none => rfl
    | some table =>
      rw [h.owner?_eq_some.2 ⟨howner, by rw [htable]; rfl⟩] at hremains
      cases hremains

end Snapshot

end ShardJoin
