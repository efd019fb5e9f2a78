/-
What a table is asked for of the outputs.

The outputs of a table's share are the parts of the statement's outputs that
refer to the table's name, in the order in which they first appear.

* `Expr.firstAppearances` — a list without what is the same as something
  earlier, said without collecting;
* `Expr.listsOnce_foldl_pushNew` — collecting without repetition gives it;
* `Statement.split_asks_parts` — the shares of a statement, and the tiling that
  their outputs come from.

Sameness is not reflexive, since a NaN is no number.  So a part with a NaN is
asked for as often as it appears, and only of the others there is one each.
-/
import Mathlib.Data.List.Induction
import ShardJoin.Proofs.Expr.Tiling
import ShardJoin.Proofs.Planning.KeyGroups

namespace ShardJoin

/-! ### First appearances -/

namespace Expr

/-- What is the same as nothing that stands before it. -/
def firstAppearances (l : List Expr) : List Expr :=
  (l.zipIdx.filter fun x => !(l.take x.2).any (· == x.1)).map (·.1)

theorem firstAppearances_append_singleton (l : List Expr) (e : Expr) :
    firstAppearances (l ++ [e]) = firstAppearances l ++ if l.any (· == e) then [] else [e] := by
  have hearlier : (l.zipIdx.filter fun x => !((l ++ [e]).take x.2).any (· == x.1)) =
      l.zipIdx.filter fun x => !(l.take x.2).any (· == x.1) :=
    List.filter_congr fun x hx => by
      rw [List.take_append_of_le_length (Nat.le_of_lt (List.snd_lt_of_mem_zipIdx hx))]
  unfold firstAppearances
  rw [List.zipIdx_append, List.filter_append, hearlier, List.map_append]
  cases h : l.any (· == e) <;> simp [h]

/-- Of a list, exactly the first appearances are collected. -/
theorem foldl_pushNew_eq_firstAppearances (l : List Expr) :
    l.foldl pushNew [] = firstAppearances l := by
  induction l using List.reverseRecOn with
  | nil => rfl
  | append_singleton l e ih =>
    -- what was collected has the same as the expression if the list has
    have hany : (l.foldl pushNew []).any (· == e) = l.any (· == e) := by
      rw [Bool.eq_iff_iff, List.any_eq_true, List.any_eq_true]
      constructor
      · rintro ⟨o, ho, hsame⟩
        exact ⟨o, (mem_foldl_pushNew ho).resolve_left List.not_mem_nil, hsame⟩
      · rintro ⟨o, ho, hsame⟩
        obtain ⟨m, hm, rfl | hsame'⟩ := exists_mem_foldl_pushNew [] ho
        · exact ⟨m, hm, hsame⟩
        · exact ⟨m, hm, beq_trans hsame' hsame⟩
    rw [List.foldl_append, List.foldl_cons, List.foldl_nil, firstAppearances_append_singleton, ← ih,
      pushNew, hany]
    split
    · rw [List.append_nil]
    · rfl

theorem pairwise_pushNew {es : List Expr} (h : es.Pairwise fun a b => (a == b) = false) (e : Expr) :
    (pushNew es e).Pairwise fun a b => (a == b) = false := by
  unfold pushNew
  split
  · exact h
  · rename_i hnone
    rw [List.any_eq_true] at hnone
    refine List.pairwise_append.2 ⟨h, List.pairwise_singleton _ _, fun o ho b hb => ?_⟩
    rw [List.mem_singleton.1 hb, Bool.eq_false_iff]
    exact fun hsame => hnone ⟨o, ho, hsame⟩

theorem pairwise_foldl_pushNew (l : List Expr) :
    (l.foldl pushNew []).Pairwise fun a b => (a == b) = false := by
  induction l using List.reverseRecOn with
  | nil => exact .nil
  | append_singleton l e ih =>
    rw [List.foldl_append]
    exact pairwise_pushNew ih e

/-- Whether no literal of an expression is a NaN. -/
def isNanFree (e : Expr) : Bool := e.literals.all Value.isNumber

/-- A list has of some expressions each one, up to sameness, and nothing else; none is the same as
one before it, so none without NaN comes twice; and they stand in the order of their first
appearances. -/
structure ListsOnce (all listed : List Expr) : Prop where
  contains : ∀ e ∈ all, ∃ m ∈ listed, m = e ∨ (m == e) = true
  only : ∀ m ∈ listed, m ∈ all
  unlike : listed.Pairwise fun a b => (a == b) = false
  nodup : (listed.filter isNanFree).Nodup
  inOrder : listed = firstAppearances all

theorem listsOnce_foldl_pushNew (l : List Expr) : ListsOnce l (l.foldl pushNew []) := by
  refine ⟨fun e he => exists_mem_foldl_pushNew [] he,
    fun m hm => (mem_foldl_pushNew hm).resolve_left List.not_mem_nil, pairwise_foldl_pushNew l, ?_,
    foldl_pushNew_eq_firstAppearances l⟩
  refine List.pairwise_filter.2 ((pairwise_foldl_pushNew l).imp ?_)
  -- without NaN, what is listed twice would be the same as itself
  rintro a b hab ha - rfl
  have hself : (a == a) = true := same_self (List.all_eq_true.1 ha)
  rw [hself] at hab
  cases hab

end Expr

/-! ### Shares -/

namespace Statement

variable {s : Statement}

/-- The parts of the outputs that refer to a relation, from left to right, with repetitions. -/
def outputParts (s : Statement) (name : RelationName) : List Expr :=
  ((s.select.outputs.flatMap Expr.parts).filter (·.1 == name)).map (·.2)

/-- If the sources have different names, the name of a table leads to the table. -/
theorem tablePosition?_eq_some_iff (hnames : (s.sources.map (·.1)).Nodup) {i : Nat}
    {name : RelationName} {source : Source} (hsource : s.sources[i]? = some (name, source))
    (htable : (s.tableAt? i).isSome = true) {relation : RelationName} :
    s.tablePosition? relation = some i ↔ relation = name := by
  rw [tablePosition?, Option.filter_eq_some_iff, and_iff_left htable]
  constructor
  · intro h
    obtain ⟨source', hsource'⟩ := position?_eq_some h
    rw [hsource, Option.some.injEq, Prod.mk.injEq] at hsource'
    exact hsource'.1.symm
  · rintro rfl
    exact position?_getElem hnames hsource

/-- The outputs of a share are the parts that refer to the name of its table. -/
theorem outputs_eq_of_share (hnames : (s.sources.map (·.1)).Nodup) {default : UInt64} {i : Nat}
    {name : RelationName} {source : Source} (hsource : s.sources[i]? = some (name, source))
    {q : TableQuery} (hshare : s.shareOf default i = .ok (some q)) :
    q.select.outputs = (s.outputParts name).foldl Expr.pushNew [] := by
  have htable : (s.tableAt? i).isSome = true := by rw [tableAt?_of_share hshare]; rfl
  have hfilter : ((s.select.outputs.flatMap Expr.parts).filter
      fun p => s.tablePosition? p.1 == some i) =
        (s.select.outputs.flatMap Expr.parts).filter (·.1 == name) :=
    List.filter_congr fun p _ => by
      rw [Bool.eq_iff_iff, beq_iff_eq, beq_iff_eq, tablePosition?_eq_some_iff hnames hsource htable]
  rw [(shareOf_eq_ok hshare).1, partsOf, hfilter, outputParts, List.foldl_map]

/-- Every table of a statement has a share, no other source has one, and the outputs of a share are
the parts of the outputs that refer to the table. -/
structure AsksParts (s : Statement) (split : Split) : Prop where
  shares : split.shares.map Option.isSome = s.sources.map (·.2.table?.isSome)
  outputs : ∀ (i : Nat) (name : RelationName) (source : Source) (q : TableQuery),
    s.sources[i]? = some (name, source) → split.shares[i]? = some (some q) →
      Expr.ListsOnce (s.outputParts name) q.select.outputs

theorem isSome_of_shareOf {default : UInt64} {i : Nat} {share : Option TableQuery}
    (h : s.shareOf default i = .ok share) : share.isSome = (s.tableAt? i).isSome := by
  cases share with
  | none => rw [tableAt?_eq_none h]; rfl
  | some q => rw [tableAt?_of_share h]; rfl

theorem asksParts_of_split (hnames : (s.sources.map (·.1)).Nodup) {settings : PlannerSettings}
    {split : Split} (hsplit : split.IsOf s settings) : s.AsksParts split := by
  constructor
  · refine List.ext_getElem (by simp [hsplit.length_shares]) fun i hi hi' => ?_
    rw [List.getElem_map, List.getElem_map]
    rw [List.length_map] at hi hi'
    rw [isSome_of_shareOf (hsplit.shareOf_eq (List.getElem?_eq_getElem hi)), tableAt?,
      List.getElem?_eq_getElem hi', Option.bind_some]
  · intro i name source q hsource hq
    rw [outputs_eq_of_share hnames hsource (hsplit.shareOf_eq hq)]
    exact Expr.listsOnce_foldl_pushNew _

/-- Every expression is tiled by its parts.  A statement over sources with different names, unless
it has a sub query among them or an order by that lacks flags, is taken apart so that each table is
asked for the parts of the outputs that refer to it, each once, in the order of their first
appearances, and for nothing else. -/
theorem split_asks_parts :
    (∀ e : Expr, e.TiledByParts) ∧
      ∀ (s : Statement) (settings : PlannerSettings), (s.sources.map (·.1)).Nodup →
        (∃ x ∈ s.sources, x.2.isSubQuery = true ∧
            s.split settings = .error (.subQuerySource x.1)) ∨
          (∃ o, s.select.orderBy = some o ∧ o.validate ≠ .ok () ∧ s.split settings =
            .error (.sortFlags o.keys.length o.descending.length o.nullsFirst.length)) ∨
          ∃ split, s.split settings = .ok split ∧ s.AsksParts split := by
  refine ⟨Expr.tiledByParts, fun s settings hnames => ?_⟩
  refine (split_cases s settings).imp_right (Or.imp_right ?_)
  rintro ⟨split, hok⟩
  exact ⟨split, hok, asksParts_of_split hnames (split_spec hok)⟩

/-- The statement over two tables with totals for its outputs: one goes over both tables and has a
constant and a position in it, one contains another, and one that a NaN belongs to is listed
twice. -/
def totals : Statement :=
  let sum := Expr.total [.amount "a", .int64 1]
  let unknown := Expr.total [.amount "a", .literal (.float64 ⟨0x7ff8000000000000⟩) (.scalar .float64)]
  let mixed := Expr.total ([sum, .int64 7, .inputAt 0 .int64] ++ (columnTable "u" "b").allColumns)
  { pairs with select := .ofOutputs [mixed, unknown, .total [sum, .int64 3], sum, unknown, .int64 5] }

/-- Of the five parts that refer to the first table, only the total that comes again is left out;
the constants and the position are asked of no table. -/
theorem split_asks_parts_totals :
    (totals.sources.map (·.1)).Nodup ∧
    (∃ mixed ∈ totals.select.outputs, mixed.parts.map (·.1) = ["t", "u"] ∧ mixed.TiledByParts) ∧
    ∃ split t u, totals.split ⟨10000, 10000⟩ = .ok split ∧ split.shares = [some t, some u] ∧
      totals.AsksParts split ∧
      (totals.outputParts "t").map Expr.render =
        ["total(t.a, 1)", "total(t.a, NaN)", "total(total(t.a, 1), 3)", "total(t.a, 1)",
          "total(t.a, NaN)"] ∧
      t.select.outputs.map Expr.render =
        ["total(t.a, 1)", "total(t.a, NaN)", "total(total(t.a, 1), 3)", "total(t.a, NaN)"] ∧
      u.select.outputs.map Expr.render = ["u.b"] := by
  have hnames : (totals.sources.map (·.1)).Nodup := by decide
  refine ⟨hnames, ⟨_, List.mem_cons_self, rfl, split_asks_parts.1 _⟩, ?_⟩
  rcases split_asks_parts.2 totals ⟨10000, 10000⟩ hnames with
    ⟨x, -, -, h⟩ | ⟨o, -, -, h⟩ | ⟨split, hok, hasks⟩
  · exact nomatch h
  · exact nomatch h
  · obtain rfl := Except.ok.inj (show Except.ok _ = _ from hok)
    exact ⟨_, _, _, hok, rfl, hasks, by decide, by decide, by decide⟩

end Statement

end ShardJoin
