/-
When joined rows come out in the order of the statement.

If no key remains for the joined row, the rows are not sorted after the join:
they come out as the nested loops enumerate them.  That is the order of the
statement where the rows of a source that is walked again, for rows of an outer
source that tie on their keys, all tie as well.  Otherwise the inner keys start
over at every such row.

* `Statement.compareAll_joined` — joined rows compare source by source;
* `Statement.sorted_joinedRows_iff` — when the enumeration is sorted.
-/
import ShardJoin.Proofs.Planning.SortKeys

namespace ShardJoin

variable {α : Type} (ι : Interpretation α)

/-- The keys that the share of the source at a position has. -/
def Split.keysAt (split : Split) (i : Nat) : List SortEntry :=
  match split.shares[i]? with
  | some (some q) => OrderBy.entriesOf q.select.orderBy
  | _ => []

theorem SortEntry.compareAll_append (entries rest : List SortEntry) (a b : Env α) :
    compareAll ι (entries ++ rest) a b =
      (compareAll ι entries a b).then (compareAll ι rest a b) := by
  induction entries with
  | nil => rfl
  | cons s entries ih => rw [List.cons_append, compareAll, compareAll, ih, Ordering.then_assoc]

/-- Rows of one source compared by the keys of that source. -/
def compareAt (keys : Nat → List SortEntry) (x y : Nat × TableRow α) : Ordering :=
  SortEntry.compareAll ι (keys x.1) x.2.env y.2.env

namespace Statement

variable {s : Statement} {o : OrderBy}

/-- The keys of a table refer to the table. -/
theorem home?_of_mem_tableOrder (ho : s.select.orderBy = some o) (hvalid : o.validate = .ok ())
    (h : s.keysSeparate = true) {i : Nat} {entry : SortEntry} (hentry : entry ∈ s.tableOrder i) :
    s.home? entry.key = some i := by
  obtain ⟨n, hn, rfl⟩ := List.mem_iff_getElem.1 hentry
  have hspec := tableOrder_spec ho hvalid h i
  have hn' : n < (s.keysOf i).length := by rwa [hspec.length_eq]
  have hget := hspec.get hn' hn
  have hhome := mem_keysOf.1 (List.getElem_mem hn')
  simp only [List.get_eq_getElem] at hget
  rw [keyHomes, List.getElem?_map, sortKeys, ho] at hhome
  simpa [(OrderBy.getElem?_entries.1 hget).1] using hhome

/-- Joined rows compare source by source, each by the keys of the source. -/
theorem compareAll_joined (ho : s.select.orderBy = some o) (hvalid : o.validate = .ok ())
    (h : s.keysSeparate = true) {rows : Nat → List (TableRow α)} {joint joint' : JoinedRow α}
    (hjoint : joint ∈ joinedRows rows s.sourceOrder)
    (hjoint' : joint' ∈ joinedRows rows s.sourceOrder) :
    SortEntry.compareAll ι o.entries (s.env joint) (s.env joint') =
      List.compareLex (compareAt ι s.tableOrder) joint joint' := by
  obtain ⟨hkeys, -⟩ := mem_joinedRows hjoint
  obtain ⟨hkeys', -⟩ := mem_joinedRows hjoint'
  have hnodup : (joint.map (·.1)).Nodup := hkeys ▸ s.nodup_sourceOrder
  have hnodup' : (joint'.map (·.1)).Nodup := hkeys' ▸ s.nodup_sourceOrder
  -- on the keys of a source only the row of the source counts
  have hsource : ∀ {i : Nat} {row row' : TableRow α}, (i, row) ∈ joint → (i, row') ∈ joint' →
      SortEntry.compareAll ι (s.tableOrder i) (s.env joint) (s.env joint') =
        compareAt ι s.tableOrder (i, row) (i, row') := by
    intro i row row' hrow hrow'
    have hvalue : ∀ {joint : JoinedRow α} {row : TableRow α}, (joint.map (·.1)).Nodup →
        (i, row) ∈ joint → ∀ entry ∈ s.tableOrder i,
          entry.key.eval ι (s.env joint) = entry.key.eval ι row.env := by
      intro joint row hnodup hrow entry hentry
      exact eval_env ι s (lookup_of_mem hnodup hrow)
        (position?_of_home? (home?_of_mem_tableOrder ho hvalid h hentry))
    have := SortEntry.compareAll_congr ι id (hvalue hnodup hrow) (hvalue hnodup' hrow')
    simpa [compareAt] using this
  rw [← flatMap_tableOrder ho hvalid h]
  -- the rest of the two rows after some of the sources
  have hrest : ∀ {order : List Nat} {rest rest' : JoinedRow α}, rest.map (·.1) = order →
      rest'.map (·.1) = order → rest ⊆ joint → rest' ⊆ joint' →
        SortEntry.compareAll ι (order.flatMap s.tableOrder) (s.env joint) (s.env joint') =
          List.compareLex (compareAt ι s.tableOrder) rest rest' := by
    intro order
    induction order with
    | nil =>
      intro rest rest' hrest hrest' _ _
      rw [List.map_eq_nil_iff] at hrest hrest'
      rw [hrest, hrest']
      rfl
    | cons i order ih =>
      intro rest rest' hrest hrest' hsub hsub'
      obtain ⟨⟨i₁, row⟩, rest, rfl, hi, hmap⟩ := List.map_eq_cons_iff.1 hrest
      obtain ⟨⟨i₂, row'⟩, rest', rfl, hi', hmap'⟩ := List.map_eq_cons_iff.1 hrest'
      obtain rfl : i₁ = i := hi
      obtain rfl : i₂ = i₁ := hi'
      rw [List.cons_subset] at hsub hsub'
      rw [List.flatMap_cons, SortEntry.compareAll_append, List.compareLex_cons_cons,
        hsource hsub.1 hsub'.1, ih hmap hmap' hsub.2 hsub'.2]
  exact hrest hkeys hkeys' (List.Subset.refl _) (List.Subset.refl _)

/-- A source that is no table has no keys to be sorted by. -/
theorem tableOrder_eq_nil (ho : s.select.orderBy = some o) (hvalid : o.validate = .ok ())
    (h : s.keysSeparate = true) {i : Nat} (hi : s.tableAt? i = none) : s.tableOrder i = [] := by
  have hspec := tableOrder_spec ho hvalid h i
  have hkeys : s.keysOf i = [] := by
    rw [List.eq_nil_iff_forall_not_mem]
    intro k hk
    have hhome := mem_keysOf.1 hk
    rw [keysSeparate, Bool.and_eq_true, List.all_eq_true] at h
    have := h.1 _ (List.mem_of_getElem? hhome)
    simp [hi] at this
  rw [hkeys] at hspec
  exact List.forall₂_nil_left_iff.1 hspec

/-- The keys that the shares have are those that are given to the tables. -/
theorem keysAt_eq {settings : PlannerSettings} {split : Split} (hsplit : split.IsOf s settings)
    (ho : s.select.orderBy = some o) (h : s.keysSeparate = true) (i : Nat) :
    split.keysAt i = s.tableOrder i := by
  have hvalid := hsplit.orderBy o ho
  have hlength := hsplit.length_shares
  unfold Split.keysAt
  by_cases hi : i < s.sources.length
  · have hi : split.shares[i]? = some split.shares[i] := List.getElem?_eq_getElem (by omega)
    have hshare := hsplit.shareOf_eq hi
    rw [hi]
    cases hq : split.shares[i] with
    | some q => exact (tableOrder_of_share (hq ▸ hshare)).symm
    | none => exact (tableOrder_eq_nil ho hvalid h (tableAt?_eq_none (hq ▸ hshare))).symm
  · rw [List.getElem?_eq_none (by omega)]
    refine (tableOrder_eq_nil ho hvalid h ?_).symm
    rw [tableAt?, List.getElem?_eq_none (by omega)]
    rfl

/-- If no key remains, the enumeration of sorted sources is sorted by the order by of the
statement exactly if one of the sources is empty, or of any two sources the outer one has no two
rows that tie on its keys, or all rows of the inner one tie on theirs. -/
theorem sorted_joinedRows_iff {settings : PlannerSettings} {split : Split}
    (hok : s.split settings = .ok split) (ho : s.select.orderBy = some o)
    (hnone : split.remainingOrderBy = none) {rows : Nat → List (TableRow α)}
    (hrows : ∀ i, Sorted ι (split.keysAt i) TableRow.env (rows i)) :
    Sorted ι o.entries s.env (joinedRows rows (CrossJoin.joinOrder split.firstKeys)) ↔
      (∃ i < s.sources.length, rows i = []) ∨
        (CrossJoin.joinOrder split.firstKeys).Pairwise fun i j =>
          (rows i).Pairwise (fun a b =>
              SortEntry.compareAll ι (split.keysAt i) a.env b.env ≠ .eq) ∨
            ∀ a ∈ rows j, ∀ b ∈ rows j,
              SortEntry.compareAll ι (split.keysAt j) a.env b.env = .eq := by
  have hsplit := split_spec hok
  have hvalid := hsplit.orderBy o ho
  have hseparate : s.keysSeparate = true := by
    rw [hsplit.remainingOrderBy, remainingOrderBy, ho] at hnone
    simpa using hnone
  have hkeys := keysAt_eq hsplit ho hseparate
  simp only [hkeys] at hrows ⊢
  rw [hsplit.firstKeys]
  change Sorted ι o.entries s.env (joinedRows rows s.sourceOrder) ↔
    _ ∨ s.sourceOrder.Pairwise _
  by_cases hempty : ∃ i < s.sources.length, rows i = []
  · obtain ⟨i, hi, hnil⟩ := hempty
    refine iff_of_true ?_ (.inl ⟨i, hi, hnil⟩)
    rw [joinedRows_eq_nil (mem_sourceOrder.2 hi) hnil]
    exact List.Pairwise.nil
  rw [or_iff_right hempty]
  -- the comparison of joined rows is that of choices
  have hlex : Sorted ι o.entries s.env (joinedRows rows s.sourceOrder) ↔
      (joinedRows rows s.sourceOrder).Pairwise fun c c' =>
        (List.compareLex (compareAt ι s.tableOrder) c c').isLE = true := by
    refine List.Pairwise.iff_of_mem fun hc hc' => ?_
    rw [compareAll_joined ι ho hvalid hseparate hc hc']
  have hlists : ∀ l ∈ s.sourceOrder.map (fun i => (rows i).map (i, ·)),
      Compares (compareAt ι s.tableOrder) l ∧
        l.Pairwise (fun a b => (compareAt ι s.tableOrder a b).isLE = true) ∧ l ≠ [] := by
    intro l hl
    obtain ⟨i, hi, rfl⟩ := List.mem_map.1 hl
    refine ⟨⟨fun x _ => ?_, fun x hx y hy => ?_⟩, ?_, ?_⟩
    · exact SortEntry.compareAll_self ι (s.tableOrder x.1) x.2.env
    · obtain ⟨row, -, rfl⟩ := List.mem_map.1 hx
      obtain ⟨row', -, rfl⟩ := List.mem_map.1 hy
      exact SortEntry.compareAll_swap ι (s.tableOrder i) row.env row'.env
    · rw [List.pairwise_map]
      exact hrows i
    · intro hnil
      exact hempty ⟨i, mem_sourceOrder.1 hi, List.map_eq_nil_iff.1 hnil⟩
  rw [hlex, joinedRows, pairwise_choices_iff (fun l hl => (hlists l hl).1)
    (fun l hl => (hlists l hl).2.1) (fun l hl => (hlists l hl).2.2), List.pairwise_map]
  refine List.Pairwise.iff fun i j => ?_
  unfold Distinct Ties
  rw [List.pairwise_map]
  simp only [List.forall_mem_map]
  exact Iff.rfl

/-- Rows for the two tables. -/
def pairRows (first second : List Int64) (i : Nat) : List (TableRow Empty) :=
  (if i = 0 then first else if i = 1 then second else []).map fun n _ => .plain (.int64 n)

/-- Rows of the first table that do not tie come out in the order of the statement. -/
theorem sorted_pairs_of_distinct : ∃ split o, pairs.split ⟨10000, 10000⟩ = .ok split ∧
    pairs.select.orderBy = some o ∧ split.remainingOrderBy = none ∧
    (∀ i, Sorted .integers (split.keysAt i) TableRow.env (pairRows [1, 2] [3, 4] i)) ∧
    Sorted .integers o.entries pairs.env
      (joinedRows (pairRows [1, 2] [3, 4]) (CrossJoin.joinOrder split.firstKeys)) := by
  refine ⟨_, _, rfl, rfl, rfl, ?_, ?_⟩
  · rintro (_ | _ | i)
    · unfold Sorted
      decide
    · unfold Sorted
      decide
    · exact List.Pairwise.nil
  · refine (sorted_joinedRows_iff .integers rfl rfl rfl ?_).2 (.inr ?_)
    · rintro (_ | _ | i)
      · unfold Sorted
        decide
      · unfold Sorted
        decide
      · exact List.Pairwise.nil
    · change (CrossJoin.joinOrder [some 0, some 1]).Pairwise _
      rw [joinOrder_pairs]
      decide

/-- Two rows of the first table that tie: the second table is walked twice, and its keys start
over. -/
theorem not_sorted_pairs_of_tie : ∃ split o, pairs.split ⟨10000, 10000⟩ = .ok split ∧
    pairs.select.orderBy = some o ∧ split.remainingOrderBy = none ∧
    (∀ i, Sorted .integers (split.keysAt i) TableRow.env (pairRows [1, 1] [3, 4] i)) ∧
    ¬Sorted .integers o.entries pairs.env
      (joinedRows (pairRows [1, 1] [3, 4]) (CrossJoin.joinOrder split.firstKeys)) := by
  refine ⟨_, _, rfl, rfl, rfl, ?_, ?_⟩
  · rintro (_ | _ | i)
    · unfold Sorted
      decide
    · unfold Sorted
      decide
    · exact List.Pairwise.nil
  · change ¬Sorted _ _ _ (joinedRows _ (CrossJoin.joinOrder [some 0, some 1]))
    rw [joinOrder_pairs]
    unfold Sorted
    decide

end Statement

end ShardJoin
