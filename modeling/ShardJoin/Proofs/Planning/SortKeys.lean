/-
The keys of an order by that are given to the tables.

If no key remains for the joined row, every table has the keys that refer to
it, and the sources are joined in the order in which their keys first appear.

* `Statement.flatMap_keysOf` — the positions of the keys, source by source in
  the order of the join, are all positions in order;
* `Statement.flatMap_tableOrder` — the keys of the tables, in the order of the
  join, are the keys of the statement with their flags.
-/
import ShardJoin.Proofs.Planning.Contract

namespace ShardJoin

theorem Option.mapM_eq_some {β γ : Type} {f : β → Option γ} {l : List β} {l' : List γ} :
    l.mapM f = some l' ↔ List.Forall₂ (fun b c => f b = some c) l l' := by
  induction l generalizing l' with
  | nil => simp [eq_comm]
  | cons b l ih =>
    rw [List.mapM_cons]
    constructor
    · intro h
      obtain ⟨c, hc, h⟩ := Option.bind_eq_some_iff.1 h
      obtain ⟨cs, hcs, h⟩ := Option.bind_eq_some_iff.1 h
      obtain rfl := Option.some.inj h
      exact .cons hc (ih.1 hcs)
    · intro h
      cases h with
      | cons hc hcs =>
        exact Option.bind_eq_some_iff.2 ⟨_, hc, Option.bind_eq_some_iff.2 ⟨_, ih.2 hcs, rfl⟩⟩

/-! ### Entries of an order by -/

namespace OrderBy

theorem getElem?_entries {o : OrderBy} {k : Nat} {entry : SortEntry} :
    o.entries[k]? = some entry ↔ o.keys[k]? = some entry.key ∧
      o.descending[k]? = some entry.descending ∧ o.nullsFirst[k]? = some entry.nullsFirst := by
  rw [entries, List.getElem?_map, Option.map_eq_some_iff]
  constructor
  · rintro ⟨⟨key, descending, nullsFirst⟩, h, rfl⟩
    rw [List.getElem?_zip_eq_some, List.getElem?_zip_eq_some] at h
    exact h
  · intro h
    refine ⟨(entry.key, entry.descending, entry.nullsFirst), ?_, rfl⟩
    rw [List.getElem?_zip_eq_some, List.getElem?_zip_eq_some]
    exact h

theorem validate_eq_ok {o : OrderBy} (h : o.validate = .ok ()) :
    o.descending.length = o.keys.length ∧ o.nullsFirst.length = o.keys.length := by
  unfold validate at h
  split at h
  · assumption
  · cases h

theorem length_entries {o : OrderBy} (h : o.validate = .ok ()) :
    o.entries.length = o.keys.length := by
  obtain ⟨hd, hn⟩ := validate_eq_ok h
  simp [entries, hd, hn]

/-- A part of an order by has the entries at the positions it was taken from. -/
theorem entries_of_subset? {o sub : OrderBy} {positions : List Nat}
    (h : o.subset? positions = some sub) :
    List.Forall₂ (fun k entry => o.entries[k]? = some entry) positions sub.entries := by
  obtain ⟨keys, hkeys, h⟩ := Option.bind_eq_some_iff.1 h
  obtain ⟨descending, hdescending, h⟩ := Option.bind_eq_some_iff.1 h
  obtain ⟨nullsFirst, hnullsFirst, h⟩ := Option.bind_eq_some_iff.1 h
  obtain rfl := Option.some.inj h
  rw [Option.mapM_eq_some] at hkeys hdescending hnullsFirst
  refine List.forall₂_iff_get.2 ⟨?_, fun i hi hi' => ?_⟩
  · simp [entries, ← hkeys.length_eq, ← hdescending.length_eq, ← hnullsFirst.length_eq]
  · obtain ⟨hkey, hflag, hplace⟩ := getElem?_entries.1 (List.getElem?_eq_getElem hi')
    obtain ⟨hk, heqk⟩ := List.getElem?_eq_some_iff.1 hkey
    obtain ⟨hd, heqd⟩ := List.getElem?_eq_some_iff.1 hflag
    obtain ⟨hn, heqn⟩ := List.getElem?_eq_some_iff.1 hplace
    refine getElem?_entries.2 ⟨?_, ?_, ?_⟩
    · simpa [heqk] using hkeys.get hi hk
    · simpa [heqd] using hdescending.get hi hd
    · simpa [heqn] using hnullsFirst.get hi hn

/-- The keys of a part of an order by are keys of the whole at the positions of the part. -/
theorem keys_of_subset? {o sub : OrderBy} {positions : List Nat}
    (h : o.subset? positions = some sub) :
    List.Forall₂ (fun k key => o.keys[k]? = some key) positions sub.keys := by
  obtain ⟨keys, hkeys, h⟩ := Option.bind_eq_some_iff.1 h
  obtain ⟨descending, -, h⟩ := Option.bind_eq_some_iff.1 h
  obtain ⟨nullsFirst, -, h⟩ := Option.bind_eq_some_iff.1 h
  obtain rfl := Option.some.inj h
  exact Option.mapM_eq_some.1 hkeys

theorem exists_subset? {o : OrderBy} (h : o.validate = .ok ()) {positions : List Nat}
    (hlt : ∀ k ∈ positions, k < o.keys.length) : ∃ sub, o.subset? positions = some sub := by
  obtain ⟨hd, hn⟩ := validate_eq_ok h
  have hall : ∀ {β : Type} {l : List β}, l.length = o.keys.length →
      ∃ l', positions.mapM (l[·]?) = some l' := by
    intro β l hl
    induction positions with
    | nil => exact ⟨[], rfl⟩
    | cons k positions ih =>
      rw [List.forall_mem_cons] at hlt
      obtain ⟨l', hl'⟩ := ih hlt.2
      refine ⟨l[k] :: l', Option.mapM_eq_some.2 (.cons ?_ (Option.mapM_eq_some.1 hl'))⟩
      exact List.getElem?_eq_getElem (hl ▸ hlt.1)
  obtain ⟨keys, hkeys⟩ := hall (l := o.keys) rfl
  obtain ⟨descending, hdescending⟩ := hall hd
  obtain ⟨nullsFirst, hnullsFirst⟩ := hall hn
  exact ⟨⟨keys, descending, nullsFirst⟩, by simp [subset?, hkeys, hdescending, hnullsFirst]⟩

end OrderBy

/-! ### Keys that stand together -/

namespace Statement

theorem mem_collapse {x : Option Nat} {l : List (Option Nat)} : x ∈ collapse l ↔ x ∈ l := by
  fun_induction collapse l with
  | case1 b rest ih => simp [ih]
  | case2 a b rest hne ih => rw [List.mem_cons, ih, List.mem_cons (b := a)]
  | case3 l => rfl

theorem nodup_collapse_tail {a : Option Nat} {l : List (Option Nat)}
    (h : (collapse (a :: l)).Nodup) : (collapse l).Nodup := by
  cases l with
  | nil => simp [collapse]
  | cons b rest =>
    rw [collapse] at h
    split at h
    · exact h
    · exact (List.nodup_cons.1 h).2

/-- An element that recurs without repetitions up to neighbours stands everywhere before. -/
theorem head_of_collapse {a : Option Nat} {l : List (Option Nat)}
    (h : (collapse (a :: l)).Nodup) {q r : Nat} (hqr : q ≤ r) (hr : (a :: l)[r]? = some a) :
    (a :: l)[q]? = some a := by
  induction l generalizing q r with
  | nil =>
    cases r with
    | zero =>
      obtain rfl := Nat.le_zero.1 hqr
      rfl
    | succ r => simp at hr
  | cons b rest ih =>
    cases q with
    | zero => rfl
    | succ q =>
      obtain ⟨r, rfl⟩ : ∃ r', r = r' + 1 := ⟨r - 1, by omega⟩
      rw [List.getElem?_cons_succ] at hr ⊢
      rw [collapse] at h
      split at h
      · rename_i hab
        subst hab
        exact ih h (by omega) hr
      · have hmem := mem_collapse.2 (List.mem_of_getElem? hr)
        exact absurd hmem (List.nodup_cons.1 h).1

/-- Equal elements stand together in a list without repetitions up to neighbours. -/
theorem between_of_collapse {l : List (Option Nat)} (h : (collapse l).Nodup) {x : Option Nat}
    {p q r : Nat} (hpq : p ≤ q) (hqr : q ≤ r) (hp : l[p]? = some x) (hr : l[r]? = some x) :
    l[q]? = some x := by
  induction l generalizing p q r with
  | nil => simp at hp
  | cons a l ih =>
    cases p with
    | zero =>
      obtain rfl : a = x := by simpa using hp
      exact head_of_collapse h hqr hr
    | succ p =>
      obtain ⟨q, rfl⟩ : ∃ q', q = q' + 1 := ⟨q - 1, by omega⟩
      obtain ⟨r, rfl⟩ : ∃ r', r = r' + 1 := ⟨r - 1, by omega⟩
      exact ih (nodup_collapse_tail h) (by omega) (by omega) hp hr

/-! ### Keys source by source -/

variable {s : Statement}

theorem mem_keysOf {i k : Nat} : k ∈ s.keysOf i ↔ s.keyHomes[k]? = some (some i) := by
  rw [keysOf, List.mem_filter, List.mem_range, beq_iff_eq]
  exact ⟨fun h => h.2, fun h => ⟨(List.getElem?_eq_some_iff.1 h).1, h⟩⟩

theorem pairwise_keysOf (s : Statement) (i : Nat) : (s.keysOf i).Pairwise (· < ·) :=
  List.pairwise_lt_range.filter _

/-- The first key of a source is the least of its keys. -/
theorem firstKeyOf?_of_mem {i k : Nat} (h : k ∈ s.keysOf i) :
    ∃ first ≤ k, s.firstKeyOf? i = some first ∧ first ∈ s.keysOf i := by
  have hk := mem_keysOf.1 h
  obtain ⟨hlt, heq⟩ := List.getElem?_eq_some_iff.1 hk
  have hsome : (s.firstKeyOf? i).isSome = true := by
    rw [firstKeyOf?, List.findIdx?_isSome, List.any_eq_true]
    exact ⟨_, List.getElem_mem hlt, by simp [heq]⟩
  obtain ⟨first, hfirst⟩ := Option.isSome_iff_exists.1 hsome
  obtain ⟨hlt', hhome, hbefore⟩ := List.findIdx?_eq_some_iff_getElem.1 hfirst
  refine ⟨first, ?_, hfirst, mem_keysOf.2 ?_⟩
  · by_contra hgt
    exact hbefore k (by omega) (by simp [heq])
  · rw [List.getElem?_eq_getElem hlt']
    simpa using hhome

theorem keyLE_trans (a b c : Option Nat) (h : CrossJoin.keyLE a b = true)
    (h' : CrossJoin.keyLE b c = true) : CrossJoin.keyLE a c = true := by
  cases a <;> cases b <;> cases c <;> simp_all [CrossJoin.keyLE]
  omega

theorem keyLE_total (a b : Option Nat) :
    (CrossJoin.keyLE a b || CrossJoin.keyLE b a) = true := by
  cases a <;> cases b <;> simp [CrossJoin.keyLE]
  omega

/-- The sources are joined in the order of their first keys. -/
theorem pairwise_sourceOrder (s : Statement) :
    s.sourceOrder.Pairwise fun i j => i ≠ j ∧
      CrossJoin.keyLE (s.firstKeyOf? i) (s.firstKeyOf? j) = true := by
  have hsorted : s.sourceOrder.Pairwise fun i j => CrossJoin.keyLE
      (((List.range s.sources.length).map s.firstKeyOf?)[i]?.getD none)
      (((List.range s.sources.length).map s.firstKeyOf?)[j]?.getD none) = true := by
    unfold sourceOrder CrossJoin.joinOrder
    refine List.pairwise_mergeSort (fun i j k => ?_) (fun i j => ?_) _
    · exact keyLE_trans _ _ _
    · exact keyLE_total _ _
  refine (s.nodup_sourceOrder.and hsorted).imp_of_mem fun {i j} hi hj h => ⟨h.1, ?_⟩
  rw [mem_sourceOrder] at hi hj
  simpa [hi, hj] using h.2

/-- The positions of the keys, source by source in the order of the join, are all positions. -/
theorem flatMap_keysOf (h : s.keysSeparate = true) :
    s.sourceOrder.flatMap s.keysOf = List.range s.keyHomes.length := by
  rw [keysSeparate, Bool.and_eq_true, List.all_eq_true, decide_eq_true_eq] at h
  obtain ⟨hhomes, htogether⟩ := h
  -- keys of a source that is joined earlier come earlier
  have hblocks : s.sourceOrder.Pairwise fun i j => ∀ a ∈ s.keysOf i, ∀ b ∈ s.keysOf j, a < b := by
    refine s.pairwise_sourceOrder.imp fun {i j} hij a ha b hb => ?_
    obtain ⟨hne, hle⟩ := hij
    obtain ⟨first, hfa, hfirst, hmem⟩ := firstKeyOf?_of_mem ha
    obtain ⟨first', hfb, hfirst', -⟩ := firstKeyOf?_of_mem hb
    rw [hfirst, hfirst', CrossJoin.keyLE, decide_eq_true_eq] at hle
    by_contra hba
    have := between_of_collapse htogether (q := b) (by omega) (by omega) (mem_keysOf.1 hmem)
      (mem_keysOf.1 ha)
    rw [mem_keysOf.1 hb] at this
    simp only [Option.some.injEq] at this
    exact hne this.symm
  have hsorted : (s.sourceOrder.flatMap s.keysOf).Pairwise (· < ·) :=
    List.pairwise_flatMap.2 ⟨fun i _ => s.pairwise_keysOf i, hblocks⟩
  have hmem : ∀ k, k ∈ s.sourceOrder.flatMap s.keysOf ↔ k ∈ List.range s.keyHomes.length := by
    intro k
    rw [List.mem_flatMap, List.mem_range]
    constructor
    · rintro ⟨i, -, hk⟩
      exact (List.getElem?_eq_some_iff.1 (mem_keysOf.1 hk)).1
    · intro hk
      have hsome := hhomes _ (List.getElem_mem hk)
      obtain ⟨table, htable⟩ := Option.isSome_iff_exists.1 hsome
      obtain ⟨i, hi, hat⟩ := Option.bind_eq_some_iff.1 htable
      refine ⟨i, mem_sourceOrder.2 ?_, mem_keysOf.2 (by rw [List.getElem?_eq_getElem hk, hi])⟩
      obtain ⟨x, hx, -⟩ := Option.bind_eq_some_iff.1 hat
      exact (List.getElem?_eq_some_iff.1 hx).1
  have hperm : (s.sourceOrder.flatMap s.keysOf).Perm (List.range s.keyHomes.length) :=
    (List.perm_ext_iff_of_nodup (hsorted.imp Nat.ne_of_lt) List.nodup_range).2 hmem
  exact hperm.eq_of_pairwise (fun a b _ _ hab hba => by omega) hsorted List.pairwise_lt_range

theorem length_keyHomes {o : OrderBy} (ho : s.select.orderBy = some o) :
    s.keyHomes.length = o.keys.length := by
  rw [keyHomes, List.length_map, sortKeys, ho]

/-- A table has the keys that refer to it, with their flags. -/
theorem tableOrder_spec {o : OrderBy} (ho : s.select.orderBy = some o)
    (hvalid : o.validate = .ok ()) (h : s.keysSeparate = true) (i : Nat) :
    List.Forall₂ (fun k entry => o.entries[k]? = some entry) (s.keysOf i) (s.tableOrder i) := by
  have hnone : s.remainingOrderBy = none := by rw [remainingOrderBy, if_pos h]
  have hlt : ∀ k ∈ s.keysOf i, k < o.keys.length := by
    intro k hk
    rw [← length_keyHomes ho]
    exact (List.getElem?_eq_some_iff.1 (mem_keysOf.1 hk)).1
  unfold tableOrder orderByOf
  rw [ho, hnone]
  cases hkeys : s.keysOf i with
  | nil => exact .nil
  | cons k ks =>
    rw [hkeys] at hlt
    obtain ⟨sub, hsub⟩ := OrderBy.exists_subset? hvalid hlt
    simp only [hsub]
    exact OrderBy.entries_of_subset? hsub

/-- The keys of the tables, in the order of the join, are the keys of the statement. -/
theorem flatMap_tableOrder {o : OrderBy} (ho : s.select.orderBy = some o)
    (hvalid : o.validate = .ok ()) (h : s.keysSeparate = true) :
    s.sourceOrder.flatMap s.tableOrder = o.entries := by
  have hall := forall₂_flatMap (l := s.sourceOrder) fun i _ => tableOrder_spec ho hvalid h i
  rw [flatMap_keysOf h, length_keyHomes ho, ← OrderBy.length_entries hvalid] at hall
  refine List.ext_getElem (by rw [← hall.length_eq, List.length_range]) fun k hk hk' => ?_
  have := hall.get (by rwa [List.length_range]) hk
  simp only [List.get_eq_getElem, List.getElem_range, List.getElem?_eq_getElem hk'] at this
  exact (Option.some.inj this).symm

/-! ### Two tables -/

/-- A table with one column of integers, under its own name. -/
def columnTable (name column : String) : TableRelation :=
  ⟨name, ⟨⟨"doc", name⟩, [⟨column, .int64⟩], [], []⟩⟩

/-- A statement over two such tables that is sorted by the column of the first, then by the
column of the second. -/
def pairs : Statement :=
  let columns := (columnTable "t" "a").allColumns ++ (columnTable "u" "b").allColumns
  .ofTables [columnTable "t" "a", columnTable "u" "b"]
    { Select.ofOutputs columns with orderBy := some (.asc columns) }

theorem joinOrder_pairs : CrossJoin.joinOrder [some 0, some 1] = [0, 1] :=
  List.mergeSort_of_pairwise (by decide)

theorem joinOrder_unsorted : CrossJoin.joinOrder [none, none] = [0, 1] :=
  List.mergeSort_of_pairwise (by decide)

end Statement

end ShardJoin
