/-
Sorting rows by the keys of an order by.

Rows are compared key by key.  A null goes before or after everything else,
as the key says or by default; other data are compared by the interpretation,
the other way round for a descending key.  Sorting is stable, so it commutes
with dropping rows.

* `SortEntry.compareAll` — the comparison of rows, total and transitive;
* `sortBy_filter` — sorting and then dropping rows, or the other way round;
* `sortBy_map` — sorting rows by keys that have the same values on them.
-/
import ShardJoin.Proofs.Expr.Evaluation
import ShardJoin.Select

namespace ShardJoin

/-! ### Stable sorting -/

section StableSort

variable {β : Type} {le : β → β → Bool}

/-- A stable sort puts an element between those that are smaller and the others. -/
theorem mergeSort_cons_eq (htrans : ∀ a b c, le a b = true → le b c = true → le a c = true)
    (htotal : ∀ a b, (le a b || le b a) = true) (a : β) (l : List β) :
    ∃ before after, (a :: l).mergeSort le = before ++ a :: after ∧
      l.mergeSort le = before ++ after ∧
      before = (l.mergeSort le).filter (!le a ·) ∧ after = (l.mergeSort le).filter (le a) := by
  obtain ⟨before, after, hcons, hl, hbefore⟩ := List.mergeSort_cons htrans htotal a l
  have hafter : ∀ b ∈ after, le a b = true := by
    have hsorted := List.pairwise_mergeSort htrans htotal (a :: l)
    rw [hcons, List.pairwise_append, List.pairwise_cons] at hsorted
    exact hsorted.2.1.1
  refine ⟨before, after, hcons, hl, ?_, ?_⟩
  · rw [hl, List.filter_append, List.filter_eq_self.2 hbefore,
      List.filter_eq_nil_iff.2 fun b hb => by simpa using hafter b hb, List.append_nil]
  · rw [hl, List.filter_append, List.filter_eq_self.2 hafter,
      List.filter_eq_nil_iff.2 fun b hb => by simpa using hbefore b hb, List.nil_append]

/-- Dropping elements before or after a stable sort makes no difference. -/
theorem filter_mergeSort (htrans : ∀ a b c, le a b = true → le b c = true → le a c = true)
    (htotal : ∀ a b, (le a b || le b a) = true) (p : β → Bool) (l : List β) :
    (l.mergeSort le).filter p = (l.filter p).mergeSort le := by
  induction l with
  | nil => simp
  | cons a l ih =>
    obtain ⟨before, after, hcons, hl, hbefore, hafter⟩ := mergeSort_cons_eq htrans htotal a l
    cases hp : p a with
    | false =>
      rw [List.filter_cons_of_neg (by simp [hp]), ← ih, hcons, hl, List.filter_append,
        List.filter_append, List.filter_cons_of_neg (by simp [hp])]
    | true =>
      obtain ⟨before', after', hcons', -, hbefore', hafter'⟩ :=
        mergeSort_cons_eq htrans htotal a (l.filter p)
      have hcomm : ∀ q : β → Bool,
          ((l.mergeSort le).filter q).filter p = ((l.filter p).mergeSort le).filter q := by
        intro q
        rw [← ih, List.filter_filter, List.filter_filter]
        exact List.filter_congr fun b _ => Bool.and_comm _ _
      rw [List.filter_cons_of_pos hp, hcons, hcons', List.filter_append,
        List.filter_cons_of_pos hp, hbefore, hafter, hbefore', hafter', hcomm, hcomm]

end StableSort

/-! ### Comparing rows -/

/-- A key to sort by, with its direction and null placement. -/
structure SortEntry where
  key : Expr
  descending : Bool
  nullsFirst : Option Bool

namespace SortEntry

variable {α : Type} (ι : Interpretation α)

/-- Compares two data as the flags of a key say. -/
def compareData (s : SortEntry) (a b : Datum α) : Ordering :=
  let first := s.nullsFirst.getD (ι.nullsFirst s.descending)
  match a.isNull, b.isNull with
  | true, true => .eq
  | true, false => if first then .lt else .gt
  | false, true => if first then .gt else .lt
  | false, false => if s.descending then ι.order b a else ι.order a b

/-- Compares two rows by a key. -/
def compareRows (s : SortEntry) (a b : Env α) : Ordering :=
  s.compareData ι (s.key.eval ι a) (s.key.eval ι b)

/-- Compares two rows by keys, the first of which counts most. -/
def compareAll : List SortEntry → Env α → Env α → Ordering
  | [], _, _ => .eq
  | s :: rest, a, b => (s.compareRows ι a b).then (compareAll rest a b)

instance (s : SortEntry) : Std.TransCmp (s.compareData ι) where
  eq_swap {a b} := by
    have := ι.order_trans
    unfold compareData
    cases a.isNull <;> cases b.isNull <;> simp only
    · split <;> exact Std.OrientedCmp.eq_swap
    · split <;> rfl
    · split <;> rfl
    · rfl
  isLE_trans {a b c} h h' := by
    have := ι.order_trans
    unfold compareData at h h' ⊢
    generalize s.nullsFirst.getD (ι.nullsFirst s.descending) = first at h h' ⊢
    cases ha : a.isNull <;> cases hb : b.isNull <;> cases hc : c.isNull <;>
      simp only [ha, hb, hc] at h h' ⊢
    case false.false.false =>
      cases hs : s.descending with
      | true =>
        simp only [hs, if_true] at h h' ⊢
        exact Std.TransCmp.isLE_trans h' h
      | false =>
        simp only [hs, Bool.false_eq_true, if_false] at h h' ⊢
        exact Std.TransCmp.isLE_trans h h'
    all_goals cases first <;> simp_all

instance (s : SortEntry) : Std.TransCmp (s.compareRows ι) where
  eq_swap {_ _} := @Std.OrientedCmp.eq_swap _ (s.compareData ι) _ _ _
  isLE_trans h h' := @Std.TransCmp.isLE_trans _ (s.compareData ι) _ _ _ _ h h'

theorem compareAll_cons (s : SortEntry) (rest : List SortEntry) :
    compareAll ι (s :: rest) = compareLex (s.compareRows ι) (compareAll ι rest) := rfl

instance compareAll_trans (entries : List SortEntry) : Std.TransCmp (compareAll ι entries) := by
  induction entries with
  | nil => exact { eq_swap := rfl, isLE_trans := fun _ _ => rfl }
  | cons s rest ih =>
    rw [compareAll_cons]
    infer_instance

theorem compareAll_self (entries : List SortEntry) (a : Env α) :
    compareAll ι entries a a = .eq :=
  @Std.ReflCmp.compare_self _ (compareAll ι entries) _ a

theorem compareAll_swap (entries : List SortEntry) (a b : Env α) :
    compareAll ι entries a b = (compareAll ι entries b a).swap :=
  @Std.OrientedCmp.eq_swap _ (compareAll ι entries) _ a b

/-- The comparison depends only on the values of the keys. -/
theorem compareAll_congr (f : Expr → Expr) {entries : List SortEntry} {a b a' b' : Env α}
    (ha : ∀ s ∈ entries, (f s.key).eval ι a' = s.key.eval ι a)
    (hb : ∀ s ∈ entries, (f s.key).eval ι b' = s.key.eval ι b) :
    compareAll ι (entries.map fun s => { s with key := f s.key }) a' b' =
      compareAll ι entries a b := by
  induction entries with
  | nil => rfl
  | cons s rest ih =>
    have hs : compareRows ι { s with key := f s.key } a' b' = s.compareRows ι a b := by
      unfold compareRows
      rw [ha s List.mem_cons_self, hb s List.mem_cons_self]
      rfl
    rw [List.map_cons, compareAll, compareAll, hs,
      ih (fun t ht => ha t (List.mem_cons_of_mem _ ht))
        fun t ht => hb t (List.mem_cons_of_mem _ ht)]

end SortEntry

/-! ### Sorting -/

/-- The keys of an order by with their flags. -/
def OrderBy.entries (o : OrderBy) : List SortEntry :=
  (o.keys.zip (o.descending.zip o.nullsFirst)).map fun (key, descending, nullsFirst) =>
    ⟨key, descending, nullsFirst⟩

/-- What to sort by, if at all. -/
def OrderBy.entriesOf : Option OrderBy → List SortEntry
  | some o => o.entries
  | none => []

theorem OrderBy.entries_mapKeys (f : Expr → Expr) (o : OrderBy) :
    (o.mapKeys f).entries = o.entries.map fun s => { s with key := f s.key } := by
  unfold entries mapKeys
  rw [List.zip_map_left, List.map_map, List.map_map]
  rfl

theorem OrderBy.key_mem {o : OrderBy} {s : SortEntry} (h : s ∈ o.entries) : s.key ∈ o.keys := by
  obtain ⟨p, hp, rfl⟩ := List.mem_map.1 h
  exact (List.of_mem_zip hp).1

section SortBy

variable {α β : Type} (ι : Interpretation α)

/-- Whether rows are in the order of some keys. -/
def Sorted (entries : List SortEntry) (env : β → Env α) (rows : List β) : Prop :=
  rows.Pairwise fun a b => (SortEntry.compareAll ι entries (env a) (env b)).isLE = true

/-- Rows in the order of some keys; rows with equal keys keep their order. -/
def sortBy (entries : List SortEntry) (env : β → Env α) (rows : List β) : List β :=
  rows.mergeSort fun a b => (SortEntry.compareAll ι entries (env a) (env b)).isLE

variable (entries : List SortEntry) (env : β → Env α)

theorem compareAll_isLE_trans (a b c : β)
    (h : (SortEntry.compareAll ι entries (env a) (env b)).isLE = true)
    (h' : (SortEntry.compareAll ι entries (env b) (env c)).isLE = true) :
    (SortEntry.compareAll ι entries (env a) (env c)).isLE = true :=
  Std.TransCmp.isLE_trans h h'

theorem compareAll_isLE_total (a b : β) :
    ((SortEntry.compareAll ι entries (env a) (env b)).isLE ||
      (SortEntry.compareAll ι entries (env b) (env a)).isLE) = true := by
  rw [SortEntry.compareAll_swap ι entries (env b)]
  cases SortEntry.compareAll ι entries (env a) (env b) <;> rfl

theorem sortBy_of_sorted {rows : List β} (h : Sorted ι entries env rows) :
    sortBy ι entries env rows = rows :=
  List.mergeSort_of_pairwise h

theorem sortBy_nil (rows : List β) : sortBy ι [] env rows = rows :=
  sortBy_of_sorted ι [] env (List.pairwise_of_forall fun _ _ => rfl)

theorem sortBy_perm (rows : List β) : (sortBy ι entries env rows).Perm rows :=
  List.mergeSort_perm rows _

/-- Sorting and then dropping rows, or the other way round. -/
theorem sortBy_filter (p : β → Bool) (rows : List β) :
    (sortBy ι entries env rows).filter p = sortBy ι entries env (rows.filter p) :=
  filter_mergeSort (compareAll_isLE_trans ι entries env) (compareAll_isLE_total ι entries env)
    p rows

/-- Rows that are mapped to others on which the mapped keys have the same values are sorted as
they would be themselves. -/
theorem sortBy_map {γ : Type} (f : Expr → Expr) {env' : γ → Env α} (g : β → γ) (rows : List β)
    (h : ∀ a ∈ rows, ∀ s ∈ entries, (f s.key).eval ι (env' (g a)) = s.key.eval ι (env a)) :
    sortBy ι (entries.map fun s => { s with key := f s.key }) env' (rows.map g) =
      (sortBy ι entries env rows).map g := by
  refine (List.map_mergeSort fun a ha b hb => ?_).symm
  rw [SortEntry.compareAll_congr ι f (h a ha) (h b hb)]

end SortBy

end ShardJoin
