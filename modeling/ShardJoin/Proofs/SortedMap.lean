/-
Entries of sorted maps up to order.

A map is a list of entries, but most facts about its content do not care where
an entry stands.  Removing a key takes one entry out of the list, storing one
puts one entry in, so sums over the values and questions of membership follow
from three permutations:

* `perm_of_get?` — a stored entry and the rest of the map;
* `perm_insert` — an insertion, as the new entry and the rest of the map;
* `erase_of_get?_eq_none` — a key without an entry has nothing to remove;
* `nodup_values` — values that are stored under one key each stand once in the list.

A map is also what storing its entries one after another gives (`ofList_entries`).
-/
import Mathlib.Data.List.Basic
import ShardJoin.SortedMap

namespace ShardJoin.SortedMap

variable {κ ν : Type} [Ord κ]

/-! ### Look-ups and entries -/

theorem lookup_eq_none_iff {k : κ} {l : List (κ × ν)} :
    lookup k l = none ↔ ∀ e ∈ l, compare k e.1 ≠ .eq := by
  induction l with
  | nil => simp [lookup]
  | cons e l ih =>
    rw [lookup, List.forall_mem_cons, ← ih]
    split <;> simp_all

theorem get?_eq_none_iff {m : SortedMap κ ν} {k : κ} :
    m.get? k = none ↔ ∀ e ∈ m.entries, compare k e.1 ≠ .eq :=
  lookup_eq_none_iff

/-- A key without an entry has nothing to remove. -/
theorem erase_of_get?_eq_none {m : SortedMap κ ν} {k : κ} (h : m.get? k = none) :
    m.erase k = m := by
  refine ext_entries (List.filter_eq_self.2 fun e he => ?_)
  simpa using get?_eq_none_iff.1 h e he

theorem mem_values_erase {m : SortedMap κ ν} {k : κ} {v : ν} (h : v ∈ (m.erase k).values) :
    v ∈ m.values :=
  (List.filter_sublist.map Prod.snd).subset h

section Lawful

variable [Std.LawfulEqOrd κ]

theorem mem_of_lookup {k : κ} {v : ν} {l : List (κ × ν)} (h : lookup k l = some v) :
    (k, v) ∈ l := by
  induction l with
  | nil => simp [lookup] at h
  | cons e l ih =>
    rw [lookup] at h
    split at h
    · rename_i hk
      obtain rfl : k = e.1 := Std.LawfulEqCmp.eq_of_compare hk
      obtain rfl : e.2 = v := by simpa using h
      exact List.mem_cons_self
    · exact List.mem_cons_of_mem _ (ih h)

/-- A stored entry and the entries of the other keys. -/
theorem perm_of_get? {m : SortedMap κ ν} {k : κ} {v : ν} (h : m.get? k = some v) :
    m.entries.Perm ((k, v) :: (m.erase k).entries) := by
  obtain ⟨l, sorted⟩ := m
  simp only [get?, erase, filter] at h ⊢
  induction l with
  | nil => simp [lookup] at h
  | cons e l ih =>
    have hl := List.pairwise_cons.1 sorted
    rw [lookup] at h
    by_cases hk : compare k e.1 = .eq
    · obtain rfl : k = e.1 := Std.LawfulEqCmp.eq_of_compare hk
      obtain rfl : e.2 = v := by simpa using h
      -- the list is strictly increasing, so no later entry has this key
      have hrest : l.filter (fun e' => decide (compare e.1 e'.1 ≠ .eq)) = l :=
        List.filter_eq_self.2 fun e' he' => by simp [hl.1 e' he']
      rw [List.filter_cons_of_neg (by simp), hrest]
    · have := ih hl.2 (by simpa [hk] using h)
      rw [List.filter_cons_of_pos (by simp [hk])]
      exact (this.cons e).trans (.swap ..)

theorem get?_eq_some_iff {m : SortedMap κ ν} {k : κ} {v : ν} :
    m.get? k = some v ↔ (k, v) ∈ m.entries := by
  refine ⟨mem_of_lookup, fun h => ?_⟩
  cases hk : m.get? k with
  | none => exact absurd Std.ReflOrd.compare_self (get?_eq_none_iff.1 hk _ h)
  | some w =>
    rcases List.mem_cons.1 ((perm_of_get? hk).mem_iff.1 h) with he | he
    · rw [(Prod.mk.inj he).2]
    · have := (List.mem_filter.1 he).2
      simp at this

/-- An insertion puts one entry beside those of the other keys. -/
theorem perm_insert [Std.TransOrd κ] (m : SortedMap κ ν) (k : κ) (v : ν) :
    (m.insert k v).entries.Perm ((k, v) :: (m.erase k).entries) := by
  obtain ⟨l, sorted⟩ := m
  simp only [insert, erase, filter]
  induction l with
  | nil => simp [insertEntry]
  | cons e l ih =>
    obtain ⟨k', v'⟩ := e
    have hl := List.pairwise_cons.1 sorted
    rw [insertEntry]
    cases hk : compare k k' with
    | lt =>
      have hrest : ∀ e' ∈ (k', v') :: l, compare k e'.1 ≠ .eq := by
        intro e' he'
        rcases List.mem_cons.1 he' with rfl | he'
        · simp [hk]
        · simp [Std.TransCmp.lt_trans hk (hl.1 e' he')]
      rw [List.filter_eq_self.2 fun e' he' => by simpa using hrest e' he']
    | eq =>
      obtain rfl : k = k' := Std.LawfulEqCmp.eq_of_compare hk
      have hrest : l.filter (fun e' => decide (compare k e'.1 ≠ .eq)) = l :=
        List.filter_eq_self.2 fun e' he' => by simp [hl.1 e' he']
      rw [List.filter_cons_of_neg (by simp), hrest]
    | gt =>
      rw [List.filter_cons_of_pos (by simp [hk])]
      exact ((ih hl.2).cons _).trans (.swap ..)

theorem mem_entries_erase {m : SortedMap κ ν} {k k' : κ} {v : ν} :
    (k', v) ∈ (m.erase k).entries ↔ k' ≠ k ∧ (k', v) ∈ m.entries := by
  rw [erase, filter, List.mem_filter, and_comm]
  have : compare k k' = .eq ↔ k' = k :=
    ⟨fun h => (Std.LawfulEqCmp.eq_of_compare h).symm, fun h => h ▸ Std.ReflOrd.compare_self⟩
  simp [this]

theorem get?_erase [DecidableEq κ] (m : SortedMap κ ν) (k k' : κ) :
    (m.erase k).get? k' = if k' = k then none else m.get? k' := by
  refine Option.ext fun v => ?_
  rw [get?_eq_some_iff, mem_entries_erase]
  by_cases hk : k' = k <;> simp [hk, get?_eq_some_iff]

theorem mem_keys_iff {m : SortedMap κ ν} {k : κ} : k ∈ m.keys ↔ ∃ v, m.get? k = some v := by
  simp [keys, get?_eq_some_iff]

theorem nodup_keys (m : SortedMap κ ν) : m.keys.Nodup := by
  refine List.pairwise_map.2 (m.sorted.imp fun {a b} hlt heq => ?_)
  rw [heq, Std.ReflOrd.compare_self] at hlt
  cases hlt

theorem mem_keys_insert [Std.TransOrd κ] {m : SortedMap κ ν} {k k' : κ} {v : ν} :
    k' ∈ (m.insert k v).keys ↔ k' = k ∨ k' ∈ m.keys := by
  classical
  rw [mem_keys_iff, mem_keys_iff]
  by_cases hk : k' = k <;> simp [hk]

theorem mem_values_iff {m : SortedMap κ ν} {v : ν} :
    v ∈ m.values ↔ ∃ k, m.get? k = some v := by
  simp [values, get?_eq_some_iff]

theorem values_perm_of_get? {m : SortedMap κ ν} {k : κ} {v : ν} (h : m.get? k = some v) :
    m.values.Perm (v :: (m.erase k).values) :=
  (perm_of_get? h).map Prod.snd

theorem values_perm_insert [Std.TransOrd κ] (m : SortedMap κ ν) (k : κ) (v : ν) :
    (m.insert k v).values.Perm (v :: (m.erase k).values) :=
  (perm_insert m k v).map Prod.snd

theorem mem_values_insert [Std.TransOrd κ] {m : SortedMap κ ν} {k : κ} {v w : ν}
    (h : w ∈ (m.insert k v).values) : w = v ∨ w ∈ m.values :=
  (List.mem_cons.1 ((values_perm_insert m k v).mem_iff.1 h)).imp_right mem_values_erase

/-- A map that stores no value twice lists none twice. -/
theorem nodup_values {m : SortedMap κ ν}
    (h : ∀ k k' v, m.get? k = some v → m.get? k' = some v → k = k') : m.values.Nodup := by
  refine List.pairwise_map.2 (List.Pairwise.imp_of_mem ?_ m.sorted)
  intro a b ha hb hlt heq
  -- two entries with one value have one key
  have hkey := h a.1 b.1 a.2 (get?_eq_some_iff.2 ha) (get?_eq_some_iff.2 (heq ▸ hb))
  rw [hkey, Std.ReflOrd.compare_self] at hlt
  cases hlt

/-- A map in which nothing is stored is empty. -/
theorem size_eq_zero {m : SortedMap κ ν} (h : ∀ k, m.get? k = none) : m.size = 0 := by
  rw [size, List.length_eq_zero_iff, List.eq_nil_iff_forall_not_mem]
  rintro ⟨k, v⟩ hmem
  have hsome := get?_eq_some_iff.2 hmem
  rw [h k] at hsome
  cases hsome

end Lawful

/-! ### Maps from their entries -/

theorem insertEntry_of_forall_lt [Std.OrientedOrd κ] {k : κ} {v : ν} {l : List (κ × ν)}
    (h : ∀ e ∈ l, compare e.1 k = .lt) : insertEntry k v l = l ++ [(k, v)] := by
  induction l with
  | nil => rfl
  | cons e l ih =>
    obtain ⟨he, hl⟩ := List.forall_mem_cons.1 h
    rw [insertEntry, Std.OrientedCmp.gt_iff_lt.2 he, ih hl]
    rfl

/-- Entries that come in order are stored one behind the other. -/
theorem entries_insertAll [Std.TransOrd κ] [Std.LawfulEqOrd κ] (m : SortedMap κ ν)
    {l : List (κ × ν)} (h : (m.entries ++ l).Pairwise fun a b => compare a.1 b.1 = .lt) :
    (m.insertAll l).entries = m.entries ++ l := by
  induction l generalizing m with
  | nil => simp [insertAll]
  | cons e l ih =>
    have hlast : (m.insert e.1 e.2).entries = m.entries ++ [e] :=
      insertEntry_of_forall_lt fun e' he' =>
        (List.pairwise_append.1 h).2.2 e' he' e List.mem_cons_self
    have hrest := ih (m.insert e.1 e.2) (by rwa [hlast, List.append_assoc])
    rwa [hlast, List.append_assoc] at hrest

/-- A map is made of its entries. -/
theorem ofList_entries [Std.TransOrd κ] [Std.LawfulEqOrd κ] (m : SortedMap κ ν) :
    ofList m.entries = m :=
  ext_entries (entries_insertAll empty m.sorted)

theorem mem_of_mem_entries_insertAll [Std.TransOrd κ] [Std.LawfulEqOrd κ] {m : SortedMap κ ν}
    {l : List (κ × ν)} {e : κ × ν} (h : e ∈ (m.insertAll l).entries) : e ∈ m.entries ∨ e ∈ l := by
  induction l generalizing m with
  | nil => exact .inl h
  | cons e' l ih =>
    rcases ih h with h | h
    · rcases mem_insertEntry h with rfl | h
      · exact .inr List.mem_cons_self
      · exact .inl h
    · exact .inr (List.mem_cons_of_mem _ h)

theorem mem_keys_insertAll [Std.TransOrd κ] [Std.LawfulEqOrd κ] {m : SortedMap κ ν}
    {l : List (κ × ν)} {k : κ} : k ∈ (m.insertAll l).keys ↔ k ∈ m.keys ∨ k ∈ l.map (·.1) := by
  induction l generalizing m with
  | nil => simp [insertAll]
  | cons e l ih =>
    have hstep : m.insertAll (e :: l) = (m.insert e.1 e.2).insertAll l := rfl
    rw [hstep, ih, mem_keys_insert, List.map_cons, List.mem_cons, or_assoc, or_left_comm]

/-- A map from a list has the keys of the list. -/
theorem mem_keys_ofList [Std.TransOrd κ] [Std.LawfulEqOrd κ] {l : List (κ × ν)} {k : κ} :
    k ∈ (ofList l).keys ↔ k ∈ l.map (·.1) :=
  mem_keys_insertAll.trans (or_iff_right List.not_mem_nil)

theorem mem_of_mem_entries_ofList [Std.TransOrd κ] [Std.LawfulEqOrd κ] {l : List (κ × ν)}
    {e : κ × ν} (h : e ∈ (ofList l).entries) : e ∈ l :=
  (mem_of_mem_entries_insertAll h).resolve_left List.not_mem_nil

/-- If equal keys have equal values, the order in which entries are stored does not matter. -/
theorem get?_ofList_iff [Std.TransOrd κ] [Std.LawfulEqOrd κ] {l : List (κ × ν)}
    (h : ∀ k v w, (k, v) ∈ l → (k, w) ∈ l → v = w) {k : κ} {v : ν} :
    (ofList l).get? k = some v ↔ (k, v) ∈ l := by
  constructor
  · intro hget
    exact mem_of_mem_entries_ofList (get?_eq_some_iff.1 hget)
  · intro hmem
    obtain ⟨w, hw⟩ := mem_keys_iff.1 (mem_keys_ofList.2 (List.mem_map_of_mem hmem))
    rw [hw, h k w v (mem_of_mem_entries_ofList (get?_eq_some_iff.1 hw)) hmem]

end ShardJoin.SortedMap
