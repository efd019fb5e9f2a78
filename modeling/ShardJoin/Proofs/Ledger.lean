/-
What a ledger shows.

The changes of all series with one key are put together under the label values
that came first.  So what is shown of a series is the count of its key; a series
that is told apart from all others that were counted has the count of its own
changes.

* `Ledger.total_countsBy` — putting changes together keeps what they amount to;
* `Ledger.count_of_mem_countsBy` — what is shown of a series is its count;
* `Ledger.count_eq` — the count of a series that is told apart.
-/
import ShardJoin.Ledger

namespace ShardJoin

variable {κ : Type} [DecidableEq κ] {key : List String → κ}

namespace Series

variable {s t u : Series}

theorem alike_iff : s.alike key t = true ↔ s.family = t.family ∧ key s.values = key t.values := by
  simp [alike]

theorem alike_self (s : Series) : s.alike key s = true := alike_iff.2 ⟨rfl, rfl⟩

theorem alike_comm (s t : Series) : s.alike key t = t.alike key s := by
  rw [Bool.eq_iff_iff, alike_iff, alike_iff]
  exact ⟨fun h => ⟨h.1.symm, h.2.symm⟩, fun h => ⟨h.1.symm, h.2.symm⟩⟩

theorem alike_congr (h : t.alike key u = true) (s : Series) : s.alike key t = s.alike key u := by
  obtain ⟨hfamily, hkey⟩ := alike_iff.1 h
  rw [alike, alike, hfamily, hkey]

end Series

namespace Ledger

theorem total_congr {p q : Series → Bool} {changes : List (Series × Int)}
    (h : ∀ e ∈ changes, p e.1 = q e.1) : total p changes = total q changes := by
  induction changes with
  | nil => rfl
  | cons e changes ih =>
    rw [List.forall_mem_cons] at h
    rw [total, total, h.1, ih h.2]

theorem total_eq_zero {p : Series → Bool} {changes : List (Series × Int)}
    (h : ∀ e ∈ changes, p e.1 = false) : total p changes = 0 := by
  induction changes with
  | nil => rfl
  | cons e changes ih =>
    rw [List.forall_mem_cons] at h
    rw [total, h.1, ih h.2]
    rfl

/-! ### Counts that are shown -/

theorem total_addEntry (s u : Series) (n : Int) (counts : List (Series × Int)) :
    total (u.alike key) (addEntry key s n counts) =
      total (u.alike key) counts + if u.alike key s then n else 0 := by
  induction counts with
  | nil => simp [addEntry, total]
  | cons e counts ih =>
    obtain ⟨t, m⟩ := e
    rw [addEntry]
    split
    · rename_i halike
      simp only [total, Series.alike_congr halike u]
      split <;> omega
    · simp only [total, ih]
      omega

theorem total_countsBy (l : Ledger) (u : Series) :
    total (u.alike key) (l.countsBy key) = l.count key u := by
  suffices h : ∀ changes counts : List (Series × Int),
      total (u.alike key) (changes.foldl (fun counts e => addEntry key e.1 e.2 counts) counts) =
        total (u.alike key) counts + total (u.alike key) changes by
    rw [countsBy, h, total, Int.zero_add, count]
  intro changes
  induction changes with
  | nil => simp [total]
  | cons e changes ih =>
    intro counts
    rw [List.foldl_cons, ih, total_addEntry, total, Int.add_assoc]

/-- A count is added to where its key stands already, or else at the end. -/
theorem map_addEntry (key : List String → κ) (s : Series) (n : Int) (counts : List (Series × Int)) :
    (addEntry key s n counts).map (·.1) = counts.map (·.1) ∨
      (∀ e ∈ counts, e.1.alike key s = false) ∧
        (addEntry key s n counts).map (·.1) = counts.map (·.1) ++ [s] := by
  induction counts with
  | nil => exact .inr ⟨List.forall_mem_nil _, rfl⟩
  | cons e counts ih =>
    obtain ⟨t, m⟩ := e
    rw [addEntry]
    split
    · exact .inl rfl
    · rename_i hnot
      rcases ih with heq | ⟨hnone, heq⟩
      · exact .inl (congrArg (t :: ·) heq)
      · exact .inr ⟨List.forall_mem_cons.2 ⟨Bool.eq_false_iff.2 hnot, hnone⟩,
          congrArg (t :: ·) heq⟩

/-- Every key is shown once. -/
theorem pairwise_countsBy (l : Ledger) :
    ((l.countsBy key).map (·.1)).Pairwise fun s t => s.alike key t = false := by
  suffices h : ∀ changes counts : List (Series × Int),
      (counts.map (·.1)).Pairwise (fun s t => s.alike key t = false) →
      ((changes.foldl (fun counts e => addEntry key e.1 e.2 counts) counts).map (·.1)).Pairwise
        fun s t => s.alike key t = false from h l.changes [] List.Pairwise.nil
  intro changes
  induction changes with
  | nil => exact fun _ h => h
  | cons e changes ih =>
    intro counts hcounts
    refine ih _ ?_
    rcases map_addEntry key e.1 e.2 counts with heq | ⟨hnone, heq⟩
    · rwa [heq]
    · rw [heq, List.pairwise_append]
      refine ⟨hcounts, List.pairwise_singleton .., fun s hs t ht => ?_⟩
      obtain ⟨e', he', rfl⟩ := List.mem_map.1 hs
      rw [List.mem_singleton.1 ht]
      exact hnone e' he'

theorem total_of_mem {s : Series} {n : Int} {counts : List (Series × Int)}
    (hcounts : (counts.map (·.1)).Pairwise fun s t => s.alike key t = false)
    (h : (s, n) ∈ counts) : total (s.alike key) counts = n := by
  induction counts with
  | nil => cases h
  | cons e counts ih =>
    obtain ⟨hfirst, hrest⟩ := List.pairwise_cons.1 hcounts
    rcases List.mem_cons.1 h with rfl | hmem
    · have hzero : total (s.alike key) counts = 0 :=
        total_eq_zero fun e he => hfirst e.1 (List.mem_map_of_mem he)
      rw [total, hzero, if_pos (Series.alike_self s), Int.add_zero]
    · have hnot : s.alike key e.1 = false := by
        rw [Series.alike_comm]
        exact hfirst s (List.mem_map_of_mem hmem)
      rw [total, hnot, ih hrest hmem]
      exact Int.zero_add n

/-- What is shown of a series is its count. -/
theorem count_of_mem_countsBy {l : Ledger} {s : Series} {n : Int} (h : (s, n) ∈ l.countsBy key) :
    l.count key s = n := by
  rw [← total_countsBy, total_of_mem (pairwise_countsBy l) h]

/-! ### Series that are told apart -/

/-- The count of a series that has the key of no other one that was counted. -/
theorem count_eq {l : Ledger} {s : Series}
    (h : ∀ e ∈ l.changes, s.alike key e.1 = true → e.1 = s) :
    l.count key s = total (· == s) l.changes := by
  refine total_congr fun e he => ?_
  rw [Bool.eq_iff_iff, beq_iff_eq]
  exact ⟨h e he, fun heq => heq ▸ Series.alike_self e.1⟩

end Ledger

end ShardJoin
