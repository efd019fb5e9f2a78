/-
All ways to choose one element of each list, as nested loops enumerate them.

The first list is the outermost loop.

* `mem_choices` — a choice takes each element from its list;
* `choices_append_singleton` — one more loop inside all others;
* `choices_filter` — elements can be dropped before or after choosing;
* `foldl_flatMap_append` — rows that are joined list by list;
* `choices_take_congr` — the first choices only need the first elements of each
  list;
* `pairwise_choices_iff` — when the choices from sorted lists are sorted.
-/
import Mathlib.Data.List.Forall2

namespace ShardJoin

variable {β γ : Type}

/-- One element of each list, in the order of nested loops. -/
def choices : List (List β) → List (List β)
  | [] => [[]]
  | l :: ls => l.flatMap fun a => (choices ls).map (a :: ·)

theorem mem_choices {ls : List (List β)} {c : List β} :
    c ∈ choices ls ↔ List.Forall₂ (· ∈ ·) c ls := by
  induction ls generalizing c with
  | nil => simp [choices]
  | cons l ls ih =>
    rw [choices, List.mem_flatMap]
    constructor
    · rintro ⟨a, ha, hc⟩
      obtain ⟨rest, hrest, rfl⟩ := List.mem_map.1 hc
      exact .cons ha (ih.1 hrest)
    · intro h
      cases h with
      | cons ha hrest => exact ⟨_, ha, List.mem_map.2 ⟨_, ih.2 hrest, rfl⟩⟩

/-- Nothing can be chosen from an empty list. -/
theorem choices_eq_nil_iff {ls : List (List β)} : choices ls = [] ↔ [] ∈ ls := by
  induction ls with
  | nil => simp [choices]
  | cons l ls ih =>
    cases l with
    | nil => simp [choices]
    | cons a l =>
      simp only [choices, List.flatMap_eq_nil_iff, List.map_eq_nil_iff, List.mem_cons,
        reduceCtorEq, false_or, ih]
      exact ⟨fun h => h a (.inl rfl), fun h _ _ => h⟩

theorem choices_map (f : β → γ) (ls : List (List β)) :
    choices (ls.map (List.map f)) = (choices ls).map (List.map f) := by
  induction ls with
  | nil => rfl
  | cons l ls ih =>
    rw [List.map_cons, choices, choices, ih, List.flatMap_map, List.map_flatMap]
    refine congrArg (l.flatMap ·) (funext fun a => ?_)
    rw [List.map_map, List.map_map]
    rfl

/-- One more loop inside all others. -/
theorem choices_append_singleton (ls : List (List β)) (l : List β) :
    choices (ls ++ [l]) = (choices ls).flatMap fun c => l.map fun a => c ++ [a] := by
  induction ls with
  | nil => simp [choices, List.map_eq_flatMap]
  | cons l' ls ih =>
    rw [List.cons_append, choices, choices, ih, List.flatMap_assoc]
    refine congrArg (l'.flatMap ·) (funext fun a => ?_)
    rw [List.map_flatMap, List.flatMap_map]
    refine congrArg ((choices ls).flatMap ·) (funext fun c => ?_)
    rw [List.map_map]
    rfl

/-- Elements can be dropped before or after choosing. -/
theorem choices_filter (p : β → Bool) (ls : List (List β)) :
    choices (ls.map (List.filter p)) = (choices ls).filter (List.all · p) := by
  induction ls with
  | nil => rfl
  | cons l ls ih =>
    rw [List.map_cons, choices, choices, ih, List.filter_flatMap]
    induction l with
    | nil => rfl
    | cons a l ihl =>
      have hrest : ((choices ls).map (a :: ·)).filter (List.all · p) =
          if p a then ((choices ls).filter (List.all · p)).map (a :: ·) else [] := by
        rw [List.filter_map]
        split
        · rename_i ha
          refine congrArg _ (List.filter_congr fun c _ => ?_)
          rw [Function.comp_apply, List.all_cons, ha, Bool.true_and]
        · rename_i ha
          rw [List.filter_eq_nil_iff.2 fun c _ => by simp [ha], List.map_nil]
      rw [List.flatMap_cons, hrest, ← ihl]
      cases ha : p a with
      | true => rw [List.filter_cons_of_pos ha, List.flatMap_cons, if_pos rfl]
      | false => rw [List.filter_cons_of_neg (by simp [ha]), if_neg (by simp), List.nil_append]

/-- Rows that grow from left to right, one list at a time, are the concatenated choices. -/
theorem foldl_flatMap_append (ls : List (List (List γ))) :
    ls.foldl (fun rows l => rows.flatMap fun a => l.map (a ++ ·)) [[]] =
      (choices ls).map List.flatten := by
  have hgrow : ∀ done : List (List (List γ)),
      ls.foldl (fun rows l => rows.flatMap fun a => l.map (a ++ ·))
        ((choices done).map List.flatten) = (choices (done ++ ls)).map List.flatten := by
    induction ls with
    | nil => simp
    | cons l ls ih =>
      intro done
      have hstep : ((choices done).map List.flatten).flatMap (fun a => l.map (a ++ ·)) =
          (choices (done ++ [l])).map List.flatten := by
        rw [choices_append_singleton, List.flatMap_map, List.map_flatMap]
        refine congrArg ((choices done).flatMap ·) (funext fun c => ?_)
        simp [List.map_map, Function.comp_def]
      rw [List.foldl_cons, hstep, ih, List.append_assoc, List.singleton_append]
  exact hgrow []

/-! ### The first choices -/

theorem take_flatMap_take (f : β → List γ) {n m : Nat} (h : m ≤ n) (l : List β) :
    (l.flatMap fun a => (f a).take n).take m = (l.flatMap f).take m := by
  induction l generalizing m with
  | nil => rfl
  | cons a l ih =>
    rw [List.flatMap_cons, List.flatMap_cons, List.take_append, List.take_append, List.take_take,
      Nat.min_eq_left h, List.length_take]
    by_cases hlen : (f a).length ≤ n
    · rw [Nat.min_eq_right hlen, ih (by omega)]
    · -- the first block alone is long enough
      rw [Nat.min_eq_left (by omega), Nat.sub_eq_zero_of_le h,
        Nat.sub_eq_zero_of_le (by omega : m ≤ (f a).length), List.take_zero, List.take_zero]

theorem take_flatMap (f : β → List γ) {n m : Nat} (h : m ≤ n) {l : List β}
    (hne : ∀ a ∈ l, f a ≠ []) : ((l.take n).flatMap f).take m = (l.flatMap f).take m := by
  induction l generalizing n m with
  | nil => simp
  | cons a l ih =>
    cases n with
    | zero => simp [Nat.le_zero.1 h]
    | succ n =>
      have hpos : 0 < (f a).length := List.length_pos_iff.2 (hne a List.mem_cons_self)
      rw [List.take_succ_cons, List.flatMap_cons, List.flatMap_cons, List.take_append,
        List.take_append, ih (by omega) fun b hb => hne b (List.mem_cons_of_mem _ hb)]

/-- The first choices only need the first elements of each list. -/
theorem choices_take (n : Nat) (ls : List (List β)) :
    (choices (ls.map (List.take n))).take n = (choices ls).take n := by
  induction ls with
  | nil => rfl
  | cons l ls ih =>
    rw [List.map_cons, choices, choices, ← take_flatMap_take _ (Nat.le_refl n) (l.take n)]
    have hinner : (fun a => ((choices (ls.map (List.take n))).map (a :: ·)).take n) =
        fun a => ((choices ls).map (a :: ·)).take n := by
      funext a
      rw [← List.map_take, ih, List.map_take]
    rw [hinner, take_flatMap_take _ (Nat.le_refl n)]
    by_cases hnil : choices ls = []
    · have hnone : ∀ l : List β, (l.flatMap fun a => (choices ls).map (a :: ·)) = [] := by
        intro l
        rw [List.flatMap_eq_nil_iff]
        simp [hnil]
      rw [hnone, hnone]
    · exact take_flatMap _ (Nat.le_refl n) fun a _ => by simpa using hnil

/-- Lists that start alike have the same first choices. -/
theorem choices_take_congr {n : Nat} {ls ls' : List (List β)}
    (h : ls.map (List.take n) = ls'.map (List.take n)) :
    (choices ls).take n = (choices ls').take n := by
  rw [← choices_take, h, choices_take]

/-! ### The order of choices -/

section Order

variable {cmp : β → β → Ordering}

/-- A comparison of the elements of a list with each other. -/
structure Compares (cmp : β → β → Ordering) (l : List β) : Prop where
  self : ∀ a ∈ l, cmp a a = .eq
  swap : ∀ a ∈ l, ∀ b ∈ l, cmp a b = (cmp b a).swap

/-- All elements of a list are equal for the comparison. -/
def Ties (cmp : β → β → Ordering) (l : List β) : Prop := ∀ a ∈ l, ∀ b ∈ l, cmp a b = .eq

/-- No two elements of a list are equal for the comparison. -/
def Distinct (cmp : β → β → Ordering) (l : List β) : Prop := l.Pairwise fun a b => cmp a b ≠ .eq

theorem compareLex_of_ties {ls : List (List β)} (hties : ∀ l ∈ ls, Ties cmp l) {c c' : List β}
    (hc : c ∈ choices ls) (hc' : c' ∈ choices ls) : List.compareLex cmp c c' = .eq := by
  rw [mem_choices] at hc hc'
  induction hc generalizing c' with
  | nil =>
    cases hc'
    rfl
  | cons ha _ ih =>
    cases hc' with
    | cons ha' hrest =>
      rw [List.forall_mem_cons] at hties
      rw [List.compareLex_cons_cons, hties.1 _ ha _ ha', ih hties.2 hrest]
      rfl

/-- If all choices are in order both ways, they only differ in elements that tie. -/
theorem ties_of_isLE {ls : List (List β)} (hcmp : ∀ l ∈ ls, Compares cmp l)
    (hne : ∀ l ∈ ls, l ≠ [])
    (h : ∀ c ∈ choices ls, ∀ c' ∈ choices ls, (List.compareLex cmp c c').isLE = true) :
    ∀ l ∈ ls, Ties cmp l := by
  induction ls with
  | nil => simp
  | cons l ls ih =>
    rw [List.forall_mem_cons] at hcmp hne
    have hrest : choices ls ≠ [] := fun hnil => hne.2 [] (choices_eq_nil_iff.1 hnil) rfl
    obtain ⟨c, hc⟩ := List.exists_mem_of_ne_nil _ hrest
    obtain ⟨a₀, ha₀⟩ := List.exists_mem_of_ne_nil _ hne.1
    have hmem : ∀ a ∈ l, ∀ c ∈ choices ls, a :: c ∈ choices (l :: ls) := fun a ha c hc =>
      List.mem_flatMap.2 ⟨a, ha, List.mem_map_of_mem hc⟩
    have hle : ∀ a ∈ l, ∀ b ∈ l, cmp a b ≠ .gt := by
      intro a ha b hb hgt
      have := h _ (hmem a ha c hc) _ (hmem b hb c hc)
      rw [List.compareLex_cons_cons, hgt] at this
      cases this
    refine List.forall_mem_cons.2 ⟨fun a ha b hb => ?_, ih hcmp.2 hne.2 fun c hc c' hc' => ?_⟩
    · have hswap := hcmp.1.swap a ha b hb
      have hba := hle b hb a ha
      have hab := hle a ha b hb
      cases hcase : cmp b a <;> simp_all
    · have := h _ (hmem a₀ ha₀ c hc) _ (hmem a₀ ha₀ c' hc')
      rwa [List.compareLex_cons_cons, hcmp.1.self a₀ ha₀] at this

/-- Choices from sorted lists are sorted by the first difference exactly if, wherever a list is
walked again for elements of an outer list that tie, all its elements tie. -/
theorem pairwise_choices_iff {ls : List (List β)} (hcmp : ∀ l ∈ ls, Compares cmp l)
    (hsorted : ∀ l ∈ ls, l.Pairwise fun a b => (cmp a b).isLE = true) (hne : ∀ l ∈ ls, l ≠ []) :
    ((choices ls).Pairwise fun c c' => (List.compareLex cmp c c').isLE = true) ↔
      ls.Pairwise fun l l' => Distinct cmp l ∨ Ties cmp l' := by
  induction ls with
  | nil => simp [choices]
  | cons l ls ih =>
    rw [List.forall_mem_cons] at hcmp hsorted hne
    obtain ⟨a₀, ha₀⟩ := List.exists_mem_of_ne_nil _ hne.1
    -- below one element of the first list the order is that of the other lists
    have hinner : (∀ a ∈ l, ((choices ls).map (a :: ·)).Pairwise
        fun c c' => (List.compareLex cmp c c').isLE = true) ↔
          ls.Pairwise fun l l' => Distinct cmp l ∨ Ties cmp l' := by
      rw [← ih hcmp.2 hsorted.2 hne.2]
      have hbelow : ∀ a ∈ l, (((choices ls).map (a :: ·)).Pairwise
          fun c c' => (List.compareLex cmp c c').isLE = true) ↔
            (choices ls).Pairwise fun c c' => (List.compareLex cmp c c').isLE = true := by
        intro a ha
        rw [List.pairwise_map]
        simp only [List.compareLex_cons_cons, hcmp.1.self a ha]
        exact Iff.rfl
      exact ⟨fun h => (hbelow a₀ ha₀).1 (h a₀ ha₀), fun h a ha => (hbelow a ha).2 h⟩
    -- between two elements of the first list it is theirs, unless they tie
    have houter : (l.Pairwise fun a b => ∀ c ∈ (choices ls).map (a :: ·),
        ∀ c' ∈ (choices ls).map (b :: ·), (List.compareLex cmp c c').isLE = true) ↔
          ∀ l' ∈ ls, Distinct cmp l ∨ Ties cmp l' := by
      have hrows : ∀ {a b : β}, (∀ c ∈ (choices ls).map (a :: ·), ∀ c' ∈ (choices ls).map (b :: ·),
          (List.compareLex cmp c c').isLE = true) ↔ ∀ c ∈ choices ls, ∀ c' ∈ choices ls,
            ((cmp a b).then (List.compareLex cmp c c')).isLE = true := by
        intro a b
        simp only [List.forall_mem_map, List.compareLex_cons_cons]
      simp only [hrows]
      by_cases hties : ∀ l' ∈ ls, Ties cmp l'
      · refine iff_of_true (hsorted.1.imp fun {a b} hab c hc c' hc' => ?_)
          fun l' hl' => .inr (hties l' hl')
        rw [compareLex_of_ties hties hc hc']
        cases hcase : cmp a b <;> simp_all
      · constructor
        · intro h l' _
          have hdistinct : Distinct cmp l := by
            unfold Distinct
            refine List.Pairwise.imp (fun {a b} hab (htie : cmp a b = .eq) => hties ?_) h
            refine ties_of_isLE hcmp.2 hne.2 fun c hc c' hc' => ?_
            have := hab c hc c' hc'
            rwa [htie] at this
          exact .inl hdistinct
        · intro h
          obtain ⟨l', hl', hnot⟩ : ∃ l' ∈ ls, ¬Ties cmp l' := by simpa using hties
          have hdistinct := (h l' hl').resolve_right hnot
          refine (hsorted.1.and hdistinct).imp fun {a b} hab c _ c' _ => ?_
          cases hcase : cmp a b <;> simp_all
    rw [choices, List.pairwise_flatMap, hinner, houter, List.pairwise_cons, and_comm]

end Order
end ShardJoin
