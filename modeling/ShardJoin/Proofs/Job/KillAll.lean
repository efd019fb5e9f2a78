/-
Killing all jobs of a node.

The contexts of the directory are killed one after another.  While one of them
is torn down its sub-contexts and callbacks may finish others; those are
skipped, and not counted, when it is their turn.

* `Node.killNext_cases` — one context that is open is killed, or none is left;
* `Killing` — what is done in the whole, and what is counted;
* `IsRun.exists_killing` — every killing comes to its end;
* `Killing.length_eq` — it counts all contexts that were open if nobody else
  finishes one of them.
-/
import ShardJoin.Proofs.Job.Directory

namespace ShardJoin.Job

/-! ### One context -/

namespace Node

variable {n : Node}

theorem isFinished_takeOut {i : ContextId} {c : Context} (hc : n.contexts[i]? = some c)
    {target : Phase} (htarget : target.isFinished = true) (j : ContextId) :
    (n.takeOut i c target).isFinished j = (decide (j = i) || n.isFinished j) := by
  rw [isFinished, takeOut, modifyContext]
  by_cases hji : j = i
  · subst hji
    rw [List.getElem?_modify_eq, hc, decide_eq_true rfl]
    exact htarget
  · rw [List.getElem?_modify_ne _ _ (Ne.symm hji), decide_eq_false hji, Bool.false_or]
    rfl

/-- The first context that is open is killed, or all are finished and it is said how many were
killed. -/
theorem killNext_cases {contexts : List ContextId} (hlt : ∀ i ∈ contexts, i < n.contexts.length)
    (killed : Nat) (reply : Reply) :
    (∀ i ∈ contexts, n.isFinished i = true) ∧
        n.killNext contexts killed reply = n.answerNow reply (.number killed) ∨
      ∃ skipped i c more, contexts = skipped ++ i :: more ∧
        (∀ j ∈ skipped, n.isFinished j = true) ∧ n.contexts[i]? = some c ∧
        c.phase.isFinished = false ∧ n.killNext contexts killed reply =
          (n.takeOut i c .killed).push
            (finishTasks i c .killed ++ [.killNext more (killed + 1) reply]) := by
  induction contexts with
  | nil => exact .inl ⟨by simp, rfl⟩
  | cons i contexts ih =>
    obtain ⟨c, hc⟩ : ∃ c, n.contexts[i]? = some c :=
      ⟨_, List.getElem?_eq_getElem (hlt i List.mem_cons_self)⟩
    have hfirst : n.isFinished i = c.phase.isFinished := isFinished_eq hc
    cases hphase : c.phase.isFinished with
    | false =>
      refine .inr ⟨[], i, c, contexts, rfl, by simp, hc, hphase, ?_⟩
      simp [killNext, finish?, hc, hphase]
    -- a finished one is skipped
    | true =>
      have hskip : n.killNext (i :: contexts) killed reply = n.killNext contexts killed reply := by
        simp [killNext, finish?, hc, hphase]
      rw [hskip]
      rw [hphase] at hfirst
      rcases ih fun j hj => hlt j (List.mem_cons_of_mem _ hj) with
        ⟨hall, heq⟩ | ⟨skipped, j, c', more, rfl, hskipped, hj, hopen, heq⟩
      · exact .inl ⟨List.forall_mem_cons.2 ⟨hfirst, hall⟩, heq⟩
      · exact .inr ⟨i :: skipped, j, c', more, rfl, List.forall_mem_cons.2 ⟨hfirst, hskipped⟩, hj,
          hopen, heq⟩

end Node

/-! ### All contexts -/

/-- The killing of several contexts, with some tasks behind it, finishes one of them by its next
step. -/
def Kills (t : Nat → Node) (j : Nat) (i : ContextId) (reply : Reply) (rest : List Task) : Prop :=
  (∃ contexts killed, (t j).agenda = .killNext contexts killed reply :: rest) ∧
    (t j).isFinished i = false ∧ (t (j + 1)).isFinished i = true

/-- The killing of some contexts, from time `k` to time `d`. -/
structure Killing (t : Nat → Node) (k d : Nat) (contexts : List ContextId) (killed : Nat)
    (reply : Reply) (rest : List Task) (won : List ContextId) : Prop where
  lt : k < d
  /-- It says how many contexts it has finished itself. -/
  answer : (t d).agenda = .answer reply (.number (killed + won.length)) :: rest
  busy : ∀ j, k ≤ j → j < d → ∃ first more, (t j).agenda = first :: (more ++ rest)
  sublist : won.Sublist contexts
  mem_won_iff : ∀ i, i ∈ won ↔ ∃ j, k ≤ j ∧ j < d ∧ Kills t j i reply rest
  /-- When it is over, all of them are finished. -/
  finished : ∀ i ∈ contexts, (t d).isFinished i = true

section Run

variable {t : Nat → Node} (h : IsRun t)
include h

/-- If all contexts are finished, the killing is over with the next step. -/
theorem IsRun.killing_nil {k : Nat} {contexts : List ContextId} {killed : Nat} {reply : Reply}
    {rest : List Task} (hagenda : (t k).agenda = .killNext contexts killed reply :: rest)
    (hall : ∀ i ∈ contexts, (t k).isFinished i = true)
    (heq : Node.killNext { t k with agenda := rest } contexts killed reply =
      Node.answerNow { t k with agenda := rest } reply (.number killed)) :
    Killing t k (k + 1) contexts killed reply rest [] := by
  have hswept := h.swept hagenda
  rw [Node.doTask, heq] at hswept
  have hsame : ∀ i, (t (k + 1)).isFinished i = (t k).isFinished i := hswept.isFinished
  refine ⟨Nat.lt_succ_self k, hswept.agenda, fun j hkj hj => ?_, List.nil_sublist _,
    fun i => ⟨fun hi => absurd hi List.not_mem_nil, ?_⟩, fun i hi => ?_⟩
  · obtain rfl : j = k := by omega
    exact ⟨_, [], hagenda⟩
  · rintro ⟨j, hkj, hj, -, hbefore, hafter⟩
    obtain rfl : j = k := by omega
    rw [hsame, hbefore] at hafter
    cases hafter
  · rw [hsame]
    exact hall i hi

/-- The first open context is killed before the others: one step finishes it, and the killing goes
on when it is torn down. -/
theorem IsRun.killing_cons {k k' d : Nat} {skipped more won : List ContextId} {i : ContextId}
    {killed : Nat} {reply : Reply} {rest : List Task}
    (hagenda : (t k).agenda = .killNext (skipped ++ i :: more) killed reply :: rest)
    (hskipped : ∀ j ∈ skipped, (t k).isFinished j = true) (hopen : (t k).isFinished i = false)
    (hfinished : ∀ j, (t (k + 1)).isFinished j = (decide (j = i) || (t k).isFinished j))
    (hkk' : k + 1 ≤ k') (hbusy : ∀ j, k + 1 ≤ j → j < k' → ∃ first front,
      (t j).agenda = first :: (front ++ .killNext more (killed + 1) reply :: rest))
    (hkilling : Killing t k' d more (killed + 1) reply rest won) :
    Killing t k d (skipped ++ i :: more) killed reply rest (i :: won) where
  lt := by
    have := hkilling.lt
    omega
  answer := by rw [hkilling.answer, List.length_cons, Nat.add_assoc, Nat.add_comm 1]
  busy := by
    intro j hkj hjd
    rcases Nat.eq_or_lt_of_le hkj with rfl | hkj
    · exact ⟨_, [], hagenda⟩
    · by_cases hjk' : j < k'
      · obtain ⟨first, front, hj⟩ := hbusy j hkj hjk'
        exact ⟨first, front ++ [.killNext more (killed + 1) reply], by rw [hj]; simp⟩
      · exact hkilling.busy j (Nat.le_of_not_lt hjk') hjd
  sublist := (hkilling.sublist.cons_cons i).trans (List.sublist_append_right _ _)
  mem_won_iff := by
    have hk'd := hkilling.lt
    intro x
    constructor
    · intro hx
      rcases List.mem_cons.1 hx with rfl | hx
      · refine ⟨k, Nat.le_refl k, by omega, ⟨_, _, hagenda⟩, hopen, ?_⟩
        rw [hfinished, decide_eq_true rfl, Bool.true_or]
      · obtain ⟨j, hk'j, hjd, hkills⟩ := (hkilling.mem_won_iff x).1 hx
        exact ⟨j, by omega, hjd, hkills⟩
    · rintro ⟨j, hkj, hjd, ⟨contexts', killed', hj⟩, hbefore, hafter⟩
      rcases Nat.eq_or_lt_of_le hkj with rfl | hkj
      -- the first step finishes the first open context and no other
      · rw [hfinished, hbefore, Bool.or_false, decide_eq_true_iff] at hafter
        rw [hafter]
        exact List.mem_cons_self
      · by_cases hjk' : j < k'
        -- while that one is torn down, the killing does not go on
        · obtain ⟨first, front, hj'⟩ := hbusy j hkj hjk'
          have hlength := congrArg List.length (hj.symm.trans hj')
          simp only [List.length_cons, List.length_append] at hlength
          omega
        · exact List.mem_cons_of_mem _ ((hkilling.mem_won_iff x).2
            ⟨j, Nat.le_of_not_lt hjk', hjd, ⟨contexts', killed', hj⟩, hbefore, hafter⟩)
  finished := by
    have hk'd := hkilling.lt
    intro j hj
    rcases List.mem_append.1 hj with hj | hj
    · exact h.isFinished (show k ≤ d by omega) (hskipped j hj)
    · rcases List.mem_cons.1 hj with rfl | hj
      · refine h.isFinished (show k + 1 ≤ d by omega) ?_
        rw [hfinished, decide_eq_true rfl, Bool.true_or]
      · exact hkilling.finished j hj

/-- The killing of some contexts comes to its end. -/
theorem IsRun.exists_killing {k : Nat} {contexts : List ContextId} {killed : Nat} {reply : Reply}
    {rest : List Task} (hagenda : (t k).agenda = .killNext contexts killed reply :: rest)
    (hlt : ∀ i ∈ contexts, i < (t k).contexts.length) :
    ∃ d won, Killing t k d contexts killed reply rest won := by
  -- the first open context is killed; by induction on the number of contexts the others are
  induction hlength : contexts.length using Nat.strongRecOn generalizing k contexts killed with
  | ind length ih =>
    rcases Node.killNext_cases (n := { t k with agenda := rest }) hlt killed reply with
      ⟨hall, heq⟩ | ⟨skipped, i, c, more, rfl, hskipped, hi, hopen, heq⟩
    · exact ⟨_, _, h.killing_nil hagenda hall heq⟩
    · have hswept := h.swept hagenda
      rw [Node.doTask, heq] at hswept
      have hfinished : ∀ j, (t (k + 1)).isFinished j = (decide (j = i) || (t k).isFinished j) := by
        intro j
        rw [hswept.isFinished]
        exact Node.isFinished_takeOut (n := { t k with agenda := rest }) hi rfl j
      have htasks : (t (k + 1)).agenda =
          Node.finishTasks i c .killed ++ .killNext more (killed + 1) reply :: rest := by
        rw [hswept.agenda, Node.push, List.append_assoc]
        rfl
      obtain ⟨k', hkk', hagenda', hbusy⟩ := h.exists_done htasks
      have hlt' : ∀ j ∈ more, j < (t k').contexts.length := fun j hj =>
        h.lt_length_contexts (Nat.le_of_succ_le hkk')
          (hlt j (List.mem_append_right _ (List.mem_cons_of_mem _ hj)))
      have hshorter : more.length < length := by
        rw [← hlength, List.length_append, List.length_cons]
        omega
      obtain ⟨d, won, hkilling⟩ := ih _ hshorter hagenda' hlt' rfl
      exact ⟨d, i :: won, h.killing_cons hagenda hskipped ((Node.isFinished_eq hi).trans hopen)
        hfinished hkk' hbusy hkilling⟩

/-- Killing all jobs kills the contexts of the directory. -/
theorem IsRun.exists_killing_of_killAll {c : Nat} {reply : Reply} {rest : List Task}
    (hagenda : (t c).agenda = .run .killAll reply :: rest) :
    (∀ i, (t (c + 1)).isFinished i = (t c).isFinished i) ∧
      ∃ d won, Killing t (c + 1) d (t c).directory.values 0 reply rest won := by
  have hswept := h.swept hagenda
  refine ⟨hswept.isFinished, h.exists_killing hswept.agenda fun i hi => ?_⟩
  obtain ⟨job, hi⟩ := SortedMap.mem_values_iff.1 hi
  obtain ⟨ctx, hctx, -⟩ := (h.orderly c).entry job i hi
  exact h.lt_length_contexts (Nat.le_succ c) (List.getElem?_eq_some_iff.1 hctx).1

end Run

namespace Killing

variable {t : Nat → Node} {k d killed : Nat} {contexts won : List ContextId} {reply : Reply}
  {rest : List Task} (hkilling : Killing t k d contexts killed reply rest won)
include hkilling

/-- A context that is open when the killing starts and that nobody else finishes is killed by it. -/
theorem mem_won {i : ContextId} (hi : i ∈ contexts) (hopen : (t k).isFinished i = false)
    (hown : ∀ j, k ≤ j → j < d → (t j).isFinished i = false → (t (j + 1)).isFinished i = true →
      Kills t j i reply rest) : i ∈ won := by
  rw [hkilling.mem_won_iff]
  -- the context is finished by some step
  have hstep : ∀ m, k + m ≤ d → (t (k + m)).isFinished i = false ∨
      ∃ j, k ≤ j ∧ j < d ∧ Kills t j i reply rest := by
    intro m
    induction m with
    | zero => exact fun _ => .inl hopen
    | succ m ih =>
      intro hm
      rcases ih (by omega) with hstill | hdone
      · cases hafter : (t (k + m + 1)).isFinished i with
        | false => exact .inl rfl
        | true => exact .inr ⟨k + m, by omega, by omega, hown _ (by omega) (by omega) hstill hafter⟩
      · exact .inr hdone
  have hkd := hkilling.lt
  obtain ⟨m, rfl⟩ := Nat.exists_eq_add_of_le (Nat.le_of_lt hkd)
  rcases hstep m (Nat.le_refl _) with hstill | hdone
  · rw [hkilling.finished i hi] at hstill
    cases hstill
  · exact hdone

/-- All contexts are counted, if all were open and nobody else finishes one of them. -/
theorem length_eq (hnodup : contexts.Nodup)
    (hopen : ∀ i ∈ contexts, (t k).isFinished i = false)
    (hown : ∀ i ∈ contexts, ∀ j, k ≤ j → j < d → (t j).isFinished i = false →
      (t (j + 1)).isFinished i = true → Kills t j i reply rest) :
    won.length = contexts.length := by
  refine ((List.perm_ext_iff_of_nodup (hkilling.sublist.nodup hnodup) hnodup).2 fun i => ?_).length_eq
  exact ⟨fun hi => hkilling.sublist.subset hi, fun hi => hkilling.mem_won hi (hopen i hi) (hown i hi)⟩

end Killing

end ShardJoin.Job
