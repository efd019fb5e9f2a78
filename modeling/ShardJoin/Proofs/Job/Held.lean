/-
A context that nobody holds is never held again.

Commands reach a context by a handle or by the directory, tasks name contexts
that were held when they were caused, and a new context is none of the old.

* `Unheld` — no script, no entry of the directory and no task has a context;
* `Unheld.step` — this stays so.
-/
import ShardJoin.Proofs.Job.Custody

namespace ShardJoin.Job

/-- Nobody has a context. -/
structure Unheld (n : Node) (i : ContextId) : Prop where
  handles : i ∉ n.handles.values
  directory : i ∉ n.directory.values
  agenda : ∀ task ∈ n.agenda, task.uses i = false

theorem unheld_iff {n : Node} {i : ContextId} : Unheld n i ↔ n.isHeld i = false := by
  rw [Node.isHeld, Bool.or_eq_false_iff, Bool.or_eq_false_iff, List.any_eq_false]
  constructor
  · rintro ⟨hhandles, hdirectory, hagenda⟩
    refine ⟨⟨?_, ?_⟩, fun task htask => Bool.eq_false_iff.1 (hagenda task htask)⟩
    · simpa using hhandles
    · simpa using hdirectory
  · rintro ⟨⟨hhandles, hdirectory⟩, hagenda⟩
    refine ⟨?_, ?_, fun task htask => Bool.eq_false_iff.2 (hagenda task htask)⟩
    · simpa using hhandles
    · simpa using hdirectory

namespace Unheld

variable {n : Node} {i : ContextId}

theorem push (h : Unheld n i) {tasks : List Task} (htasks : ∀ task ∈ tasks, task.uses i = false) :
    Unheld (n.push tasks) i where
  handles := h.handles
  directory := h.directory
  agenda task htask := by
    rcases List.mem_append.1 htask with htask | htask
    · exact htasks task htask
    · exact h.agenda task htask

theorem hooks (steps : List Command) : ∀ task ∈ Node.hooks steps, task.uses i = false := by
  intro task htask
  obtain ⟨_, -, rfl⟩ := List.mem_map.1 htask
  rfl

theorem ne (h : Unheld n i) {j : ContextId} (hj : n.isHeld j = true) : i ≠ j := by
  rintro rfl
  rw [unheld_iff, hj] at h
  cases h

/-- The tasks of finishing a context name that context. -/
theorem finishTasks {j : ContextId} (hij : i ≠ j) (c : Context) (target : Phase) :
    ∀ task ∈ Node.finishTasks j c target, task.uses i = false := by
  have hne : (i == j) = false := beq_false_of_ne hij
  intro task htask
  simp only [Node.finishTasks, List.mem_append, List.mem_map, List.mem_singleton] at htask
  rcases htask with ⟨_, -, rfl⟩ | ⟨_, -, rfl⟩ | ⟨_, -, rfl⟩ | rfl
  all_goals exact hne

/-- What a task does gives a context to nobody. -/
theorem effect (h : Unheld n i) (hi : i < n.contexts.length) {task : Task}
    (htask : task.uses i = false) {m : Node} {pushed : List Task}
    (heffect : Effect n task m pushed) : Unheld (m.push pushed) i := by
  have hpush : i ∉ m.handles.values → i ∉ m.directory.values →
      (∀ x ∈ pushed, x.uses i = false) → Unheld (m.push pushed) i :=
    fun hhandles hdirectory => push ⟨hhandles, hdirectory, heffect.agenda ▸ h.agenda⟩
  cases heffect with
  | told | keptSearch | lostSearch | droppedSearch | closedSearch | accepted | registered | moved
  | allKilled | cancelled | closeCounted | endCounted | accountClosed | delivered =>
    exact hpush h.handles h.directory (by simp [Task.uses])
  | dropped =>
    exact hpush (fun hmem => h.handles (SortedMap.mem_values_erase hmem)) h.directory
      (by simp [Task.uses])
  | taken hjob =>
    have hij := h.ne (Node.isHeld_of_contextOf? hjob)
    exact hpush (fun hmem => (SortedMap.mem_values_insert hmem).elim hij h.handles) h.directory
      (by simp [Task.uses])
  -- the new context comes after all that there are
  | opened =>
    have hnew := Nat.ne_of_lt hi
    exact hpush (fun hmem => (SortedMap.mem_values_insert hmem).elim hnew h.handles) h.directory
      (by simp [Task.uses])
  | entered =>
    have hnew := Nat.ne_of_lt hi
    exact hpush (fun hmem => (SortedMap.mem_values_insert hmem).elim hnew h.handles)
      (fun hmem => (SortedMap.mem_values_insert hmem).elim hnew h.directory)
      (by simp [Task.uses])
  | @rejected _ reply _ _ sub _ _ _ hoffered =>
    have hij := h.ne (Node.isHeld_of_touches (Node.touches_of_offered? hoffered reply))
    exact hpush h.handles h.directory (by simp [Task.uses, hij])
  | @evicted _ reply _ _ _ _ _ _ _ hoffered =>
    have hij := h.ne (Node.isHeld_of_touches (Node.touches_of_offered? hoffered reply))
    exact hpush h.handles h.directory (by simp [Task.uses, hij])
  | finished htouches =>
    have hij := h.ne (Node.isHeld_of_touches htouches)
    exact hpush h.handles h.directory
      (List.forall_mem_append.2 ⟨finishTasks hij _ _, List.forall_mem_singleton.2 rfl⟩)
  | @killed skipped rest _ _ j =>
    have hnot : i ∉ skipped ++ j :: rest := by simpa [Task.uses] using htask
    rw [List.mem_append, List.mem_cons, not_or, not_or] at hnot
    obtain ⟨-, hij, hrest⟩ := hnot
    refine hpush h.handles h.directory
      (List.forall_mem_append.2 ⟨finishTasks hij _ _, List.forall_mem_singleton.2 ?_⟩)
    simpa [Task.uses] using hrest
  | killAll =>
    refine hpush h.handles h.directory fun x hx => ?_
    rw [List.mem_singleton.1 hx]
    simpa [Task.uses] using h.directory
  -- what closing runs are commands, and these name no context
  | closing =>
    exact hpush h.handles h.directory
      (List.forall_mem_append.2 ⟨hooks _, List.forall_mem_singleton.2 htask⟩)
  | called => exact hpush h.handles h.directory (hooks _)
  | left =>
    refine hpush h.handles (fun hmem => ?_) (by simp)
    unfold Node.leave at hmem
    split at hmem
    · exact h.directory hmem
    · split at hmem
      · exact h.directory (SortedMap.mem_values_erase hmem)
      · exact h.directory hmem

theorem doTask (h : Unheld n i) (hi : i < n.contexts.length) {task : Task}
    (htask : task.uses i = false) : Unheld (n.doTask task) i := by
  obtain ⟨m, pushed, heq, heffect⟩ := n.doTask_effect task
  exact heq ▸ h.effect hi htask heffect

/-- A context that nobody has is not given to anybody. -/
theorem step (h : Unheld n i) (hi : i < n.contexts.length) : Unheld n.step i := by
  rw [Node.step]
  split
  · exact h
  · rename_i task rest hagenda
    have hrest : Unheld { n with agenda := rest } i :=
      ⟨h.handles, h.directory, fun task' htask' =>
        h.agenda task' (hagenda ▸ List.mem_cons_of_mem _ htask')⟩
    have hdone := hrest.doTask hi (h.agenda task (hagenda ▸ List.mem_cons_self))
    rw [unheld_iff, (Node.swept_sweep _).held]
    exact unheld_iff.1 hdone

end Unheld

end ShardJoin.Job
