/-
What one task does to the contexts of a node and to its directory.

* `Turn` — all that a task can do to contexts and to the directory, but for a
  context that leaves the directory;
* `Effect.turn` — a task does nothing else;
* `Node.contexts_sweep` — letting contexts go changes none that somebody holds.
-/
import ShardJoin.Proofs.Job.Custody

namespace ShardJoin.Job

/-- The context that a task is to take out of the directory. -/
def Task.leaving? : Task → Option ContextId
  | .notify i .leave _ _ => some i
  | _ => none

/-- A node has more to do, but no more context is to leave the directory. -/
def Quiet (n n' : Node) : Prop :=
  ∃ pushed, n'.agenda = pushed ++ n.agenda ∧ ∀ task ∈ pushed, task.leaving? = none

namespace Quiet

variable {n m : Node}

theorem push (hagenda : m.agenda = n.agenda) {tasks : List Task}
    (htasks : ∀ task ∈ tasks, task.leaving? = none) : Quiet n (m.push tasks) :=
  ⟨tasks, by rw [Node.push, hagenda], htasks⟩

theorem hooks (steps : List Command) : ∀ task ∈ Node.hooks steps, task.leaving? = none := by
  intro task htask
  obtain ⟨_, -, rfl⟩ := List.mem_map.1 htask
  rfl

end Quiet

/-- What a task can do to the contexts of a node and to its directory, unless it takes a context
out of the directory. -/
inductive Turn (n : Node) (task : Task) (n' : Node) : Prop
  | aside (hcontexts : n'.contexts = n.contexts) (hdirectory : n'.directory = n.directory)
    (hquiet : Quiet n n')
  /-- A context changes, but not its job and its phase, and it keeps its callbacks. -/
  | change {i : ContextId} {f : Context → Context} (hi : i ∈ n.touches task)
    (hcontexts : n'.contexts = n.contexts.modify i f) (hdirectory : n'.directory = n.directory)
    (hjob : ∀ c, (f c).job = c.job) (hphase : ∀ c, (f c).phase = c.phase)
    (hcallbacks : ∀ c, c.callbacks ⊆ (f c).callbacks) (hquiet : Quiet n n')
  /-- A context is opened outside the directory. -/
  | start {c : Context} (hcontexts : n'.contexts = n.contexts ++ [c])
    (hdirectory : n'.directory = n.directory) (hquiet : Quiet n n')
  /-- A context is opened for a job that has no open one. -/
  | enter {job : JobId} {c : Context} (hnone : n.openContextOf? job = none)
    (hcontexts : n'.contexts = n.contexts ++ [c]) (hjob : c.job = job)
    (hopen : c.phase = .running) (hleave : .leave ∈ c.callbacks)
    (hdirectory : n'.directory = n.directory.insert job n.contexts.length) (hquiet : Quiet n n')
  /-- A context is finished. -/
  | finish {i : ContextId} {c : Context} {target : Phase} {last : Task} (hi : i ∈ n.touches task)
    (hc : n.contexts[i]? = some c) (htarget : target.isFinished = true)
    (hcontexts : n'.contexts = (n.takeOut i c target).contexts)
    (hdirectory : n'.directory = n.directory) (hlast : last.leaving? = none)
    (hagenda : n'.agenda = (Node.finishTasks i c target ++ [last]) ++ n.agenda) : Turn n task n'

/-- A task that takes no context out of the directory does nothing else to contexts and to the
directory. -/
theorem Effect.turn {n m : Node} {task : Task} {pushed : List Task} (h : Effect n task m pushed)
    (htask : task.leaving? = none) : Turn n task (m.push pushed) := by
  have hquiet : (∀ x ∈ pushed, x.leaving? = none) → Quiet n (m.push pushed) := .push h.agenda
  cases h with
  | left => cases htask
  | told | taken | dropped | keptSearch | lostSearch | droppedSearch | closedSearch | rejected
  | killAll | allKilled | cancelled | closeCounted | endCounted | accountClosed | delivered =>
    exact .aside rfl rfl (hquiet (by simp [Task.leaving?]))
  | called => exact .aside rfl rfl (hquiet (Quiet.hooks _))
  | closing =>
    exact .aside rfl rfl (hquiet
      (List.forall_mem_append.2 ⟨Quiet.hooks _, List.forall_mem_singleton.2 rfl⟩))
  | opened => exact .start rfl rfl (hquiet (by simp [Task.leaving?]))
  | entered hnone =>
    exact .enter hnone rfl rfl rfl (List.mem_singleton_self _) rfl (hquiet (by simp [Task.leaving?]))
  -- what is registered with a context changes, or its account
  | @evicted _ reply _ id _ _ _ _ _ hoffered =>
    exact .change (Node.touches_of_offered? hoffered reply)
      (f := fun c => { c with subContexts := c.subContexts.erase id }) rfl rfl (fun _ => rfl)
      (fun _ => rfl) (fun _ => List.Subset.refl _) (hquiet (by simp [Task.leaving?]))
  | @accepted _ reply _ id sub _ _ _ hoffered =>
    exact .change (Node.touches_of_offered? hoffered reply)
      (f := fun c => { c with subContexts := c.subContexts.insert id sub }) rfl rfl (fun _ => rfl)
      (fun _ => rfl) (fun _ => List.Subset.refl _) (hquiet (by simp [Task.leaving?]))
  | @registered _ tag steps reply _ _ hheld =>
    exact .change (Node.touches_of_held? rfl hheld reply)
      (f := fun c => { c with callbacks := c.callbacks ++ [.script tag steps] }) rfl rfl
      (fun _ => rfl) (fun _ => rfl) (fun c => List.subset_append_left c.callbacks _)
      (hquiet (by simp [Task.leaving?]))
  | @moved command reply _ _ i _ _ a' _ hheld _ hmoved =>
    have hi : i ∈ n.touches (.run command reply) := by
      rcases hmoved with ⟨rfl, -⟩ | ⟨rfl, -⟩
      all_goals exact Node.touches_of_held? rfl hheld reply
    exact .change hi (f := ({ · with account := some a' })) rfl rfl (fun _ => rfl) (fun _ => rfl)
      (fun _ => List.Subset.refl _) (hquiet (by simp [Task.leaving?]))
  | finished hi htarget hc =>
    exact .finish hi hc (Task.isFinished_of_target? htarget) rfl rfl rfl rfl
  | killed hc =>
    exact .finish (List.mem_append_right _ List.mem_cons_self) hc rfl rfl rfl rfl rfl

namespace Node

theorem doTask_turn (n : Node) {task : Task} (htask : task.leaving? = none) :
    Turn n task (n.doTask task) := by
  obtain ⟨m, pushed, heq, heffect⟩ := n.doTask_effect task
  exact heq ▸ heffect.turn htask

/-! ### Letting go -/

/-- What letting a context go leaves of it, and of the others. -/
theorem contexts_letGoUnheld (n : Node) (i : ContextId) :
    (n.letGoUnheld i).directory = n.directory ∧ (n.letGoUnheld i).handles = n.handles ∧
      ∀ j, (n.letGoUnheld i).contexts[j]? = n.contexts[j]? ∨
        n.isHeld j = false ∧ (n.letGoUnheld i).contexts[j]? = n.contexts[j]?.map .emptied := by
  have hmark : ∀ (subs : List SubContext) (m : Node),
      (subs.foldl (fun n sub => n.markDropped sub.serial) m).contexts = m.contexts ∧
        (subs.foldl (fun n sub => n.markDropped sub.serial) m).directory = m.directory ∧
        (subs.foldl (fun n sub => n.markDropped sub.serial) m).handles = m.handles := by
    intro subs
    induction subs with
    | nil => exact fun _ => ⟨rfl, rfl, rfl⟩
    | cons sub subs ih => exact fun m => ih (m.markDropped sub.serial)
  unfold letGoUnheld
  split
  · rename_i c hc
    split
    · rename_i hcond
      rw [Bool.and_eq_true, Bool.not_eq_true'] at hcond
      obtain ⟨hcontexts, hdirectory, hhandles⟩ := hmark c.subContexts.values n
      refine ⟨hdirectory, hhandles, fun j => ?_⟩
      simp only [letGo, modifyContext, List.getElem?_modify, hcontexts]
      by_cases hij : i = j
      · subst hij
        exact .inr ⟨hcond.2, by simp⟩
      · left
        cases n.contexts[j]? <;> simp [hij]
    · exact ⟨rfl, rfl, fun _ => .inl rfl⟩
  · exact ⟨rfl, rfl, fun _ => .inl rfl⟩

/-- Letting contexts go changes none that somebody holds, and nothing of who holds them. -/
theorem contexts_sweep (n : Node) :
    n.sweep.directory = n.directory ∧ n.sweep.handles = n.handles ∧
      ∀ j, n.sweep.contexts[j]? = n.contexts[j]? ∨
        n.isHeld j = false ∧ n.sweep.contexts[j]? = n.contexts[j]?.map .emptied := by
  unfold sweep
  generalize List.range n.contexts.length = places
  induction places generalizing n with
  | nil => exact ⟨rfl, rfl, fun _ => .inl rfl⟩
  | cons i places ih =>
    obtain ⟨hdirectory, hhandles, hcontexts⟩ := n.contexts_letGoUnheld i
    obtain ⟨hdirectory', hhandles', hcontexts'⟩ := ih (n.letGoUnheld i)
    refine ⟨hdirectory'.trans hdirectory, hhandles'.trans hhandles, fun j => ?_⟩
    have hheld := (n.swept_letGoUnheld i).held j
    rcases hcontexts' j with heq | ⟨hnot, heq⟩ <;> rw [List.foldl_cons, heq]
    · exact hcontexts j
    · rw [hheld] at hnot
      refine .inr ⟨hnot, ?_⟩
      rcases hcontexts j with heq' | ⟨-, heq'⟩
      · rw [heq']
      -- a context that is let go twice is as empty as one that is let go once
      · rw [heq', Option.map_map]
        rfl

/-- Letting contexts go touches nothing but contexts, fates and the budget. -/
theorem sweep_keeps {α : Type} (p : Node → α)
    (h : ∀ (n : Node) contexts fates budget, p { n with contexts, fates, budget } = p n)
    (n : Node) : p n.sweep = p n := by
  have hmark : ∀ (subs : List SubContext) (m : Node),
      p (subs.foldl (fun n sub => n.markDropped sub.serial) m) = p m := by
    intro subs
    induction subs with
    | nil => exact fun _ => rfl
    | cons sub subs ih => exact fun m => (ih (m.markDropped sub.serial)).trans (h m _ _ _)
  have hplace : ∀ (m : Node) (i : ContextId), p (m.letGoUnheld i) = p m := by
    intro m i
    unfold letGoUnheld
    split
    · rename_i c _
      split
      · exact (h (c.subContexts.values.foldl (fun n sub => n.markDropped sub.serial) m) _ _ _).trans
          (hmark _ m)
      · rfl
    · rfl
  unfold sweep
  generalize List.range n.contexts.length = places
  induction places generalizing n with
  | nil => rfl
  | cons i places ih =>
    rw [List.foldl_cons, ih]
    exact hplace n i

end Node

end ShardJoin.Job
