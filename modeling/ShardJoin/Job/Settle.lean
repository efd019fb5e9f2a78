/-
A command always comes to its end.

`Node.settle` repeats a step as often as the weight of the node says.  Every
step makes the weight smaller: a task is replaced by tasks that weigh less
together, what a context holds weighs the same when it is registered as when
it is carried out, and finishing a context gives out what it held before.  So

* `Effect.weight_lt` — a task weighs more than what it causes;
* `weight_step_lt` — a step with something left to do makes the weight smaller;
* `agenda_settle` — after `settle` nothing is left to do, and
* `agenda_perform` — a command of a script is carried out with everything that
  it causes.
-/
import ShardJoin.Job.Effect

namespace ShardJoin.Job

/-! ### Weights of lists and maps -/

section Lists

variable {α β : Type} (weight : α → Nat)

theorem totalWeight_append (l m : List α) :
    totalWeight weight (l ++ m) = totalWeight weight l + totalWeight weight m := by
  induction l with
  | nil => simp [totalWeight]
  | cons a l ih => simp only [List.cons_append, totalWeight, ih]; omega

theorem totalWeight_map (f : β → α) (l : List β) :
    totalWeight weight (l.map f) = totalWeight (fun b => weight (f b)) l := by
  induction l with
  | nil => rfl
  | cons b l ih => simp only [List.map_cons, totalWeight, ih]

theorem totalWeight_filter_le (p : α → Bool) (l : List α) :
    totalWeight weight (l.filter p) ≤ totalWeight weight l := by
  induction l with
  | nil => exact Nat.le_refl _
  | cons a l ih =>
    rw [List.filter_cons]
    split <;> simp only [totalWeight] <;> omega

/-- Changing one member changes the total by as much. -/
theorem totalWeight_modify (f : α → α) {l : List α} {i : Nat} {a : α} (h : l[i]? = some a) :
    totalWeight weight (l.modify i f) + weight a = totalWeight weight l + weight (f a) := by
  induction l generalizing i with
  | nil => simp at h
  | cons b l ih =>
    cases i with
    | zero =>
      obtain rfl : b = a := by simpa using h
      simp only [List.modify_zero_cons, totalWeight]
      omega
    | succ i =>
      have := ih (by simpa using h)
      simp only [List.modify_succ_cons, totalWeight]
      omega

theorem totalWeight_modify_le {f : α → α} (h : ∀ a, weight (f a) ≤ weight a) (l : List α)
    (i : Nat) : totalWeight weight (l.modify i f) ≤ totalWeight weight l := by
  rcases hi : l[i]? with _ | a
  · exact Nat.le_of_eq (congrArg _ (List.modify_eq_self (List.getElem?_eq_none_iff.1 hi)))
  · have := totalWeight_modify weight f hi
    have := h a
    omega

end Lists

section Maps

variable {κ ν : Type} [Ord κ] (weight : ν → Nat)

theorem totalWeight_values (m : SortedMap κ ν) :
    totalWeight weight m.values = totalWeight (fun e => weight e.2) m.entries :=
  totalWeight_map weight _ _

/-- A new entry adds its own weight. -/
theorem totalWeight_insertEntry {k : κ} {l : List (κ × ν)} (v : ν)
    (h : SortedMap.lookup k l = none) :
    totalWeight (fun e => weight e.2) (SortedMap.insertEntry k v l) =
      totalWeight (fun e => weight e.2) l + weight v := by
  induction l with
  | nil => simp [SortedMap.insertEntry, totalWeight]
  | cons e l ih =>
    obtain ⟨k', v'⟩ := e
    rw [SortedMap.lookup] at h
    rw [SortedMap.insertEntry]
    cases hc : compare k k' with
    | lt => simp only [totalWeight]; omega
    | eq => simp [hc] at h
    | gt =>
      have := ih (by simpa [hc] using h)
      simp only [totalWeight]
      omega

theorem totalWeight_insert [Std.TransOrd κ] [Std.LawfulEqOrd κ] {m : SortedMap κ ν} {k : κ}
    (v : ν) (h : m.get? k = none) :
    totalWeight weight (m.insert k v).values = totalWeight weight m.values + weight v := by
  rw [totalWeight_values, totalWeight_values]
  exact totalWeight_insertEntry weight v h

/-- Removing an entry takes its weight away. -/
theorem totalWeight_erase_le {m : SortedMap κ ν} {k : κ} {v : ν} (h : m.get? k = some v) :
    totalWeight weight (m.erase k).values + weight v ≤ totalWeight weight m.values := by
  rw [totalWeight_values, totalWeight_values]
  obtain ⟨l, sorted⟩ := m
  simp only [SortedMap.get?, SortedMap.erase, SortedMap.filter] at h ⊢
  clear sorted
  induction l with
  | nil => simp [SortedMap.lookup] at h
  | cons e l ih =>
    obtain ⟨k', v'⟩ := e
    rw [SortedMap.lookup] at h
    by_cases hc : compare k k' = .eq
    · obtain rfl : v' = v := by simpa [hc] using h
      have := totalWeight_filter_le (fun e : κ × ν => weight e.2)
        (fun e => decide (compare k e.1 ≠ .eq)) l
      rw [List.filter_cons_of_neg (by simp [hc])]
      simp only [totalWeight]
      omega
    · have := ih (by simpa [hc] using h)
      rw [List.filter_cons_of_pos (by simp [hc])]
      simp only [totalWeight]
      omega

end Maps

/-! ### Weights of a node -/

/-- Whatever a command does takes its answer at least. -/
theorem Command.le_weight (c : Command) : 8 ≤ c.weight := by
  cases c <;> simp only [Command.weight] <;> omega

namespace Node

theorem weight_push (n : Node) (tasks : List Task) :
    (n.push tasks).weight = totalWeight Task.weight tasks + n.weight := by
  simp only [weight, push, totalWeight_append]
  omega

theorem weight_modifyContext (n : Node) (f : Context → Context) {i : ContextId} {c : Context}
    (h : n.contexts[i]? = some c) :
    (n.modifyContext i f).weight + c.weight = n.weight + (f c).weight := by
  have := totalWeight_modify Context.weight f h
  simp only [weight, modifyContext]
  omega

theorem weight_modifyContext_le (n : Node) (i : ContextId) {f : Context → Context}
    (h : ∀ c, (f c).weight ≤ c.weight) : (n.modifyContext i f).weight ≤ n.weight := by
  have := totalWeight_modify_le Context.weight h n.contexts i
  simp only [weight, modifyContext]
  omega

/-- A context that is opened brings what its callbacks weigh. -/
theorem weight_opened (n : Node) (job : JobId) (node : NodeId) (account : Account)
    (callbacks : List Callback) :
    ({ n with contexts := n.contexts ++ [.opened job node account callbacks] } : Node).weight =
      n.weight + 4 + totalWeight Callback.weight callbacks := by
  have : (Context.opened job node account callbacks).weight =
      4 + totalWeight Callback.weight callbacks := by
    simp [Context.weight, Context.opened, Phase.isFinished, SortedMap.values, SortedMap.empty,
      totalWeight]
  simp only [weight, totalWeight_append, totalWeight, this]
  omega

theorem weight_hooks (steps : List Command) :
    totalWeight Task.weight (hooks steps) = Command.weightAll steps := by
  induction steps with
  | nil => simp [hooks, totalWeight, Command.weightAll]
  | cons c steps ih =>
    simp only [hooks, List.map_cons, totalWeight, Task.weight, Command.weightAll] at ih ⊢
    omega

/-- Of an offered sub-context, the command weighs as much, and its answer. -/
theorem weight_offered? {n : Node} {command : Command} {i : ContextId} {id : SubContextId}
    {sub : SubContext} (h : n.offered? command = some (i, id, sub)) :
    sub.weight + 6 ≤ command.weight := by
  obtain ⟨_, _, _, -, ⟨_, _, _, rfl, hclose⟩ | ⟨_, _, _, rfl, hclose⟩⟩ := offered?_eq_some h
  · simp only [SubContext.weight, Command.weight, hclose]
    omega
  · simp only [SubContext.weight, Command.weight, hclose]
    omega

theorem weight_finishTasks_le (i : ContextId) (c : Context) (target : Phase)
    (h : c.phase.isFinished = false) :
    totalWeight Task.weight (finishTasks i c target) + 2 ≤ c.weight := by
  have hacc : totalWeight Task.weight (c.account.toList.map (.closeAccount i)) ≤ 1 := by
    cases c.account <;> simp [totalWeight, Task.weight]
  have hsubs : totalWeight Task.weight (c.subContexts.values.map (.closeSub i)) =
      totalWeight SubContext.weight c.subContexts.values := totalWeight_map ..
  have hcalls : totalWeight Task.weight
      (c.callbacks.map (.notify i · (finishCause c target) c.bytes)) =
      totalWeight Callback.weight c.callbacks := totalWeight_map ..
  simp only [finishTasks, totalWeight_append, hsubs, hcalls, totalWeight, Task.weight,
    Context.weight, h, Bool.false_eq_true, if_false]
  omega

/-- Finishing a context gives out less than it held. -/
theorem weight_takeOut_le {n : Node} {i : ContextId} {c : Context} {target : Phase}
    (htarget : target.isFinished = true) (hc : n.contexts[i]? = some c)
    (hopen : c.phase.isFinished = false) :
    (n.takeOut i c target).weight + totalWeight Task.weight (finishTasks i c target) + 2 ≤
      n.weight := by
  have hmod := weight_modifyContext n
    (fun _ => { c.emptied with phase := target, finalBytes := c.bytes }) hc
  have htasks := weight_finishTasks_le i c target hopen
  have hzero : Context.weight { c.emptied with phase := target, finalBytes := c.bytes } = 0 := by
    simp [Context.weight, htarget]
  rw [hzero] at hmod
  rw [takeOut]
  omega

end Node

/-! ### Tasks -/

/-- A task weighs more than what it causes. -/
theorem Effect.weight_lt {n m : Node} {task : Task} {pushed : List Task}
    (h : Effect n task m pushed) :
    m.weight + totalWeight Task.weight pushed < n.weight + task.weight := by
  have hanswer : ∀ (command : Command) (reply : Reply) (answer : Answer) (w : Nat),
      w ≤ n.weight + 6 → w + totalWeight Task.weight [.answer reply answer] <
        n.weight + (Task.run command reply).weight := by
    intro command reply answer w hw
    have := command.le_weight
    simp only [totalWeight, Task.weight]
    omega
  cases h with
  | told | taken | dropped | keptSearch | lostSearch | droppedSearch | closedSearch =>
    exact hanswer _ _ _ _ (Nat.le_add_right n.weight 6)
  | opened =>
    refine hanswer _ _ _ _ (Nat.le_trans (Nat.le_of_eq (n.weight_opened ..)) ?_)
    simp only [totalWeight]
    omega
  | entered =>
    refine hanswer _ _ _ _ (Nat.le_trans (Nat.le_of_eq (n.weight_opened ..)) ?_)
    simp only [totalWeight, Callback.weight]
    omega
  | rejected hoffered =>
    have hsub := Node.weight_offered? hoffered
    show n.weight + _ < _
    simp only [totalWeight, Task.weight]
    omega
  | @evicted _ _ _ id _ _ _ _ _ hoffered hc hopen hid =>
    have hsub := Node.weight_offered? hoffered
    have hmod := Node.weight_modifyContext n
      (fun c => { c with subContexts := c.subContexts.erase id }) hc
    have herase := totalWeight_erase_le SubContext.weight hid
    simp only [Context.weight, hopen, Bool.false_eq_true, if_false] at hmod
    show (n.modifyContext _ _).weight + _ < _
    simp only [totalWeight, Task.weight]
    omega
  | @accepted _ _ _ id sub _ _ _ hoffered hc hopen hid =>
    have hsub := Node.weight_offered? hoffered
    have hmod := Node.weight_modifyContext n
      (fun c => { c with subContexts := c.subContexts.insert id sub }) hc
    have hins := totalWeight_insert SubContext.weight sub hid
    simp only [Context.weight, hopen, Bool.false_eq_true, if_false] at hmod
    show (n.modifyContext _ _).weight + _ < _
    simp only [totalWeight, Task.weight]
    omega
  | @registered _ tag steps _ _ _ hheld hopen =>
    have hmod := Node.weight_modifyContext n
      (fun c => { c with callbacks := c.callbacks ++ [.script tag steps] })
      (Node.contexts_of_held? hheld)
    simp only [Context.weight, hopen, Bool.false_eq_true, if_false, totalWeight_append,
      totalWeight, Callback.weight] at hmod
    simp only [totalWeight, Task.weight, Command.weight]
    omega
  | @moved _ _ _ _ i _ _ a' =>
    have hmod := n.weight_modifyContext_le i (f := ({ · with account := some a' }))
      fun _ => Nat.le_refl _
    exact hanswer _ _ _ _ (Nat.le_trans hmod (Nat.le_add_right n.weight 6))
  | @finished command _ _ _ _ _ htarget hc hopen =>
    have htaken := Node.weight_takeOut_le (Task.isFinished_of_target? htarget) hc hopen
    have := command.le_weight
    simp only [totalWeight_append, totalWeight, Task.weight]
    omega
  | killAll | allKilled | accountClosed | closeCounted | endCounted =>
    show n.weight + _ < _
    simp only [totalWeight, Task.weight, Command.weight]
    omega
  | killed hc hopen =>
    have htaken := Node.weight_takeOut_le (show Phase.killed.isFinished = true from rfl) hc hopen
    simp only [totalWeight_append, totalWeight, Task.weight]
    omega
  | closing hclose =>
    show n.weight + _ < _
    simp only [totalWeight_append, Node.weight_hooks, totalWeight, Task.weight, SubContext.weight,
      hclose]
    omega
  | cancelled hclose =>
    show n.weight + _ < _
    simp only [totalWeight, Task.weight, SubContext.weight, hclose]
    omega
  | left | delivered =>
    show n.weight + _ < _
    simp only [totalWeight, Task.weight, Callback.weight]
    omega
  | called =>
    show n.weight + _ < _
    simp only [Node.weight_hooks, Task.weight, Callback.weight]
    omega

namespace Node

theorem weight_doTask_lt (n : Node) (task : Task) :
    (n.doTask task).weight < n.weight + task.weight := by
  obtain ⟨m, pushed, heq, heffect⟩ := n.doTask_effect task
  have := heffect.weight_lt
  rw [heq, weight_push]
  omega

/-! ### Letting go -/

theorem weight_letGo_le (n : Node) (i : ContextId) (c : Context) :
    (n.letGo i c).weight ≤ n.weight := by
  have hmark : ∀ (subs : List SubContext) (m : Node),
      (subs.foldl (fun n sub => n.markDropped sub.serial) m).weight = m.weight := by
    intro subs
    induction subs with
    | nil => intro m; rfl
    | cons sub subs ih =>
      intro m
      rw [List.foldl_cons, ih]
      rfl
  have hempty : ∀ c : Context, c.emptied.weight ≤ c.weight := by
    intro c
    simp only [Context.weight, Context.emptied, SortedMap.values, SortedMap.empty, List.map_nil,
      totalWeight]
    split <;> omega
  have := weight_modifyContext_le (c.subContexts.values.foldl
    (fun n sub => n.markDropped sub.serial) n) i hempty
  rw [hmark] at this
  exact this

theorem weight_letGoUnheld_le (n : Node) (i : ContextId) : (n.letGoUnheld i).weight ≤ n.weight := by
  unfold letGoUnheld
  split
  · split
    · exact weight_letGo_le n i _
    · exact Nat.le_refl _
  · exact Nat.le_refl _

theorem weight_sweep_le (n : Node) : n.sweep.weight ≤ n.weight := by
  unfold sweep
  generalize List.range n.contexts.length = places
  induction places generalizing n with
  | nil => exact Nat.le_refl _
  | cons i places ih => exact Nat.le_trans (ih _) (weight_letGoUnheld_le n i)

/-! ### The end -/

theorem weight_step_lt {n : Node} (h : n.agenda ≠ []) : n.step.weight < n.weight := by
  unfold step
  split
  · exact absurd ‹_› h
  · rename_i task rest hagenda
    have hdo := weight_doTask_lt { n with agenda := rest } task
    have hsweep := weight_sweep_le ({ n with agenda := rest }.doTask task)
    have hn : n.weight = task.weight + ({ n with agenda := rest } : Node).weight := by
      simp only [weight, hagenda, totalWeight]
      omega
    omega

theorem steps_of_agenda_nil {n : Node} (h : n.agenda = []) (k : Nat) : n.steps k = n := by
  induction k with
  | zero => rfl
  | succ k ih =>
    have : n.step = n := by rw [step, h]
    rw [steps, this, ih]

/-- As many steps as the node weighs are enough. -/
theorem agenda_steps {n : Node} {k : Nat} (h : n.weight ≤ k) : (n.steps k).agenda = [] := by
  induction k generalizing n with
  | zero =>
    by_cases ha : n.agenda = []
    · exact ha
    · have := weight_step_lt ha
      omega
  | succ k ih =>
    by_cases ha : n.agenda = []
    · rw [steps_of_agenda_nil ha]; exact ha
    · have := weight_step_lt ha
      exact ih (by omega)

theorem agenda_settle (n : Node) : n.settle.agenda = [] := agenda_steps (Nat.le_refl _)

theorem agenda_perform (n : Node) (command : Command) : (n.perform command).agenda = [] :=
  agenda_settle _

end Node

end ShardJoin.Job
