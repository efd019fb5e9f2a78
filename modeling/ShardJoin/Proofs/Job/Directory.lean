/-
A node has one open context for each job.

A context enters the directory when it is opened for a job and leaves it by a
callback of its own.  In between it may be finished by anybody who holds it,
and while it is finished a new context may take its place; its callback must
not take out the new one.

* `Orderly` — the entries of the directory are open or about to leave it;
* `Current` — a context that was entered for a job is finished, or it is the
  one of the directory;
* `IsRun.oneContextPerJob` — there is one open context per job.
-/
import ShardJoin.Proofs.Job.Run
import ShardJoin.Proofs.Job.Turn

namespace ShardJoin.Job

/-! ### What a task leaves of a context -/

theorem Phase.eq_running {p : Phase} (h : p.isFinished = false) : p = .running := by
  cases p with
  | running => rfl
  | closed => cases h
  | killed => cases h

theorem Node.isFinished_eq {n : Node} {i : ContextId} {c : Context} (h : n.contexts[i]? = some c) :
    n.isFinished i = c.phase.isFinished := by
  rw [isFinished, h]
  rfl

namespace Turn

variable {n n' : Node} {task : Task} (h : Turn n task n')
include h

/-- A context keeps its job.  It keeps its phase and its callbacks, or it is finished and its
callbacks are to be called. -/
theorem context {i : ContextId} {c : Context} (hc : n.contexts[i]? = some c) :
    ∃ c', n'.contexts[i]? = some c' ∧ c'.job = c.job ∧
      (c'.phase = c.phase ∧ c.callbacks ⊆ c'.callbacks ∨ c'.phase.isFinished = true ∧
        ∀ callback ∈ c.callbacks, ∃ cause bytes,
          Task.notify i callback cause bytes ∈ n'.agenda) := by
  have hlt := (List.getElem?_eq_some_iff.1 hc).1
  have hsame : ∃ c', n.contexts[i]? = some c' ∧ c'.job = c.job ∧
      (c'.phase = c.phase ∧ c.callbacks ⊆ c'.callbacks ∨ c'.phase.isFinished = true ∧
        ∀ callback ∈ c.callbacks, ∃ cause bytes,
          Task.notify i callback cause bytes ∈ n'.agenda) :=
    ⟨c, hc, rfl, .inl ⟨rfl, List.Subset.refl _⟩⟩
  cases h with
  | aside hcontexts _ _ => rwa [hcontexts]
  | @change j f _ hcontexts _ hjob hphase hcallbacks _ =>
    rw [hcontexts, List.getElem?_modify, hc]
    by_cases hji : j = i
    · exact ⟨f c, by simp [hji], hjob c, .inl ⟨hphase c, hcallbacks c⟩⟩
    · exact ⟨c, by simp [hji], rfl, .inl ⟨rfl, List.Subset.refl _⟩⟩
  | start hcontexts _ _ => rwa [hcontexts, List.getElem?_append_left hlt]
  | enter _ hcontexts _ _ _ _ _ => rwa [hcontexts, List.getElem?_append_left hlt]
  | @finish j c₀ target last _ hc₀ htarget hcontexts _ _ hagenda =>
    rw [hcontexts, Node.takeOut, Node.modifyContext, List.getElem?_modify, hc]
    by_cases hji : j = i
    · subst hji
      obtain rfl := Option.some.inj (hc.symm.trans hc₀)
      refine ⟨{ c.emptied with phase := target, finalBytes := c.bytes }, by simp, rfl,
        .inr ⟨htarget, fun callback hcallback => ⟨Node.finishCause c target, c.bytes, ?_⟩⟩⟩
      rw [hagenda, Node.finishTasks]
      simp [hcallback]
    · exact ⟨c, by simp [hji], rfl, .inl ⟨rfl, List.Subset.refl _⟩⟩

theorem isFinished {i : ContextId} (hi : n.isFinished i = true) : n'.isFinished i = true := by
  cases hc : n.contexts[i]? with
  | none => simp [Node.isFinished, hc] at hi
  | some c =>
    obtain ⟨c', hc', -, ⟨hphase, -⟩ | ⟨hfinished, -⟩⟩ := h.context hc
    · rw [Node.isFinished_eq hc', hphase, ← Node.isFinished_eq hc, hi]
    · rw [Node.isFinished_eq hc', hfinished]

/-- The tasks that are still to be done stay, and only a finished context is to leave. -/
theorem agenda : n.agenda ⊆ n'.agenda ∧ ∀ x ∈ n'.agenda,
    x ∈ n.agenda ∨ ∀ i, x.leaving? = some i → n'.isFinished i = true := by
  have hquiet : Quiet n n' → n.agenda ⊆ n'.agenda ∧ ∀ x ∈ n'.agenda,
      x ∈ n.agenda ∨ ∀ i, x.leaving? = some i → n'.isFinished i = true := by
    rintro ⟨pushed, hagenda, hpushed⟩
    rw [hagenda]
    refine ⟨List.subset_append_right _ _, fun x hx => ?_⟩
    rcases List.mem_append.1 hx with hx | hx
    · refine .inr fun i hi => ?_
      rw [hpushed x hx] at hi
      cases hi
    · exact .inl hx
  cases h with
  | aside _ _ hq => exact hquiet hq
  | change _ _ _ _ _ _ hq => exact hquiet hq
  | start _ _ hq => exact hquiet hq
  | enter _ _ _ _ _ _ hq => exact hquiet hq
  | @finish j c target last _ hc htarget hcontexts _ hlast hagenda =>
    have hfinished : n'.isFinished j = true := by
      rw [Node.isFinished, hcontexts, Node.takeOut, Node.modifyContext, List.getElem?_modify, hc]
      simpa using htarget
    rw [hagenda]
    refine ⟨List.subset_append_right _ _, fun x hx => ?_⟩
    rcases List.mem_append.1 hx with hx | hx
    · refine .inr fun i hi => ?_
      simp only [Node.finishTasks, List.mem_append, List.mem_map, List.mem_singleton] at hx
      rcases hx with (⟨_, -, rfl⟩ | ⟨_, -, rfl⟩ | ⟨callback, -, rfl⟩ | rfl) | rfl
      · cases hi
      · cases hi
      -- only the callbacks of the context itself are called
      · cases callback with
        | leave =>
          obtain rfl := Option.some.inj hi
          exact hfinished
        | script tag steps => cases hi
      · cases hi
      · rw [hlast] at hi
        cases hi
    · exact .inl hx

/-- The directory stays, or a new context is entered for a job that has no open one. -/
theorem directory : n'.directory = n.directory ∨ ∃ job c, n.openContextOf? job = none ∧
    n'.contexts = n.contexts ++ [c] ∧ c.job = job ∧ c.phase = .running ∧ .leave ∈ c.callbacks ∧
    n'.directory = n.directory.insert job n.contexts.length := by
  cases h with
  | aside _ hdirectory _ => exact .inl hdirectory
  | change _ _ hdirectory _ _ _ _ => exact .inl hdirectory
  | start _ hdirectory _ => exact .inl hdirectory
  | enter hnone hcontexts hjob hopen hleave hdirectory _ =>
    exact .inr ⟨_, _, hnone, hcontexts, hjob, hopen, hleave, hdirectory⟩
  | finish _ _ _ _ hdirectory _ _ => exact .inl hdirectory

/-- A context stays as it is if the task does not work on it. -/
theorem untouched {i : ContextId} (hi : i < n.contexts.length) (hnot : i ∉ n.touches task) :
    n'.contexts[i]? = n.contexts[i]? := by
  have hne : ∀ j ∈ n.touches task, j ≠ i := fun j hj heq => hnot (heq ▸ hj)
  cases h with
  | aside hcontexts _ _ => rw [hcontexts]
  | change hj hcontexts _ _ _ _ _ =>
    rw [hcontexts]
    exact List.getElem?_modify_ne _ _ (hne _ hj)
  | start hcontexts _ _ => rw [hcontexts, List.getElem?_append_left hi]
  | enter _ hcontexts _ _ _ _ _ => rw [hcontexts, List.getElem?_append_left hi]
  | finish hj _ _ hcontexts _ _ _ =>
    rw [hcontexts]
    exact List.getElem?_modify_ne _ _ (hne _ hj)

end Turn

/-! ### The directory -/

/-- The entries of the directory are contexts of their jobs that are open and will leave it when
they are finished, or are about to leave it; and only finished contexts are about to leave. -/
structure Orderly (n : Node) : Prop where
  entry : ∀ job i, n.contextOf? job = some i → ∃ c, n.contexts[i]? = some c ∧ c.job = job ∧
    (c.phase.isFinished = false ∧ Callback.leave ∈ c.callbacks ∨
      ∃ task ∈ n.agenda, task.leaving? = some i)
  leaving : ∀ task ∈ n.agenda, ∀ i, task.leaving? = some i → n.isFinished i = true

namespace Orderly

variable {n n' : Node}

theorem start (name : NodeId) (capacity jobLimit : UInt64) :
    Orderly (.start name capacity jobLimit) :=
  ⟨fun _ _ h => (nomatch h), fun _ h => (nomatch h)⟩

/-- A context is the one of one job at most. -/
theorem nodup_directory (h : Orderly n) : n.directory.values.Nodup := by
  refine SortedMap.nodup_values fun job job' i hi hi' => ?_
  obtain ⟨c, hc, hjob, -⟩ := h.entry job i hi
  obtain ⟨c', hc', hjob', -⟩ := h.entry job' i hi'
  obtain rfl := Option.some.inj (hc.symm.trans hc')
  exact hjob.symm.trans hjob'

/-- An entry that is open is not about to leave. -/
theorem of_openContextOf? (h : Orderly n) {job : JobId} {i : ContextId}
    (hi : n.contextOf? job = some i) (hopen : n.isFinished i = false) :
    n.openContextOf? job = some i := by
  obtain ⟨c, hc, -, -⟩ := h.entry job i hi
  rw [Node.isFinished_eq hc] at hopen
  refine Option.filter_eq_some_iff.2 ⟨hi, ?_⟩
  rw [hc]
  simp [Context.isOpen, hopen]

theorem turn {task : Task} (h : Orderly n) (hturn : Turn n task n') : Orderly n' := by
  obtain ⟨hkeep, hnew⟩ := hturn.agenda
  -- what is said of an entry stays true
  have hentry : ∀ job i, n.contextOf? job = some i → ∃ c, n'.contexts[i]? = some c ∧
      c.job = job ∧ (c.phase.isFinished = false ∧ Callback.leave ∈ c.callbacks ∨
        ∃ task ∈ n'.agenda, task.leaving? = some i) := by
    intro job i hi
    obtain ⟨c, hc, hjob, hcases⟩ := h.entry job i hi
    obtain ⟨c', hc', hjob', hcases'⟩ := hturn.context hc
    refine ⟨c', hc', hjob'.trans hjob, ?_⟩
    rcases hcases with ⟨hopen, hleave⟩ | ⟨task, htask, hleaving⟩
    · rcases hcases' with ⟨hphase, hcallbacks⟩ | ⟨-, hcalled⟩
      · exact .inl ⟨hphase ▸ hopen, hcallbacks hleave⟩
      · obtain ⟨cause, bytes, hmem⟩ := hcalled _ hleave
        exact .inr ⟨_, hmem, rfl⟩
    · exact .inr ⟨task, hkeep htask, hleaving⟩
  refine ⟨fun job i hi => ?_, fun task htask i hi => ?_⟩
  · rcases hturn.directory with hdirectory | ⟨job', c, -, hcontexts, hjob, hopen, hleave, hdirectory⟩
    · rw [Node.contextOf?, hdirectory] at hi
      exact hentry job i hi
    · rw [Node.contextOf?, hdirectory, SortedMap.get?_insert] at hi
      split at hi
      -- the new entry
      · rename_i heq
        obtain rfl := Option.some.inj hi
        refine ⟨c, ?_, hjob.trans heq.symm, .inl ⟨by rw [hopen]; rfl, hleave⟩⟩
        rw [hcontexts]
        exact List.getElem?_concat_length
      · exact hentry job i hi
  · rcases hnew task htask with hold | hfinished
    · exact hturn.isFinished (h.leaving task hold i hi)
    · exact hfinished i hi

/-- A task that is done is not needed any more, unless it takes a context out. -/
theorem tail (h : Orderly n) {task : Task} {rest : List Task} (hagenda : n.agenda = task :: rest)
    (htask : task.leaving? = none) : Orderly { n with agenda := rest } := by
  refine ⟨fun job i hi => ?_, fun task' htask' => h.leaving task' ?_⟩
  · obtain ⟨c, hc, hjob, hopen | ⟨task', hmem, hleaving⟩⟩ := h.entry job i hi
    · exact ⟨c, hc, hjob, .inl hopen⟩
    · rw [hagenda, List.mem_cons] at hmem
      rcases hmem with rfl | hmem
      · rw [htask] at hleaving
        cases hleaving
      · exact ⟨c, hc, hjob, .inr ⟨task', hmem, hleaving⟩⟩
  · rw [hagenda]
    exact List.mem_cons_of_mem _ htask'

/-- A context leaves the directory only if it is the one of its job. -/
theorem contextOf?_leave {i j : ContextId} {job : JobId} :
    (n.leave i).contextOf? job = some j ↔ n.contextOf? job = some j ∧
      ¬(j = i ∧ ∃ c, n.contexts[i]? = some c ∧ c.job = job) := by
  unfold Node.leave
  split
  · rename_i hnone
    simp [hnone]
  · rename_i c hc
    split
    · rename_i hcurrent
      rw [Node.contextOf?, SortedMap.get?_erase]
      by_cases hjob : job = c.job
      · subst hjob
        rw [if_pos rfl, hcurrent]
        refine ⟨fun h => (nomatch h), ?_⟩
        rintro ⟨hij, hnot⟩
        exact absurd ⟨(Option.some.inj hij).symm, c, hc, rfl⟩ hnot
      · rw [if_neg hjob]
        simp only [hc, Option.some.injEq]
        refine ⟨fun h => ⟨h, ?_⟩, And.left⟩
        rintro ⟨-, c', rfl, hjob'⟩
        exact hjob hjob'.symm
    · rename_i hother
      refine ⟨fun h => ⟨h, ?_⟩, And.left⟩
      rintro ⟨rfl, c', hc', rfl⟩
      obtain rfl := Option.some.inj (hc.symm.trans hc')
      exact hother h

theorem leave_same (n : Node) (i : ContextId) :
    (n.leave i).contexts = n.contexts ∧ (n.leave i).agenda = n.agenda ∧
      (n.leave i).handles = n.handles := by
  unfold Node.leave
  split
  · exact ⟨rfl, rfl, rfl⟩
  · split <;> exact ⟨rfl, rfl, rfl⟩

theorem leave (h : Orderly n) {task : Task} {rest : List Task} (hagenda : n.agenda = task :: rest)
    {i : ContextId} (htask : task.leaving? = some i) :
    Orderly (Node.leave { n with agenda := rest } i) := by
  obtain ⟨hcontexts, hrest, -⟩ := leave_same { n with agenda := rest } i
  refine ⟨fun job j hj => ?_, fun task' htask' j hj => ?_⟩
  · obtain ⟨hj, hnot⟩ := contextOf?_leave.1 hj
    obtain ⟨c, hc, hjob, hcases⟩ := h.entry job j hj
    rw [hcontexts, hrest]
    refine ⟨c, hc, hjob, hcases.imp_right ?_⟩
    rintro ⟨task', hmem, hleaving⟩
    rw [hagenda, List.mem_cons] at hmem
    rcases hmem with rfl | hmem
    -- the one that leaves is not in the directory any more
    · rw [htask, Option.some.injEq] at hleaving
      subst hleaving
      exact absurd ⟨rfl, c, hc, hjob⟩ hnot
    · exact ⟨task', hmem, hleaving⟩
  · rw [hrest] at htask'
    rw [Node.isFinished, hcontexts]
    exact h.leaving task' (by rw [hagenda]; exact List.mem_cons_of_mem _ htask') j hj

theorem isFinished_sweep (n : Node) (i : ContextId) : n.sweep.isFinished i = n.isFinished i := by
  rw [Node.isFinished, Node.isFinished]
  rcases n.contexts_sweep.2.2 i with heq | ⟨-, heq⟩
  · rw [heq]
  · rw [heq, Option.map_map]
    rfl

/-- A context of the directory is not let go. -/
theorem getElem?_sweep {job : JobId} {i : ContextId} (hi : n.contextOf? job = some i) :
    n.sweep.contexts[i]? = n.contexts[i]? := by
  rcases n.contexts_sweep.2.2 i with heq | ⟨hnot, -⟩
  · exact heq
  · rw [Node.isHeld_of_contextOf? hi] at hnot
    cases hnot

theorem contextOf?_sweep (n : Node) (job : JobId) : n.sweep.contextOf? job = n.contextOf? job := by
  rw [Node.contextOf?, n.contexts_sweep.1]
  rfl

theorem sweep (h : Orderly n) : Orderly n.sweep := by
  have hagenda := n.swept_sweep.agenda
  refine ⟨fun job i hi => ?_, fun task htask i hi => ?_⟩
  · rw [contextOf?_sweep] at hi
    rw [getElem?_sweep hi, hagenda]
    exact h.entry job i hi
  · rw [isFinished_sweep]
    exact h.leaving task (hagenda ▸ htask) i hi

theorem step (h : Orderly n) : Orderly n.step := by
  unfold Node.step
  split
  · exact h
  · rename_i task rest hagenda
    refine sweep ?_
    cases htask : task.leaving? with
    | none => exact (h.tail hagenda htask).turn (Node.doTask_turn _ htask)
    | some i =>
      unfold Task.leaving? at htask
      split at htask
      · obtain rfl := Option.some.inj htask
        exact h.leave hagenda rfl
      · cases htask

theorem given (h : Orderly n) (hagenda : n.agenda = []) (command : Command) :
    Orderly (n.given command) := by
  refine ⟨fun job i hi => ?_, fun task htask i hi => ?_⟩
  · obtain ⟨c, hc, hjob, hopen | ⟨task, hmem, -⟩⟩ := h.entry job i hi
    · exact ⟨c, hc, hjob, .inl hopen⟩
    · rw [hagenda] at hmem
      cases hmem
  · rw [List.mem_singleton.1 htask] at hi
    cases hi

end Orderly

/-! ### Contexts that were entered -/

/-- A context of a job is finished, or it is the one of the directory. -/
def Current (job : JobId) (i : ContextId) (n : Node) : Prop :=
  ∃ c, n.contexts[i]? = some c ∧ c.job = job ∧
    (c.phase.isFinished = true ∨ n.contextOf? job = some i)

namespace Current

variable {n n' : Node} {job : JobId} {i : ContextId}

theorem turn {task : Task} (h : Current job i n) (hn : Orderly n) (hturn : Turn n task n') :
    Current job i n' := by
  obtain ⟨c, hc, hjob, hcases⟩ := h
  obtain ⟨c', hc', hjob', -⟩ := hturn.context hc
  refine ⟨c', hc', hjob'.trans hjob, ?_⟩
  by_cases hfinished : n.isFinished i = true
  · left
    rw [← Node.isFinished_eq hc']
    exact hturn.isFinished hfinished
  · right
    rw [Bool.not_eq_true] at hfinished
    have hi : n.contextOf? job = some i := by
      rcases hcases with hphase | hi
      · rw [Node.isFinished_eq hc, hphase] at hfinished
        cases hfinished
      · exact hi
    rcases hturn.directory with hdirectory | ⟨job', _, hnone, -, -, -, -, hdirectory⟩
    · rwa [Node.contextOf?, hdirectory]
    · rw [Node.contextOf?, hdirectory, SortedMap.get?_insert]
      -- no other context is entered for the job while this one is open
      have hne : job ≠ job' := by
        rintro rfl
        rw [hn.of_openContextOf? hi hfinished] at hnone
        cases hnone
      rwa [if_neg hne]

theorem leave (h : Current job i n) {j : ContextId} (hj : n.isFinished j = true) :
    Current job i (n.leave j) := by
  obtain ⟨c, hc, hjob, hcases⟩ := h
  have hsame := (Orderly.leave_same n j).1
  refine ⟨c, by rw [hsame, hc], hjob, ?_⟩
  rcases hcases with hphase | hi
  · exact .inl hphase
  · by_cases hij : i = j
    · left
      rw [← Node.isFinished_eq hc, hij, hj]
    · exact .inr (Orderly.contextOf?_leave.2 ⟨hi, fun hleft => hij hleft.1⟩)

theorem sweep (h : Current job i n) : Current job i n.sweep := by
  obtain ⟨c, hc, hjob, hcases⟩ := h
  have hcontext : ∃ c', n.sweep.contexts[i]? = some c' ∧ c'.job = c.job := by
    rcases n.contexts_sweep.2.2 i with heq | ⟨-, heq⟩
    · exact ⟨c, heq.trans hc, rfl⟩
    · exact ⟨c.emptied, by rw [heq, hc]; rfl, rfl⟩
  obtain ⟨c', hc', hjob'⟩ := hcontext
  refine ⟨c', hc', hjob'.trans hjob, ?_⟩
  rcases hcases with hphase | hi
  · left
    rw [← Node.isFinished_eq hc', Orderly.isFinished_sweep, Node.isFinished_eq hc, hphase]
  · rw [Orderly.contextOf?_sweep]
    exact .inr hi

theorem doTask (h : Current job i n) (hn : Orderly n) {task : Task} {rest : List Task}
    (hagenda : n.agenda = task :: rest) :
    Current job i (Node.doTask { n with agenda := rest } task) := by
  have hrest : Current job i { n with agenda := rest } := h
  cases htask : task.leaving? with
  | none => exact hrest.turn (hn.tail hagenda htask) (Node.doTask_turn _ htask)
  | some j =>
    have hfinished := hn.leaving task (by rw [hagenda]; exact List.mem_cons_self) j htask
    unfold Task.leaving? at htask
    split at htask
    · obtain rfl := Option.some.inj htask
      exact hrest.leave hfinished
    · cases htask

theorem step (h : Current job i n) (hn : Orderly n) : Current job i n.step := by
  unfold Node.step
  split
  · exact h
  · rename_i task rest hagenda
    exact (h.doTask hn hagenda).sweep

end Current

/-- An open context of the directory stays there, as it is, while other contexts are worked on. -/
theorem Orderly.step_of_untouched {n : Node} (hn : Orderly n) {task : Task} {rest : List Task}
    (hagenda : n.agenda = task :: rest) {job : JobId} {i : ContextId}
    (hi : n.contextOf? job = some i) (hopen : n.isFinished i = false)
    (hnot : i ∉ n.touches task) :
    n.step.contextOf? job = some i ∧ n.step.contexts[i]? = n.contexts[i]? := by
  obtain ⟨c, hc, hjob, -⟩ := hn.entry job i hi
  have hcurrent : Current job i n.step := Current.step ⟨c, hc, hjob, .inr hi⟩ hn
  have hstep : n.step = (Node.doTask { n with agenda := rest } task).sweep := by
    rw [Node.step, hagenda]
  -- the context is as before when the task is done, and it is not let go
  have hsame : (Node.doTask { n with agenda := rest } task).contexts[i]? = n.contexts[i]? := by
    cases htask : task.leaving? with
    | none =>
      exact (Node.doTask_turn { n with agenda := rest } htask).untouched
        (List.getElem?_eq_some_iff.1 hc).1 hnot
    | some j =>
      unfold Task.leaving? at htask
      split at htask
      · rw [Node.doTask, Node.notify, (leave_same _ _).1]
      · cases htask
  have hfinished : n.step.isFinished i = false := by
    rw [hstep, isFinished_sweep, Node.isFinished, hsame]
    exact hopen
  have hkept : n.step.contextOf? job = some i := by
    obtain ⟨c', hc', -, hphase | hi'⟩ := hcurrent
    · rw [Node.isFinished_eq hc', hphase] at hfinished
      cases hfinished
    · exact hi'
  refine ⟨hkept, ?_⟩
  rw [hstep, contextOf?_sweep] at hkept
  rw [hstep, getElem?_sweep hkept, hsame]

/-! ### Taking the context of a job -/

/-- The context that is taken for a job is open, of this job, and the one of the directory. -/
theorem Orderly.acquireContext {n : Node} (hn : Orderly n) (job : JobId) :
    ∃ c, (n.acquireContext job).2.contexts[(n.acquireContext job).1]? = some c ∧ c.job = job ∧
      c.phase = .running ∧
      (n.acquireContext job).2.contextOf? job = some (n.acquireContext job).1 := by
  unfold Node.acquireContext
  split
  · rename_i i hi
    obtain ⟨hi, hopen⟩ := Option.filter_eq_some_iff.1 hi
    obtain ⟨c, hc, hjob, -⟩ := hn.entry job i hi
    rw [hc] at hopen
    exact ⟨c, hc, hjob, Phase.eq_running (by simpa [Context.isOpen] using hopen), hi⟩
  · refine ⟨_, List.getElem?_concat_length, rfl, rfl, ?_⟩
    rw [Node.contextOf?, SortedMap.get?_insert, if_pos rfl]

/-- Which context is taken for a job does not depend on what is still to be done. -/
theorem Node.acquireContext_fst (n : Node) (rest : List Task) (job : JobId) :
    (Node.acquireContext { n with agenda := rest } job).1 = (n.acquireContext job).1 := by
  have hopen : Node.openContextOf? { n with agenda := rest } job = n.openContextOf? job := rfl
  rw [acquireContext, acquireContext, hopen]
  cases n.openContextOf? job <;> rfl

theorem Node.handles_acquireContext (n : Node) (job : JobId) :
    (n.acquireContext job).2.handles = n.handles := by
  unfold acquireContext
  split <;> rfl

theorem Node.agenda_acquireContext (n : Node) (job : JobId) :
    (n.acquireContext job).2.agenda = n.agenda := by
  unfold acquireContext
  split <;> rfl

/-- At some time the context of a job is taken. -/
def Acquires (t : Nat → Node) (k : Nat) (job : JobId) (i : ContextId) : Prop :=
  ∃ holder reply rest, (t k).agenda = .run (.acquire job holder) reply :: rest ∧
    i = ((t k).acquireContext job).1

namespace IsRun

variable {t : Nat → Node} (h : IsRun t)
include h

theorem orderly (k : Nat) : Orderly (t k) := by
  induction k with
  | zero =>
    obtain ⟨name, capacity, jobLimit, h0⟩ := h.start
    rw [h0]
    exact .start name capacity jobLimit
  | succ k ih =>
    rcases h.next k with hk | ⟨hagenda, command, hk⟩
    · rw [hk]
      exact ih.step
    · rw [hk]
      exact ih.given hagenda command

/-- A context stays finished or the one of the directory. -/
theorem current {job : JobId} {i : ContextId} {k m : Nat} (hkm : k ≤ m)
    (hk : Current job i (t k)) : Current job i (t m) := by
  induction hkm with
  | refl => exact hk
  | @step m _ ih =>
    rcases h.next m with hm | ⟨-, command, hm⟩
    · rw [hm]
      exact ih.step (h.orderly m)
    · rw [hm]
      exact ih

/-- What taking a context leads to. -/
theorem acquired {k : Nat} {job : JobId} {holder : Holder} {reply : Reply} {rest : List Task}
    (hagenda : (t k).agenda = .run (.acquire job holder) reply :: rest) :
    ∃ c, (t (k + 1)).contexts[((t k).acquireContext job).1]? = some c ∧ c.job = job ∧
      c.phase = .running ∧ (t (k + 1)).contextOf? job = some ((t k).acquireContext job).1 ∧
      (t (k + 1)).handles.get? holder = some ((t k).acquireContext job).1 ∧
      (t (k + 1)).agenda =
        .answer reply (.held ((t k).holdersOf ((t k).acquireContext job).1) c.status) :: rest := by
  obtain ⟨c, hc, hjob, hphase, hcontext⟩ := ((h.orderly k).tail hagenda rfl).acquireContext job
  have hhandles := Node.handles_acquireContext { t k with agenda := rest } job
  have hrest := Node.agenda_acquireContext { t k with agenda := rest } job
  have hstep : t (k + 1) = (Node.doTask { t k with agenda := rest }
      (.run (.acquire job holder) reply)).sweep := by
    rw [h.step_eq hagenda, Node.step, hagenda]
  rw [Node.doTask, Node.execute] at hstep
  rw [← Node.acquireContext_fst _ rest]
  generalize Node.acquireContext { t k with agenda := rest } job = taken at *
  obtain ⟨i, m⟩ := taken
  replace hstep : t (k + 1) = (m.answerHeld i (some holder) reply).sweep := hstep
  -- the answer changes nothing but who holds the context
  have hanswer : m.answerHeld i (some holder) reply =
      ({ m with handles := m.handles.insert holder i }).answerNow reply
        (.held (m.holdersOf i) c.status) := by
    unfold Node.answerHeld
    rw [hc]
  have hholders : m.holdersOf i = (t k).holdersOf i := by
    rw [Node.holdersOf, hhandles]
    rfl
  rw [hanswer, hholders] at hstep
  have hkept : (t (k + 1)).contexts[i]? = m.contexts[i]? := by
    rw [hstep]
    exact Orderly.getElem?_sweep hcontext
  refine ⟨c, hkept.trans hc, hjob, hphase, ?_, ?_, ?_⟩
  · rw [hstep, Orderly.contextOf?_sweep]
    exact hcontext
  · rw [hstep, (Node.contexts_sweep _).2.1]
    exact (SortedMap.get?_insert ..).trans (if_pos rfl)
  · rw [hstep, (Node.swept_sweep _).agenda]
    exact congrArg (List.cons _) hrest

end IsRun

/-! ### One open context for each job -/

/-- There is one open context for each job. -/
structure OneContextPerJob (t : Nat → Node) : Prop where
  /-- Between commands the contexts of the directory are open, and each is of its job. -/
  directory : ∀ k, (t k).agenda = [] → ∀ job i, (t k).contextOf? job = some i →
    ∃ c, (t k).contexts[i]? = some c ∧ c.job = job ∧ c.phase = .running
  /-- Whoever takes the context of a job holds an open one of this job, the one of the directory,
  and is told its status. -/
  acquired : ∀ k job holder reply rest, (t k).agenda = .run (.acquire job holder) reply :: rest →
    ∃ i c, Acquires t k job i ∧ (t (k + 1)).contexts[i]? = some c ∧ c.job = job ∧
      c.phase = .running ∧ (t (k + 1)).contextOf? job = some i ∧
      (t (k + 1)).handles.get? holder = some i ∧
      (t (k + 1)).agenda = .answer reply (.held ((t k).holdersOf i) c.status) :: rest
  /-- A context that was taken for a job is the one of the directory until it is finished. -/
  current : ∀ k m job i, Acquires t k job i → k < m → (t m).isFinished i = false →
    (t m).contextOf? job = some i
  /-- Until then no other one is taken or opened for the job. -/
  same : ∀ k m job i, Acquires t k job i → k < m → (t m).isFinished i = false →
    (t m).acquireContext job = (i, t m)
  /-- Of all contexts that were taken for a job, one at most is open. -/
  unique : ∀ k k' m job i j, Acquires t k job i → Acquires t k' job j → k < m → k' < m →
    (t m).isFinished i = false → (t m).isFinished j = false → i = j
  /-- What is done to other contexts, also if they had this job before, leaves the open context of
  a job where it is and as it is. -/
  untouched : ∀ k task rest, (t k).agenda = task :: rest → ∀ job i,
    (t k).contextOf? job = some i → (t k).isFinished i = false → i ∉ (t k).touches task →
      (t (k + 1)).contextOf? job = some i ∧ (t (k + 1)).contexts[i]? = (t k).contexts[i]?

/-- A run has one open context for each job, in whatever order contexts are taken and finished,
and whatever their sub-contexts and callbacks do meanwhile. -/
theorem IsRun.oneContextPerJob {t : Nat → Node} (h : IsRun t) : OneContextPerJob t := by
  have hcurrent : ∀ k m job i, Acquires t k job i → k < m → (t m).isFinished i = false →
      (t m).contextOf? job = some i := by
    rintro k m job i ⟨holder, reply, rest, hagenda, rfl⟩ hkm hopen
    obtain ⟨c, hc, hjob, -, hi, -⟩ := h.acquired hagenda
    obtain ⟨c', hc', -, hphase | hi'⟩ := h.current hkm ⟨c, hc, hjob, .inr hi⟩
    · rw [Node.isFinished_eq hc', hphase] at hopen
      cases hopen
    · exact hi'
  refine ⟨fun k hagenda job i hi => ?_, fun k job holder reply rest hagenda => ?_, hcurrent,
    fun k m job i hi hkm hopen => ?_, fun k k' m job i j hi hj hkm hkm' hopen hopen' => ?_,
    fun k task rest hagenda job i hi hopen hnot => ?_⟩
  · obtain ⟨c, hc, hjob, ⟨hopen, -⟩ | ⟨task, htask, -⟩⟩ := (h.orderly k).entry job i hi
    · exact ⟨c, hc, hjob, Phase.eq_running hopen⟩
    -- nothing is left to do that could leave
    · rw [hagenda] at htask
      cases htask
  · obtain ⟨c, hacquired⟩ := h.acquired hagenda
    exact ⟨_, c, ⟨holder, reply, rest, hagenda, rfl⟩, hacquired⟩
  · have hi := (h.orderly m).of_openContextOf? (hcurrent k m job i hi hkm hopen) hopen
    rw [Node.acquireContext, hi]
  · have hi := hcurrent k m job i hi hkm hopen
    rw [hcurrent k' m job j hj hkm' hopen'] at hi
    exact (Option.some.inj hi).symm
  · rw [h.step_eq hagenda]
    exact (h.orderly k).step_of_untouched hagenda hi hopen hnot

/-- A job is finished, and while it is, a new context is opened for it.  Finishing the old one
again does nothing to the new one. -/
def succeeded : List Command :=
  [.acquire 7 "old", .add "old" 1 "first" false [.acquire 7 "new"], .kill "old", .close "old"]

theorem oneContextPerJob_succeeded :
    OneContextPerJob ((Node.start "node" 100 50).following succeeded) ∧
      ∃ k, ((Node.start "node" 100 50).following succeeded k).contextOf? 7 = some 1 ∧
        ((Node.start "node" 100 50).following succeeded k).contexts.map (·.phase) =
          [.killed, .running] := by
  refine ⟨(Node.isRun_following "node" 100 50 succeeded).oneContextPerJob, ?_⟩
  obtain ⟨k, hk⟩ := Node.exists_following_eq_performAll (n := .start "node" 100 50) rfl succeeded
  refine ⟨k, ?_⟩
  rw [hk]
  decide

end ShardJoin.Job
