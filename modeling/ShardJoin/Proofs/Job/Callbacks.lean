/-
Callbacks are called exactly once.

An open context collects the callbacks that it accepts.  The call that finishes
it takes them out, and from then on each of them is either called already or
waits to be called; all of them learn the same cause and the same bytes, those
that were held when the context was finished.

* `registered`, `fired` — the history of a context: the callbacks that it has
  accepted, and the calls that were made;
* `Filed` — what a context has agrees with its history, and stays so;
* `IsRun.fired_append_pending` — the calls of a finished context, those made and
  those still to be made, stay the same;
* `Completes` — what the call that finishes a context does;
* `IsRun.callbacksFireOnce` — every run calls its callbacks exactly once.
-/
import ShardJoin.Proofs.Job.Books
import ShardJoin.Proofs.Job.Directory
import ShardJoin.Proofs.Job.ExactlyOnce

namespace ShardJoin.Job

/-! ### Histories -/

/-- A call of a callback. -/
structure Call where
  callback : Callback
  cause : Option Fault
  bytes : UInt64

/-- The calls of a context that tasks are to make. -/
def pendingCalls (i : ContextId) (tasks : List Task) : List Call :=
  tasks.filterMap fun
    | .notify j callback cause bytes => if j = i then some ⟨callback, cause, bytes⟩ else none
    | _ => none

namespace Node

/-- The callbacks that the next task registers with a context. -/
def registers (n : Node) (i : ContextId) : List Callback :=
  n.agenda.head?.elim [] (n.accepts · i)

/-- The calls of a context that the next task makes. -/
def fires (n : Node) (i : ContextId) : List Call := pendingCalls i (n.agenda.take 1)

end Node

/-- The callbacks that a context has accepted before a time, in order. -/
def registered (t : Nat → Node) (i : ContextId) (k : Nat) : List Callback :=
  (List.range k).flatMap fun j => (t j).registers i

/-- The calls of a context that were made before a time, in order. -/
def fired (t : Nat → Node) (i : ContextId) (k : Nat) : List Call :=
  (List.range k).flatMap fun j => (t j).fires i

theorem registered_succ (t : Nat → Node) (i : ContextId) (k : Nat) :
    registered t i (k + 1) = registered t i k ++ (t k).registers i := by
  simp [registered, List.range_succ]

theorem fired_succ (t : Nat → Node) (i : ContextId) (k : Nat) :
    fired t i (k + 1) = fired t i k ++ (t k).fires i := by
  simp [fired, List.range_succ]

theorem fired_eq_nil_iff {t : Nat → Node} {i : ContextId} {k : Nat} :
    fired t i k = [] ↔ ∀ j < k, (t j).fires i = [] := by
  simp [fired]

/-! ### Pending calls -/

theorem pendingCalls_append (i : ContextId) (tasks tasks' : List Task) :
    pendingCalls i (tasks ++ tasks') = pendingCalls i tasks ++ pendingCalls i tasks' :=
  List.filterMap_append

theorem mem_pendingCalls {i : ContextId} {tasks : List Task} {call : Call} :
    call ∈ pendingCalls i tasks ↔ .notify i call.callback call.cause call.bytes ∈ tasks := by
  rw [pendingCalls, List.mem_filterMap]
  constructor
  · rintro ⟨task, htask, hcall⟩
    split at hcall
    · split at hcall
      · subst_vars
        obtain rfl := Option.some.inj hcall
        exact htask
      · cases hcall
    · cases hcall
  · exact fun hmem => ⟨_, hmem, if_pos rfl⟩

theorem pendingCalls_eq_nil_iff {i : ContextId} {tasks : List Task} :
    pendingCalls i tasks = [] ↔
      ∀ callback cause bytes, .notify i callback cause bytes ∉ tasks := by
  rw [List.eq_nil_iff_forall_not_mem]
  constructor
  · intro h callback cause bytes hmem
    exact h ⟨callback, cause, bytes⟩ (mem_pendingCalls.2 hmem)
  · intro h call hcall
    exact h _ _ _ (mem_pendingCalls.1 hcall)

/-- Only calls of callbacks are calls. -/
theorem pendingCalls_of_isCalm {i : ContextId} {tasks : List Task}
    (h : ∀ task ∈ tasks, task.isCalm = true) : pendingCalls i tasks = [] := by
  rw [pendingCalls_eq_nil_iff]
  intro callback cause bytes hmem
  have hcalm := h _ hmem
  cases hcalm

theorem pendingCalls_of_isReturn {i : ContextId} {task : Task} (h : task.isReturn = true) :
    pendingCalls i [task] = [] := by
  refine pendingCalls_of_isCalm fun x hx => ?_
  rw [List.mem_singleton.1 hx]
  exact Task.isCalm_of_isReturn h

/-- The calls that finishing a context causes are those of its callbacks, in order. -/
theorem pendingCalls_finishTasks (i j : ContextId) (c : Context) (target : Phase) :
    pendingCalls i (Node.finishTasks j c target) =
      if j = i then c.callbacks.map (⟨·, Node.finishCause c target, c.bytes⟩) else [] := by
  have hsubs : pendingCalls i (c.subContexts.values.map (.closeSub j)) = [] := by
    rw [pendingCalls_eq_nil_iff]
    simp
  have haccount : pendingCalls i (c.account.toList.map (.closeAccount j)) = [] := by
    rw [pendingCalls_eq_nil_iff]
    simp
  rw [Node.finishTasks, pendingCalls_append, pendingCalls_append, pendingCalls_append, hsubs,
    haccount]
  show pendingCalls i (c.callbacks.map _) ++ [] = _
  rw [List.append_nil, pendingCalls, List.filterMap_map]
  by_cases hji : j = i
  · rw [if_pos hji, ← List.filterMap_eq_map]
    exact List.filterMap_congr fun callback _ => if_pos hji
  · rw [if_neg hji, List.filterMap_eq_nil_iff]
    exact fun callback _ => if_neg hji

/-- The next call is made, or it is still to be made. -/
theorem Node.fires_append {n : Node} {task : Task} {rest : List Task}
    (h : n.agenda = task :: rest) (i : ContextId) :
    n.fires i ++ pendingCalls i rest = pendingCalls i n.agenda := by
  rw [fires, h, ← pendingCalls_append]
  rfl

/-! ### Postings -/

namespace Node

variable {n : Node} {i : ContextId}

theorem isFinished_of_standings {s : Standing} (h : n.books.standings[i]? = some s) :
    n.isFinished i = s.phase.isFinished := by
  obtain ⟨c, hc, rfl⟩ := exists_of_getElem?_standings h
  exact isFinished_eq hc

theorem length_standings (n : Node) : n.books.standings.length = n.contexts.length := by
  rw [books, List.length_map]

theorem lt_of_isFinished (h : n.isFinished i = true) : i < n.contexts.length := by
  rw [isFinished_iff] at h
  obtain ⟨g, hg, -⟩ := h
  have hlt := (List.getElem?_eq_some_iff.1 hg).1
  rwa [holdings, List.length_map] at hlt

/-- A finished context accepts no callback. -/
theorem accepts_of_isFinished (h : n.isFinished i = true) (task : Task) :
    n.accepts task i = [] := by
  have hlt := lt_of_isFinished h
  unfold accepts
  split
  · split
    · rename_i j c hheld
      refine if_neg ?_
      rintro ⟨rfl, hopen⟩
      rw [isFinished_eq (contexts_of_held? hheld), hopen] at h
      cases h
    · rfl
  · exact if_neg fun hnew => Nat.ne_of_lt hlt hnew.1
  · rfl

end Node

namespace Posting

variable {n n' : Node} {task : Task} {pushed : List Task} (h : Posting n task n' pushed)
  {i : ContextId}
include h

/-- The step that finishes a context takes everything out of it. -/
theorem finishes (hopen : n.isFinished i = false) (hfinished : n'.isFinished i = true) :
    ∃ c target last, n.contexts[i]? = some c ∧ task.isCalm = true ∧
      task.target? = some target ∧ n'.books.standings[i]? = some ⟨target, [], none, c.bytes⟩ ∧
      last.isReturn = true ∧ pushed = Node.finishTasks i c target ++ [last] := by
  have hlt : i < n'.books.standings.length := by
    rw [n'.length_standings]
    exact Node.lt_of_isFinished hfinished
  obtain ⟨s, hs⟩ : ∃ s, n'.books.standings[i]? = some s := ⟨_, List.getElem?_eq_getElem hlt⟩
  rw [Node.isFinished_of_standings hs] at hfinished
  -- a context that keeps its phase is not finished by the task
  have hkept : ∀ s', n.books.standings[i]? = some s' → s'.phase ≠ s.phase := by
    intro s' hs' hphase
    rw [Node.isFinished_of_standings hs', hphase, hfinished] at hopen
    cases hopen
  have hmodify : ∀ j f, (∀ s : Standing, (f s).phase = s.phase) →
      n'.books.standings ≠ n.books.standings.modify j f := by
    intro j f hphase hstandings
    rw [hstandings, List.getElem?_modify] at hs
    cases hs' : n.books.standings[i]? with
    | none =>
      rw [hs'] at hs
      cases hs
    | some s' =>
      rw [hs'] at hs
      obtain rfl := Option.some.inj hs
      refine hkept s' hs' ?_
      show s'.phase = Standing.phase (if j = i then f s' else s')
      split
      · exact (hphase s').symm
      · rfl
  cases h with
  | aside _ hbooks _ _ =>
    rw [hbooks] at hs
    exact absurd rfl (hkept s hs)
  | opened label limit callbacks _ _ _ hbooks _ _ =>
    have hstandings := congrArg Books.standings hbooks
    rw [hstandings, List.getElem?_append] at hs
    split at hs
    · exact absurd rfl (hkept s hs)
    · obtain rfl := List.mem_singleton.1 (List.mem_of_getElem? hs)
      cases hfinished
  | registered callback _ _ _ hbooks _ _ =>
    exact absurd (congrArg Books.standings hbooks) (hmodify _ _ fun _ => rfl)
  | moved _ _ _ _ hbooks _ _ =>
    exact absurd (congrArg Books.standings hbooks) (hmodify _ _ fun _ => rfl)
  | paid _ hbooks _ =>
    rw [hbooks] at hs
    exact absurd rfl (hkept s hs)
  | @finish j c target last htask hj hopen' htarget hbooks _ hlast hpushed =>
    have hstandings := congrArg Books.standings hbooks
    rw [hstandings] at hs ⊢
    by_cases hji : j = i
    · subst hji
      refine ⟨c, target, last, hj, htask, htarget, ?_, hlast, hpushed⟩
      rw [List.getElem?_modify_eq, Node.getElem?_standings hj]
      rfl
    · rw [List.getElem?_modify_ne _ _ hji] at hs
      exact absurd rfl (hkept s hs)

/-- Calls are caused only by finishing their context. -/
theorem pendingCalls_pushed (hsame : n'.isFinished i = n.isFinished i) :
    pendingCalls i pushed = [] := by
  cases h with
  | aside _ _ _ hpushed => exact pendingCalls_of_isCalm hpushed
  | opened _ _ _ _ _ _ _ _ hpushed => exact pendingCalls_of_isCalm hpushed
  | registered _ _ _ _ _ _ hpushed => exact pendingCalls_of_isCalm hpushed
  | moved _ _ _ _ _ _ hpushed => exact pendingCalls_of_isCalm hpushed
  | paid _ _ hpushed =>
    rw [hpushed]
    rfl
  | @finish j c target last _ hj hopen htarget hbooks _ hlast hpushed =>
    have hji : j ≠ i := by
      rintro rfl
      have hj' : n'.books.standings[j]? = some ⟨target, [], none, c.bytes⟩ := by
        rw [hbooks]
        show (n.books.standings.modify j _)[j]? = _
        rw [List.getElem?_modify_eq, Node.getElem?_standings hj]
        rfl
      rw [Node.isFinished_of_standings hj', Node.isFinished_eq hj, hopen,
        Task.isFinished_of_target? htarget] at hsame
      cases hsame
    rw [hpushed, pendingCalls_append, pendingCalls_finishTasks, if_neg hji, List.nil_append]
    exact pendingCalls_of_isReturn hlast

end Posting

/-! ### What a context has agrees with its history -/

/-- What a context has agrees with the callbacks that it has accepted: one that is open and held
has just them, and its account; a finished one has neither, and only of a finished one calls are
to be made. -/
structure Filed (n : Node) (i : ContextId) (callbacks : List Callback) : Prop where
  absent : n.books.standings[i]? = none → callbacks = []
  running : ∀ s, n.books.standings[i]? = some s → s.phase.isFinished = false →
    n.isHeld i = true → s.callbacks = callbacks ∧ s.account.isSome = true
  finished : ∀ s, n.books.standings[i]? = some s → s.phase.isFinished = true →
    s.callbacks = [] ∧ s.account = none
  quiet : n.isFinished i = false → pendingCalls i n.agenda = []

namespace Filed

theorem start (name : NodeId) (capacity jobLimit : UInt64) (i : ContextId) :
    Filed (.start name capacity jobLimit) i [] :=
  ⟨fun _ => rfl, fun _ h => (nomatch h), fun _ h => (nomatch h), fun _ => rfl⟩

variable {n : Node} {i : ContextId} {callbacks : List Callback} (h : Filed n i callbacks)
include h

/-- A task leaves nothing in a finished context, and nothing of one that is finished already
changes. -/
theorem next_of_finished {s s' : Standing} (hs : n.books.standings[i]? = some s)
    {accepted : List Callback} (hnext : s.Next s' accepted) (hphase : s'.phase.isFinished = true) :
    s'.callbacks = [] ∧ s'.account = none ∧ (s.phase.isFinished = true → s' = s) := by
  cases hnext with
  | kept =>
    obtain ⟨hcallbacks, haccount⟩ := h.finished s hs hphase
    exact ⟨hcallbacks, haccount, fun _ => rfl⟩
  | registered hopen callback =>
    have hphase : s.phase.isFinished = true := hphase
    rw [hopen] at hphase
    cases hphase
  | moved ha =>
    rw [(h.finished s hs hphase).2] at ha
    cases ha
  | finish hopen _ =>
    refine ⟨rfl, rfl, fun hfinished => ?_⟩
    rw [hopen] at hfinished
    cases hfinished

/-- What a task does to the books keeps them in agreement with the history. -/
theorem posting {n' : Node} {task : Task} {rest pushed : List Task}
    (hposting : Posting { n with agenda := rest } task n' pushed)
    (hheld : i < n.contexts.length → n'.isHeld i = true → n.isHeld i = true)
    (hquiet : n'.isFinished i = false → pendingCalls i n'.agenda = []) :
    Filed n' i (callbacks ++ n.accepts task i) := by
  cases hs : n.books.standings[i]? with
  | none =>
    rw [h.absent hs, List.nil_append]
    rcases hposting.next_of_absent hs with ⟨hs', hnone⟩ | ⟨account, hs'⟩
    · exact ⟨fun _ => hnone, fun _ h => (nomatch hs'.symm.trans h),
        fun _ h => (nomatch hs'.symm.trans h), hquiet⟩
    · refine ⟨fun h => (nomatch hs'.symm.trans h), fun s hs'' _ _ => ?_, fun s hs'' hphase => ?_,
        hquiet⟩
      · obtain rfl := Option.some.inj (hs'.symm.trans hs'')
        exact ⟨rfl, rfl⟩
      · obtain rfl := Option.some.inj (hs'.symm.trans hs'')
        cases hphase
  | some s =>
    obtain ⟨s', hs', hnext⟩ := hposting.next hs
    have hlt : i < n.contexts.length := n.length_standings ▸ (List.getElem?_eq_some_iff.1 hs).1
    refine ⟨fun h => (nomatch hs'.symm.trans h), fun s'' hs'' hopen hheld' => ?_,
      fun s'' hs'' hphase => ?_, hquiet⟩
    · obtain rfl := Option.some.inj (hs'.symm.trans hs'')
      -- an open context was open and held before
      have hrunning := fun hopen => h.running s hs hopen (hheld hlt hheld')
      show s'.callbacks = callbacks ++ Node.accepts { n with agenda := rest } task i ∧ _
      generalize Node.accepts { n with agenda := rest } task i = accepted at hnext
      cases hnext with
      | kept => rw [List.append_nil]; exact hrunning hopen
      | registered _ callback =>
        obtain ⟨hcallbacks, haccount⟩ := hrunning hopen
        exact ⟨by rw [hcallbacks], haccount⟩
      | moved _ => rw [List.append_nil]; exact ⟨(hrunning hopen).1, rfl⟩
      | finish _ htarget =>
        rw [htarget] at hopen
        cases hopen
    · obtain rfl := Option.some.inj (hs'.symm.trans hs'')
      obtain ⟨hcallbacks, haccount, -⟩ := h.next_of_finished hs hnext hphase
      exact ⟨hcallbacks, haccount⟩

/-- Letting go changes nothing of a context that is finished or held. -/
theorem sweep : Filed n.sweep i callbacks := by
  have hswept := n.swept_sweep
  have hquiet : n.sweep.isFinished i = false → pendingCalls i n.sweep.agenda = [] := by
    rw [hswept.isFinished, hswept.agenda]
    exact h.quiet
  rcases n.standings_sweep i with hsame | ⟨hheld, hempty⟩
  · refine ⟨fun hs => h.absent (hsame ▸ hs), fun s hs hopen hheld => ?_,
      fun s hs => h.finished s (hsame ▸ hs), hquiet⟩
    rw [hswept.held] at hheld
    exact h.running s (hsame ▸ hs) hopen hheld
  · refine ⟨fun hs => ?_, fun s hs hopen hheld' => ?_, fun s hs hphase => ?_, hquiet⟩
    · rw [hempty, Option.map_eq_none_iff] at hs
      exact h.absent hs
    · rw [hswept.held, hheld] at hheld'
      cases hheld'
    · rw [hempty] at hs
      obtain ⟨s, -, rfl⟩ := Option.map_eq_some_iff.1 hs
      exact ⟨rfl, rfl⟩

/-- A step keeps what a context has in agreement with its history. -/
theorem step {task : Task} {rest : List Task} (hagenda : n.agenda = task :: rest) :
    Filed n.step i (callbacks ++ n.registers i) := by
  obtain ⟨pushed, hpushed, hposting⟩ := Node.doTask_posts { n with agenda := rest } task
  have hstep : n.step = (Node.doTask { n with agenda := rest } task).sweep := by
    rw [Node.step, hagenda]
  have hregisters : n.registers i = n.accepts task i := by
    rw [Node.registers, hagenda]
    rfl
  have hswept := Node.swept_step hagenda
  rw [hstep, hregisters]
  refine sweep (h.posting hposting (fun hlt hheld => ?_) fun hopen => ?_)
  · -- nobody gets a context that nobody has
    by_contra hnot
    have hunheld := (unheld_iff.2 (Bool.eq_false_iff.2 hnot)).step hlt
    rw [unheld_iff, hswept.held, hheld] at hunheld
    cases hunheld
  · have hopen' : n.isFinished i = false := by
      refine Bool.eq_false_iff.2 fun hfinished => ?_
      have hstill := Node.isFinished_step hfinished
      rw [hswept.isFinished, hopen] at hstill
      cases hstill
    have hrest := h.quiet hopen'
    rw [← Node.fires_append hagenda, List.append_eq_nil_iff] at hrest
    rw [hpushed, pendingCalls_append, hposting.pendingCalls_pushed (hopen.trans hopen'.symm)]
    exact hrest.2

theorem given (hagenda : n.agenda = []) (command : Command) :
    Filed (n.given command) i callbacks :=
  ⟨h.absent, fun s hs hopen hheld => h.running s hs hopen
    ((Node.isHeld_given hagenda command i).symm.trans hheld), h.finished, fun _ => rfl⟩

/-- A step changes nothing of a finished context. -/
theorem standing_step {s : Standing} (hs : n.books.standings[i]? = some s)
    (hphase : s.phase.isFinished = true) : n.step.books.standings[i]? = some s := by
  cases hagenda : n.agenda with
  | nil => rwa [Node.step_of_agenda_nil hagenda]
  | cons task rest =>
    have hbefore : n.isFinished i = true := (Node.isFinished_of_standings hs).trans hphase
    have hswept := Node.swept_step hagenda
    obtain ⟨pushed, -, hposting⟩ := Node.doTask_posts { n with agenda := rest } task
    have hstep : n.step = (Node.doTask { n with agenda := rest } task).sweep := by
      rw [Node.step, hagenda]
    obtain ⟨s', hs', hnext⟩ := hposting.next hs
    have hphase' : s'.phase.isFinished = true := by
      rw [← Node.isFinished_of_standings hs', ← hswept.isFinished]
      exact Node.isFinished_step hbefore
    obtain ⟨hcallbacks, haccount, hsame⟩ := h.next_of_finished hs hnext hphase'
    obtain rfl := hsame hphase
    -- nothing is left that could be let go
    rw [hstep]
    rcases Node.standings_sweep (Node.doTask { n with agenda := rest } task) i with heq | ⟨-, heq⟩
    · rw [heq, hs']
    · rw [heq, hs', Option.map_some]
      cases s'
      subst hcallbacks haccount
      rfl

end Filed

/-! ### Runs -/

namespace IsRun

variable {t : Nat → Node} (h : IsRun t) {i : ContextId}
include h

/-- What a context has agrees with its history at all times. -/
theorem filed (i : ContextId) (k : Nat) : Filed (t k) i (registered t i k) := by
  induction k with
  | zero =>
    obtain ⟨name, capacity, jobLimit, h0⟩ := h.start
    rw [h0]
    exact .start name capacity jobLimit i
  | succ k ih =>
    rw [registered_succ]
    cases hagenda : (t k).agenda with
    | nil =>
      have hnone : (t k).registers i = [] := by rw [Node.registers, hagenda]; rfl
      rw [hnone, List.append_nil]
      rcases h.next k with hk | ⟨-, command, hk⟩
      · rw [hk, Node.step_of_agenda_nil hagenda]
        exact ih
      · rw [hk]
        exact ih.given hagenda command
    | cons task rest =>
      rw [h.step_eq hagenda]
      exact ih.step hagenda

/-- A finished context never changes. -/
theorem standing_of_finished {s : Standing} {j k : Nat} (hjk : j ≤ k)
    (hs : (t j).books.standings[i]? = some s) (hphase : s.phase.isFinished = true) :
    (t k).books.standings[i]? = some s := by
  induction hjk with
  | refl => exact hs
  | @step k _ ih =>
    rcases h.next k with hk | ⟨-, command, hk⟩
    · rw [hk]
      exact (h.filed i k).standing_step ih hphase
    · rw [hk]
      exact ih

/-- A finished context accepts nothing more. -/
theorem registered_of_finished {j k : Nat} (hjk : j ≤ k) (hj : (t j).isFinished i = true) :
    registered t i k = registered t i j := by
  induction hjk with
  | refl => rfl
  | @step k hjk ih =>
    have hnone : (t k).registers i = [] := by
      rw [Node.registers]
      cases (t k).agenda with
      | nil => rfl
      | cons task rest => exact Node.accepts_of_isFinished (h.isFinished hjk hj) task
    rw [registered_succ, hnone, List.append_nil, ih]

/-- The calls of a finished context, those made and those still to be made, stay the same. -/
theorem fired_append_pending {j k : Nat} (hjk : j ≤ k) (hj : (t j).isFinished i = true) :
    fired t i k ++ pendingCalls i (t k).agenda = fired t i j ++ pendingCalls i (t j).agenda := by
  induction hjk with
  | refl => rfl
  | @step k hjk ih =>
    rw [← ih, fired_succ, List.append_assoc]
    congr 1
    cases hagenda : (t k).agenda with
    | nil =>
      have hnone : (t k).fires i = [] := by rw [Node.fires, hagenda]; rfl
      rw [hnone]
      rcases h.next k with hk | ⟨-, command, hk⟩
      · rw [hk, Node.step_of_agenda_nil hagenda, hagenda]
        rfl
      · rw [hk]
        rfl
    | cons task rest =>
      have hswept := h.swept hagenda
      obtain ⟨pushed, hpushed, hposting⟩ := Node.doTask_posts { t k with agenda := rest } task
      have hbefore := h.isFinished hjk hj
      have hafter := h.isFinished (Nat.le_succ_of_le hjk) hj
      rw [hswept.isFinished] at hafter
      rw [hswept.agenda, hpushed, pendingCalls_append,
        hposting.pendingCalls_pushed (hafter.trans hbefore.symm), ← hagenda]
      exact Node.fires_append hagenda i

/-- Nobody is called before the context is finished. -/
theorem fired_of_open {k : Nat} (hopen : (t k).isFinished i = false) : fired t i k = [] := by
  rw [fired_eq_nil_iff]
  intro j hjk
  have hopen' : (t j).isFinished i = false := by
    refine Bool.eq_false_iff.2 fun hfinished => ?_
    rw [h.isFinished (Nat.le_of_lt hjk) hfinished] at hopen
    cases hopen
  have hquiet := (h.filed i j).quiet hopen'
  cases hagenda : (t j).agenda with
  | nil =>
    rw [Node.fires, hagenda]
    rfl
  | cons task rest =>
    rw [← Node.fires_append hagenda, List.append_eq_nil_iff] at hquiet
    exact hquiet.1

end IsRun

/-! ### Finishing -/

/-- The call at time `c` takes everything out of a context, and is over at time `d`. -/
structure Taken (t : Nat → Node) (c d : Nat) (i : ContextId) (ctx : Context) (target : Phase)
    (last : Task) (rest : List Task) : Prop where
  context : (t c).contexts[i]? = some ctx
  opened : (t c).isFinished i = false
  task : ∃ task, (t c).agenda = task :: rest ∧ task.target? = some target ∧
    (t c).registers i = [] ∧ (t c).fires i = []
  held : (t c).isHeld i = true
  lt : c < d
  standing : (t (c + 1)).books.standings[i]? = some ⟨target, [], none, ctx.bytes⟩
  returns : last.isReturn = true
  tasks : (t (c + 1)).agenda = Node.finishTasks i ctx target ++ last :: rest
  done : (t d).agenda = last :: rest

/-- What a context has registered no task is to close. -/
theorem Tidy.not_mem_agenda_of_registered? {n : Node} (hn : Tidy n) {i : ContextId}
    {id : SubContextId} {sub : SubContext} (h : n.registered? i id = some sub) (j : ContextId) :
    .closeSub j sub ∉ n.agenda := by
  intro hmem
  obtain ⟨g, hg, hget⟩ := Node.registered?_eq_some.1 h
  have hheld : sub.serial ∈ n.holdings.flatMap Holding.serials :=
    List.mem_flatMap.2 ⟨g, List.mem_of_getElem? hg,
      List.mem_map_of_mem (SortedMap.mem_values_iff.2 ⟨id, hget⟩)⟩
  have hpending : sub.serial ∈ pendingSerials n.agenda := List.mem_filterMap.2 ⟨_, hmem, rfl⟩
  exact (List.nodup_append.1 hn.nodup).2.2 _ hheld _ hpending rfl

section Finish

variable {t : Nat → Node} (h : IsRun t) {c d : Nat} {i : ContextId}
include h

theorem IsFinish.taken (hfinish : IsFinish t c d i) :
    ∃ ctx target last rest, Taken t c d i ctx target last rest := by
  obtain ⟨last', rest, hreturns⟩ := hfinish.returns
  obtain ⟨task, hagenda⟩ := hreturns.call
  have hswept := h.swept hagenda
  obtain ⟨pushed, hpushed, hposting⟩ := Node.doTask_posts { t c with agenda := rest } task
  obtain ⟨_, _, _, -, -, -, hheld⟩ := Node.exists_finishTasks hagenda hfinish.opened
    (h.step_eq hagenda ▸ hfinish.finished)
  obtain ⟨ctx, target, last, hctx, -, htarget, hstanding, hlast, rfl⟩ :=
    hposting.finishes hfinish.opened ((hswept.isFinished i).symm.trans hfinish.finished)
  have htasks : (t (c + 1)).agenda = Node.finishTasks i ctx target ++ last :: rest := by
    rw [hswept.agenda, hpushed, List.append_assoc]
    rfl
  obtain ⟨rfl, -⟩ := hreturns.eq_last htasks
  have hregisters : (t c).registers i = [] := by
    rw [Node.registers, hagenda]
    exact Node.accepts_of_target? htarget i
  have hfires : (t c).fires i = [] := by
    have hquiet := (h.filed i c).quiet hfinish.opened
    rw [← Node.fires_append hagenda, List.append_eq_nil_iff] at hquiet
    exact hquiet.1
  refine ⟨ctx, target, last, rest, hctx, hfinish.opened,
    ⟨task, hagenda, htarget, hregisters, hfires⟩, hheld, hreturns.lt, ?_, hlast, htasks,
    hreturns.done⟩
  -- what is taken out of a context cannot be let go any more
  have hsame : t (c + 1) = (Node.doTask { t c with agenda := rest } task).sweep := by
    rw [h.step_eq hagenda, Node.step, hagenda]
  rw [hsame]
  rcases Node.standings_sweep (Node.doTask { t c with agenda := rest } task) i with heq | ⟨-, heq⟩
  · rw [heq, hstanding]
  · rw [heq, hstanding]
    rfl

/-- A context is finished once. -/
theorem IsFinish.unique {c' d' : Nat} (hfinish : IsFinish t c d i) (hfinish' : IsFinish t c' d' i) :
    c = c' ∧ d = d' := by
  have hle : ∀ {c d c' d'}, IsFinish t c d i → IsFinish t c' d' i → c' ≤ c := by
    intro c d c' d' hc hc'
    by_contra hlt
    have hstill := h.isFinished (show c + 1 ≤ c' by omega) hc.finished
    rw [hc'.opened] at hstill
    cases hstill
  obtain rfl : c = c' := Nat.le_antisymm (hle hfinish' hfinish) (hle hfinish hfinish')
  refine ⟨rfl, ?_⟩
  obtain ⟨last, rest, hreturns⟩ := hfinish.returns
  obtain ⟨last', rest', hreturns'⟩ := hfinish'.returns
  obtain ⟨task, hcall⟩ := hreturns.call
  obtain ⟨task', hcall'⟩ := hreturns'.call
  obtain ⟨-, rfl⟩ := List.cons.inj (hcall.symm.trans hcall')
  -- a call that is not over has more to do than one that is
  have hlonger : ∀ {d d' last last'}, Returns t c d last rest → Returns t c d' last' rest →
      d' ≤ d := by
    intro d d' last last' hd hd'
    by_contra hlt
    obtain ⟨first, more, hbusy⟩ := hd'.busy d hd.lt (by omega)
    have hlength := congrArg List.length (hd.done.symm.trans hbusy)
    simp only [List.length_cons, List.length_append] at hlength
    omega
  exact Nat.le_antisymm (hlonger hreturns' hreturns) (hlonger hreturns hreturns')

namespace Taken

variable {ctx : Context} {target : Phase} {last : Task} {rest : List Task}
  (htaken : Taken t c d i ctx target last rest)
include htaken

omit h in
theorem target_isFinished : target.isFinished = true := by
  obtain ⟨task, -, htarget, -⟩ := htaken.task
  exact Task.isFinished_of_target? htarget

omit h in
theorem finished : (t (c + 1)).isFinished i = true := by
  rw [Node.isFinished_of_standings htaken.standing]
  exact htaken.target_isFinished

/-- From then on the context has the phase and the bytes that it has got. -/
theorem stays {k : Nat} (hck : c < k) : ∃ ctx', (t k).contexts[i]? = some ctx' ∧
    ctx'.phase = target ∧ ctx'.bytes = ctx.bytes := by
  have hs := h.standing_of_finished hck htaken.standing htaken.target_isFinished
  obtain ⟨ctx', hctx', hstanding⟩ := Node.exists_of_getElem?_standings hs
  refine ⟨ctx', hctx', congrArg Standing.phase hstanding, ?_⟩
  rw [← Context.bytes_standing, hstanding]
  rfl

omit h in
/-- The calls that finishing the context causes. -/
theorem pendingCalls_rest (hrest : pendingCalls i rest = []) :
    pendingCalls i (last :: rest) = [] := by
  rw [← List.singleton_append, pendingCalls_append, pendingCalls_of_isReturn htaken.returns, hrest]
  rfl

/-- Nobody is to be called behind the call. -/
theorem quiet : pendingCalls i (last :: rest) = [] := by
  obtain ⟨task, hagenda, -⟩ := htaken.task
  have hquiet := (h.filed i c).quiet htaken.opened
  rw [← Node.fires_append hagenda, List.append_eq_nil_iff] at hquiet
  exact htaken.pendingCalls_rest hquiet.2

/-- An open context that somebody holds has the callbacks that it has accepted, and an account. -/
theorem callbacks_eq : ctx.callbacks = registered t i c ∧ ∃ account, ctx.account = some account := by
  have hopen := htaken.opened
  rw [Node.isFinished_eq htaken.context] at hopen
  obtain ⟨hcallbacks, haccount⟩ :=
    (h.filed i c).running _ (Node.getElem?_standings htaken.context) hopen htaken.held
  exact ⟨hcallbacks, Option.isSome_iff_exists.1 haccount⟩

/-- The step that finishes a context calls nobody. -/
theorem fired_eq_nil : fired t i (c + 1) = [] := by
  obtain ⟨task, -, -, -, hfires⟩ := htaken.task
  rw [fired_succ, h.fired_of_open htaken.opened, hfires]
  rfl

/-- After a context was finished its callbacks were called or are still to be called, in order. -/
theorem calls {k : Nat} (hck : c < k) : fired t i k ++ pendingCalls i (t k).agenda =
    (registered t i c).map (⟨·, Node.finishCause ctx target, ctx.bytes⟩) := by
  rw [h.fired_append_pending hck htaken.finished, htaken.fired_eq_nil h, htaken.tasks,
    pendingCalls_append, pendingCalls_finishTasks, if_pos rfl, htaken.quiet h,
    (htaken.callbacks_eq h).1, List.append_nil, List.nil_append]

theorem registered_eq {k : Nat} (hck : c ≤ k) : registered t i k = registered t i c := by
  rcases Nat.eq_or_lt_of_le hck with rfl | hlt
  · rfl
  · obtain ⟨task, -, -, hregisters, -⟩ := htaken.task
    rw [h.registered_of_finished hlt htaken.finished, registered_succ, hregisters, List.append_nil]

/-- When the call is over all callbacks have been called. -/
theorem fired_eq {k : Nat} (hdk : d ≤ k) : fired t i k =
    (registered t i k).map (⟨·, Node.finishCause ctx target, ctx.bytes⟩) := by
  have hck := Nat.lt_of_lt_of_le htaken.lt hdk
  have hd := htaken.calls h htaken.lt
  rw [htaken.done, htaken.quiet h, List.append_nil] at hd
  -- what was fired until then stays, so nothing can be pending any more
  have hsub : (fired t i d).Sublist (fired t i k) := by
    obtain ⟨m, rfl⟩ := Nat.exists_eq_add_of_le hdk
    rw [fired, fired, List.range_add, List.flatMap_append]
    exact List.sublist_append_left _ _
  have hk := htaken.calls h hck
  rw [← hd] at hk
  rw [htaken.registered_eq h (Nat.le_of_lt hck), ← hd]
  refine (hsub.eq_of_length_le ?_).symm
  have hlength := congrArg List.length hk
  rw [List.length_append] at hlength
  omega

/-- Before the account of the context is closed, all that was registered is closed and nobody is
called. -/
theorem exists_closeAccount : ∃ m account more, c < m ∧ ctx.account = some account ∧
    (t m).agenda = .closeAccount i account :: more ∧ fired t i m = [] ∧
    ∀ id sub, (t c).registered? i id = some sub →
      (t m).Gone sub.serial ∧ (t m).closings sub.serial = 1 := by
  obtain ⟨-, account, haccount⟩ := htaken.callbacks_eq h
  have htasks := htaken.tasks
  rw [Node.finishTasks, haccount, List.append_assoc, Option.toList_some, List.map_singleton,
    List.singleton_append, List.cons_append] at htasks
  obtain ⟨m, hcm, hm, -⟩ := h.exists_done htasks
  refine ⟨m, account, _, hcm, haccount, hm, ?_, fun id sub hsub => ?_⟩
  · -- what is done before calls nobody, so all the calls are still to be made
    have hsubs : pendingCalls i (ctx.subContexts.values.map (.closeSub i)) = [] := by
      rw [pendingCalls_eq_nil_iff]
      simp
    have hpending : pendingCalls i (t (c + 1)).agenda = pendingCalls i (t m).agenda := by
      rw [htasks, hm, pendingCalls_append, hsubs, List.nil_append]
    have hcalls := h.fired_append_pending hcm htaken.finished
    rwa [htaken.fired_eq_nil h, List.nil_append, hpending, List.append_left_eq_self] at hcalls
  · -- a registered sub-context is nowhere else by then
    obtain ⟨task, hagenda, -⟩ := htaken.task
    have hlt : i < (t c).contexts.length := (List.getElem?_eq_some_iff.1 htaken.context).1
    have hfinished := h.isFinished hcm htaken.finished
    cases h.whereabouts (Nat.le_of_succ_le hcm) hlt (.registered hsub) with
    | registered hsub' =>
      rw [(h.tidy m).isFinished_of_registered? hsub'] at hfinished
      cases hfinished
    | next hnext =>
      obtain ⟨_, hnext⟩ := hnext
      cases hm.symm.trans hnext
    | finishing _ hpending =>
      rw [hm] at hpending
      simp only [List.mem_cons, List.mem_append, List.mem_map, List.not_mem_nil, or_false, reduceCtorEq,
        false_or, and_false, exists_false] at hpending
      rcases hpending with hlast | hrest
      · have hreturn := htaken.returns
        rw [← hlast] at hreturn
        cases hreturn
      · exact absurd (hagenda ▸ List.mem_cons_of_mem _ hrest)
          ((h.tidy c).not_mem_agenda_of_registered? hsub i)
    | closed hgone hclosed => exact ⟨hgone, hclosed⟩
    | unheld hheld =>
      rw [Node.isHeld, hm] at hheld
      simp [Task.uses] at hheld

/-- When its callbacks are called, the account of a context has been closed, and before it all that
was registered. -/
theorem order {k : Nat} (hfires : (t k).fires i ≠ []) : c < k ∧ k < d ∧
    (∀ id sub, (t c).registered? i id = some sub → (t k).closings sub.serial = 1) ∧
    ∃ j account more, c < j ∧ j < k ∧ ctx.account = some account ∧
      (t j).agenda = .closeAccount i account :: more := by
  obtain ⟨m, account, more, hcm, haccount, hm, hfired, hclosed⟩ := htaken.exists_closeAccount h
  have hmk : m < k := by
    rcases Nat.lt_trichotomy k m with hlt | rfl | hlt
    · exact absurd (fired_eq_nil_iff.1 hfired k hlt) hfires
    · rw [Node.fires, hm] at hfires
      exact absurd rfl hfires
    · exact hlt
  have hck := Nat.lt_trans hcm hmk
  have hkd : k < d := by
    by_contra hdk
    have hbefore := htaken.fired_eq h (show d ≤ k by omega)
    have hafter := htaken.fired_eq h (show d ≤ k + 1 by omega)
    rw [htaken.registered_eq h (Nat.le_of_lt hck)] at hbefore
    rw [htaken.registered_eq h (Nat.le_succ_of_le (Nat.le_of_lt hck)), ← hbefore, fired_succ,
      List.append_right_eq_self] at hafter
    exact hfires hafter
  refine ⟨hck, hkd, fun id sub hsub => ?_, m, account, more, hcm, hmk, haccount, hm⟩
  obtain ⟨hgone, hone⟩ := hclosed id sub hsub
  exact (h.gone (Nat.le_of_lt hmk) hgone).2.trans hone

end Taken

end Finish

/-! ### Exactly once -/

/-- What the call at time `c` does that finishes a context and is over at time `d`. -/
structure Completes (t : Nat → Node) (c d : Nat) (i : ContextId) (ctx : Context) (target : Phase)
    (cause : Option Fault) : Prop where
  context : (t c).contexts[i]? = some ctx ∧ ctx.phase = .running
  /-- It is a close or a kill, and the callbacks learn which. -/
  task : ∃ task rest, (t c).agenda = task :: rest ∧ task.target? = some target
  learns : target = .closed ∧ cause = none ∨
    target = .killed ∧ cause = some (.cancelled (.killed ctx.job ctx.node))
  /-- From then on the context has the phase and the bytes that it has got. -/
  stays : ∀ k, c < k → ∃ ctx', (t k).contexts[i]? = some ctx' ∧ ctx'.phase = target ∧
    ctx'.bytes = ctx.bytes
  /-- When it is over, the callbacks that were accepted have been called, each once and in the
  order of their registration, with the same cause and the same bytes. -/
  fired : ∀ k, d ≤ k → fired t i k = (registered t i k).map (⟨·, cause, ctx.bytes⟩)
  /-- They are called while the call lasts, after what was registered has been closed, and the
  account too. -/
  order : ∀ k, (t k).fires i ≠ [] → c < k ∧ k < d ∧
    (∀ id sub, (t c).registered? i id = some sub → (t k).closings sub.serial = 1) ∧
    ∃ j account more, c < j ∧ j < k ∧ ctx.account = some account ∧
      (t j).agenda = .closeAccount i account :: more

/-- Every callback is called exactly once. -/
structure CallbacksFireOnce (t : Nat → Node) : Prop where
  /-- A callback is accepted if its context is open, and refused otherwise. -/
  accepted : ∀ k holder tag steps reply rest i ctx,
    (t k).agenda = .run (.callback holder tag steps) reply :: rest →
      (t k).held? holder = some (i, ctx) →
        ctx.phase = .running ∧ (t k).registers i = [.script tag steps] ∧
            (t (k + 1)).agenda = .answer reply .done :: rest ∨
          ctx.phase.isFinished = true ∧ (t k).registers i = [] ∧
            (t (k + 1)).agenda = .answer reply (.refused (.contextClosed ctx.job)) :: rest
  /-- Nobody is called as long as the context is open. -/
  quiet : ∀ k i, (t k).isFinished i = false → fired t i k = []
  /-- A callback that is called is logged with what it learns, and its commands are next. -/
  called : ∀ k i tag steps cause bytes rest,
    (t k).agenda = .notify i (.script tag steps) cause bytes :: rest →
      (t (k + 1)).log = (t k).log ++ [.called tag cause bytes] ∧
        (t (k + 1)).agenda = Node.hooks steps ++ rest
  /-- The step that finishes a context belongs to a call that comes back. -/
  finish : ∀ c i, (t c).isFinished i = false → (t (c + 1)).isFinished i = true →
    ∃ d, IsFinish t c d i
  /-- A close or kill says whether it is the one that finishes the context, and one at most is. -/
  wins : ∀ c d command reply i answer rest, (t c).agenda = .run command reply :: rest →
    (t c).finishes? command = some i → Returns t c d (.answer reply answer) rest →
      answer = .flag true ∧ IsFinish t c d i ∨ answer = .flag false ∧ ¬IsFinish t c d i
  unique : ∀ c d c' d' i, IsFinish t c d i → IsFinish t c' d' i → c = c' ∧ d = d'
  completes : ∀ c d i, IsFinish t c d i → ∃ ctx target cause, Completes t c d i ctx target cause

/-- Letting contexts go is not logged. -/
theorem Node.log_sweep (n : Node) : n.sweep.log = n.log :=
  sweep_keeps Node.log (fun _ _ _ _ => rfl) n

section Run

variable {t : Nat → Node} (h : IsRun t)
include h

theorem IsFinish.completes {c d : Nat} {i : ContextId} (hfinish : IsFinish t c d i) :
    ∃ ctx target cause, Completes t c d i ctx target cause := by
  obtain ⟨ctx, target, last, rest, htaken⟩ := hfinish.taken h
  obtain ⟨task, hagenda, htarget, -⟩ := htaken.task
  have hopen := hfinish.opened
  rw [Node.isFinished_eq htaken.context] at hopen
  refine ⟨ctx, target, Node.finishCause ctx target, ⟨htaken.context, Phase.eq_running hopen⟩,
    ⟨task, rest, hagenda, htarget⟩, ?_, fun k => htaken.stays h, fun k => htaken.fired_eq h,
    fun k => htaken.order h⟩
  have hfinished := htaken.target_isFinished
  cases target with
  | running => cases hfinished
  | closed => exact .inl ⟨rfl, rfl⟩
  | killed => exact .inr ⟨rfl, rfl⟩

theorem IsRun.accepted_or_refused {k : Nat} {holder : Holder} {tag : String} {steps : List Command}
    {reply : Reply} {rest : List Task} {i : ContextId} {ctx : Context}
    (hagenda : (t k).agenda = .run (.callback holder tag steps) reply :: rest)
    (hheld : (t k).held? holder = some (i, ctx)) :
    ctx.phase = .running ∧ (t k).registers i = [.script tag steps] ∧
        (t (k + 1)).agenda = .answer reply .done :: rest ∨
      ctx.phase.isFinished = true ∧ (t k).registers i = [] ∧
        (t (k + 1)).agenda = .answer reply (.refused (.contextClosed ctx.job)) :: rest := by
  have hregisters : (t k).registers i =
      if i = i ∧ ctx.phase.isFinished = false then [.script tag steps] else [] := by
    simp only [Node.registers, hagenda, List.head?_cons, Option.elim_some, Node.accepts, hheld]
  have hheld' : Node.held? { t k with agenda := rest } holder = some (i, ctx) := hheld
  rw [(h.swept hagenda).agenda, hregisters]
  cases hphase : ctx.phase.isFinished with
  | true =>
    refine .inr ⟨rfl, by simp, ?_⟩
    rw [Node.doTask, Node.execute, Node.withHandle_of_held? hheld', if_pos hphase]
    rfl
  | false =>
    refine .inl ⟨Phase.eq_running hphase, by simp, ?_⟩
    rw [Node.doTask, Node.execute, Node.withHandle_of_held? hheld', if_neg (by simp [hphase])]
    rfl

/-- The callbacks of a run are called exactly once, in whatever order commands are given, and
whatever they cause while sub-contexts are closed and callbacks are called. -/
theorem IsRun.callbacksFireOnce : CallbacksFireOnce t where
  accepted _ _ _ _ _ _ _ _ := h.accepted_or_refused
  quiet k i := h.fired_of_open
  called k i tag steps cause bytes rest hagenda := by
    refine ⟨?_, (h.swept hagenda).agenda⟩
    rw [h.step_eq hagenda, Node.step, hagenda]
    exact Node.log_sweep _
  finish c i := h.exists_isFinish
  wins c d command reply i answer rest := h.answer_iff_isFinish
  unique c d c' d' i hfinish := hfinish.unique h
  completes c d i hfinish := hfinish.completes h

end Run

/-- The first callback charges its job, kills it and registers another callback, all in vain: the
job is being closed with the bytes that it holds. -/
def charging : List Command :=
  [.acquire 7 "job", .callback "job" "first" [.charge "job" 5, .kill "job", .callback "job" "late" []],
    .callback "job" "second" [], .charge "job" 40, .close "job", .release "job" 10, .kill "job"]

theorem callbacksFireOnce_charging :
    CallbacksFireOnce ((Node.start "node" 100 50).following charging) ∧
      ∃ k, (((Node.start "node" 100 50).following charging k).log.filterMap fun
          | .called tag cause bytes => some (tag, cause.isNone, bytes)
          | _ => none) = [("first", true, 40), ("second", true, 40)] ∧
        ((Node.start "node" 100 50).following charging k).contexts.map (·.bytes) = [40] := by
  refine ⟨(Node.isRun_following "node" 100 50 charging).callbacksFireOnce, ?_⟩
  obtain ⟨k, hk⟩ := Node.exists_following_eq_performAll (n := .start "node" 100 50) rfl charging
  refine ⟨k, ?_⟩
  rw [hk]
  decide

end ShardJoin.Job
