/-
What one task does to a node.

Whatever a task does is listed here once, with the conditions under which it does
it: what it changes, and the tasks that it causes.  What all tasks keep is read
off from this list, one case after another, without opening the commands again.

* `Node.offered?`, `Node.accepts`, `Node.touches`, `Task.target?` — what a task
  offers, registers, works on and finishes;
* `Effect` — all that a task can do;
* `Node.doTask_effect` — a task does nothing else.
-/
import ShardJoin.Job.Step

namespace ShardJoin.Job

/-- The handle by which a command reaches a context. -/
def Command.handle? : Command → Option Holder
  | .status h | .add h .. | .callback h .. | .charge h _ | .release h _ | .close h | .kill h
  | .describe h => some h
  | .search _ _ _ _ h => h
  | _ => none

/-- The phase in which a task leaves the context that it finishes. -/
def Task.target? : Task → Option Phase
  | .run (.close _) _ | .run (.closeJob _) _ => some .closed
  | .run (.kill _) _ | .run (.killJob _) _ | .killNext .. => some .killed
  | _ => none

/-- The reason why a sub-context was not accepted. -/
def Answer.refusal? : Answer → Option Fault
  | .refused cause => some cause
  | .searchOpened _ refusal => refusal
  | _ => none

theorem Task.isFinished_of_target? {task : Task} {target : Phase} (h : task.target? = some target) :
    target.isFinished = true := by
  unfold target? at h
  split at h <;> first | (obtain rfl := Option.some.inj h; rfl) | cases h

namespace Node

/-- The contexts that a task works on. -/
def touches (n : Node) : Task → List ContextId
  | .run (.closeJob job) _ | .run (.killJob job) _ => (n.contextOf? job).toList
  | .run command _ => (command.handle?.bind n.handles.get?).toList
  | .closeSub i _ | .subClosed i _ | .closeAccount i _ | .notify i .. | .finished i _ => [i]
  | .killNext contexts .. => contexts
  | .answer .. => []

/-- The context, the id and the sub-context of a command that offers one. -/
def offered? (n : Node) : Command → Option (ContextId × SubContextId × SubContext)
  | .add holder id name fails onClose =>
    (n.held? holder).map fun (i, _) => (i, id, ⟨n.fates.length, name, .script fails onClose⟩)
  | .search id index shard _ (some holder) =>
    (n.held? holder).map fun (i, _) =>
      (i, id, ⟨n.fates.length, searchName index shard, .cancelSearch⟩)
  | _ => none

/-- The callbacks that a task registers with a context. -/
def accepts (n : Node) (task : Task) (i : ContextId) : List Callback :=
  match task with
  | .run (.callback holder tag steps) _ =>
    match n.held? holder with
    | some (j, c) => if i = j ∧ c.phase.isFinished = false then [.script tag steps] else []
    | none => []
  | .run (.acquire job _) _ =>
    if i = n.contexts.length ∧ n.openContextOf? job = none then [.leave] else []
  | _ => []

end Node

/-- All that a task can do: how it changes a node, and the tasks that it causes. -/
inductive Effect (n : Node) : Task → Node → List Task → Prop
  /-- A command is answered, and nothing else is done. -/
  | told {command : Command} {reply : Reply} (hoffered : n.offered? command = none)
    (haccepts : ∀ i, n.accepts (.run command reply) i = []) (answer : Answer) :
    Effect n (.run command reply) n [.answer reply answer]
  /-- A script gets a handle of the context of a job. -/
  | taken {command : Command} {reply : Reply} {job : JobId} {holder : Holder} {i : ContextId}
    (hjob : n.contextOf? job = some i) (htaken : command = .find job (some holder) ∨
      command = .acquire job holder ∧ n.openContextOf? job = some i) (answer : Answer) :
    Effect n (.run command reply) { n with handles := n.handles.insert holder i }
      [.answer reply answer]
  | dropped {holder : Holder} {reply : Reply} (answer : Answer) :
    Effect n (.run (.drop holder) reply) { n with handles := n.handles.erase holder }
      [.answer reply answer]
  /-- A context is opened outside the directory. -/
  | opened {job : JobId} {label : String} {limit : UInt64} {node : NodeId} {holder : Holder}
    {reply : Reply} (answer : Answer) :
    Effect n (.run (.start job label limit node holder) reply)
      { n with
        contexts := n.contexts ++ [.opened job node (.start label limit) []]
        ledger := n.ledger.contextOpened node
        handles := n.handles.insert holder n.contexts.length }
      [.answer reply answer]
  /-- A context is opened for a job that has no open one. -/
  | entered {job : JobId} {holder : Holder} {reply : Reply} (hnone : n.openContextOf? job = none)
    (answer : Answer) :
    Effect n (.run (.acquire job holder) reply)
      { n with
        contexts := n.contexts ++
          [.opened job n.name (.start ("job-" ++ toString job.toNat) n.jobLimit) [.leave]]
        ledger := n.ledger.contextOpened n.name
        directory := n.directory.insert job n.contexts.length
        handles := n.handles.insert holder n.contexts.length }
      [.answer reply answer]
  /-- A script opens a search of its own. -/
  | keptSearch {id : SubContextId} {index : String} {shard : UInt32} {signal : Holder}
    {reply : Reply} {k : Node} (hk : k = (n.openSearch index shard signal).2.keepSearch signal
      (n.openSearch index shard signal).1) (answer : Answer) :
    Effect n (.run (.search id index shard signal none) reply)
      { n with fates := k.fates, signals := k.signals, searches := k.searches }
      [.answer reply answer]
  /-- A search is opened for a context that is not there. -/
  | lostSearch {id : SubContextId} {index : String} {shard : UInt32} {signal holder : Holder}
    {reply : Reply} (hheld : n.held? holder = none) (answer : Answer) :
    Effect n (.run (.search id index shard signal (some holder)) reply)
      ((n.openSearch index shard signal).2.markDropped n.fates.length) [.answer reply answer]
  /-- A script lets a search of its own go. -/
  | droppedSearch {search : Holder} {reply : Reply} {serial : Nat}
    (hsearch : n.searches.get? search = some serial) (answer : Answer) :
    Effect n (.run (.dropSearch search) reply)
      { n.markDropped serial with searches := n.searches.erase search } [.answer reply answer]
  /-- A script closes a search of its own. -/
  | closedSearch {search : Holder} {reply : Reply} {serial : Nat}
    (hsearch : n.searches.get? search = some serial) :
    Effect n (.run (.closeSearch search) reply) (n.markClosed serial) [.answer reply .done]
  /-- A sub-context is offered to a finished context. -/
  | rejected {command : Command} {reply : Reply} {i : ContextId} {id : SubContextId}
    {sub : SubContext} {c : Context} {signals : SortedMap Holder Nat} {answer : Answer}
    (hoffered : n.offered? command = some (i, id, sub)) (hc : n.contexts[i]? = some c)
    (hfinished : c.phase.isFinished = true)
    (hanswer : answer.refusal? = some (.contextClosed c.job)) :
    Effect n (.run command reply) { n with fates := n.fates ++ [.fresh], signals }
      [.closeSub i sub, .answer reply answer]
  /-- A sub-context is offered under an id that is taken. -/
  | evicted {command : Command} {reply : Reply} {i : ContextId} {id : SubContextId}
    {sub existing : SubContext} {c : Context} {signals : SortedMap Holder Nat} {answer : Answer}
    (hoffered : n.offered? command = some (i, id, sub)) (hc : n.contexts[i]? = some c)
    (hopen : c.phase.isFinished = false) (hid : c.subContexts.get? id = some existing)
    (hanswer : answer.refusal? = some (.duplicateContext c.job id)) :
    Effect n (.run command reply)
      { n with
        fates := n.fates ++ [.fresh], signals
        contexts := n.contexts.modify i fun c => { c with subContexts := c.subContexts.erase id }
        ledger := n.ledger.subContextDuplicate c.node }
      [.closeSub i existing, .closeSub i sub, .answer reply answer]
  /-- A sub-context is registered. -/
  | accepted {command : Command} {reply : Reply} {i : ContextId} {id : SubContextId}
    {sub : SubContext} {c : Context} {signals : SortedMap Holder Nat} {answer : Answer}
    (hoffered : n.offered? command = some (i, id, sub)) (hc : n.contexts[i]? = some c)
    (hopen : c.phase.isFinished = false) (hid : c.subContexts.get? id = none)
    (hanswer : answer.refusal? = none) :
    Effect n (.run command reply)
      { n with
        fates := n.fates ++ [.fresh], signals
        contexts := n.contexts.modify i fun c =>
          { c with subContexts := c.subContexts.insert id sub }
        ledger := n.ledger.subContextRegistered c.node }
      [.answer reply answer]
  /-- A callback is registered. -/
  | registered {holder : Holder} {tag : String} {steps : List Command} {reply : Reply}
    {i : ContextId} {c : Context} (hheld : n.held? holder = some (i, c))
    (hopen : c.phase.isFinished = false) (answer : Answer) :
    Effect n (.run (.callback holder tag steps) reply)
      (n.modifyContext i fun c => { c with callbacks := c.callbacks ++ [.script tag steps] })
      [.answer reply answer]
  /-- Bytes move between the account of a context and the budget. -/
  | moved {command : Command} {reply : Reply} {holder : Holder} {bytes : UInt64} {i : ContextId}
    {c : Context} {a a' : Account} {budget : Budget} (hheld : n.held? holder = some (i, c))
    (ha : c.account = some a)
    (hmoved : command = .charge holder bytes ∧ (a.charge n.budget bytes).2 = (a', budget) ∨
      command = .release holder bytes ∧ a.release n.budget bytes = (a', budget))
    (answer : Answer) :
    Effect n (.run command reply) { n.modifyContext i ({ · with account := some a' }) with budget }
      [.answer reply answer]
  /-- A command finishes a context. -/
  | finished {command : Command} {reply : Reply} {i : ContextId} {c : Context} {target : Phase}
    (hi : i ∈ n.touches (.run command reply))
    (htarget : (Task.run command reply).target? = some target) (hc : n.contexts[i]? = some c)
    (hopen : c.phase.isFinished = false) :
    Effect n (.run command reply) (n.takeOut i c target)
      (Node.finishTasks i c target ++ [.answer reply (.flag true)])
  /-- All contexts of the directory are to be killed. -/
  | killAll {reply : Reply} :
    Effect n (.run .killAll reply) n [.killNext n.directory.values 0 reply]
  /-- Of several contexts, the first open one is killed. -/
  | killed {skipped rest : List ContextId} {killed : Nat} {reply : Reply} {i : ContextId}
    {c : Context} (hc : n.contexts[i]? = some c) (hopen : c.phase.isFinished = false) :
    Effect n (.killNext (skipped ++ i :: rest) killed reply) (n.takeOut i c .killed)
      (Node.finishTasks i c .killed ++ [.killNext rest (killed + 1) reply])
  /-- There is no open context left to kill. -/
  | allKilled {contexts : List ContextId} {killed : Nat} {reply : Reply} :
    Effect n (.killNext contexts killed reply) n [.answer reply (.number killed)]
  /-- A sub-context is closed, and its hooks are to run. -/
  | closing {i : ContextId} {sub : SubContext} {fails : Bool} {steps : List Command}
    (hclose : sub.onClose = .script fails steps) :
    Effect n (.closeSub i sub) ((n.markClosed sub.serial).record (.closed sub.serial sub.name))
      (Node.hooks steps ++ [.subClosed i fails])
  /-- A search is closed that some context has. -/
  | cancelled {i : ContextId} {sub : SubContext} (hclose : sub.onClose = .cancelSearch) :
    Effect n (.closeSub i sub) (n.markClosed sub.serial) []
  /-- It is counted if a close has failed. -/
  | closeCounted {i : ContextId} {fails : Bool} :
    Effect n (.subClosed i fails)
      { n with ledger := (if fails then n.countFor i Ledger.closeFailed else n).ledger } []
  /-- The end of a context is counted. -/
  | endCounted {i : ContextId} {phase : Phase} :
    Effect n (.finished i phase)
      { n with ledger := (n.countFor i (·.contextFinished · phase.name)).ledger } []
  | accountClosed {i : ContextId} {account : Account} :
    Effect n (.closeAccount i account) { n with budget := (account.close n.budget).2 } []
  /-- A context leaves the directory, if it is in it. -/
  | left {i : ContextId} {cause : Option Fault} {bytes : UInt64} :
    Effect n (.notify i .leave cause bytes) { n with directory := (n.leave i).directory } []
  /-- A callback is called. -/
  | called {i : ContextId} {tag : String} {steps : List Command} {cause : Option Fault}
    {bytes : UInt64} :
    Effect n (.notify i (.script tag steps) cause bytes) (n.record (.called tag cause bytes))
      (Node.hooks steps)
  /-- An answer is given. -/
  | delivered {reply : Reply} {answer : Answer} :
    Effect n (.answer reply answer)
      { n with log := (n.deliver reply answer).log
               lastAnswer := (n.deliver reply answer).lastAnswer } []

namespace Effect

variable {n m : Node} {task : Task} {pushed : List Task} (h : Effect n task m pushed)
include h

/-- What was to be done before is still to be done. -/
theorem agenda : m.agenda = n.agenda := by
  cases h <;> rfl

end Effect

/-- A command but one that kills several contexts ends with its answer. -/
theorem Effect.answered {n m : Node} {command : Command} {reply : Reply} {pushed : List Task}
    (h : Effect n (.run command reply) m pushed) (hcommand : command ≠ .killAll) :
    ∃ tasks answer, pushed = tasks ++ [.answer reply answer] := by
  cases h with
  | killAll => exact absurd rfl hcommand
  | rejected => exact ⟨[_], _, rfl⟩
  | evicted => exact ⟨[_, _], _, rfl⟩
  | finished => exact ⟨_, _, rfl⟩
  | told | taken | dropped | opened | entered | keptSearch | lostSearch | droppedSearch
  | closedSearch | accepted | registered | moved => exact ⟨[], _, rfl⟩

/-- A node changes as a task says, and has the tasks before it that this causes. -/
def Does (n : Node) (task : Task) (n' : Node) : Prop :=
  ∃ m pushed, n' = m.push pushed ∧ Effect n task m pushed

/-! ### Commands -/

namespace Node

variable {n : Node}

theorem contexts_of_held? {n : Node} {holder : Holder} {i : ContextId} {c : Context}
    (h : n.held? holder = some (i, c)) : n.contexts[i]? = some c := by
  simp only [held?, Option.bind_eq_some_iff, Option.map_eq_some_iff, Prod.mk.injEq] at h
  obtain ⟨_, _, _, hc, rfl, rfl⟩ := h
  exact hc

theorem get?_of_held? {holder : Holder} {i : ContextId} {c : Context}
    (h : n.held? holder = some (i, c)) : n.handles.get? holder = some i := by
  simp only [held?, Option.bind_eq_some_iff, Option.map_eq_some_iff, Prod.mk.injEq] at h
  obtain ⟨_, hget, _, _, rfl, -⟩ := h
  exact hget

theorem withHandle_of_held? {holder : Holder} {i : ContextId} {c : Context}
    (h : n.held? holder = some (i, c)) (reply : Reply) (f : ContextId → Context → Node) :
    n.withHandle holder reply f = f i c := by
  rw [withHandle, h]

theorem touches_of_held? {command : Command} {holder : Holder}
    (hhandle : command.handle? = some holder) {i : ContextId} {c : Context}
    (h : n.held? holder = some (i, c)) (reply : Reply) : i ∈ n.touches (.run command reply) := by
  have hreach : i ∈ (command.handle?.bind n.handles.get?).toList := by
    rw [hhandle, Option.bind_some, get?_of_held? h]
    exact List.mem_singleton_self i
  cases command <;> first | exact hreach | cases hhandle

/-- A sub-context is offered by a command that adds it, or that opens a search for a context.  It
gets the next serial. -/
theorem offered?_eq_some {command : Command} {i : ContextId} {id : SubContextId}
    {sub : SubContext} (h : n.offered? command = some (i, id, sub)) :
    ∃ holder c, n.held? holder = some (i, c) ∧ sub.serial = n.fates.length ∧
      ((∃ name fails onClose, command = .add holder id name fails onClose ∧
          sub.onClose = .script fails onClose) ∨
        ∃ index shard signal, command = .search id index shard signal (some holder) ∧
          sub.onClose = .cancelSearch) := by
  unfold offered? at h
  split at h
  · obtain ⟨⟨_, c⟩, hheld, hsome⟩ := Option.map_eq_some_iff.1 h
    cases hsome
    exact ⟨_, c, hheld, rfl, .inl ⟨_, _, _, rfl, rfl⟩⟩
  · obtain ⟨⟨_, c⟩, hheld, hsome⟩ := Option.map_eq_some_iff.1 h
    cases hsome
    exact ⟨_, c, hheld, rfl, .inr ⟨_, _, _, rfl, rfl⟩⟩
  · cases h

/-- A sub-context is offered to a context that the command works on. -/
theorem touches_of_offered? {command : Command} {i : ContextId} {id : SubContextId}
    {sub : SubContext} (h : n.offered? command = some (i, id, sub)) (reply : Reply) :
    i ∈ n.touches (.run command reply) := by
  obtain ⟨holder, c, hheld, -, ⟨_, _, _, rfl, -⟩ | ⟨_, _, _, rfl, -⟩⟩ := offered?_eq_some h
  · exact touches_of_held? rfl hheld reply
  · exact touches_of_held? rfl hheld reply

theorem serial_of_offered? {command : Command} {i : ContextId} {id : SubContextId}
    {sub : SubContext} (h : n.offered? command = some (i, id, sub)) :
    sub.serial = n.fates.length := by
  obtain ⟨_, _, _, hserial, -⟩ := offered?_eq_some h
  exact hserial

/-- A command that finishes a context offers none a sub-context. -/
theorem offered?_of_target? {command : Command} {reply : Reply} {target : Phase}
    (h : (Task.run command reply).target? = some target) : n.offered? command = none := by
  cases command <;> first | rfl | cases h

/-- An offer registers no callback. -/
theorem accepts_of_offered? {command : Command} {x : ContextId × SubContextId × SubContext}
    (h : n.offered? command = some x) (reply : Reply) (i : ContextId) :
    n.accepts (.run command reply) i = [] := by
  obtain ⟨_, _, _, -, ⟨_, _, _, rfl, -⟩ | ⟨_, _, _, rfl, -⟩⟩ := offered?_eq_some h
  · rfl
  · rfl

/-- A task that finishes a context registers none. -/
theorem accepts_of_target? {task : Task} {target : Phase} (h : task.target? = some target)
    (i : ContextId) : n.accepts task i = [] := by
  unfold Task.target? at h
  split at h <;> first | rfl | cases h

section Commands

variable {command : Command} {reply : Reply}

theorem does_told (hoffered : n.offered? command = none)
    (haccepts : ∀ i, n.accepts (.run command reply) i = []) (answer : Answer) :
    Does n (.run command reply) (n.answerNow reply answer) :=
  ⟨n, _, rfl, .told hoffered haccepts answer⟩

theorem does_withHandle {holder : Holder}
    (hnone : n.held? holder = none → n.offered? command = none ∧
      ∀ i, n.accepts (.run command reply) i = []) {f : ContextId → Context → Node}
    (h : ∀ i c, n.held? holder = some (i, c) → Does n (.run command reply) (f i c)) :
    Does n (.run command reply) (n.withHandle holder reply f) := by
  unfold withHandle
  split
  · exact does_told (hnone ‹_›).1 (hnone ‹_›).2 _
  · exact h _ _ ‹_›

/-- The open context of a job is in the directory and there. -/
theorem exists_of_openContextOf? {job : JobId} {i : ContextId}
    (h : n.openContextOf? job = some i) :
    n.contextOf? job = some i ∧ ∃ c, n.contexts[i]? = some c ∧ c.isOpen = true := by
  obtain ⟨hi, hopen⟩ := Option.filter_eq_some_iff.1 h
  refine ⟨hi, ?_⟩
  cases hc : n.contexts[i]? with
  | none => simp [hc] at hopen
  | some c => exact ⟨c, rfl, by simpa [hc] using hopen⟩

theorem does_acquire (n : Node) (job : JobId) (holder : Holder) (reply : Reply) :
    Does n (.run (.acquire job holder) reply) (n.execute (.acquire job holder) reply) := by
  simp only [execute, acquireContext]
  split
  · rename_i i hi
    obtain ⟨hjob, c, hc, -⟩ := exists_of_openContextOf? hi
    simp only [answerHeld, hc]
    exact ⟨_, _, rfl, .taken hjob (.inr ⟨rfl, hi⟩) _⟩
  · rename_i hnone
    simp only [openContext, answerHeld, List.getElem?_concat_length]
    exact ⟨_, _, rfl, .entered hnone _⟩

theorem does_find (n : Node) (job : JobId) (holder : Option Holder) (reply : Reply) :
    Does n (.run (.find job holder) reply) (n.execute (.find job holder) reply) := by
  simp only [execute]
  split
  · rename_i i hi
    unfold answerHeld
    split
    · exact does_told rfl (fun _ => rfl) _
    · cases holder with
      | none => exact does_told rfl (fun _ => rfl) _
      | some holder => exact ⟨_, _, rfl, .taken hi (.inl rfl) _⟩
  · exact does_told rfl (fun _ => rfl) _

theorem does_offer {i : ContextId} {id : SubContextId} {sub : SubContext} {c : Context}
    (hoffered : n.offered? command = some (i, id, sub)) (hc : n.contexts[i]? = some c)
    {signals : SortedMap Holder Nat} {o : Node × List Task × Option Fault}
    (ho : offer { n with fates := n.fates ++ [.fresh], signals } i c id sub = o) {answer : Answer}
    (hanswer : answer.refusal? = o.2.2) :
    Does n (.run command reply) (o.1.answerAfter o.2.1 reply answer) := by
  unfold offer at ho
  split at ho
  · subst ho
    exact ⟨_, _, rfl, .rejected hoffered hc ‹_› hanswer⟩
  · rename_i hopen
    rw [Bool.not_eq_true] at hopen
    split at ho
    · subst ho
      exact ⟨_, _, rfl, .evicted hoffered hc hopen ‹_› hanswer⟩
    · subst ho
      exact ⟨_, _, rfl, .accepted hoffered hc hopen ‹_› hanswer⟩

theorem does_search (n : Node) (id : SubContextId) (index : String) (shard : UInt32)
    (signal : Holder) (holder : Option Holder) (reply : Reply) :
    Does n (.run (.search id index shard signal holder) reply)
      (n.execute (.search id index shard signal holder) reply) := by
  cases holder with
  | none =>
    refine ⟨_, _, ?_, .keptSearch rfl (.searchOpened (searchName index shard) none)⟩
    simp only [execute, keepSearch]
    split <;> rfl
  | some holder =>
    cases hheld : n.held? holder with
    | none =>
      have hheld' : (n.openSearch index shard signal).2.held? holder = none := hheld
      simp only [execute, hheld']
      exact ⟨_, _, rfl, .lostSearch hheld _⟩
    | some x =>
      have hheld' : (n.openSearch index shard signal).2.held? holder = some x := hheld
      have hoffered : n.offered? (.search id index shard signal (some holder)) =
          some (x.1, id, ⟨n.fates.length, searchName index shard, .cancelSearch⟩) := by
        rw [offered?, hheld, Option.map_some]
      simp only [execute, hheld']
      exact does_offer hoffered (contexts_of_held? hheld) rfl rfl

theorem finish?_eq_some {i : ContextId} {target : Phase} {m : Node} {tasks : List Task}
    (h : n.finish? i target = some (m, tasks)) :
    ∃ c, n.contexts[i]? = some c ∧ c.phase.isFinished = false ∧ m = n.takeOut i c target ∧
      tasks = finishTasks i c target := by
  unfold finish? at h
  split at h
  · cases h
  · rename_i c hc
    split at h
    · cases h
    · rename_i hopen
      rw [Bool.not_eq_true] at hopen
      obtain ⟨rfl, rfl⟩ := Prod.mk.inj (Option.some.inj h)
      exact ⟨c, hc, hopen, rfl, rfl⟩

theorem does_finish {i : ContextId} {target : Phase} (hi : i ∈ n.touches (.run command reply))
    (htarget : (Task.run command reply).target? = some target) :
    Does n (.run command reply) (n.finishAndAnswer i target reply) := by
  unfold finishAndAnswer
  split
  · obtain ⟨c, hc, hopen, rfl, rfl⟩ := finish?_eq_some ‹_›
    exact ⟨_, _, rfl, .finished hi htarget hc hopen⟩
  · exact does_told (offered?_of_target? htarget) (accepts_of_target? htarget) _

theorem does_finishJob {job : JobId} {target : Phase}
    (hi : ∀ i, n.contextOf? job = some i → i ∈ n.touches (.run command reply))
    (htarget : (Task.run command reply).target? = some target) :
    Does n (.run command reply) (n.finishJob job target reply) := by
  unfold finishJob
  split
  · exact does_finish (hi _ ‹_›) htarget
  · exact does_told (offered?_of_target? htarget) (accepts_of_target? htarget) _

theorem does_callback (n : Node) (holder : Holder) (tag : String) (steps : List Command)
    (reply : Reply) : Does n (.run (.callback holder tag steps) reply)
      (n.execute (.callback holder tag steps) reply) := by
  refine does_withHandle (fun hnone => ⟨rfl, fun i => ?_⟩) fun i c hheld => ?_
  · simp only [accepts, hnone]
  · split
    · rename_i hfinished
      exact does_told rfl (fun j => by simp [accepts, hheld, hfinished]) _
    · rename_i hopen
      rw [Bool.not_eq_true] at hopen
      exact ⟨_, _, rfl, .registered hheld hopen _⟩

theorem does_charge (n : Node) (holder : Holder) (bytes : UInt64) (reply : Reply) :
    Does n (.run (.charge holder bytes) reply) (n.execute (.charge holder bytes) reply) := by
  refine does_withHandle (fun _ => ⟨rfl, fun _ => rfl⟩) fun i c hheld => ?_
  show Does n _ ((n.charge i c bytes).1.answerNow reply (n.charge i c bytes).2)
  unfold charge
  split
  · rename_i a ha _
    cases hcharged : a.charge n.budget bytes with
    | mk result moved =>
      obtain ⟨a', budget⟩ := moved
      cases result <;> exact ⟨_, _, rfl, .moved hheld ha (.inl ⟨rfl, by rw [hcharged]⟩) _⟩
  · exact does_told rfl (fun _ => rfl) _

theorem does_release (n : Node) (holder : Holder) (bytes : UInt64) (reply : Reply) :
    Does n (.run (.release holder bytes) reply) (n.execute (.release holder bytes) reply) := by
  refine does_withHandle (fun _ => ⟨rfl, fun _ => rfl⟩) fun i c hheld => ?_
  unfold release
  split
  · exact ⟨_, _, rfl, .moved hheld ‹_› (.inr ⟨rfl, rfl⟩) _⟩
  · exact does_told rfl (fun _ => rfl) _

/-- A command does nothing else. -/
theorem execute_does (n : Node) (command : Command) (reply : Reply) :
    Does n (.run command reply) (n.execute command reply) := by
  cases command with
  | acquire job holder => exact n.does_acquire job holder reply
  | find job holder => exact n.does_find job holder reply
  | start job label limit node holder =>
    simp only [execute, openContext, answerHeld, List.getElem?_concat_length]
    exact ⟨_, _, rfl, .opened _⟩
  | add holder id name fails onClose =>
    refine does_withHandle (fun hnone => ⟨?_, fun _ => rfl⟩) fun i c hheld => ?_
    · rw [offered?, hnone, Option.map_none]
    · have hoffered : n.offered? (.add holder id name fails onClose) =
          some (i, id, ⟨n.fates.length, name, .script fails onClose⟩) := by
        rw [offered?, hheld, Option.map_some]
      refine does_offer hoffered (contexts_of_held? hheld)
        (Eq.refl (offer { n with fates := n.fates ++ [.fresh] } i c id _)) ?_
      split
      · exact (‹_ = some _›).symm
      · exact (‹_ = none›).symm
  | search id index shard signal holder => exact n.does_search id index shard signal holder reply
  | closeSearch search =>
    simp only [execute]
    split
    · exact ⟨_, _, rfl, .closedSearch ‹_›⟩
    · exact does_told rfl (fun _ => rfl) _
  | dropSearch search =>
    simp only [execute]
    split
    · exact ⟨_, _, rfl, .droppedSearch ‹_› _⟩
    · exact does_told rfl (fun _ => rfl) _
  | signal search =>
    simp only [execute]
    split <;> exact does_told rfl (fun _ => rfl) _
  | callback holder tag steps => exact n.does_callback holder tag steps reply
  | charge holder bytes => exact n.does_charge holder bytes reply
  | release holder bytes => exact n.does_release holder bytes reply
  | close holder | kill holder =>
    exact does_withHandle (fun _ => ⟨rfl, fun _ => rfl⟩) fun _ _ hheld =>
      does_finish (touches_of_held? rfl hheld reply) rfl
  | closeJob job | killJob job =>
    exact does_finishJob (fun i hi => by simp [touches, hi]) rfl
  | killAll => exact ⟨_, _, rfl, .killAll⟩
  | status holder | describe holder =>
    exact does_withHandle (fun _ => ⟨rfl, fun _ => rfl⟩) fun _ _ _ =>
      does_told rfl (fun _ => rfl) _
  | drop holder => exact ⟨_, _, rfl, .dropped _⟩
  | service | unreadable verb => exact does_told rfl (fun _ => rfl) _

end Commands

/-! ### Tasks -/

theorem does_killNext (n : Node) (contexts : List ContextId) (killed : Nat) (reply : Reply) :
    Does n (.killNext contexts killed reply) (n.killNext contexts killed reply) := by
  -- the contexts that are not open are passed over
  suffices h : ∀ skipped, Does n (.killNext (skipped ++ contexts) killed reply)
      (n.killNext contexts killed reply) from h []
  induction contexts with
  | nil => exact fun _ => ⟨_, _, rfl, .allKilled⟩
  | cons i rest ih =>
    intro skipped
    rw [killNext]
    split
    · obtain ⟨c, hc, hopen, rfl, rfl⟩ := finish?_eq_some ‹_›
      exact ⟨_, _, rfl, .killed hc hopen⟩
    · have h := ih (skipped ++ [i])
      rwa [List.append_assoc] at h

theorem countFor_eq (n : Node) (i : ContextId) (f : Ledger → NodeId → Ledger) :
    n.countFor i f = { n with ledger := (n.countFor i f).ledger } := by
  unfold countFor
  split <;> rfl

theorem leave_eq (n : Node) (i : ContextId) :
    n.leave i = { n with directory := (n.leave i).directory } := by
  unfold leave
  split
  · rfl
  · split <;> rfl

/-- A task does nothing else. -/
theorem doTask_effect (n : Node) (task : Task) : Does n task (n.doTask task) := by
  cases task with
  | run command reply => exact n.execute_does command reply
  | closeSub i sub =>
    rw [doTask, closeSub]
    split
    · exact ⟨_, [], rfl, .cancelled ‹_›⟩
    · exact ⟨_, _, rfl, .closing ‹_›⟩
  | subClosed i fails =>
    refine ⟨_, [], ?_, .closeCounted⟩
    cases fails with
    | false => rfl
    | true => exact n.countFor_eq i Ledger.closeFailed
  | closeAccount i account => exact ⟨_, [], rfl, .accountClosed⟩
  | notify i callback cause bytes =>
    cases callback with
    | leave => exact ⟨{ n with directory := (n.leave i).directory }, [], n.leave_eq i, .left⟩
    | script tag steps => exact ⟨_, _, rfl, .called⟩
  | finished i phase =>
    refine ⟨_, [], ?_, .endCounted⟩
    exact n.countFor_eq i (·.contextFinished · phase.name)
  | killNext contexts killed reply => exact n.does_killNext contexts killed reply
  | answer reply answer =>
    refine ⟨_, [], ?_, .delivered⟩
    cases reply <;> rfl

end Node

end ShardJoin.Job
