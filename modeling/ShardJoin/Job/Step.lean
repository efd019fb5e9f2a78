/-
Carrying out commands, one task at a time.

* A sub-context leaves the registry on three ways: a second one with its id is
  offered, the job is finished, or the context was finished before it came.
  On each of them it is closed.
* The first close or kill of a context finishes it: it takes everything out of
  the context, closes the sub-contexts in the order of their ids, then the
  account, then calls the callbacks in the order of registration.
* An open context that nobody holds any more is let go: its sub-contexts are
  not closed, nobody is called, its bytes go back to the budget.
* A search has its signal before it is offered, and is let go if there is no
  context to take it.

`Node.step` does the first task of the agenda; `Node.perform` repeats it until
nothing is left to do.  Every step makes the `weight` of what is to be done or
may still be caused smaller, so the weight is enough repetitions.
-/
import ShardJoin.Job.Node

namespace ShardJoin.Job

namespace Node

/-! ### Answers -/

/-- Gives an answer to the one who waits for it. -/
def deliver (n : Node) (reply : Reply) (answer : Answer) : Node :=
  match reply with
  | .script => { n with lastAnswer := answer }
  | .hook verb => n.record (.nested verb answer)

/-- Answers after some tasks. -/
def answerAfter (n : Node) (tasks : List Task) (reply : Reply) (answer : Answer) : Node :=
  n.push (tasks ++ [.answer reply answer])

/-- Answers at once. -/
def answerNow (n : Node) (reply : Reply) (answer : Answer) : Node := n.answerAfter [] reply answer

/-- The context that a script holds under a name. -/
def held? (n : Node) (holder : Holder) : Option (ContextId × Context) :=
  (n.handles.get? holder).bind fun i => n.contexts[i]?.map (i, ·)

/-- Does something to the context that a script holds. -/
def withHandle (n : Node) (holder : Holder) (reply : Reply)
    (f : ContextId → Context → Node) : Node :=
  match n.held? holder with
  | none => n.answerNow reply .unreadable
  | some (i, c) => f i c

/-! ### Opening and holding contexts -/

/-- Opens a context. -/
def openContext (n : Node) (job : JobId) (node : NodeId) (account : Account)
    (callbacks : List Callback) : ContextId × Node :=
  (n.contexts.length,
    { n with
      contexts := n.contexts ++ [.opened job node account callbacks]
      ledger := n.ledger.contextOpened node })

/-- The open context of a job, if there is one. -/
def openContextOf? (n : Node) (job : JobId) : Option ContextId :=
  (n.contextOf? job).filter fun i => (n.contexts[i]?.map Context.isOpen).getD false

/-- The open context of a job, opened and entered in the directory if there is none. -/
def acquireContext (n : Node) (job : JobId) : ContextId × Node :=
  match n.openContextOf? job with
  | some i => (i, n)
  | none =>
    let label := "job-" ++ toString job.toNat
    let (i, n) := n.openContext job n.name (.start label n.jobLimit) [.leave]
    (i, { n with directory := n.directory.insert job i })

/-- The names under which a context is held. -/
def holdersOf (n : Node) (i : ContextId) : List Holder :=
  (n.handles.entries.filter (·.2 == i)).map (·.1)

/-- Answers with a context, and gives it a holder if one is named. -/
def answerHeld (n : Node) (i : ContextId) (holder : Option Holder) (reply : Reply) : Node :=
  match n.contexts[i]? with
  | none => n.answerNow reply .nothing
  | some c =>
    let answer := Answer.held (n.holdersOf i) c.status
    let n := match holder with
      | some h => { n with handles := n.handles.insert h i }
      | none => n
    n.answerNow reply answer

/-! ### Sub-contexts -/

/-- Offers a sub-context to a context.  Gives the tasks that closing needs, and the refusal. -/
def offer (n : Node) (i : ContextId) (c : Context) (id : SubContextId) (sub : SubContext) :
    Node × List Task × Option Fault :=
  if c.phase.isFinished then (n, [.closeSub i sub], some (.contextClosed c.job))
  else match c.subContexts.get? id with
    | some existing =>
      ((n.modifyContext i fun c => { c with subContexts := c.subContexts.erase id }).count
          (·.subContextDuplicate c.node),
        [.closeSub i existing, .closeSub i sub], some (.duplicateContext c.job id))
    | none =>
      ((n.modifyContext i fun c => { c with subContexts := c.subContexts.insert id sub }).count
          (·.subContextRegistered c.node),
        [], none)

/-- A sub-context with a fate of its own. -/
def newSub (n : Node) (name : String) (onClose : OnClose) : SubContext × Node :=
  (⟨n.fates.length, name, onClose⟩, { n with fates := n.fates ++ [.fresh] })

/-- Marks a sub-context as closed. -/
def markClosed (n : Node) (serial : Nat) : Node :=
  n.modifyFate serial fun f => { f with closings := f.closings + 1 }

/-- Marks a sub-context as let go. -/
def markDropped (n : Node) (serial : Nat) : Node :=
  n.modifyFate serial fun f => { f with dropped := true }

/-- Runs commands as hooks, one after another. -/
def hooks (steps : List Command) : List Task := steps.map fun c => .run c (.hook c.verb)

/-- Closes a sub-context. -/
def closeSub (n : Node) (i : ContextId) (sub : SubContext) : Node :=
  let n := n.markClosed sub.serial
  match sub.onClose with
  | .cancelSearch => n
  | .script fails steps =>
    (n.record (.closed sub.serial sub.name)).push (hooks steps ++ [.subClosed i fails])

/-! ### Finishing a job -/

/-- What callbacks learn about the end of a job. -/
def finishCause (c : Context) : Phase → Option Fault
  | .killed => some (.cancelled (.killed c.job c.node))
  | _ => none

/-- The tasks of finishing a context: close the sub-contexts and the account, call the
callbacks. -/
def finishTasks (i : ContextId) (c : Context) (target : Phase) : List Task :=
  c.subContexts.values.map (.closeSub i) ++
    (c.account.toList.map (.closeAccount i) ++
      (c.callbacks.map (.notify i · (finishCause c target) c.bytes) ++ [.finished i target]))

/-- Takes everything out of a context. -/
def takeOut (n : Node) (i : ContextId) (c : Context) (target : Phase) : Node :=
  n.modifyContext i fun _ => { c.emptied with phase := target, finalBytes := c.bytes }

/-- Finishes a context, if it is open.  Gives the tasks of finishing it. -/
def finish? (n : Node) (i : ContextId) (target : Phase) : Option (Node × List Task) :=
  match n.contexts[i]? with
  | none => none
  | some c =>
    if c.phase.isFinished then none
    else some (n.takeOut i c target, finishTasks i c target)

/-- Finishes a context and answers whether this call did it. -/
def finishAndAnswer (n : Node) (i : ContextId) (target : Phase) (reply : Reply) : Node :=
  match n.finish? i target with
  | some (n, tasks) => n.answerAfter tasks reply (.flag true)
  | none => n.answerNow reply (.flag false)

/-- Finishes the context of a job in the directory. -/
def finishJob (n : Node) (job : JobId) (target : Phase) (reply : Reply) : Node :=
  match n.contextOf? job with
  | some i => n.finishAndAnswer i target reply
  | none => n.answerNow reply (.flag false)

/-- Removes a context from the directory if it is the current one of its job. -/
def leave (n : Node) (i : ContextId) : Node :=
  match n.contexts[i]? with
  | none => n
  | some c =>
    if n.contextOf? c.job = some i then { n with directory := n.directory.erase c.job } else n

/-- Calls a callback. -/
def notify (n : Node) (i : ContextId) (callback : Callback) (cause : Option Fault)
    (bytes : UInt64) : Node :=
  match callback with
  | .leave => n.leave i
  | .script tag steps => (n.record (.called tag cause bytes)).push (hooks steps)

/-- Kills the next open context of a list, or answers how many were killed. -/
def killNext (n : Node) (contexts : List ContextId) (killed : Nat) (reply : Reply) : Node :=
  match contexts with
  | [] => n.answerNow reply (.number killed)
  | i :: rest =>
    match n.finish? i .killed with
    | some (n, tasks) => n.push (tasks ++ [.killNext rest (killed + 1) reply])
    | none => n.killNext rest killed reply

/-! ### Memory -/

/-- Charges bytes to the job of a context. -/
def charge (n : Node) (i : ContextId) (c : Context) (bytes : UInt64) : Node × Answer :=
  match c.account, c.phase with
  | some a, .running =>
    let (result, a, budget) := a.charge n.budget bytes
    let n := { n.modifyContext i ({ · with account := some a }) with budget }
    match result with
    | .ok () => (n, .done)
    | .error cause => (n, .refused (.memory cause))
  | _, _ => (n, .refused (.contextClosed c.job))

/-- Gives bytes back; nothing happens once the job is finished. -/
def release (n : Node) (i : ContextId) (c : Context) (bytes : UInt64) : Node :=
  match c.account with
  | some a =>
    let (a, budget) := a.release n.budget bytes
    { n.modifyContext i ({ · with account := some a }) with budget }
  | none => n

/-! ### Commands -/

/-- The name of a shard search. -/
def searchName (index : String) (shard : UInt32) : String :=
  "search[" ++ index ++ "][" ++ toString shard.toNat ++ "]"

/-- Opens a shard search with a signal. -/
def openSearch (n : Node) (index : String) (shard : UInt32) (signal : Holder) :
    SubContext × Node :=
  let (sub, n) := n.newSub (searchName index shard) .cancelSearch
  (sub, { n with signals := n.signals.insert signal sub.serial })

/-- Keeps a search in the script; an earlier one of the name is let go. -/
def keepSearch (n : Node) (search : Holder) (sub : SubContext) : Node :=
  let n := match n.searches.get? search with
    | some serial => n.markDropped serial
    | none => n
  { n with searches := n.searches.insert search sub.serial }

/-- Carries out a command. -/
def execute (n : Node) (command : Command) (reply : Reply) : Node :=
  match command with
  | .acquire job holder =>
    let (i, n) := n.acquireContext job
    n.answerHeld i (some holder) reply
  | .find job holder =>
    match n.contextOf? job with
    | some i => n.answerHeld i holder reply
    | none => n.answerNow reply .nothing
  | .start job label limit node holder =>
    let (i, n) := n.openContext job node (.start label limit) []
    n.answerHeld i (some holder) reply
  | .status holder =>
    n.withHandle holder reply fun _ c => n.answerNow reply (.status c.status)
  | .add holder id name fails onClose =>
    n.withHandle holder reply fun i c =>
      let (sub, n) := n.newSub name (.script fails onClose)
      let (n, tasks, refusal) := n.offer i c id sub
      n.answerAfter tasks reply (match refusal with
        | some cause => .refused cause
        | none => .done)
  | .search _ index shard signal none =>
    let (sub, n) := n.openSearch index shard signal
    (n.keepSearch signal sub).answerNow reply (.searchOpened sub.name none)
  | .search id index shard signal (some holder) =>
    let (sub, n) := n.openSearch index shard signal
    match n.held? holder with
    | none => (n.markDropped sub.serial).answerNow reply .unreadable
    | some (i, c) =>
      let (n, tasks, refusal) := n.offer i c id sub
      n.answerAfter tasks reply (.searchOpened sub.name refusal)
  | .closeSearch search =>
    match n.searches.get? search with
    | some serial => (n.markClosed serial).answerNow reply .done
    | none => n.answerNow reply .unreadable
  | .dropSearch search =>
    match n.searches.get? search with
    | some serial =>
      { n.markDropped serial with searches := n.searches.erase search }.answerNow reply
        (.flag true)
    | none => n.answerNow reply (.flag false)
  | .signal search =>
    match (n.signals.get? search).bind (n.fates[·]?) with
    | some fate => n.answerNow reply (.signal fate.cancelled fate.wakes)
    | none => n.answerNow reply .unreadable
  | .callback holder tag steps =>
    n.withHandle holder reply fun i c =>
      if c.phase.isFinished then n.answerNow reply (.refused (.contextClosed c.job))
      else
        (n.modifyContext i fun c =>
          { c with callbacks := c.callbacks ++ [.script tag steps] }).answerNow reply .done
  | .charge holder bytes =>
    n.withHandle holder reply fun i c =>
      let (n, answer) := n.charge i c bytes
      n.answerNow reply answer
  | .release holder bytes =>
    n.withHandle holder reply fun i c => (n.release i c bytes).answerNow reply .done
  | .close holder => n.withHandle holder reply fun i _ => n.finishAndAnswer i .closed reply
  | .kill holder => n.withHandle holder reply fun i _ => n.finishAndAnswer i .killed reply
  | .closeJob job => n.finishJob job .closed reply
  | .killJob job => n.finishJob job .killed reply
  | .killAll => n.push [.killNext n.directory.values 0 reply]
  | .service => n.answerNow reply (.service n.name n.activeJobs)
  | .describe holder =>
    n.withHandle holder reply fun _ c => n.answerNow reply (.text c.describe)
  | .drop holder =>
    { n with handles := n.handles.erase holder }.answerNow reply
      (.flag (n.handles.contains holder))
  | .unreadable _ => n.answerNow reply .unreadable

/-! ### Letting go -/

/-- Lets a context go: nothing is closed, nobody is called, its bytes go back to the budget. -/
def letGo (n : Node) (i : ContextId) (c : Context) : Node :=
  let n := c.subContexts.values.foldl (fun n sub => n.markDropped sub.serial) n
  let budget := match c.account with
    | some a => (a.close n.budget).2
    | none => n.budget
  { n.modifyContext i Context.emptied with budget }

/-- Lets the context at a place go if it is open and nobody holds it. -/
def letGoUnheld (n : Node) (i : ContextId) : Node :=
  match n.contexts[i]? with
  | some c => if c.isOpen && !n.isHeld i then n.letGo i c else n
  | none => n

/-- Lets every open context go that nobody holds. -/
def sweep (n : Node) : Node := (List.range n.contexts.length).foldl letGoUnheld n

/-! ### Steps -/

/-- Does a task. -/
def doTask (n : Node) : Task → Node
  | .run command reply => n.execute command reply
  | .closeSub i sub => n.closeSub i sub
  | .subClosed i fails => if fails then n.countFor i Ledger.closeFailed else n
  | .closeAccount _ account => { n with budget := (account.close n.budget).2 }
  | .notify i callback cause bytes => n.notify i callback cause bytes
  | .finished i phase => n.countFor i (·.contextFinished · phase.name)
  | .killNext contexts killed reply => n.killNext contexts killed reply
  | .answer reply answer => n.deliver reply answer

/-- Does the first task of the agenda. -/
def step (n : Node) : Node :=
  match n.agenda with
  | [] => n
  | task :: rest => ({ n with agenda := rest }.doTask task).sweep

end Node

/-! ### How long it can take -/

mutual
/-- A bound on the steps that a command can cause, its hooks included. -/
def Command.weight : Command → Nat
  | .add _ _ _ _ onClose => 8 + Command.weightAll onClose
  | .callback _ _ steps => 8 + Command.weightAll steps
  | _ => 8

/-- The weight of a list of commands. -/
def Command.weightAll : List Command → Nat
  | [] => 0
  | c :: cs => c.weight + Command.weightAll cs
end

/-- The weight of all members of a list together. -/
def totalWeight {α : Type} (weight : α → Nat) : List α → Nat
  | [] => 0
  | a :: as => weight a + totalWeight weight as

/-- A bound on the steps of closing a sub-context. -/
def SubContext.weight (s : SubContext) : Nat :=
  match s.onClose with
  | .script _ steps => 2 + Command.weightAll steps
  | .cancelSearch => 2

/-- A bound on the steps of calling a callback. -/
def Callback.weight : Callback → Nat
  | .leave => 1
  | .script _ steps => 1 + Command.weightAll steps

/-- A bound on the steps that finishing a context can cause. -/
def Context.weight (c : Context) : Nat :=
  if c.phase.isFinished then 0
  else 4 + totalWeight SubContext.weight c.subContexts.values +
    totalWeight Callback.weight c.callbacks

/-- A bound on the steps that a task can cause. -/
def Task.weight : Task → Nat
  | .run command _ => command.weight
  | .closeSub _ sub => sub.weight
  | .notify _ callback _ _ => callback.weight
  | .killNext .. => 2
  | .subClosed .. | .closeAccount .. | .finished .. | .answer .. => 1

/-- A bound on the steps that are still to come. -/
def Node.weight (n : Node) : Nat :=
  totalWeight Task.weight n.agenda + totalWeight Context.weight n.contexts

namespace Node

/-- Repeats a step. -/
def steps (n : Node) : Nat → Node
  | 0 => n
  | k + 1 => n.step.steps k

/-- Works until nothing is left to do. -/
def settle (n : Node) : Node := n.steps n.weight

/-- Carries out a command of the script, with everything that it causes. -/
def perform (n : Node) (command : Command) : Node :=
  ({ n with agenda := [.run command .script] }).settle

/-- Carries out a script. -/
def performAll (n : Node) (commands : List Command) : Node := commands.foldl perform n

end Node

end ShardJoin.Job
