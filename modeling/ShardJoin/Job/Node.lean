/-
The job contexts of one node.

A context owns the sub-contexts and the callbacks that are registered with it
and the account of its job until it is finished.  The directory holds at most
one context per job.  Every context ever opened keeps its place in the list of
contexts, and every sub-context ever offered keeps its fate.

What is still to be done is a list of tasks, the agenda: foreign code runs
between the steps of closing a sub-context or finishing a job, and it may do
anything that a script may do.
-/
import ShardJoin.Budget
import ShardJoin.Job.Command
import ShardJoin.Ledger

namespace ShardJoin.Job

/-- The place of a context in the order of opening. -/
abbrev ContextId := Nat

/-- What closing a sub-context does. -/
inductive OnClose where
  /-- Runs commands, then succeeds or fails. -/
  | script (fails : Bool) (steps : List Command)
  /-- Cancels a shard search. -/
  | cancelSearch

/-- A resource that a job context owns. -/
structure SubContext where
  serial : Nat
  name : String
  onClose : OnClose

/-- What became of an offered sub-context. -/
structure Fate where
  /-- How often it was closed. -/
  closings : Nat
  /-- Whether it was let go without being closed. -/
  dropped : Bool
  deriving DecidableEq

namespace Fate

/-- Neither closed nor let go. -/
def fresh : Fate := ⟨0, false⟩

/-- Whether a search with this fate is cancelled. -/
def cancelled (f : Fate) : Bool := 0 < f.closings

/-- Whether a task that waits for a search with this fate goes on. -/
def wakes (f : Fate) : Bool := f.cancelled || f.dropped

end Fate

/-- What is called when a job is finished. -/
inductive Callback where
  /-- The context leaves the directory. -/
  | leave
  | script (tag : String) (steps : List Command)

/-- The registry of what one job has open on one node. -/
structure Context where
  job : JobId
  node : NodeId
  phase : Phase
  subContexts : SortedMap SubContextId SubContext
  callbacks : List Callback
  account : Option Account
  finalBytes : UInt64

namespace Context

/-- An open context with nothing registered. -/
def opened (job : JobId) (node : NodeId) (account : Account) (callbacks : List Callback) :
    Context where
  job
  node
  phase := .running
  subContexts := .empty
  callbacks
  account := some account
  finalBytes := 0

/-- Whether the context accepts registrations. -/
def isOpen (c : Context) : Bool := !c.phase.isFinished

/-- The bytes held, or held when the job was finished. -/
def bytes (c : Context) : UInt64 :=
  match c.account with
  | some a => a.used
  | none => c.finalBytes

def status (c : Context) : Status := ⟨c.job, c.node, c.phase, c.subContexts.size, c.bytes⟩

/-- A context that owns nothing any more. -/
def emptied (c : Context) : Context :=
  { c with subContexts := .empty, callbacks := [], account := none }

/-- The context spelled out. -/
def describe (c : Context) : String :=
  "JobCollectContext \x7b job_id: " ++ Text.applied "JobId" [toString c.job.toNat] ++
    ", node_id: " ++ Text.applied "NodeId" [Text.quoted c.node] ++
    ", state: " ++ c.phase.spelling ++ ", sub_contexts: " ++
    Text.bracketed (c.subContexts.keys.map fun id => Text.applied "SubContextId" [toString id]) ++
    ", callbacks: " ++ toString c.callbacks.length ++ " \x7d"

end Context

/-- Who gets the answer to a command: the script, or the log if a hook runs it. -/
inductive Reply where
  | script
  | hook (verb : Option String)

/-- A step that is still to be done. -/
inductive Task where
  | run (command : Command) (reply : Reply)
  | closeSub (context : ContextId) (sub : SubContext)
  | subClosed (context : ContextId) (fails : Bool)
  | closeAccount (context : ContextId) (account : Account)
  | notify (context : ContextId) (callback : Callback) (cause : Option Fault) (bytes : UInt64)
  | finished (context : ContextId) (phase : Phase)
  | killNext (contexts : List ContextId) (killed : Nat) (reply : Reply)
  | answer (reply : Reply) (answer : Answer)

/-- Whether a task needs a context. -/
def Task.uses (i : ContextId) : Task → Bool
  | .closeSub j _ | .subClosed j _ | .closeAccount j _ | .notify j .. | .finished j _ => i == j
  | .killNext contexts .. => contexts.contains i
  | .run .. | .answer .. => false

/-- The job contexts of a node and what a script holds of them. -/
structure Node where
  name : NodeId
  jobLimit : UInt64
  budget : Budget
  contexts : List Context
  /-- The context of each job. -/
  directory : SortedMap JobId ContextId
  /-- The fates of all offered sub-contexts, in the order of offering. -/
  fates : List Fate
  handles : SortedMap Holder ContextId
  /-- The search that each signal belongs to. -/
  signals : SortedMap Holder Nat
  /-- The searches that the script keeps. -/
  searches : SortedMap Holder Nat
  ledger : Ledger
  log : List Event
  agenda : List Task
  /-- The answer to the last command of the script. -/
  lastAnswer : Answer

namespace Node

/-- A node without contexts. -/
def start (name : NodeId) (capacity jobLimit : UInt64) : Node where
  name
  jobLimit
  budget := .ofCapacity capacity
  contexts := []
  directory := .empty
  fates := []
  handles := .empty
  signals := .empty
  searches := .empty
  ledger := .empty
  log := []
  agenda := []
  lastAnswer := .nothing

/-- Changes the context at a place. -/
def modifyContext (n : Node) (i : ContextId) (f : Context → Context) : Node :=
  { n with contexts := n.contexts.modify i f }

/-- Changes the fate of a sub-context. -/
def modifyFate (n : Node) (serial : Nat) (f : Fate → Fate) : Node :=
  { n with fates := n.fates.modify serial f }

/-- Counts something. -/
def count (n : Node) (f : Ledger → Ledger) : Node := { n with ledger := f n.ledger }

/-- Counts something for the node of a context. -/
def countFor (n : Node) (i : ContextId) (f : Ledger → NodeId → Ledger) : Node :=
  match n.contexts[i]? with
  | some c => n.count (f · c.node)
  | none => n

/-- Logs an event. -/
def record (n : Node) (e : Event) : Node := { n with log := n.log ++ [e] }

/-- Puts tasks before those that are still to be done. -/
def push (n : Node) (tasks : List Task) : Node := { n with agenda := tasks ++ n.agenda }

/-- The number of contexts in the directory. -/
def activeJobs (n : Node) : Nat := n.directory.size

/-- The context of a job in the directory. -/
def contextOf? (n : Node) (job : JobId) : Option ContextId := n.directory.get? job

/-- Whether a context is held by a script, by the directory or by a task. -/
def isHeld (n : Node) (i : ContextId) : Bool :=
  n.handles.values.contains i || n.directory.values.contains i || n.agenda.any (Task.uses i)

end Node

end ShardJoin.Job
