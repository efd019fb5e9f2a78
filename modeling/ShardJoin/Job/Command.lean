/-
What is done to the job contexts of a node, and what is answered.

Commands name job contexts, shard searches and their signals by the names under
which a script holds them.  Closing a sub-context and finishing a job run
further commands, the hooks that were registered with the sub-context or as a
callback, before the command that caused them is answered.
-/
import ShardJoin.Fault

namespace ShardJoin.Job

/-- The life of a job context. -/
inductive Phase where
  | running
  | closed
  | killed
  deriving DecidableEq

namespace Phase

/-- Whether the context is finished. -/
def isFinished : Phase → Bool
  | .running => false
  | .closed | .killed => true

def name : Phase → String
  | .running => "open"
  | .closed => "closed"
  | .killed => "killed"

/-- The phase spelled out. -/
def spelling : Phase → String
  | .running => "Open"
  | .closed => "Closed"
  | .killed => "Killed"

end Phase

/-- A name under which a script holds a context, a search or a signal. -/
abbrev Holder := String

/-- A command, with the hooks that it registers. -/
inductive Command where
  /-- Takes the open context of a job, opened if there is none. -/
  | acquire (job : JobId) (holder : Holder)
  /-- Takes the context of a job, if there is one. -/
  | find (job : JobId) (holder : Option Holder)
  /-- Opens a context outside the directory. -/
  | start (job : JobId) (label : String) (limit : UInt64) (node : NodeId) (holder : Holder)
  | status (holder : Holder)
  /-- Registers a sub-context whose close runs commands and may fail. -/
  | add (holder : Holder) (id : SubContextId) (name : String) (fails : Bool)
      (onClose : List Command)
  /-- Opens a shard search and registers it, or keeps it in the script. -/
  | search (id : SubContextId) (index : String) (shard : UInt32) (signal : Holder)
      (holder : Option Holder)
  | closeSearch (search : Holder)
  | dropSearch (search : Holder)
  | signal (search : Holder)
  /-- Registers commands to run when the job is finished. -/
  | callback (holder : Holder) (tag : String) (steps : List Command)
  | charge (holder : Holder) (bytes : UInt64)
  | release (holder : Holder) (bytes : UInt64)
  | close (holder : Holder)
  | kill (holder : Holder)
  | closeJob (job : JobId)
  | killJob (job : JobId)
  | killAll
  | service
  | describe (holder : Holder)
  | drop (holder : Holder)
  /-- A step that is no command; it is only noticed when it is run. -/
  | unreadable (verb : Option String)

instance : Inhabited Command := ⟨.killAll⟩

/-- The verb by which a command is known. -/
def Command.verb : Command → Option String
  | .acquire .. => some "get_or_create"
  | .find .. => some "get"
  | .start .. => some "new"
  | .status _ => some "status"
  | .add .. => some "add"
  | .search .. => some "search"
  | .closeSearch _ => some "close_search"
  | .dropSearch _ => some "drop_search"
  | .signal _ => some "signal"
  | .callback .. => some "callback"
  | .charge .. => some "charge"
  | .release .. => some "release"
  | .close _ => some "close"
  | .kill _ => some "kill"
  | .closeJob _ => some "close_job"
  | .killJob _ => some "kill_job"
  | .killAll => some "kill_all"
  | .service => some "service"
  | .describe _ => some "debug"
  | .drop _ => some "drop"
  | .unreadable verb => verb

/-- A view of a context. -/
structure Status where
  job : JobId
  node : NodeId
  phase : Phase
  /-- The number of registered sub-contexts. -/
  contexts : Nat
  /-- The bytes held, or held when the job was finished. -/
  bytes : UInt64

/-- The answer to a command. -/
inductive Answer where
  | done
  | refused (cause : Fault)
  | flag (value : Bool)
  | number (value : Nat)
  | nothing
  | status (status : Status)
  /-- A context, and the names under which it was held before. -/
  | held (sameAs : List Holder) (status : Status)
  | searchOpened (name : String) (refusal : Option Fault)
  | signal (cancelled wakes : Bool)
  | service (node : NodeId) (active : Nat)
  | text (value : String)
  /-- The command names something that is not held, or is no command. -/
  | unreadable

/-- What happens while a command is carried out.  Sub-contexts are told apart by their place in
the order in which they were offered. -/
inductive Event where
  | closed (serial : Nat) (name : String)
  | called (tag : String) (cause : Option Fault) (bytes : UInt64)
  | nested (verb : Option String) (answer : Answer)

end ShardJoin.Job
