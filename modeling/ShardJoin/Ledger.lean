/-
Counters of what planners and job contexts do, and their text exposition.

A series is a family with a value for each of its labels.  The ledger keeps
what was added to which series.  By what the series of a family are told apart
is a parameter of all that reads it, a key of their label values: series with
the same key are counted together, under the values that came first.  A series
appears when it is first counted and stays, also at zero.  The text lists the
families by name, each with its help and type, and the series of a family by
their label values, labels being ordered by name.
-/
import ShardJoin.Text.Fingerprint

namespace ShardJoin

/-- A counted quantity. -/
inductive Family where
  | contextsActive
  | contextsFinished
  | contextsOpened
  | plannerNotApplicable
  | plansBuilt
  | subContextCloseFailures
  | subContextDuplicates
  | subContextsRegistered
  deriving DecidableEq

namespace Family

/-- All families, by name. -/
def all : List Family :=
  [.contextsActive, .contextsFinished, .contextsOpened, .plannerNotApplicable, .plansBuilt,
    .subContextCloseFailures, .subContextDuplicates, .subContextsRegistered]

def name : Family → String
  | .contextsActive => "nlq_job_contexts_active"
  | .contextsFinished => "nlq_job_contexts_finished_total"
  | .contextsOpened => "nlq_job_contexts_opened_total"
  | .plannerNotApplicable => "nlq_planner_not_applicable_total"
  | .plansBuilt => "nlq_plans_built_total"
  | .subContextCloseFailures => "nlq_sub_context_close_failures_total"
  | .subContextDuplicates => "nlq_sub_context_duplicates_total"
  | .subContextsRegistered => "nlq_sub_contexts_registered_total"

def help : Family → String
  | .contextsActive => "Job collect contexts currently open"
  | .contextsFinished => "Job collect contexts torn down"
  | .contextsOpened => "Job collect contexts created"
  | .plannerNotApplicable => "Planner invocations that deferred to another strategy"
  | .plansBuilt => "Physical plans produced per planner and root plan kind"
  | .subContextCloseFailures => "Sub-contexts whose close failed during teardown"
  | .subContextDuplicates => "Rejected duplicate sub-context registrations"
  | .subContextsRegistered => "Sub-contexts registered with job collect contexts"

/-- A gauge goes up and down, a counter only up. -/
def kind : Family → String
  | .contextsActive => "gauge"
  | _ => "counter"

/-- The labels of a family. -/
def labels : Family → List String
  | .plannerNotApplicable => ["planner"]
  | .plansBuilt => ["planner", "kind"]
  | .contextsFinished => ["node_id", "outcome"]
  | .contextsActive | .contextsOpened | .subContextCloseFailures | .subContextDuplicates
  | .subContextsRegistered => ["node_id"]

end Family

/-- A family with a value for each of its labels, in their order. -/
structure Series where
  family : Family
  values : List String
  deriving DecidableEq

namespace Series

/-- Whether two series are the same to a key. -/
def alike {κ : Type} [DecidableEq κ] (key : List String → κ) (s t : Series) : Bool :=
  s.family == t.family && key s.values == key t.values

/-- The labels of a series with their values, by name. -/
def labelled (s : Series) : List (String × String) :=
  (s.family.labels.zip s.values).mergeSort fun a b => (compare a.1 b.1).isLE

/-- A character of a label value. -/
def escapeChar (c : Char) : String :=
  if c = '\\' then "\\\\" else if c = '"' then "\\\"" else if c = '\n' then "\\n" else c.toString

/-- A label with its value. -/
def renderLabel (name value : String) : String :=
  name ++ "=\"" ++ String.join (value.toList.map escapeChar) ++ "\""

/-- The name of a series. -/
def render (s : Series) : String :=
  s.family.name ++ "\x7b" ++
    ",".intercalate (s.labelled.map fun (n, v) => renderLabel n v) ++ "\x7d"

end Series

/-- What was added to which series, in order. -/
structure Ledger where
  changes : List (Series × Int)
  deriving DecidableEq

namespace Ledger

/-- The ledger in which nothing is counted. -/
def empty : Ledger := ⟨[]⟩

instance : Inhabited Ledger := ⟨empty⟩

/-- Adds to the count of a series. -/
def add (l : Ledger) (s : Series) (n : Int) : Ledger := ⟨l.changes ++ [(s, n)]⟩

/-! ### Events -/

/-- A planner built a plan of a kind. -/
def planBuilt (l : Ledger) (planner kind : String) : Ledger :=
  l.add ⟨.plansBuilt, [planner, kind]⟩ 1

/-- A planner left a statement to another one. -/
def notApplicable (l : Ledger) (planner : String) : Ledger :=
  l.add ⟨.plannerNotApplicable, [planner]⟩ 1

/-- A job context was opened on a node. -/
def contextOpened (l : Ledger) (node : String) : Ledger :=
  (l.add ⟨.contextsOpened, [node]⟩ 1).add ⟨.contextsActive, [node]⟩ 1

/-- A job context of a node was torn down. -/
def contextFinished (l : Ledger) (node outcome : String) : Ledger :=
  (l.add ⟨.contextsFinished, [node, outcome]⟩ 1).add ⟨.contextsActive, [node]⟩ (-1)

/-- A sub-context was registered on a node. -/
def subContextRegistered (l : Ledger) (node : String) : Ledger :=
  l.add ⟨.subContextsRegistered, [node]⟩ 1

/-- A sub-context was refused because its id was taken. -/
def subContextDuplicate (l : Ledger) (node : String) : Ledger :=
  l.add ⟨.subContextDuplicates, [node]⟩ 1

/-- Closing a sub-context failed. -/
def closeFailed (l : Ledger) (node : String) : Ledger := l.add ⟨.subContextCloseFailures, [node]⟩ 1

/-! ### Counts -/

/-- What the changes of some series amount to. -/
def total (p : Series → Bool) : List (Series × Int) → Int
  | [] => 0
  | (s, n) :: rest => (if p s then n else 0) + total p rest

theorem total_append (p : Series → Bool) (changes changes' : List (Series × Int)) :
    total p (changes ++ changes') = total p changes + total p changes' := by
  induction changes with
  | nil => simp [total]
  | cons e changes ih => rw [List.cons_append, total, total, ih, Int.add_assoc]

section Counts

variable {κ : Type} [DecidableEq κ] (key : List String → κ)

/-- The count of a series, and of those with the same key. -/
def count (l : Ledger) (s : Series) : Int := total (s.alike key) l.changes

/-- Adds to the first count of a series, or starts one. -/
def addEntry (s : Series) (n : Int) : List (Series × Int) → List (Series × Int)
  | [] => [(s, n)]
  | (t, m) :: rest => if t.alike key s then (t, m + n) :: rest else (t, m) :: addEntry s n rest

/-- The count of every series, under the label values that came first. -/
def countsBy (l : Ledger) : List (Series × Int) :=
  l.changes.foldl (fun counts e => addEntry key e.1 e.2 counts) []

/-! ### Text -/

/-- The series of a family with their counts, by label values. -/
def ofFamily (l : Ledger) (f : Family) : List (Series × Int) :=
  ((l.countsBy key).filter (·.1.family = f)).mergeSort fun a b =>
    (compare (a.1.labelled.map (·.2)) (b.1.labelled.map (·.2))).isLE

/-- The lines of a family, if it has series. -/
def renderFamily (l : Ledger) (f : Family) : String :=
  match l.ofFamily key f with
  | [] => ""
  | series =>
    "# HELP " ++ f.name ++ " " ++ f.help ++ "\n# TYPE " ++ f.name ++ " " ++ f.kind ++ "\n" ++
      String.join (series.map fun (s, n) => s.render ++ " " ++ toString n ++ "\n")

/-- The text exposition of all counts. -/
def renderBy (l : Ledger) : String := String.join (Family.all.map (l.renderFamily key))

end Counts

/-! ### With a fixed key

What is proved holds of every key; to be run, the ledger needs one. -/

/-- The fingerprint of label values, written one after the other. -/
def fingerprint (values : List String) : UInt64 := Text.fingerprint (String.join values)

/-- The count of every series that fingerprints tell apart. -/
def counts (l : Ledger) : List (Series × Int) := l.countsBy fingerprint

/-- The text exposition of these counts. -/
def render (l : Ledger) : String := l.renderBy fingerprint

end Ledger

end ShardJoin
