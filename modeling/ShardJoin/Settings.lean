/-
Settings of the engine and of its planner.

Settings start from defaults and are overridden by texts, each of which has to
stand for a word once the white space around it is dropped.  A select limit or
a page size of zero is refused.
-/
import ShardJoin.Fault
import ShardJoin.Number.Word
import ShardJoin.Text.Blank

namespace ShardJoin

/-- What the planner needs to know: the limit of statements that name none, and the number of
rows per fetch request. -/
structure PlannerSettings where
  selectLimit : UInt64
  pageSize : UInt64
  deriving DecidableEq

/-- The settings of the engine. -/
structure Settings where
  /-- The limit of statements that name none. -/
  selectLimit : UInt64
  /-- Rows per fetch request. -/
  pageSize : UInt64
  /-- Bytes that all jobs of a node may hold together. -/
  nodeBudget : UInt64
  /-- Bytes that one job may hold on a node. -/
  jobLimit : UInt64
  deriving DecidableEq

namespace Settings

/-- The settings without overrides. -/
def standard : Settings where
  selectLimit := 10000
  pageSize := 10000
  nodeBudget := 536870912
  jobLimit := 67108864

/-- The settings of the planner. -/
def planner (s : Settings) : PlannerSettings := ⟨s.selectLimit, s.pageSize⟩

/-- Refuses a limit or a page size of zero. -/
def validate (s : Settings) : Except SettingFault Unit :=
  if s.selectLimit = 0 then .error .zeroSelectLimit
  else if s.pageSize = 0 then .error .zeroPageSize
  else .ok ()

/-- The names under which overrides are looked up. -/
inductive Key where
  | selectLimit
  | pageSize
  | nodeBudget
  | jobLimit
  deriving DecidableEq

def Key.name : Key → String
  | .selectLimit => "NLQ_DEFAULT_SELECT_LIMIT"
  | .pageSize => "NLQ_FETCH_PAGE_SIZE"
  | .nodeBudget => "NLQ_NODE_MEMORY_BUDGET_BYTES"
  | .jobLimit => "NLQ_JOB_MEMORY_LIMIT_BYTES"

/-- The override of a key, or the given value without one. -/
def readKey (lookup : String → Option String) (key : Key) (default : UInt64) :
    Except SettingFault UInt64 :=
  match lookup key.name with
  | none => .ok default
  | some raw =>
    match Word.read? (Text.trimmed raw.toList) with
    | some n => .ok n
    | none => .error (.notANumber key.name raw)

/-- The standard settings with the overrides that a look-up gives. -/
def ofLookup (lookup : String → Option String) : Except SettingFault Settings := do
  let selectLimit ← readKey lookup .selectLimit standard.selectLimit
  let pageSize ← readKey lookup .pageSize standard.pageSize
  let nodeBudget ← readKey lookup .nodeBudget standard.nodeBudget
  let jobLimit ← readKey lookup .jobLimit standard.jobLimit
  let settings : Settings := ⟨selectLimit, pageSize, nodeBudget, jobLimit⟩
  settings.validate
  return settings

end Settings

/-- The planner's share of the standard settings. -/
def PlannerSettings.standard : PlannerSettings := Settings.standard.planner

end ShardJoin
