/-
Why an operation is refused.

Every fault is a cause with the data that explains it; its wording is in one
function per kind.  A cause that some other component states in its own words
(a catalog, a cluster, a relation planner) is kept as text.
-/
import ShardJoin.DataType.Spelling
import ShardJoin.Ident

namespace ShardJoin

/-- Unusable settings. -/
inductive SettingFault where
  | notANumber (key raw : String)
  | zeroSelectLimit
  | zeroPageSize
  | stated (text : String)

def SettingFault.message : SettingFault → String
  | .notANumber key raw => key ++ " must be a number, got '" ++ raw ++ "'"
  | .zeroSelectLimit => "default_select_limit must be > 0"
  | .zeroPageSize => "fetch_page_size must be > 0"
  | .stated text => text

/-- A statement of a shape that the chosen planner does not support. -/
inductive StatementFault where
  | groupBy
  | aggregates
  | subQueries
  | stated (text : String)

def StatementFault.message : StatementFault → String
  | .groupBy => "GROUP BY on CROSS JOIN is not supported"
  | .aggregates => "AGGREGATIONS on CROSS JOIN is not supported"
  | .subQueries => "CROSS JOIN with sub queries is not supported"
  | .stated text => text

/-- A merge stage whose projections do not fit together. -/
inductive MergeFault where
  | fetchNotLast
  | missingColumn (projection : String) (index width : Nat)
  | columnType (projection : String) (expected : DataType) (index : Nat) (found : DataType)

def MergeFault.message : MergeFault → String
  | .fetchNotLast => "Fetch must be the last projection"
  | .missingColumn projection index width =>
    projection ++ " reads input column " ++ toString index ++ " of a " ++ toString width ++
      "-column row"
  | .columnType projection expected index found =>
    projection ++ " expects " ++ expected.spelling ++ " at input column " ++ toString index ++
      ", found " ++ found.spelling

/-- Stages that do not form a graph. -/
inductive RouteFault where
  | sharedId (stage : StageId)
  | unknownTarget (stage target : StageId)
  | wrongNodes (stage : StageId) (sent : List NodeId) (target : StageId) (runs : List NodeId)

def RouteFault.message : RouteFault → String
  | .sharedId stage => "execution node id " ++ toString stage ++ " is used by more than one stage"
  | .unknownTarget stage target =>
    "stage " ++ toString stage ++ " routes to unknown stage " ++ toString target
  | .wrongNodes stage sent target runs =>
    "stage " ++ toString stage ++ " sends rows to " ++ nodeList sent ++ " but stage " ++
      toString target ++ " runs on " ++ nodeList runs
where
  /-- A list of nodes, spelled out. -/
  nodeList (nodes : List NodeId) : String :=
    Text.bracketed (nodes.map fun n => Text.applied "NodeId" [Text.quoted n])

/-- What a joined row is needed for. -/
inductive JoinUse where
  | condition
  | orderBy

def JoinUse.name : JoinUse → String
  | .condition => "join condition"
  | .orderBy => "order by"

/-- A plan that cannot be built or does not fit together. -/
inductive PlanFault where
  | unknownTable (table : TableName)
  | noRouting (table : TableName)
  | unknownColumn (column : String) (table : TableName)
  | sortFlags (keys directions nullPlacements : Nat)
  | missingSortKey
  | subQuerySource (relation : RelationName)
  | notCollected (use : JoinUse) (relation : RelationName) (column : String)
  | noOutputs (relation : RelationName)
  | reshaped (relation : RelationName)
  | noSources
  | singleSource
  | noDocId (relation : RelationName) (docId column : String)
  | noCollectStage (relation : RelationName)
  | merge (stage : String) (fault : MergeFault)
  | route (fault : RouteFault)
  | stated (text : String)

def PlanFault.message : PlanFault → String
  | .unknownTable table => "unknown table " ++ table.text
  | .noRouting table => "no routing for table " ++ table.text
  | .unknownColumn column table =>
    "column '" ++ column ++ "' does not exist in table " ++ table.text
  | .sortFlags keys directions nullPlacements =>
    "order by has " ++ toString keys ++ " symbols but " ++ toString directions ++
      " directions and " ++ toString nullPlacements ++ " null placements"
  | .missingSortKey => "order by has no such key"
  | .subQuerySource relation => "source " ++ relation ++ " is a sub query and cannot be split"
  | .notCollected use relation column =>
    use.name ++ " uses " ++ relation ++ "." ++ column ++ " which no relation plan collected"
  | .noOutputs relation => "plan of relation " ++ relation ++ " has no output symbols"
  | .reshaped relation =>
    "plan of relation " ++ relation ++ " changes its row shape in its merge stage"
  | .noSources => "cross join without sources"
  | .singleSource => "cross join needs at least two planned sources"
  | .noDocId relation docId column =>
    "relation " ++ relation ++ " must collect " ++ docId ++ " to fetch " ++ column
  | .noCollectStage relation =>
    "relation " ++ relation ++ " has no collect stage to fetch from"
  | .merge stage fault => "merge stage " ++ stage ++ ": " ++ fault.message
  | .route fault => fault.message
  | .stated text => text

/-- Memory that is not granted. -/
inductive MemoryFault where
  | accountClosed (label : String)
  | jobLimit (label : String) (bytes limit inUse : UInt64)
  | nodeBudget (label : String) (bytes : UInt64)
  | stated (text : String)

def MemoryFault.message : MemoryFault → String
  | .accountClosed label => "[" ++ label ++ "] accounting context is closed"
  | .jobLimit label bytes limit inUse =>
    "[" ++ label ++ "] charging " ++ toString bytes.toNat ++
      " bytes would exceed job limit of " ++ toString limit.toNat ++ " bytes (" ++
      toString inUse.toNat ++ " in use)"
  | .nodeBudget label bytes =>
    "[" ++ label ++ "] node memory budget exhausted while charging " ++ toString bytes.toNat ++
      " bytes"
  | .stated text => text

/-- Why a job was cancelled. -/
inductive CancelCause where
  | killed (job : JobId) (node : NodeId)
  | stated (text : String)

def CancelCause.message : CancelCause → String
  | .killed job node => "job " ++ toString job.toNat ++ " was killed on node " ++ node
  | .stated text => text

/-- Why an operation is refused. -/
inductive Fault where
  | setting (cause : SettingFault)
  | statement (cause : StatementFault)
  | planning (cause : PlanFault)
  | execution (text : String)
  | duplicateContext (job : JobId) (context : SubContextId)
  | contextClosed (job : JobId)
  | cancelled (cause : CancelCause)
  | memory (cause : MemoryFault)
  | io (text : String)
  | unsupported (text : String)

namespace Fault

/-- The text shown to a user. -/
def message : Fault → String
  | .setting cause => "invalid configuration: " ++ cause.message
  | .statement cause => cause.message
  | .planning cause => "planning error: " ++ cause.message
  | .execution text => "execution error: " ++ text
  | .duplicateContext job context =>
    "job " ++ toString job.toNat ++ ": sub-context " ++ toString context ++
      " is already registered"
  | .contextClosed job => "job " ++ toString job.toNat ++ ": collect context is already closed"
  | .cancelled cause => "cancelled: " ++ cause.message
  | .memory cause => "circuit breaking: " ++ cause.message
  | .io text => "io error: " ++ text
  | .unsupported text => "unsupported: " ++ text

/-- Whether the fault only says that the job was cancelled. -/
def isCancellation : Fault → Bool
  | .cancelled _ => true
  | _ => false

end Fault

end ShardJoin
