import ShardJoin.Job.Settle
import ShardJoin.Plan.Outline
import ShardJoin.Planning.CrossJoin
import ShardJoin.Planning.Strategy
import ShardJoin.Proofs.Expr.Conjunction
import ShardJoin.Proofs.Job.Books
import ShardJoin.Proofs.Job.Callbacks
import ShardJoin.Proofs.Job.Directory
import ShardJoin.Proofs.Job.ExactlyOnce
import ShardJoin.Proofs.Job.Lookup
import ShardJoin.Proofs.Job.NodeBudget
import ShardJoin.Proofs.Memory.Refusal
import ShardJoin.Proofs.Plan.Columns
import ShardJoin.Proofs.Plan.Positions
import ShardJoin.Proofs.Plan.Soundness
import ShardJoin.Proofs.Planning.Collecting
import ShardJoin.Proofs.Planning.Columns
import ShardJoin.Proofs.Planning.ExactFetch
import ShardJoin.Proofs.Planning.Feeding
import ShardJoin.Proofs.Planning.Limit
import ShardJoin.Proofs.Planning.Meaning
import ShardJoin.Proofs.Planning.Predicate
import ShardJoin.Proofs.Planning.RowOrder
import ShardJoin.Proofs.Planning.Stages
import ShardJoin.Proofs.Planning.Supply
import ShardJoin.Proofs.Planning.TwoSteps
import ShardJoin.Proofs.Planning.Typing
import ShardJoin.Proofs.StageGraph.Assignments
import ShardJoin.Proofs.StageGraph.Links
import ShardJoin.Proofs.StageGraph.Order
import ShardJoin.Proofs.Wire.Shipping
import ShardJoin.StageGraph
import ShardJoin.Wire.Settings
import ShardJoin.Wire.StageGraph
import ShardJoin.Wire.Statement
import ShardJoin.Proofs.Expr.NormalForm
import ShardJoin.Proofs.Expr.Constants
import ShardJoin.Proofs.Planning.ConstantConjuncts
import ShardJoin.Proofs.Planning.JoinOrder
import ShardJoin.Proofs.Expr.Coverage
import ShardJoin.Proofs.Planning.Allocation
import ShardJoin.Proofs.Planning.Aggregates
import ShardJoin.Proofs.Job.Agreement
import ShardJoin.Proofs.Planning.Parts
import ShardJoin.Proofs.Settings
