/-
Memory of a node and of its jobs.

A node has a budget; every job charges its bytes both to an account with a
limit of its own and to the budget.  Closing an account gives back all that it
still holds, and a closed account refuses charges.  All counters are 64-bit
words: a budget of the largest word is not checked, its counter wraps; a sum
that is compared with a limit stops at the largest word.
-/
import ShardJoin.Fault
import ShardJoin.Number.Word

namespace ShardJoin

/-- The bytes that all jobs of a node may hold together, and those they hold. -/
structure Budget where
  capacity : UInt64
  inUse : UInt64
  deriving DecidableEq

namespace Budget

/-- A budget of which nothing is in use. -/
def ofCapacity (capacity : UInt64) : Budget := ⟨capacity, 0⟩

/-- Whether the budget is not checked. -/
def isUnlimited (b : Budget) : Bool := b.capacity == Word.max

/-- Takes bytes from the budget, if it has them. -/
def reserve? (b : Budget) (bytes : UInt64) : Option Budget :=
  if b.isUnlimited then some { b with inUse := b.inUse + bytes }
  else
    let next := Word.saturatingAdd b.inUse bytes
    if b.capacity < next then none else some { b with inUse := next }

/-- Returns bytes to the budget. -/
def giveBack (b : Budget) (bytes : UInt64) : Budget := { b with inUse := b.inUse - bytes }

end Budget

/-- The bytes that one job holds on a node. -/
structure Account where
  label : String
  limit : UInt64
  used : UInt64
  closed : Bool
  deriving DecidableEq

namespace Account

/-- An account that holds nothing. -/
def start (label : String) (limit : UInt64) : Account := ⟨label, limit, 0, false⟩

/-- Charges bytes to the account and to the budget.  The account is charged first; if the budget
has not enough, the bytes are taken off again. -/
def charge (a : Account) (b : Budget) (bytes : UInt64) :
    Except MemoryFault Unit × Account × Budget :=
  if a.closed then (.error (.accountClosed a.label), a, b)
  else
    let next := Word.saturatingAdd a.used bytes
    if a.limit < next then (.error (.jobLimit a.label bytes a.limit a.used), a, b)
    else match b.reserve? bytes with
      | some b => (.ok (), { a with used := next }, b)
      | none => (.error (.nodeBudget a.label bytes), { a with used := next - bytes }, b)

/-- Gives bytes back, at most those that the account holds. -/
def release (a : Account) (b : Budget) (bytes : UInt64) : Account × Budget :=
  let released := if bytes ≤ a.used then bytes else a.used
  ({ a with used := a.used - released }, b.giveBack released)

/-- Gives everything back and refuses further charges. -/
def close (a : Account) (b : Budget) : Account × Budget :=
  if a.closed then (a, b) else ({ a with used := 0, closed := true }, b.giveBack a.used)

end Account

/-- The accounts that share a budget, by the name of their holder. -/
structure Pool where
  budget : Budget
  accounts : SortedMap String Account

namespace Pool

/-- A pool without accounts. -/
def ofCapacity (capacity : UInt64) : Pool := ⟨.ofCapacity capacity, .empty⟩

/-- What a holder does. -/
inductive Step where
  | start (label : String) (limit : UInt64)
  | charge (bytes : UInt64)
  | release (bytes : UInt64)
  | close
  | drop

/-- Closes the account of a holder that gives it up. -/
def giveUp (p : Pool) (holder : String) : Pool :=
  match p.accounts.get? holder with
  | some a => { p with budget := (a.close p.budget).2 }
  | none => p

/-- Stores an account and a budget. -/
def store (p : Pool) (holder : String) (state : Account × Budget) : Pool where
  budget := state.2
  accounts := p.accounts.insert holder state.1

/-- Takes a step of a holder; nothing happens if it needs an account that is not there.  A holder
that starts a new account gives up the old one. -/
def step? (p : Pool) (holder : String) : Step → Option (Except MemoryFault Unit × Pool)
  | .start label limit =>
    let p := p.giveUp holder
    some (.ok (), { p with accounts := p.accounts.insert holder (.start label limit) })
  | .charge bytes => do
    let a ← p.accounts.get? holder
    let (result, state) := a.charge p.budget bytes
    return (result, p.store holder state)
  | .release bytes => do
    let a ← p.accounts.get? holder
    return (.ok (), p.store holder (a.release p.budget bytes))
  | .close => do
    let a ← p.accounts.get? holder
    return (.ok (), p.store holder (a.close p.budget))
  | .drop => do
    let _ ← p.accounts.get? holder
    let p := p.giveUp holder
    return (.ok (), { p with accounts := p.accounts.erase holder })

end Pool

end ShardJoin
