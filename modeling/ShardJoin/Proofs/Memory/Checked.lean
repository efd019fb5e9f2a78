/-
Subtractions on the counters of a budget and its accounts.

The counters are words and subtraction on words wraps.  Each operation has a
checked form here that does the same but fails where a subtraction would go
below zero, so an operation is free of underflow exactly if its checked form
gives its result.
-/
import ShardJoin.Budget

namespace ShardJoin

/-- Subtraction of words that fails below zero. -/
def Word.sub? (a b : UInt64) : Option UInt64 := if b ≤ a then some (a - b) else none

theorem Word.sub?_of_le {a b : UInt64} (h : b ≤ a) : sub? a b = some (a - b) := if_pos h

theorem Word.toNat_sub_add {a b : UInt64} (h : b ≤ a) : (a - b).toNat + b.toNat = a.toNat := by
  rw [UInt64.toNat_sub_of_le _ _ h]
  rw [UInt64.le_iff_toNat_le] at h
  omega

theorem Word.le_saturatingAdd (a b : UInt64) : b ≤ saturatingAdd a b := by
  have := b.toNat_lt_size
  rw [UInt64.le_iff_toNat_le, toNat_saturatingAdd]
  omega

/-- An exact sum can be taken back. -/
theorem Word.saturatingAdd_sub {a b : UInt64} (h : a.toNat + b.toNat < UInt64.size) :
    saturatingAdd a b - b = a := by
  have hsum := toNat_saturatingAdd a b
  rw [← UInt64.toNat_inj, UInt64.toNat_sub_of_le _ _ (le_saturatingAdd a b)]
  omega

/-- Returns bytes that are in use. -/
def Budget.giveBack? (b : Budget) (bytes : UInt64) : Option Budget :=
  (Word.sub? b.inUse bytes).map fun inUse => { b with inUse }

theorem Budget.giveBack?_of_le {b : Budget} {bytes : UInt64} (h : bytes ≤ b.inUse) :
    b.giveBack? bytes = some (b.giveBack bytes) := by
  rw [giveBack?, Word.sub?_of_le h]
  rfl

namespace Account

/-- `charge` with checked subtraction. -/
def charge? (a : Account) (b : Budget) (bytes : UInt64) :
    Option (Except MemoryFault Unit × Account × Budget) :=
  if a.closed then some (.error (.accountClosed a.label), a, b)
  else
    let next := Word.saturatingAdd a.used bytes
    if a.limit < next then some (.error (.jobLimit a.label bytes a.limit a.used), a, b)
    else match b.reserve? bytes with
      | some b => some (.ok (), { a with used := next }, b)
      | none => (Word.sub? next bytes).map fun used =>
        (.error (.nodeBudget a.label bytes), { a with used }, b)

/-- `release` with checked subtractions. -/
def release? (a : Account) (b : Budget) (bytes : UInt64) : Option (Account × Budget) := do
  let released := if bytes ≤ a.used then bytes else a.used
  let used ← Word.sub? a.used released
  let b ← b.giveBack? released
  return ({ a with used }, b)

/-- `close` with checked subtraction. -/
def close? (a : Account) (b : Budget) : Option (Account × Budget) :=
  if a.closed then some (a, b)
  else (b.giveBack? a.used).map fun b => ({ a with used := 0, closed := true }, b)

/-- Taking a charge off again never goes below zero. -/
theorem charge?_eq (a : Account) (b : Budget) (bytes : UInt64) :
    a.charge? b bytes = some (a.charge b bytes) := by
  unfold charge? charge
  split
  · rfl
  · dsimp only
    split
    · rfl
    · cases b.reserve? bytes with
      | some b => rfl
      | none => rw [Word.sub?_of_le (Word.le_saturatingAdd a.used bytes)]; rfl

/-- What is given back was held. -/
theorem released_le (a : Account) (bytes : UInt64) :
    (if bytes ≤ a.used then bytes else a.used) ≤ a.used := by
  split
  · assumption
  · exact UInt64.le_refl _

theorem release?_eq {a : Account} {b : Budget} (h : a.used ≤ b.inUse) (bytes : UInt64) :
    a.release? b bytes = some (a.release b bytes) := by
  have hheld := released_le a bytes
  simp only [release?, release, Word.sub?_of_le hheld,
    Budget.giveBack?_of_le (UInt64.le_trans hheld h), Option.bind_eq_bind, Option.bind_some,
    Option.pure_def]

theorem close?_eq {a : Account} {b : Budget} (h : a.used ≤ b.inUse) :
    a.close? b = some (a.close b) := by
  unfold close? close
  split
  · rfl
  · rw [Budget.giveBack?_of_le h]; rfl

end Account

end ShardJoin
