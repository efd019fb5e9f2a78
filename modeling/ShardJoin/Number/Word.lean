/-
64-bit words as counts and sizes: addition that stops at the largest word, and
the decimal texts that stand for a word.

A word is written as an optional plus sign and one or more decimal digits
whose value is below `2 ^ 64`; leading zeros are allowed.
-/

namespace ShardJoin.Word

/-- The largest word. -/
def max : UInt64 := 0xffffffffffffffff

/-- Addition that stops at the largest word. -/
def saturatingAdd (a b : UInt64) : UInt64 :=
  if a.toNat + b.toNat < UInt64.size then a + b else max

theorem toNat_saturatingAdd (a b : UInt64) :
    (saturatingAdd a b).toNat = min (a.toNat + b.toNat) (UInt64.size - 1) := by
  unfold saturatingAdd
  have ha := a.toNat_lt_size
  have hb := b.toNat_lt_size
  split
  case isTrue h =>
    rw [UInt64.toNat_add, Nat.mod_eq_of_lt h]
    omega
  case isFalse h =>
    have : max.toNat = UInt64.size - 1 := rfl
    omega

/-- The value of a digit character. -/
def digit? (c : Char) : Option Nat :=
  if '0' ≤ c ∧ c ≤ '9' then some (c.toNat - '0'.toNat) else none

/-- The value of a sequence of digits that continues a number. -/
def readDigits? (value : Nat) : List Char → Option Nat
  | [] => some value
  | c :: cs => (digit? c).bind fun d => readDigits? (10 * value + d) cs

/-- The number that a non-empty sequence of digits stands for. -/
def readNat? : List Char → Option Nat
  | [] => none
  | c :: cs => readDigits? 0 (c :: cs)

/-- The word that a text stands for. -/
def read? (cs : List Char) : Option UInt64 :=
  let digits := match cs with
    | '+' :: rest => rest
    | _ => cs
  (readNat? digits).bind fun n => if n < UInt64.size then some (.ofNat n) else none

end ShardJoin.Word
