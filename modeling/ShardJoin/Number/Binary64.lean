/-
Double precision numbers by their bits.

A double is its 64-bit word, so identity of doubles is decidable and a NaN is
a value like any other.  The numeric order is read off the word: below the
sign bit, exponent and fraction order the magnitudes, and the sign turns the
order round (`rank`).  The two zeros share the rank 0; NaNs compare with
nothing, not even with themselves.

* `compare?_eq_none_iff` — a comparison fails exactly at a NaN;
* `same_iff` — two doubles are equal as numbers iff neither is a NaN and
  their ranks agree.
-/

namespace ShardJoin

/-- A double precision number, given by its bits. -/
structure Binary64 where
  bits : UInt64
  deriving DecidableEq, Inhabited

namespace Binary64

/-- The place value of the sign bit, `2 ^ 63`. -/
def signUnit : Nat := 0x8000000000000000

/-- The place value of the lowest bit of the exponent, `2 ^ 52`. -/
def exponentUnit : Nat := 0x10000000000000

/-- Whether the sign bit is set. -/
def isNegative (x : Binary64) : Bool := signUnit ≤ x.bits.toNat

/-- The word without its sign bit: exponent, then fraction. -/
def magnitude (x : Binary64) : Nat := x.bits.toNat % signUnit

/-- The magnitude of the two infinities. -/
def infiniteMagnitude : Nat := 0x7ff * exponentUnit

/-- Whether the word stands for no number. -/
def isNaN (x : Binary64) : Bool := infiniteMagnitude < x.magnitude

/-- Whether the double is one of the two infinities. -/
def isInfinite (x : Binary64) : Bool := x.magnitude = infiniteMagnitude

/-- Whether the double is one of the two zeros. -/
def isZero (x : Binary64) : Bool := x.magnitude = 0

/-- The place of a double in the numeric order; both zeros have place 0. -/
def rank (x : Binary64) : Int :=
  if x.isNegative then -(x.magnitude : Int) else x.magnitude

/-- Numeric comparison, undefined at a NaN. -/
def compare? (x y : Binary64) : Option Ordering :=
  if x.isNaN || y.isNaN then none else some (compare x.rank y.rank)

/-- Equality as numbers. -/
def same (x y : Binary64) : Bool := x.compare? y == some .eq

theorem compare?_eq_none_iff {x y : Binary64} :
    x.compare? y = none ↔ x.isNaN = true ∨ y.isNaN = true := by
  unfold compare?
  split <;> simp_all

theorem same_iff {x y : Binary64} :
    x.same y = true ↔ x.isNaN = false ∧ y.isNaN = false ∧ x.rank = y.rank := by
  unfold same compare?
  cases hx : x.isNaN <;> cases hy : y.isNaN <;> simp

/-- The significand of the double nearest to `n`, for `2 ^ e ≤ n < 2 ^ (e + 1)`: `n` itself with
zeros appended, or its leading 53 bits rounded to nearest, a half going to the even neighbour. -/
def significand (n e : Nat) : Nat :=
  if e ≤ 52 then n <<< (52 - e)
  else
    let unit := 1 <<< (e - 52)
    let low := n / unit
    let rest := n % unit
    if unit < 2 * rest ∨ (unit = 2 * rest ∧ low % 2 = 1) then low + 1 else low

/-- The magnitude of the double nearest to a natural number.  A significand that rounds up to
`2 ^ 53` carries into the exponent by itself. -/
def magnitudeOfNat (n : Nat) : Nat :=
  if n = 0 then 0
  else (n.log2 + 1023) * exponentUnit + (significand n n.log2 - exponentUnit)

/-- The double nearest to an integer. -/
def ofInt (n : Int) : Binary64 :=
  if n < 0 then ⟨.ofNat (signUnit + magnitudeOfNat n.natAbs)⟩
  else ⟨.ofNat (magnitudeOfNat n.natAbs)⟩

end Binary64

end ShardJoin
