/-
The decimal text of a double: the fewest digits that read back, written
positionally and never with an exponent.

A finite double stands for all reals that round to it, an interval around its
value.  Going down the powers of ten, the first grid that has a point in that
interval gives the shortest decimal, and the two grid points next to the value
are the only candidates.  Of two candidates the nearer is taken, and the upper
one if they are equally near.
-/
import ShardJoin.Number.Binary64

namespace ShardJoin

/-- A finite double as `significand * 2 ^ exponent`, with the interval of the reals that round
to it.  All bounds are in quarters of the last place. -/
structure Rounding where
  value : Nat
  low : Nat
  high : Nat
  exponent : Int
  closed : Bool

namespace Rounding

/-- The interval of a finite double of the given magnitude.  Above a power of two the lower
neighbour is half as far away; the ends belong to the interval iff the significand is even. -/
def ofMagnitude (magnitude : Nat) : Rounding :=
  let e : Nat := magnitude / Binary64.exponentUnit
  let fraction : Nat := magnitude % Binary64.exponentUnit
  let m := if e = 0 then fraction else Binary64.exponentUnit + fraction
  { value := 4 * m
    low := if fraction = 0 ∧ 1 < e then 4 * m - 1 else 4 * m - 2
    high := 4 * m + 2
    exponent := (if e = 0 then -1074 else (e : Int) - 1075) - 2
    closed := m % 2 = 0 }

/-- Numerator of `2 ^ exponent / 10 ^ place`. -/
def scaleNum (r : Rounding) (place : Int) : Nat := Nat.pow 10 (-place).toNat <<< r.exponent.toNat

/-- Denominator of `2 ^ exponent / 10 ^ place`. -/
def scaleDen (r : Rounding) (place : Int) : Nat := Nat.pow 10 place.toNat <<< (-r.exponent).toNat

/-- Whether `digits * 10 ^ place` lies in the interval. -/
def contains (r : Rounding) (digits : Nat) (place : Int) : Bool :=
  let d := digits * r.scaleDen place
  let low := r.low * r.scaleNum place
  let high := r.high * r.scaleNum place
  if r.closed then low ≤ d && d ≤ high else low < d && d < high

/-- The grid point of the interval at a power of ten, the nearer of two, if there is one. -/
def gridPoint? (r : Rounding) (place : Int) : Option Nat :=
  let num := r.value * r.scaleNum place
  let den := r.scaleDen place
  let below := num / den
  match r.contains below place, r.contains (below + 1) place with
  | true, true => some (if den ≤ 2 * (num % den) then below + 1 else below)
  | true, false => some below
  | false, true => some (below + 1)
  | false, false => none

/-- The first grid with a point in the interval, going down from a power of ten. -/
def search (r : Rounding) (place : Int) : Nat → Nat × Int
  | 0 => (0, 0)
  | steps + 1 =>
    match r.gridPoint? place with
    | some digits => (digits, place)
    | none => r.search (place - 1) steps

/-- The shortest decimal of the interval, as digits and a power of ten.  Every interval has a
point on one of the grids from `10 ^ 309` down to `10 ^ (-343)`. -/
def shortest (r : Rounding) : Nat × Int := r.search 309 653

end Rounding

namespace Decimal

/-- Drops factors of ten while the power of ten is negative. -/
def trimZeros (digits : Nat) (place : Int) : Nat → Nat × Int
  | 0 => (digits, place)
  | steps + 1 =>
    if place < 0 ∧ digits % 10 = 0 then trimZeros (digits / 10) (place + 1) steps
    else (digits, place)

/-- `digits * 10 ^ place` without an exponent. -/
def positional (digits : Nat) (place : Int) : String :=
  let (digits, place) := trimZeros digits place (-place).toNat
  let ds := Nat.toDigits 10 digits
  if 0 ≤ place then String.ofList (ds ++ List.replicate place.toNat '0')
  else
    let places := (-place).toNat
    let ds := List.replicate (places + 1 - ds.length) '0' ++ ds
    String.ofList (ds.take (ds.length - places)) ++ "." ++
      String.ofList (ds.drop (ds.length - places))

end Decimal

/-- The decimal text of a double. -/
def Binary64.text (x : Binary64) : String :=
  if x.isNaN then "NaN"
  else
    let sign := if x.isNegative then "-" else ""
    if x.isInfinite then sign ++ "inf"
    else if x.isZero then sign ++ "0"
    else
      let (digits, place) := (Rounding.ofMagnitude x.magnitude).shortest
      sign ++ Decimal.positional digits place

end ShardJoin
