/-
Values as JSON: the form of numbers, texts, lists, pairs and maps.

A type with a JSON form says how a value is written and which JSON values are
read back.  Numbers are read if they lie in the range of their type, an absent
value is `null`, a pair is an array of two, and a map is an object with one
member per entry.
-/
import ShardJoin.Ident
import ShardJoin.Json
import ShardJoin.Number.Binary64
import ShardJoin.Number.Word
import ShardJoin.SortedMap

namespace ShardJoin

/-- Types whose values have a JSON form. -/
class Wire (α : Type) where
  encode : α → Json
  decode : Json → Option α

namespace Wire

/-! ### Numbers and texts -/

/-- An integer of a closed range. -/
def intIn (low high : Int) : Json → Option Int
  | .int n => if low ≤ n ∧ n ≤ high then some n else none
  | _ => none

instance : Wire Bool where
  encode := .bool
  decode
    | .bool b => some b
    | _ => none

instance : Wire String where
  encode := .str
  decode
    | .str s => some s
    | _ => none

instance : Wire UInt8 where
  encode n := .int n.toNat
  decode j := (intIn 0 (UInt8.size - 1) j).map fun n => .ofNat n.toNat

instance : Wire UInt32 where
  encode n := .int n.toNat
  decode j := (intIn 0 (UInt32.size - 1) j).map fun n => .ofNat n.toNat

instance : Wire UInt64 where
  encode n := .int n.toNat
  decode j := (intIn 0 (UInt64.size - 1) j).map fun n => .ofNat n.toNat

instance : Wire Int8 where
  encode n := .int n.toInt
  decode j := (intIn Int8.minValue.toInt Int8.maxValue.toInt j).map .ofInt

instance : Wire Int32 where
  encode n := .int n.toInt
  decode j := (intIn Int32.minValue.toInt Int32.maxValue.toInt j).map .ofInt

instance : Wire Int64 where
  encode n := .int n.toInt
  decode j := (intIn Int64.minValue.toInt Int64.maxValue.toInt j).map .ofInt

/-- Positions are shipped as 64-bit words. -/
instance : Wire Nat where
  encode n := .int n
  decode j := (intIn 0 (UInt64.size - 1) j).map Int.toNat

/-- Ids are shipped as signed 32-bit words. -/
instance : Wire Int where
  encode := .int
  decode := intIn Int32.minValue.toInt Int32.maxValue.toInt

/-! ### Doubles -/

/-- The digits of a word in base 16, most significant first. -/
def hexDigits (width n : Nat) : List Char :=
  (List.range width).map fun i => Nat.digitChar (n >>> (4 * (width - 1 - i)) % 16)

/-- The value of a digit in base 16. -/
def hexDigit? (c : Char) : Option Nat :=
  if '0' ≤ c ∧ c ≤ '9' then some (c.toNat - '0'.toNat)
  else if 'a' ≤ c ∧ c ≤ 'f' then some (c.toNat - 'a'.toNat + 10)
  else none

/-- The number that digits in base 16 continue. -/
def readHex? (value : Nat) : List Char → Option Nat
  | [] => some value
  | c :: cs => (hexDigit? c).bind fun d => readHex? (16 * value + d) cs

/-- Doubles are shipped as the 16 digits of their bits. -/
instance : Wire Binary64 where
  encode x := .str (String.ofList (hexDigits 16 x.bits.toNat))
  decode
    | .str s =>
      if s.toList.length = 16 then (readHex? 0 s.toList).map fun n => ⟨.ofNat n⟩ else none
    | _ => none

/-! ### Options, lists and pairs -/

instance {α : Type} [Wire α] : Wire (Option α) where
  encode
    | none => .null
    | some a => encode a
  decode
    | .null => some none
    | j => (decode j).map some

/-- Reads every item of a list. -/
def decodeAll {α : Type} [Wire α] : List Json → Option (List α)
  | [] => some []
  | j :: js => do return (← decode j) :: (← decodeAll js)

instance {α : Type} [Wire α] : Wire (List α) where
  encode l := .arr (l.map encode)
  decode
    | .arr items => decodeAll items
    | _ => none

instance {α β : Type} [Wire α] [Wire β] : Wire (α × β) where
  encode p := .arr [encode p.1, encode p.2]
  decode
    | .arr [a, b] => do return (← decode a, ← decode b)
    | _ => none

/-! ### Maps -/

/-- Keys of maps, written as texts. -/
class Key (κ : Type) where
  text : κ → String
  ofText? : String → Option κ

instance : Key String where
  text s := s
  ofText? := some

/-- The number of a text in decimal notation without superfluous characters. -/
def intOfText? (s : String) : Option Int :=
  let n? := match s.toList with
    | '-' :: rest => (Word.readNat? rest).map fun n => -(n : Int)
    | cs => (Word.readNat? cs).map fun n => (n : Int)
  n?.filter fun n => toString n == s

instance : Key Int where
  text n := toString n
  ofText? s := (intOfText? s).bind fun n => intIn Int32.minValue.toInt Int32.maxValue.toInt (.int n)

/-- Reads the members of an object as entries. -/
def decodeEntries {κ ν : Type} [Key κ] [Wire ν] :
    List (String × Json) → Option (List (κ × ν))
  | [] => some []
  | (k, j) :: rest => do
    return (← Key.ofText? k, ← decode j) :: (← decodeEntries rest)

instance {κ ν : Type} [Ord κ] [Std.TransOrd κ] [Std.LawfulEqOrd κ] [Key κ] [Wire ν] :
    Wire (SortedMap κ ν) where
  encode m := .obj (m.entries.map fun e => (Key.text e.1, encode e.2))
  decode
    | .obj members => (decodeEntries members).map SortedMap.ofList
    | _ => none

/-! ### Objects -/

/-- A member that has to be there. -/
def required {α : Type} [Wire α] (j : Json) (name : String) : Option α :=
  (j.field? name).bind decode

/-- A member that may be missing or `null`. -/
def optional {α : Type} [Wire α] (j : Json) (name : String) : Option (Option α) :=
  match j.field? name with
  | none => some none
  | some v => decode v

end Wire

end ShardJoin
