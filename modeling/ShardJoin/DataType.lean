/-
Column types.

A type without component types is a `ScalarType`; the others carry fields or
key and value types.  Two types are the same (`DataType.same`) when they agree
in everything but the dictionary bookkeeping of their fields: a dictionary id
and its ordering say how a column is encoded, not what it holds.
-/
import ShardJoin.SortedMap

namespace ShardJoin

/-- The unit of a time or timestamp column. -/
inductive TimeUnit where
  | second
  | millisecond
  | microsecond
  | nanosecond
  deriving DecidableEq

/-- The fields of an interval column. -/
inductive IntervalUnit where
  | yearMonth
  | dayTime
  | monthDayNano
  deriving DecidableEq

/-- How the values of a union are laid out. -/
inductive UnionMode where
  | sparse
  | dense
  deriving DecidableEq

/-- A type without component types. -/
inductive ScalarType where
  | null
  | boolean
  | int8
  | int16
  | int32
  | int64
  | uint8
  | uint16
  | uint32
  | uint64
  | float16
  | float32
  | float64
  | date32
  | date64
  | binary
  | largeBinary
  | binaryView
  | utf8
  | largeUtf8
  | utf8View
  | timestamp (unit : TimeUnit) (zone : Option String)
  | time32 (unit : TimeUnit)
  | time64 (unit : TimeUnit)
  | duration (unit : TimeUnit)
  | interval (unit : IntervalUnit)
  | fixedSizeBinary (width : Int32)
  | decimal128 (precision : UInt8) (scale : Int8)
  | decimal256 (precision : UInt8) (scale : Int8)
  deriving DecidableEq

mutual
/-- The type of a column. -/
inductive DataType where
  | scalar (type : ScalarType)
  | dictionary (key value : DataType)
  | list (item : Field)
  | listView (item : Field)
  | largeList (item : Field)
  | largeListView (item : Field)
  | fixedSizeList (item : Field) (length : Int32)
  | struct (fields : List Field)
  | union (members : List UnionMember) (mode : UnionMode)
  | map (entries : Field) (keysSorted : Bool)
  | runEndEncoded (runEnds values : Field)

/-- A named component of a type. -/
structure Field where
  name : String
  type : DataType
  nullable : Bool
  dictionaryId : Int64
  dictionaryOrdered : Bool
  metadata : SortedMap String String

/-- One of the types of a union, with the number that stands for it in the data. -/
structure UnionMember where
  id : Int8
  field : Field
end

namespace DataType

/-- The type that only holds nulls. -/
@[match_pattern] abbrev null : DataType := .scalar .null

/-- Truth values. -/
@[match_pattern] abbrev boolean : DataType := .scalar .boolean

/-- Signed 64-bit integers. -/
@[match_pattern] abbrev int64 : DataType := .scalar .int64

/-- Texts. -/
@[match_pattern] abbrev utf8 : DataType := .scalar .utf8

instance : Inhabited DataType := ⟨.null⟩

end DataType

mutual
/-- Agreement of two types up to dictionary bookkeeping. -/
def DataType.same : DataType → DataType → Bool
  | .scalar a, .scalar b => a == b
  | .dictionary k v, .dictionary k' v' => k.same k' && v.same v'
  | .list f, .list g => f.same g
  | .listView f, .listView g => f.same g
  | .largeList f, .largeList g => f.same g
  | .largeListView f, .largeListView g => f.same g
  | .fixedSizeList f n, .fixedSizeList g m => f.same g && n == m
  | .struct fs, .struct gs => Field.sameAll fs gs
  | .union ms a, .union ns b => UnionMember.sameAll ms ns && a == b
  | .map f s, .map g t => f.same g && s == t
  | .runEndEncoded e v, .runEndEncoded e' v' => e.same e' && v.same v'
  | _, _ => false
termination_by structural t => t

/-- Agreement of two fields up to dictionary bookkeeping. -/
def Field.same : Field → Field → Bool
  | ⟨n, t, o, _, _, m⟩, ⟨n', t', o', _, _, m'⟩ => n == n' && t.same t' && o == o' && m == m'
termination_by structural f => f

/-- Agreement of two field lists, field by field. -/
def Field.sameAll : List Field → List Field → Bool
  | [], [] => true
  | f :: fs, g :: gs => f.same g && Field.sameAll fs gs
  | _, _ => false
termination_by structural fs => fs

/-- Agreement of two members of unions. -/
def UnionMember.same : UnionMember → UnionMember → Bool
  | ⟨id, f⟩, ⟨id', g⟩ => id == id' && f.same g
termination_by structural m => m

/-- Agreement of the members of two unions, one by one. -/
def UnionMember.sameAll : List UnionMember → List UnionMember → Bool
  | [], [] => true
  | m :: ms, n :: ns => m.same n && UnionMember.sameAll ms ns
  | _, _ => false
termination_by structural ms => ms
end

instance : BEq DataType := ⟨DataType.same⟩

mutual
theorem DataType.same_self : ∀ t : DataType, t.same t = true
  | .scalar _ => by simp [DataType.same]
  | .dictionary k v => by simp [DataType.same, k.same_self, v.same_self]
  | .list f => by simp [DataType.same, f.same_self]
  | .listView f => by simp [DataType.same, f.same_self]
  | .largeList f => by simp [DataType.same, f.same_self]
  | .largeListView f => by simp [DataType.same, f.same_self]
  | .fixedSizeList f _ => by simp [DataType.same, f.same_self]
  | .struct fs => by simp [DataType.same, Field.sameAll_self fs]
  | .union ms _ => by simp [DataType.same, UnionMember.sameAll_self ms]
  | .map f _ => by simp [DataType.same, f.same_self]
  | .runEndEncoded e v => by simp [DataType.same, e.same_self, v.same_self]

theorem Field.same_self : ∀ f : Field, f.same f = true
  | ⟨_, t, _, _, _, _⟩ => by simp [Field.same, t.same_self]

theorem Field.sameAll_self : ∀ fs : List Field, Field.sameAll fs fs = true
  | [] => by simp [Field.sameAll]
  | f :: fs => by simp [Field.sameAll, f.same_self, Field.sameAll_self fs]

theorem UnionMember.same_self : ∀ m : UnionMember, m.same m = true
  | ⟨_, f⟩ => by simp [UnionMember.same, f.same_self]

theorem UnionMember.sameAll_self : ∀ ms : List UnionMember, UnionMember.sameAll ms ms = true
  | [] => by simp [UnionMember.sameAll]
  | m :: ms => by simp [UnionMember.sameAll, m.same_self, UnionMember.sameAll_self ms]
end

instance : ReflBEq DataType := ⟨DataType.same_self _⟩

end ShardJoin
