/-
Column types spelled out in messages and outlines: the name of the type, then
its parts in parentheses; a field with all its attributes in braces.
-/
import ShardJoin.DataType
import ShardJoin.Text.Quoted

namespace ShardJoin

def TimeUnit.spelling : TimeUnit → String
  | .second => "Second"
  | .millisecond => "Millisecond"
  | .microsecond => "Microsecond"
  | .nanosecond => "Nanosecond"

def IntervalUnit.spelling : IntervalUnit → String
  | .yearMonth => "YearMonth"
  | .dayTime => "DayTime"
  | .monthDayNano => "MonthDayNano"

def UnionMode.spelling : UnionMode → String
  | .sparse => "Sparse"
  | .dense => "Dense"

/-- The name of a scalar type, without its parts. -/
def ScalarType.name : ScalarType → String
  | .null => "Null"
  | .boolean => "Boolean"
  | .int8 => "Int8"
  | .int16 => "Int16"
  | .int32 => "Int32"
  | .int64 => "Int64"
  | .uint8 => "UInt8"
  | .uint16 => "UInt16"
  | .uint32 => "UInt32"
  | .uint64 => "UInt64"
  | .float16 => "Float16"
  | .float32 => "Float32"
  | .float64 => "Float64"
  | .date32 => "Date32"
  | .date64 => "Date64"
  | .binary => "Binary"
  | .largeBinary => "LargeBinary"
  | .binaryView => "BinaryView"
  | .utf8 => "Utf8"
  | .largeUtf8 => "LargeUtf8"
  | .utf8View => "Utf8View"
  | .timestamp .. => "Timestamp"
  | .time32 _ => "Time32"
  | .time64 _ => "Time64"
  | .duration _ => "Duration"
  | .interval _ => "Interval"
  | .fixedSizeBinary _ => "FixedSizeBinary"
  | .decimal128 .. => "Decimal128"
  | .decimal256 .. => "Decimal256"

/-- The parts of a scalar type, spelled out. -/
def ScalarType.parts : ScalarType → List String
  | .timestamp unit zone => [unit.spelling, Text.optional Text.quoted zone]
  | .time32 unit | .time64 unit | .duration unit => [unit.spelling]
  | .interval unit => [unit.spelling]
  | .fixedSizeBinary width => [toString width.toInt]
  | .decimal128 precision scale | .decimal256 precision scale =>
    [toString precision.toNat, toString scale.toInt]
  | _ => []

/-- A name followed by its parts in parentheses, if it has any. -/
def Text.applied (name : String) (parts : List String) : String :=
  if parts.isEmpty then name else name ++ "(" ++ Text.commaList parts ++ ")"

mutual
/-- A type in full. -/
def DataType.spelling : DataType → String
  | .scalar t => Text.applied t.name t.parts
  | .dictionary k v => Text.applied "Dictionary" [k.spelling, v.spelling]
  | .list f => Text.applied "List" [f.spelling]
  | .listView f => Text.applied "ListView" [f.spelling]
  | .largeList f => Text.applied "LargeList" [f.spelling]
  | .largeListView f => Text.applied "LargeListView" [f.spelling]
  | .fixedSizeList f n => Text.applied "FixedSizeList" [f.spelling, toString n.toInt]
  | .struct fs => Text.applied "Struct" [Text.bracketed (Field.spellings fs)]
  | .union ms mode =>
    Text.applied "Union" [Text.bracketed (UnionMember.spellings ms), mode.spelling]
  | .map f s => Text.applied "Map" [f.spelling, Text.ofBool s]
  | .runEndEncoded e v => Text.applied "RunEndEncoded" [e.spelling, v.spelling]

/-- A field with all its attributes. -/
def Field.spelling : Field → String
  | ⟨name, type, nullable, dictionaryId, dictionaryOrdered, metadata⟩ =>
    "Field \x7b name: " ++ Text.quoted name ++ ", data_type: " ++ type.spelling ++
      ", nullable: " ++ Text.ofBool nullable ++ ", dict_id: " ++ toString dictionaryId.toInt ++
      ", dict_is_ordered: " ++ Text.ofBool dictionaryOrdered ++
      ", metadata: " ++ Text.braced metadata.entries ++ " \x7d"

/-- The fields of a struct, each in full. -/
def Field.spellings : List Field → List String
  | [] => []
  | f :: fs => f.spelling :: Field.spellings fs

/-- A member of a union: its number and its field. -/
def UnionMember.spelling : UnionMember → String
  | ⟨id, f⟩ => "(" ++ Text.commaList [toString id.toInt, f.spelling] ++ ")"

/-- The members of a union, each in full. -/
def UnionMember.spellings : List UnionMember → List String
  | [] => []
  | m :: ms => m.spelling :: UnionMember.spellings ms
end

end ShardJoin
