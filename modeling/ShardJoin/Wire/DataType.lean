/-
Column types as JSON: a type without parts is its name, any other an object
with its name as the only member.
-/
import ShardJoin.DataType.Spelling
import ShardJoin.Wire.Basic

namespace ShardJoin

instance : Wire TimeUnit where
  encode u := .str u.spelling
  decode
    | .str "Second" => some .second
    | .str "Millisecond" => some .millisecond
    | .str "Microsecond" => some .microsecond
    | .str "Nanosecond" => some .nanosecond
    | _ => none

instance : Wire IntervalUnit where
  encode u := .str u.spelling
  decode
    | .str "YearMonth" => some .yearMonth
    | .str "DayTime" => some .dayTime
    | .str "MonthDayNano" => some .monthDayNano
    | _ => none

instance : Wire UnionMode where
  encode mode := .str mode.spelling
  decode
    | .str "Sparse" => some .sparse
    | .str "Dense" => some .dense
    | _ => none

namespace ScalarType

/-- The scalar types without parts. -/
def plain : List ScalarType :=
  [.null, .boolean, .int8, .int16, .int32, .int64, .uint8, .uint16, .uint32, .uint64, .float16,
    .float32, .float64, .date32, .date64, .binary, .largeBinary, .binaryView, .utf8, .largeUtf8,
    .utf8View]

/-- The scalar type without parts that has a name. -/
def ofName? (name : String) : Option ScalarType := plain.find? (·.name == name)

/-- The parts of a scalar type, if it has any. -/
def payload? : ScalarType → Option Json
  | .timestamp unit zone => some (.arr [Wire.encode unit, Wire.encode zone])
  | .time32 unit | .time64 unit | .duration unit => some (Wire.encode unit)
  | .interval unit => some (Wire.encode unit)
  | .fixedSizeBinary width => some (Wire.encode width)
  | .decimal128 precision scale | .decimal256 precision scale =>
    some (.arr [Wire.encode precision, Wire.encode scale])
  | _ => none

/-- The scalar type with a name and parts. -/
def ofPayload? (name : String) (payload : Json) : Option ScalarType :=
  match name with
  | "Timestamp" => do
    let (unit, zone) ← (Wire.decode payload : Option (TimeUnit × Option String))
    return .timestamp unit zone
  | "Time32" => (Wire.decode payload).map .time32
  | "Time64" => (Wire.decode payload).map .time64
  | "Duration" => (Wire.decode payload).map .duration
  | "Interval" => (Wire.decode payload).map .interval
  | "FixedSizeBinary" => (Wire.decode payload).map .fixedSizeBinary
  | "Decimal128" => do
    let (precision, scale) ← (Wire.decode payload : Option (UInt8 × Int8))
    return .decimal128 precision scale
  | "Decimal256" => do
    let (precision, scale) ← (Wire.decode payload : Option (UInt8 × Int8))
    return .decimal256 precision scale
  | _ => none

def encode (t : ScalarType) : Json :=
  match t.payload? with
  | some payload => .tagged t.name payload
  | none => .str t.name

end ScalarType

mutual
def DataType.encode : DataType → Json
  | .scalar t => t.encode
  | .dictionary k v => .tagged "Dictionary" (.arr [k.encode, v.encode])
  | .list f => .tagged "List" f.encode
  | .listView f => .tagged "ListView" f.encode
  | .largeList f => .tagged "LargeList" f.encode
  | .largeListView f => .tagged "LargeListView" f.encode
  | .fixedSizeList f n => .tagged "FixedSizeList" (.arr [f.encode, Wire.encode n])
  | .struct fs => .tagged "Struct" (.arr (Field.encodeAll fs))
  | .union ms mode =>
    .tagged "Union" (.arr [.arr (UnionMember.encodeAll ms), Wire.encode mode])
  | .map f s => .tagged "Map" (.arr [f.encode, Wire.encode s])
  | .runEndEncoded e v => .tagged "RunEndEncoded" (.arr [e.encode, v.encode])

def Field.encode : Field → Json
  | ⟨name, type, nullable, dictionaryId, dictionaryOrdered, metadata⟩ =>
    .obj [("name", Wire.encode name), ("data_type", type.encode),
      ("nullable", Wire.encode nullable), ("dict_id", Wire.encode dictionaryId),
      ("dict_is_ordered", Wire.encode dictionaryOrdered), ("metadata", Wire.encode metadata)]

def Field.encodeAll : List Field → List Json
  | [] => []
  | f :: fs => f.encode :: Field.encodeAll fs

def UnionMember.encode : UnionMember → Json
  | ⟨id, f⟩ => .arr [Wire.encode id, f.encode]

def UnionMember.encodeAll : List UnionMember → List Json
  | [] => []
  | m :: ms => m.encode :: UnionMember.encodeAll ms
end

mutual
def DataType.decode (j : Json) : Option DataType :=
  match j with
  | .str name => (ScalarType.ofName? name).map .scalar
  | .obj [("Dictionary", .arr [k, v])] => do
    return .dictionary (← DataType.decode k) (← DataType.decode v)
  | .obj [("List", f)] => (Field.decode f).map .list
  | .obj [("ListView", f)] => (Field.decode f).map .listView
  | .obj [("LargeList", f)] => (Field.decode f).map .largeList
  | .obj [("LargeListView", f)] => (Field.decode f).map .largeListView
  | .obj [("FixedSizeList", .arr [f, n])] => do
    return .fixedSizeList (← Field.decode f) (← Wire.decode n)
  | .obj [("Struct", .arr fs)] => (Field.decodeAll fs).map .struct
  | .obj [("Union", .arr [.arr ms, mode])] => do
    return .union (← UnionMember.decodeAll ms) (← Wire.decode mode)
  | .obj [("Map", .arr [f, s])] => do return .map (← Field.decode f) (← Wire.decode s)
  | .obj [("RunEndEncoded", .arr [e, v])] => do
    return .runEndEncoded (← Field.decode e) (← Field.decode v)
  | .obj [(name, payload)] => (ScalarType.ofPayload? name payload).map .scalar
  | _ => none
termination_by sizeOf j

def Field.decode (j : Json) : Option Field :=
  match j with
  | .obj members => do
    let ⟨type, _⟩ ← Json.member? "data_type" members
    return {
      name := ← Wire.required j "name"
      type := ← DataType.decode type
      nullable := ← Wire.required j "nullable"
      dictionaryId := ← Wire.required j "dict_id"
      dictionaryOrdered := ← Wire.required j "dict_is_ordered"
      metadata := ← Wire.required j "metadata" }
  | _ => none
termination_by sizeOf j

def Field.decodeAll (js : List Json) : Option (List Field) :=
  match js with
  | [] => some []
  | j :: js => do return (← Field.decode j) :: (← Field.decodeAll js)
termination_by sizeOf js

def UnionMember.decode (j : Json) : Option UnionMember :=
  match j with
  | .arr [id, f] => do return ⟨← Wire.decode id, ← Field.decode f⟩
  | _ => none
termination_by sizeOf j

def UnionMember.decodeAll (js : List Json) : Option (List UnionMember) :=
  match js with
  | [] => some []
  | j :: js => do return (← UnionMember.decode j) :: (← UnionMember.decodeAll js)
termination_by sizeOf js
end

instance : Wire DataType := ⟨DataType.encode, DataType.decode⟩

end ShardJoin
