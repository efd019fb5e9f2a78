/-
Expressions as JSON.  Float literals are shipped by their bits, so every
literal comes back as it was.
-/
import ShardJoin.Expr
import ShardJoin.Wire.DataType

namespace ShardJoin

open Wire

instance : Wire TableName where
  encode t := .obj [("schema", encode t.schema), ("name", encode t.name)]
  decode j := do return { schema := ← required j "schema", name := ← required j "name" }

instance : Wire ColumnRef where
  encode r := .obj [("relation", encode r.relation), ("table", encode r.table),
    ("column", encode r.column), ("value_type", encode r.type),
    ("partitioned", encode r.partitioned)]
  decode j := do
    return {
      relation := ← required j "relation"
      table := ← required j "table"
      column := ← required j "column"
      type := ← required j "value_type"
      partitioned := ← required j "partitioned" }

instance : Wire FunctionKind where
  encode
    | .scalar => .str "Scalar"
    | .operator => .str "Operator"
    | .aggregate => .str "Aggregate"
  decode
    | .str "Scalar" => some .scalar
    | .str "Operator" => some .operator
    | .str "Aggregate" => some .aggregate
    | _ => none

instance : Wire FunctionInfo where
  encode f := .obj [("name", encode f.name), ("kind", encode f.kind),
    ("return_type", encode f.returnType)]
  decode j := do
    return {
      name := ← required j "name"
      kind := ← required j "kind"
      returnType := ← required j "return_type" }

instance : Wire InputColumn where
  encode c := .obj [("index", encode c.index), ("value_type", encode c.type)]
  decode j := do return { index := ← required j "index", type := ← required j "value_type" }

instance : Wire Value where
  encode
    | .int64 n => .tagged "Int64" (encode n)
    | .float64 x => .tagged "Float64" (encode x)
    | .utf8 s => .tagged "Utf8" (encode s)
    | .boolean b => .tagged "Boolean" (encode b)
    | .null => .str "Null"
  decode
    | .obj [("Int64", j)] => (decode j).map .int64
    | .obj [("Float64", j)] => (decode j).map .float64
    | .obj [("Utf8", j)] => (decode j).map .utf8
    | .obj [("Boolean", j)] => (decode j).map .boolean
    | .str "Null" => some .null
    | _ => none

mutual
def Expr.encode : Expr → Json
  | .column r => .tagged "Reference" (Wire.encode r)
  | .call fn args => .tagged "Function"
      (.obj [("info", Wire.encode fn), ("arguments", .arr (Expr.encodeAll args))])
  | .literal v t => .tagged "Literal"
      (.obj [("value", Wire.encode v), ("value_type", Wire.encode t)])
  | .input c => .tagged "InputColumn" (Wire.encode c)

def Expr.encodeAll : List Expr → List Json
  | [] => []
  | e :: es => e.encode :: Expr.encodeAll es
end

mutual
def Expr.decode (j : Json) : Option Expr :=
  match j with
  | .obj [("Reference", r)] => (Wire.decode r).map .column
  | .obj [("Function", .obj members)] => do
    let ⟨args, _⟩ ← Json.items? "arguments" members
    return .call (← required (.obj members) "info") (← Expr.decodeAll args)
  | .obj [("Literal", j)] => do
    return .literal (← required j "value") (← required j "value_type")
  | .obj [("InputColumn", c)] => (Wire.decode c).map .input
  | _ => none
termination_by sizeOf j

def Expr.decodeAll (js : List Json) : Option (List Expr) :=
  match js with
  | [] => some []
  | j :: js => do return (← Expr.decode j) :: (← Expr.decodeAll js)
termination_by sizeOf js
end

instance : Wire Expr := ⟨Expr.encode, Expr.decode⟩

end ShardJoin
