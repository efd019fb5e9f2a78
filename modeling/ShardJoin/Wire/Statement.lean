/-
Statements and their sources as JSON.
-/
import ShardJoin.Statement
import ShardJoin.Wire.Plan

namespace ShardJoin

open Wire

instance : Wire ColumnInfo where
  encode c := .obj [("name", encode c.name), ("data_type", encode c.type)]
  decode j := do return { name := ← required j "name", type := ← required j "data_type" }

instance : Wire TableInfo where
  encode t := .obj [("ident", encode t.name), ("columns", encode t.columns),
    ("partitioned_by", encode t.partitionedBy), ("primary_key", encode t.primaryKey)]
  decode j := do
    return {
      name := ← required j "ident"
      columns := ← required j "columns"
      partitionedBy := ← required j "partitioned_by"
      primaryKey := ← required j "primary_key" }

instance : Wire TableRelation where
  encode r := .obj [("name", encode r.name), ("table_info", encode r.table)]
  decode j := do return { name := ← required j "name", table := ← required j "table_info" }

instance : Wire SubQuery where
  encode q := .obj [("name", encode q.name), ("query_spec", encode q.select)]
  decode j := do return { name := ← required j "name", select := ← required j "query_spec" }

instance : Wire TableQuery where
  encode q := .obj [("table", encode q.table), ("query_spec", encode q.select),
    ("join_outputs", encode q.joinOutputs)]
  decode j := do
    return {
      table := ← required j "table"
      select := ← required j "query_spec"
      joinOutputs := ← required j "join_outputs" }

instance : Wire Source where
  encode
    | .table relation => .tagged "Table" (encode relation)
    | .subQuery query => .tagged "SubQuery" (encode query)
    | .queried query => .tagged "Queried" (encode query)
    | .planned plan => .tagged "Planned" (encode plan)
  decode
    | .obj [("Table", j)] => (decode j).map .table
    | .obj [("SubQuery", j)] => (decode j).map .subQuery
    | .obj [("Queried", j)] => (decode j).map .queried
    | .obj [("Planned", j)] => (decode j).map .planned
    | _ => none

instance : Wire Statement where
  encode s := .obj [("sources", encode s.sources), ("query_spec", encode s.select)]
  decode j := do
    return { sources := ← required j "sources", select := ← required j "query_spec" }

end ShardJoin
