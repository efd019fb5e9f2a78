/-
Clauses of a select as JSON.
-/
import ShardJoin.Select
import ShardJoin.Wire.Expr

namespace ShardJoin

open Wire

instance : Wire DocKeys where
  encode k := .obj [("keys", encode k.keys)]
  decode j := do return { keys := ← required j "keys" }

instance : Wire WhereClause where
  encode w := .obj [("query", encode w.query), ("no_match", encode w.noMatch),
    ("doc_keys", encode w.docKeys)]
  decode j := do
    return {
      query := ← optional j "query"
      noMatch := ← required j "no_match"
      docKeys := ← optional j "doc_keys" }

instance : Wire OrderBy where
  encode o := .obj [("symbols", encode o.keys), ("reverse_flags", encode o.descending),
    ("nulls_first", encode o.nullsFirst)]
  decode j := do
    return {
      keys := ← required j "symbols"
      descending := ← required j "reverse_flags"
      nullsFirst := ← required j "nulls_first" }

instance : Wire Select where
  encode s := .obj [("outputs", encode s.outputs), ("where_clause", encode s.whereClause),
    ("group_by", encode s.groupBy), ("order_by", encode s.orderBy), ("limit", encode s.limit),
    ("offset", encode s.offset)]
  decode j := do
    return {
      outputs := ← required j "outputs"
      whereClause := ← required j "where_clause"
      groupBy := ← required j "group_by"
      orderBy := ← optional j "order_by"
      limit := ← optional j "limit"
      offset := ← required j "offset" }

end ShardJoin
