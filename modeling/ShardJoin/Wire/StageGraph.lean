/-
Stage graphs as JSON.
-/
import ShardJoin.StageGraph
import ShardJoin.Wire.Plan

namespace ShardJoin

open Wire

instance : Wire StageKind where
  encode
    | .collect => .str "Collect"
    | .merge => .str "Merge"
  decode
    | .str "Collect" => some .collect
    | .str "Merge" => some .merge
    | _ => none

instance : Wire StageNode where
  encode s := .obj [("id", encode s.id), ("kind", encode s.kind), ("name", encode s.name),
    ("nodes", encode s.nodes), ("operators", encode s.operators), ("parents", encode s.parents),
    ("children", encode s.children), ("downstream", encode s.downstream)]
  decode j := do
    return {
      id := ← required j "id"
      kind := ← required j "kind"
      name := ← required j "name"
      nodes := ← required j "nodes"
      operators := ← required j "operators"
      parents := ← required j "parents"
      children := ← required j "children"
      downstream := ← required j "downstream" }

instance : Wire StageGraph where
  encode g := .obj [("stages", encode g.stages)]
  decode j := do return { stages := ← required j "stages" }

end ShardJoin
