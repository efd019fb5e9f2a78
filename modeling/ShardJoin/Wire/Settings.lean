/-
Settings as JSON.
-/
import ShardJoin.Settings
import ShardJoin.Wire.Basic

namespace ShardJoin

open Wire

instance : Wire Settings where
  encode s := .obj [("default_select_limit", encode s.selectLimit),
    ("fetch_page_size", encode s.pageSize), ("node_memory_budget_bytes", encode s.nodeBudget),
    ("job_memory_limit_bytes", encode s.jobLimit)]
  decode j := do
    return {
      selectLimit := ← required j "default_select_limit"
      pageSize := ← required j "fetch_page_size"
      nodeBudget := ← required j "node_memory_budget_bytes"
      jobLimit := ← required j "job_memory_limit_bytes" }

instance : Wire PlannerSettings where
  encode s := .obj [("default_select_limit", encode s.selectLimit),
    ("fetch_page_size", encode s.pageSize)]
  decode j := do
    return {
      selectLimit := ← required j "default_select_limit"
      pageSize := ← required j "fetch_page_size" }

end ShardJoin
