/-
The stages that each node is to run.

There are two ways to ask for them: `StageGraph.stagesOn` picks the stages that
name a node out of the list, `StageGraph.assignments` deals every stage out to
the nodes that it names.  Both list the same stages in the same order, but a
stage that names a node twice is dealt out to it twice.

* `StageGraph.assigned_eq` — how often a node is assigned a stage;
* `StageGraph.assigned_eq_stagesOn_iff` — when the two lists are equal;
* `StageGraph.dealsOut_ofPlan` — both facts for the graph of a plan, where only
  a merge stage can name a node twice;
* `StageGraph.not_agree_mergedTwice` — a merge stage that does.
-/
import Mathlib.Data.List.Dedup
import ShardJoin.Proofs.StageGraph.Order

namespace ShardJoin

theorem SortedMap.get?_update {κ ν : Type} [Ord κ] [Std.TransOrd κ] [Std.LawfulEqOrd κ]
    [DecidableEq κ] (m : SortedMap κ ν) (k k' : κ) (f : Option ν → ν) :
    (m.update k f).get? k' = if k' = k then some (f (m.get? k)) else m.get? k' :=
  get?_insert ..

namespace StageGraph

/-- The stages that a node is assigned, none if it has no entry. -/
def assigned (g : StageGraph) (node : NodeId) : List StageId := (g.assignments.get? node).getD []

/-! ### Dealing stages out -/

/-- A stage is dealt out to a node as often as it names the node. -/
theorem getD_deal (map : SortedMap NodeId (List StageId)) (id : StageId) (nodes : List NodeId)
    (node : NodeId) :
    ((nodes.foldl (fun map node => map.update node fun ids => ids.getD [] ++ [id]) map).get?
        node).getD [] = (map.get? node).getD [] ++ List.replicate (nodes.count node) id := by
  induction nodes generalizing map with
  | nil => simp
  | cons first rest ih =>
    rw [List.foldl_cons, ih, SortedMap.get?_update]
    by_cases h : node = first
    · subst h
      rw [if_pos rfl, List.count_cons_self, Option.getD_some, List.append_assoc,
        List.replicate_succ]
      rfl
    · rw [if_neg h, List.count_cons_of_ne (Ne.symm h)]

theorem getD_dealAll (map : SortedMap NodeId (List StageId)) (stages : List StageNode)
    (node : NodeId) :
    ((stages.foldl (fun map s =>
        s.nodes.foldl (fun map node => map.update node fun ids => ids.getD [] ++ [s.id]) map)
        map).get? node).getD [] = (map.get? node).getD [] ++
      stages.flatMap fun s => List.replicate (s.nodes.count node) s.id := by
  induction stages generalizing map with
  | nil => simp
  | cons s rest ih => rw [List.foldl_cons, ih, getD_deal, List.append_assoc, List.flatMap_cons]

/-- A node is assigned the stages in their order, each as often as it names the node. -/
theorem assigned_eq (g : StageGraph) (node : NodeId) :
    g.assigned node = g.stages.flatMap fun s => List.replicate (s.nodes.count node) s.id :=
  getD_dealAll .empty g.stages node

/-! ### Comparing the two lists -/

theorem stagesOn_eq (g : StageGraph) (node : NodeId) : g.stagesOn node =
    g.stages.flatMap fun s => List.replicate (min 1 (s.nodes.count node)) s.id := by
  rw [stagesOn]
  induction g.stages with
  | nil => rfl
  | cons s rest ih =>
    rw [List.flatMap_cons, List.filter_cons]
    by_cases h : node ∈ s.nodes
    · have hcount : min 1 (s.nodes.count node) = 1 := Nat.min_eq_left (List.count_pos_iff.2 h)
      rw [if_pos (List.contains_iff_mem.2 h), List.map_cons, ih, hcount]
      rfl
    · rw [if_neg (mt List.contains_iff_mem.1 h), ih, List.count_eq_zero.2 h]
      rfl

/-- A node is assigned all stages that name it, and some perhaps again. -/
theorem sublist_dealt (stages : List StageNode) (node : NodeId) :
    (stages.flatMap fun s => List.replicate (min 1 (s.nodes.count node)) s.id).Sublist
      (stages.flatMap fun s => List.replicate (s.nodes.count node) s.id) := by
  induction stages with
  | nil => exact .slnil
  | cons s rest ih =>
    rw [List.flatMap_cons, List.flatMap_cons]
    exact ((List.replicate_sublist_replicate s.id).2 (Nat.min_le_right ..)).append ih

/-- A node is assigned every stage once exactly if no stage names it twice. -/
theorem assigned_eq_stagesOn_iff (g : StageGraph) (node : NodeId) :
    g.assigned node = g.stagesOn node ↔ ∀ s ∈ g.stages, s.nodes.count node ≤ 1 := by
  rw [assigned_eq, stagesOn_eq]
  induction g.stages with
  | nil => simp
  | cons s rest ih =>
    rw [List.flatMap_cons, List.flatMap_cons, List.forall_mem_cons, ← ih]
    constructor
    · intro h
      -- the second list is never the longer one, neither for this stage nor for the others
      have hshort := (sublist_dealt rest node).length_le
      have hlength := congrArg List.length h
      rw [List.length_append, List.length_append, List.length_replicate,
        List.length_replicate] at hlength
      have hcount : s.nodes.count node ≤ 1 := by omega
      rw [Nat.min_eq_right hcount] at h
      exact ⟨hcount, List.append_cancel_left h⟩
    · rintro ⟨hcount, hrest⟩
      rw [Nat.min_eq_right hcount, hrest]

theorem dedup_replicate_append {α : Type} [DecidableEq α] {a : α} {l : List α} (h : a ∉ l)
    (n : Nat) : (List.replicate (n + 1) a ++ l).dedup = a :: l.dedup := by
  induction n with
  | zero => exact List.dedup_cons_of_notMem h
  | succ n ih =>
    rw [List.replicate_succ, List.cons_append, List.dedup_cons_of_mem (by simp), ih]

/-- Without repetitions, the stages that a node is assigned are those that name it. -/
theorem dedup_assigned {g : StageGraph} (hids : (g.stages.map (·.id)).Nodup) (node : NodeId) :
    (g.assigned node).dedup = g.stagesOn node := by
  rw [assigned_eq, stagesOn_eq]
  induction hstages : g.stages generalizing g with
  | nil => rfl
  | cons s rest ih =>
    rw [hstages, List.map_cons] at hids
    obtain ⟨hnew, hrest⟩ := List.nodup_cons.1 hids
    rw [List.flatMap_cons, List.flatMap_cons, ← ih (g := ⟨rest⟩) hrest rfl]
    cases hcount : s.nodes.count node with
    | zero => rfl
    | succ n =>
      rw [dedup_replicate_append, Nat.min_eq_left (Nat.succ_le_succ n.zero_le)]
      · rfl
      · intro hmem
        obtain ⟨t, ht, hid⟩ := List.mem_flatMap.1 hmem
        exact hnew (List.eq_of_mem_replicate hid ▸ List.mem_map_of_mem ht)

/-! ### Plans -/

/-- A collect stage names a node once: its nodes are the keys of its routing. -/
theorem count_executionNodes_le (collect : CollectStage) (node : NodeId) :
    collect.executionNodes.count node ≤ 1 :=
  List.nodup_iff_count_le_one.1 collect.routing.locations.nodup_keys node

/-- What a node is assigned by the graph of a plan. -/
structure DealsOut (g : StageGraph) (p : Plan) (node : NodeId) : Prop where
  /-- The stages are dealt out in their order, each as often as it names the node. -/
  assigned : g.assigned node = g.stages.flatMap fun s => List.replicate (s.nodes.count node) s.id
  /-- Without repetitions, these are the stages that the node runs. -/
  dedup : (g.assigned node).dedup = g.stagesOn node
  /-- There are no repetitions exactly if no merge stage of the plan names the node twice. -/
  agree_iff : g.assigned node = g.stagesOn node ↔
    ∀ merge, Stage.merge merge ∈ p.stages → merge.executionNodes.count node ≤ 1

/-- The graph of a plan deals each stage out to the nodes that it names, as often as it names
them. -/
theorem dealsOut_ofPlan {p : Plan} {g : StageGraph} (h : ofPlan p = .ok g) (node : NodeId) :
    g.DealsOut p node := by
  obtain ⟨-, hnodes⟩ := ofPlan_eq_ok.1 h
  have hids := (isLinked_ofNodes hnodes).ids
  obtain ⟨-, -, rfl⟩ := ofNodes_eq_ok.1 hnodes
  refine ⟨assigned_eq _ node, dedup_assigned hids node, ?_⟩
  rw [assigned_eq_stagesOn_iff]
  constructor
  · intro hall merge hmerge
    exact hall _ (List.mem_map_of_mem (List.mem_map_of_mem hmerge))
  · rintro hmerges _ hs
    obtain ⟨_, hentry, rfl⟩ := List.mem_map.1 hs
    obtain ⟨stage, hstage, rfl⟩ := List.mem_map.1 hentry
    cases stage with
    | collect collect => exact count_executionNodes_le collect node
    | merge merge => exact hmerges merge hstage

/-- A scan of two nodes whose merge stage runs on the given nodes. -/
def mergedOn (nodes : List NodeId) : Plan :=
  .scan {
    collect := {
      id := 0
      name := "collect"
      table := ⟨"doc", "t"⟩
      routing := ⟨.ofList [("n1", .ofList [("t", [0])]), ("n2", .ofList [("t", [1])])]⟩
      outputs := []
      whereClause := ⟨none, false, none⟩
      limit := none
      orderBy := none
      downstream := .stage nodes 1 }
    merge := some {
      id := 1
      name := "merge"
      executionNodes := nodes
      inputTypes := []
      senders := 2
      projections := []
      sort := none
      downstream := .handler "n1" }
    fetch := none }

/-- A merge stage that names two nodes is dealt out to each of them once. -/
theorem dealsOut_mergedOn : ∃ g, ofPlan (mergedOn ["n1", "n3"]) = .ok g ∧
    g.DealsOut (mergedOn ["n1", "n3"]) "n1" ∧ g.assigned "n1" = [0, 1] ∧
    g.stagesOn "n1" = [0, 1] ∧ g.assigned "n2" = [0] ∧ g.assigned "n3" = [1] := by
  have hdeals := dealsOut_ofPlan
    (show ofPlan (mergedOn ["n1", "n3"]) = .ok _ from rfl) "n1"
  exact ⟨_, rfl, hdeals, by decide, by decide, by decide, by decide⟩

/-- A merge stage that names a node twice is dealt out to it twice, but the node runs it once. -/
theorem not_agree_mergedTwice : ∃ g, ofPlan (mergedOn ["n1", "n1"]) = .ok g ∧
    g.assignments.get? "n1" = some [0, 1, 1] ∧ g.stagesOn "n1" = [0, 1] ∧
    (g.assignments.get? "n1").getD [] ≠ g.stagesOn "n1" :=
  ⟨_, rfl, by decide, by decide, by decide⟩

end StageGraph

end ShardJoin
