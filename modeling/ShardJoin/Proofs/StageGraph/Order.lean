/-
The order of the stages of a graph.

`StageGraph.ofPlan` lists the stages of a plan from the leaves up and checks
that every route leads to a stage that is there and runs on the nodes named.
Where in the list that stage stands is not checked: a plan whose routes lead
up its tree gives stages in the order in which their rows flow, but a merge
stage may also send its rows to itself or back to a stage below it.

* `StageGraph.UpstreamFirst` — every stage stands before its consumer;
* `Plan.RoutesUp` — the routes of a plan lead up its tree;
* `StageGraph.listsStages_ofPlan` — which plans give stages in order, and what
  follows for cycles and for the stages of a node;
* `StageGraph.not_upstreamFirst_twoScans` — two scans that send their rows to
  each other.
-/
import Mathlib.Data.Set.Finite.Basic
import ShardJoin.Proofs.Planning.Stages

namespace ShardJoin

/-- If rows go to a stage, then to one of the given ones. -/
def Downstream.LeadsInto (d : Downstream) (ids : List StageId) : Prop :=
  ∀ id, d.stage? = some id → id ∈ ids

mutual
/-- Every stage of a plan sends its rows to a node, to the merge stage above it or to a stage of a
plan that runs later.  The ids are those of the stages after the plan's. -/
def Plan.RoutesUp (later : List StageId) : Plan → Prop
  | .scan ⟨collect, none, _⟩ => collect.downstream.LeadsInto later
  | .scan ⟨collect, some merge, _⟩ =>
    collect.downstream.LeadsInto (merge.id :: later) ∧ merge.downstream.LeadsInto later
  | .nestedLoop left right _ merge =>
    left.RoutesUp (right.stageIds ++ merge.id :: later) ∧ right.RoutesUp (merge.id :: later) ∧
      merge.downstream.LeadsInto later
  | .iterable plans => Plan.AllRouteUp later plans
  | .tableGet _ | .noOp _ => True

/-- The routes of every plan of a list lead up its tree or into the plans after it. -/
def Plan.AllRouteUp (later : List StageId) : List Plan → Prop
  | [] => True
  | p :: ps => p.RoutesUp (ps.flatMap Plan.stageIds ++ later) ∧ Plan.AllRouteUp later ps
end

namespace StageGraph

open Relation

/-! ### Linked stages -/

/-- Stages with different ids, each linked with the one it sends its rows to. -/
structure IsLinked (g : StageGraph) : Prop where
  ids : (g.stages.map (·.id)).Nodup
  /-- A stage that sends its rows to a node has no parent. -/
  top : ∀ s ∈ g.stages, ∀ node, s.downstream = .handler node → s.parents = []
  /-- Any other stage has one parent, which runs on the nodes that the route names. -/
  parent : ∀ s ∈ g.stages, ∀ nodes target, s.downstream = .stage nodes target →
    ∃ t ∈ g.stages, t.id = target ∧ t.nodes = nodes ∧ s.parents = [t.id]
  children : ∀ s ∈ g.stages, ∀ id, id ∈ s.children ↔ g.ParentOf id s.id

theorem isLinked_ofNodes {stages : List StageNode} {g : StageGraph} (h : ofNodes stages = .ok g) :
    g.IsLinked := by
  obtain ⟨hnodup, hroutes, rfl⟩ := ofNodes_eq_ok.1 h
  refine ⟨?_, ?_, ?_, ?_⟩
  · rw [List.map_map]
    exact hnodup
  · intro _ hs node hnode
    obtain ⟨s, -, rfl⟩ := List.mem_map.1 hs
    show s.downstream.stage?.toList = []
    rw [show s.downstream = _ from hnode]
    rfl
  · intro _ hs nodes target htarget
    obtain ⟨s, hmem, rfl⟩ := List.mem_map.1 hs
    obtain ⟨t, ht, hnodes⟩ := checkRoute_eq_ok.1 (hroutes s hmem) nodes target htarget
    have hid : t.id = target := by simpa using List.find?_some ht
    refine ⟨link stages t, List.mem_map_of_mem (List.mem_of_find?_eq_some ht), hid, hnodes, ?_⟩
    show s.downstream.stage?.toList = [t.id]
    rw [show s.downstream = _ from htarget, hid]
    rfl
  · intro _ hs id
    obtain ⟨s, -, rfl⟩ := List.mem_map.1 hs
    simp only [link, ParentOf, List.mem_map, List.mem_filter, beq_iff_eq, Option.mem_toList,
      exists_exists_and_eq_and]
    constructor
    · rintro ⟨c, ⟨hc, hparent⟩, hid⟩
      exact ⟨c, hc, hid, hparent⟩
    · rintro ⟨c, hc, hid, hparent⟩
      exact ⟨c, ⟨hc, hparent⟩, hid⟩

namespace IsLinked

variable {g : StageGraph}

/-- A stage has a parent exactly if it sends its rows to a stage. -/
theorem parentOf_iff (h : g.IsLinked) {child parent : StageId} : g.ParentOf child parent ↔
    ∃ s ∈ g.stages, s.id = child ∧ s.downstream.stage? = some parent := by
  refine exists_congr fun s => and_congr_right fun hs => and_congr_right fun _ => ?_
  cases hd : s.downstream with
  | handler node => simp [h.top s hs node hd, Downstream.stage?]
  | stage nodes target =>
    obtain ⟨t, -, rfl, -, hparents⟩ := h.parent s hs nodes target hd
    rw [hparents, List.mem_singleton]
    exact ⟨fun heq => heq ▸ rfl, fun heq => (Option.some.inj heq).symm⟩

/-- The stage that another one sends its rows to is there. -/
theorem exists_parent (h : g.IsLinked) {s : StageNode} (hs : s ∈ g.stages) {target : StageId}
    (htarget : s.downstream.stage? = some target) : ∃ t ∈ g.stages, t.id = target := by
  cases hd : s.downstream with
  | handler node =>
    rw [hd] at htarget
    cases htarget
  | stage nodes id =>
    rw [hd] at htarget
    obtain rfl := Option.some.inj htarget
    obtain ⟨t, ht, hid, -⟩ := h.parent s hs nodes id hd
    exact ⟨t, ht, hid⟩

/-- The id of a stage stands at one place. -/
theorem idxOf_id (h : g.IsLinked) {i : Nat} {s : StageNode} (hi : g.stages[i]? = some s) :
    (g.stages.map (·.id)).idxOf s.id = i := by
  obtain ⟨hlt, rfl⟩ := List.getElem?_eq_some_iff.1 hi
  have hidx := h.ids.idxOf_getElem i (by rwa [List.length_map])
  rwa [List.getElem_map] at hidx

theorem parent_unique (h : g.IsLinked) {child a b : StageId} (ha : g.ParentOf child a)
    (hb : g.ParentOf child b) : a = b := by
  obtain ⟨s, hs, rfl, hsa⟩ := h.parentOf_iff.1 ha
  obtain ⟨t, ht, hid, htb⟩ := h.parentOf_iff.1 hb
  obtain rfl := List.inj_on_of_nodup_map h.ids ht hs hid
  exact Option.some.inj (hsa.symm.trans htb)

end IsLinked

/-! ### Cycles -/

/-- The parents of no stage lead back to it. -/
def Acyclic (g : StageGraph) : Prop := ∀ id, ¬ TransGen g.ParentOf id id

namespace IsLinked

variable {g : StageGraph}

/-- On a cycle, the parent of a stage is on it too. -/
theorem transGen_of_transGen (h : g.IsLinked) {child parent : StageId}
    (hcycle : TransGen g.ParentOf child child) (hparent : g.ParentOf child parent) :
    TransGen g.ParentOf parent parent := by
  obtain ⟨next, hnext, hback⟩ := TransGen.head'_iff.1 hcycle
  obtain rfl := h.parent_unique hparent hnext
  exact TransGen.tail' hback hparent

/-- There are no cycles exactly if the parents of every stage lead to one that sends its rows to
the node that issued the query. -/
theorem acyclic_iff (h : g.IsLinked) : g.Acyclic ↔ ∀ s ∈ g.stages, ∃ t ∈ g.stages,
    t.downstream.isHandler = true ∧ ReflTransGen g.ParentOf s.id t.id := by
  constructor
  · intro hacyclic s hs
    -- going up ends, since there are finitely many stages
    let Above (t u : {s // s ∈ g.stages}) : Prop := TransGen g.ParentOf u.1.id t.1.id
    have : Finite {s // s ∈ g.stages} := (List.finite_toSet g.stages).to_subtype
    have : IsTrans _ Above := ⟨fun _ _ _ htu huv => huv.trans htu⟩
    have : Std.Irrefl Above := ⟨fun t => hacyclic t.1.id⟩
    have hwf : WellFounded Above := Finite.wellFounded_of_trans_of_irrefl Above
    suffices ∀ s : {s // s ∈ g.stages}, ∃ t ∈ g.stages, t.downstream.isHandler = true ∧
        ReflTransGen g.ParentOf s.1.id t.id from this ⟨s, hs⟩
    intro s
    induction s using hwf.induction with
    | _ s ih =>
      cases hd : s.1.downstream with
      | handler node => exact ⟨s.1, s.2, hd ▸ rfl, .refl⟩
      | stage nodes target =>
        have htarget : s.1.downstream.stage? = some target := hd ▸ rfl
        obtain ⟨u, hu, rfl⟩ := h.exists_parent s.2 htarget
        have hstep : g.ParentOf s.1.id u.id := h.parentOf_iff.2 ⟨s.1, s.2, rfl, htarget⟩
        obtain ⟨t, ht, hhandler, hreach⟩ := ih ⟨u, hu⟩ (.single hstep)
        exact ⟨t, ht, hhandler, .head hstep hreach⟩
  · intro hroots id hcycle
    obtain ⟨_, hfirst, -⟩ := TransGen.head'_iff.1 hcycle
    obtain ⟨s, hs, rfl, -⟩ := hfirst
    obtain ⟨t, ht, hhandler, hreach⟩ := hroots s hs
    -- the cycle is carried up to a stage that has no parent
    have hend : TransGen g.ParentOf t.id t.id := by
      clear hhandler
      generalize t.id = id at hreach
      induction hreach with
      | refl => exact hcycle
      | tail _ hparent ih => exact h.transGen_of_transGen ih hparent
    obtain ⟨_, hup, -⟩ := TransGen.head'_iff.1 hend
    obtain ⟨u, hu, hid, hroute⟩ := h.parentOf_iff.1 hup
    obtain rfl := List.inj_on_of_nodup_map h.ids hu ht hid
    cases hd : u.downstream with
    | handler node =>
      rw [hd] at hroute
      cases hroute
    | stage nodes target =>
      rw [hd] at hhandler
      cases hhandler

end IsLinked

/-! ### Stages in order -/

/-- Every stage stands before the one that it sends its rows to. -/
def UpstreamFirst (g : StageGraph) : Prop :=
  ∀ (i j : Nat) (s t : StageNode), g.stages[i]? = some s → g.stages[j]? = some t →
    s.downstream.stage? = some t.id → i < j

namespace UpstreamFirst

variable {g : StageGraph}

/-- Going up, one goes down the list. -/
theorem idxOf_lt (h : g.UpstreamFirst) (hg : g.IsLinked) {a b : StageId}
    (hab : TransGen g.ParentOf a b) :
    (g.stages.map (·.id)).idxOf a < (g.stages.map (·.id)).idxOf b := by
  -- one step goes from the place of a stage to the place of its parent
  have hstep : ∀ a b, g.ParentOf a b →
      (g.stages.map (·.id)).idxOf a < (g.stages.map (·.id)).idxOf b := by
    intro a b hparent
    obtain ⟨s, hs, rfl, htarget⟩ := hg.parentOf_iff.1 hparent
    obtain ⟨t, ht, rfl⟩ := hg.exists_parent hs htarget
    obtain ⟨i, hi⟩ := List.mem_iff_getElem?.1 hs
    obtain ⟨j, hj⟩ := List.mem_iff_getElem?.1 ht
    rw [hg.idxOf_id hi, hg.idxOf_id hj]
    exact h i j s t hi hj htarget
  induction hab with
  | single hparent => exact hstep _ _ hparent
  | tail _ hparent ih => exact Nat.lt_trans ih (hstep _ _ hparent)

theorem acyclic (h : g.UpstreamFirst) (hg : g.IsLinked) : g.Acyclic :=
  fun _ hcycle => Nat.lt_irrefl _ (h.idxOf_lt hg hcycle)

/-- The stages of a node are listed so that the rows of none flow into one before it. -/
theorem pairwise_stagesOn (h : g.UpstreamFirst) (hg : g.IsLinked) (node : NodeId) :
    (g.stagesOn node).Pairwise fun a b => ¬ TransGen g.ParentOf b a := by
  have hids : (g.stages.map (·.id)).Pairwise fun a b => ¬ TransGen g.ParentOf b a := by
    refine List.pairwise_iff_getElem.2 fun i j hi hj hij hback => ?_
    have hlt := h.idxOf_lt hg hback
    rw [hg.ids.idxOf_getElem i hi, hg.ids.idxOf_getElem j hj] at hlt
    exact Nat.lt_asymm hij hlt
  exact hids.sublist (List.filter_sublist.map _)

end UpstreamFirst

/-! ### Routes that lead ahead -/

/-- Stages that send their rows to a node, down the list or to one of the given stages. -/
def RoutesAhead (later : List StageId) : List StageNode → Prop
  | [] => True
  | s :: rest => s.downstream.LeadsInto (rest.map (·.id) ++ later) ∧ RoutesAhead later rest

theorem routesAhead_append {later : List StageId} {ss ts : List StageNode} :
    RoutesAhead later (ss ++ ts) ↔
      RoutesAhead (ts.map (·.id) ++ later) ss ∧ RoutesAhead later ts := by
  induction ss with
  | nil => exact (iff_of_eq (true_and _)).symm
  | cons s rest ih =>
    rw [List.cons_append, RoutesAhead, RoutesAhead, ih, List.map_append, List.append_assoc,
      and_assoc]

theorem routesAhead_iff {later : List StageId} {ss : List StageNode} : RoutesAhead later ss ↔
    ∀ (i : Nat) (s : StageNode), ss[i]? = some s →
      s.downstream.LeadsInto ((ss.drop (i + 1)).map (·.id) ++ later) := by
  induction ss with
  | nil => exact iff_of_true trivial fun _ _ h => nomatch h
  | cons s rest ih =>
    rw [RoutesAhead, ih]
    constructor
    · rintro ⟨hs, hrest⟩ (_ | i) t hi
      · obtain rfl := Option.some.inj hi
        exact hs
      · exact hrest i t hi
    · exact fun h => ⟨h 0 s rfl, fun i t hi => h (i + 1) t hi⟩

theorem routesAhead_map_link {later : List StageId} {stages ss : List StageNode} :
    RoutesAhead later (ss.map (link stages)) ↔ RoutesAhead later ss := by
  induction ss with
  | nil => exact Iff.rfl
  | cons s rest ih =>
    rw [List.map_cons, RoutesAhead, RoutesAhead, ih, List.map_map]
    exact Iff.rfl

theorem IsLinked.upstreamFirst_iff {g : StageGraph} (h : g.IsLinked) :
    g.UpstreamFirst ↔ RoutesAhead [] g.stages := by
  rw [routesAhead_iff]
  constructor
  · intro hfirst i s hi target htarget
    obtain ⟨t, ht, rfl⟩ := h.exists_parent (List.mem_of_getElem? hi) htarget
    obtain ⟨j, hj⟩ := List.mem_iff_getElem?.1 ht
    have hlt := hfirst i j s t hi hj htarget
    rw [List.append_nil]
    refine List.mem_map_of_mem (List.mem_iff_getElem?.2 ⟨j - (i + 1), ?_⟩)
    rwa [List.getElem?_drop, Nat.add_sub_cancel' hlt]
  · intro hahead i j s t hi hj htarget
    have hmem := hahead i s hi t.id htarget
    rw [List.append_nil] at hmem
    obtain ⟨u, hu, hid⟩ := List.mem_map.1 hmem
    obtain ⟨k, hk⟩ := List.mem_iff_getElem?.1 hu
    rw [List.getElem?_drop] at hk
    -- the stage with that id stands at one place only
    have hplace : i + 1 + k = j := by rw [← h.idxOf_id hk, hid, h.idxOf_id hj]
    omega

end StageGraph

namespace Plan

theorem ids_stages (p : Plan) : (p.stages.map Stage.node).map (·.id) = p.stageIds := List.map_map

theorem ids_stagesAll (plans : List Plan) :
    ((stagesAll plans).map Stage.node).map (·.id) = plans.flatMap stageIds := by
  induction plans with
  | nil => rfl
  | cons p ps ih =>
    rw [stagesAll, List.map_append, List.map_append, ids_stages, ih, List.flatMap_cons]

mutual
/-- The routes of a plan lead up its tree exactly if they lead down the list of its stages. -/
theorem routesAhead_stages (later : List StageId) : (p : Plan) →
    (StageGraph.RoutesAhead later (p.stages.map Stage.node) ↔ p.RoutesUp later)
  | .tableGet _ | .noOp _ => Iff.rfl
  | .scan ⟨_, none, _⟩ => iff_of_eq (and_true _)
  | .scan ⟨_, some _, _⟩ => and_congr_right fun _ => iff_of_eq (and_true _)
  | .nestedLoop left right _ merge => by
    rw [stages, List.map_append, List.map_append, StageGraph.routesAhead_append,
      StageGraph.routesAhead_append, ids_stages, routesAhead_stages _ left,
      routesAhead_stages _ right, RoutesUp, and_assoc]
    exact and_congr_right fun _ => and_congr_right fun _ => iff_of_eq (and_true _)
  | .iterable plans => routesAhead_stagesAll later plans

theorem routesAhead_stagesAll (later : List StageId) : (plans : List Plan) →
    (StageGraph.RoutesAhead later ((stagesAll plans).map Stage.node) ↔ AllRouteUp later plans)
  | [] => Iff.rfl
  | p :: ps => by
    rw [stagesAll, List.map_append, StageGraph.routesAhead_append, ids_stagesAll,
      routesAhead_stages _ p, routesAhead_stagesAll later ps, AllRouteUp]
end

end Plan

namespace StageGraph

open Relation

theorem ofPlan_eq_ok {p : Plan} {g : StageGraph} : ofPlan p = .ok g ↔
    (∀ s ∈ p.stages, s.validate = .ok ()) ∧ ofNodes (p.stages.map Stage.node) = .ok g := by
  rw [ofPlan, ← validateAll_eq_ok]
  cases validateAll p.stages with
  | error fault => simp [bind, Except.bind]
  | ok u =>
    cases ofNodes (p.stages.map Stage.node) with
    | error fault => simp [bind, Except.bind, throw, throwThe, MonadExceptOf.throw]
    | ok g => simp [bind, Except.bind, pure, Except.pure]

/-- What the graph of a plan promises about the order of its stages. -/
structure ListsStages (g : StageGraph) (p : Plan) : Prop where
  ids : g.stages.map (·.id) = p.stageIds
  linked : g.IsLinked
  /-- The stages are in order exactly if the routes of the plan lead up its tree. -/
  upstreamFirst_iff : g.UpstreamFirst ↔ p.RoutesUp []
  /-- There are no cycles exactly if all rows come to the node that issued the query. -/
  acyclic_iff : g.Acyclic ↔ ∀ s ∈ g.stages, ∃ t ∈ g.stages,
    t.downstream.isHandler = true ∧ ReflTransGen g.ParentOf s.id t.id
  acyclic : p.RoutesUp [] → g.Acyclic
  /-- The rows of a stage do not flow into one that the same node runs before it. -/
  stagesOn : p.RoutesUp [] → ∀ node,
    (g.stagesOn node).Pairwise fun a b => ¬ TransGen g.ParentOf b a

theorem listsStages_ofPlan {p : Plan} {g : StageGraph} (h : ofPlan p = .ok g) :
    g.ListsStages p := by
  obtain ⟨-, hnodes⟩ := ofPlan_eq_ok.1 h
  have hlinked := isLinked_ofNodes hnodes
  obtain ⟨-, -, rfl⟩ := ofNodes_eq_ok.1 hnodes
  have hiff : UpstreamFirst ⟨_⟩ ↔ p.RoutesUp [] :=
    hlinked.upstreamFirst_iff.trans (routesAhead_map_link.trans (Plan.routesAhead_stages [] p))
  refine ⟨?_, hlinked, hiff, hlinked.acyclic_iff, fun hup => (hiff.2 hup).acyclic hlinked,
    fun hup => (hiff.2 hup).pairwise_stagesOn hlinked⟩
  rw [List.map_map, ← Plan.ids_stages]
  rfl

/-- A scan of one node whose merge stage sends its rows where it is told to. -/
def mergedScan (collect merge : StageId) (consumer : Downstream) : Plan :=
  .scan {
    collect := {
      id := collect
      name := "collect"
      table := ⟨"doc", "t"⟩
      routing := ⟨.ofList [("n1", .ofList [("t", [0])])]⟩
      outputs := []
      whereClause := ⟨none, false, none⟩
      limit := none
      orderBy := none
      downstream := .stage ["n1"] merge }
    merge := some {
      id := merge
      name := "merge"
      executionNodes := ["n1"]
      inputTypes := []
      senders := 1
      projections := []
      sort := none
      downstream := consumer }
    fetch := none }

/-- Two scans, run one after the other. -/
def twoScans (first second : Downstream) : Plan :=
  .iterable [mergedScan 0 1 first, mergedScan 2 3 second]

/-- The first scan feeds the second, which sends its rows to the node that issued the query. -/
theorem upstreamFirst_twoScans : ∃ g,
    ofPlan (twoScans (.stage ["n1"] 3) (.handler "n1")) = .ok g ∧
      g.ListsStages (twoScans (.stage ["n1"] 3) (.handler "n1")) ∧ g.UpstreamFirst := by
  have hlists := listsStages_ofPlan
    (show ofPlan (twoScans (.stage ["n1"] 3) (.handler "n1")) = .ok _ from rfl)
  refine ⟨_, rfl, hlists, hlists.upstreamFirst_iff.2 ⟨⟨?_, ?_⟩, ⟨?_, ?_⟩, trivial⟩⟩
  all_goals
    intro id hid
    cases hid
  all_goals decide

/-- Each scan feeds the other: the first one stands before its consumer and after it. -/
theorem not_upstreamFirst_twoScans : ∃ g,
    ofPlan (twoScans (.stage ["n1"] 3) (.stage ["n1"] 1)) = .ok g ∧ ¬ g.UpstreamFirst ∧
      ¬ g.Acyclic ∧ ¬ (g.stagesOn "n1").Pairwise fun a b => ¬ TransGen g.ParentOf b a := by
  obtain ⟨g, hg, h13, h31, hfirst, hlist⟩ : ∃ g,
      ofPlan (twoScans (.stage ["n1"] 3) (.stage ["n1"] 1)) = .ok g ∧ g.ParentOf 1 3 ∧
        g.ParentOf 3 1 ∧ ¬ g.UpstreamFirst ∧ g.stagesOn "n1" = [0, 1, 2, 3] := by
    refine ⟨_, rfl, ?_, ?_, fun hfirst => ?_, rfl⟩
    · exact ⟨_, List.mem_of_getElem? (i := 1) rfl, rfl, List.mem_singleton_self _⟩
    · exact ⟨_, List.mem_of_getElem? (i := 3) rfl, rfl, List.mem_singleton_self _⟩
    · exact absurd (hfirst 3 1 _ _ rfl rfl rfl) (by decide)
  refine ⟨g, hg, hfirst, fun hacyclic => hacyclic 1 (.tail (.single h13) h31), fun horder => ?_⟩
  rw [hlist] at horder
  exact List.pairwise_iff_getElem.1 horder 1 3 (by decide) (by decide) (by decide) (.single h31)

end StageGraph

end ShardJoin
