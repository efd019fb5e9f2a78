/-
Stages that form a tree.

Stages are listed before the stages that they send their rows to.  If the last
one sends its rows to the node that issued the query, and all the others to
stages further down the list, then the stages form a tree with the last one at
its root.

* `StageGraph.SendsAhead` — stages that send their rows down the list;
* `StageGraph.ofNodes_eq` — such stages form a graph;
* `StageGraph.isTree_link` — and this graph is a tree.
-/
import Mathlib.Data.List.Nodup
import Mathlib.Logic.Relation
import ShardJoin.StageGraph

namespace ShardJoin

namespace StageGraph

/-! ### Checks that succeed -/

theorem validateAll_eq_ok {stages : List Stage} :
    validateAll stages = .ok () ↔ ∀ s ∈ stages, s.validate = .ok () := by
  induction stages with
  | nil => simp [validateAll]
  | cons s rest ih =>
    rw [validateAll, List.forall_mem_cons, ← ih]
    cases hs : s.validate with
    | error fault => simp [bind, Except.bind]
    | ok u => simp [bind, Except.bind]

theorem checkIds_eq_ok {seen : List StageId} {stages : List StageNode} :
    checkIds seen stages = .ok () ↔ (stages.map (·.id)).Nodup ∧ ∀ s ∈ stages, s.id ∉ seen := by
  induction stages generalizing seen with
  | nil => simp [checkIds]
  | cons s rest ih =>
    rw [checkIds, List.map_cons, List.nodup_cons, List.forall_mem_cons]
    by_cases hseen : s.id ∈ seen
    · rw [if_pos (by simpa using hseen)]
      exact iff_of_false (fun h => nomatch h) fun h => h.2.1 hseen
    · rw [if_neg (by simpa using hseen), ih]
      simp only [List.mem_cons, not_or, List.mem_map, not_exists, not_and]
      constructor
      · rintro ⟨hnodup, hfresh⟩
        exact ⟨⟨fun t ht => (hfresh t ht).1, hnodup⟩, hseen, fun t ht => (hfresh t ht).2⟩
      · rintro ⟨⟨hnew, hnodup⟩, -, hfresh⟩
        exact ⟨hnodup, fun t ht => ⟨hnew t ht, hfresh t ht⟩⟩

/-- A stage sends its rows to a node, or to a stage that is there and runs on the nodes named. -/
theorem checkRoute_eq_ok {stages : List StageNode} {s : StageNode} :
    checkRoute stages s = .ok () ↔ ∀ nodes target, s.downstream = .stage nodes target →
      ∃ t, stages.find? (·.id == target) = some t ∧ t.nodes = nodes := by
  unfold checkRoute
  cases s.downstream with
  | handler node => simp
  | stage nodes target =>
    simp only [Downstream.stage.injEq, and_imp, forall_eq', forall_apply_eq_imp_iff]
    cases stages.find? (·.id == target) with
    | none => simp
    | some t => by_cases ht : t.nodes = nodes <;> simp [ht]

theorem checkRoutes_eq_ok {stages ss : List StageNode} :
    checkRoutes stages ss = .ok () ↔ ∀ s ∈ ss, checkRoute stages s = .ok () := by
  induction ss with
  | nil => simp [checkRoutes]
  | cons s rest ih =>
    rw [checkRoutes, List.forall_mem_cons, ← ih]
    cases checkRoute stages s with
    | error fault => simp [bind, Except.bind]
    | ok u => simp [bind, Except.bind]

/-- Stages form a graph if their ids are different and all their routes are sound. -/
theorem ofNodes_eq_ok {stages : List StageNode} {g : StageGraph} :
    ofNodes stages = .ok g ↔ (stages.map (·.id)).Nodup ∧
      (∀ s ∈ stages, checkRoute stages s = .ok ()) ∧ g = ⟨stages.map (link stages)⟩ := by
  have hids : checkIds [] stages = .ok () ↔ (stages.map (·.id)).Nodup := by simp [checkIds_eq_ok]
  rw [ofNodes, ← hids, ← checkRoutes_eq_ok]
  cases checkIds [] stages with
  | error fault => simp [bind, Except.bind]
  | ok u =>
    cases checkRoutes stages stages with
    | error fault => simp [bind, Except.bind]
    | ok u => simp [bind, Except.bind, pure, Except.pure, eq_comm]

/-- A stage whose id is not repeated is found by it. -/
theorem find?_id {stages : List StageNode} (hnodup : (stages.map (·.id)).Nodup) {t : StageNode}
    (ht : t ∈ stages) : stages.find? (·.id == t.id) = some t := by
  induction stages with
  | nil => cases ht
  | cons s rest ih =>
    rw [List.map_cons, List.nodup_cons] at hnodup
    rcases List.mem_cons.1 ht with rfl | ht
    · rw [List.find?_cons_of_pos (by simp)]
    · have hne : s.id ≠ t.id := fun heq => hnodup.1 (heq ▸ List.mem_map_of_mem ht)
      rw [List.find?_cons_of_neg (by simpa using hne)]
      exact ih hnodup.2 ht

/-! ### Stages that send their rows ahead -/

/-- Stages that send their rows to a given consumer or to a stage further down the list, where
that stage runs. -/
def SendsAhead (consumer : Downstream) : List StageNode → Prop
  | [] => True
  | s :: rest =>
    (s.downstream = consumer ∨ ∃ t ∈ rest, s.downstream = .stage t.nodes t.id) ∧
      SendsAhead consumer rest

theorem SendsAhead.append {consumer : Downstream} {ss ts : List StageNode}
    (hs : SendsAhead consumer ss) (ht : SendsAhead consumer ts) :
    SendsAhead consumer (ss ++ ts) := by
  induction ss with
  | nil => exact ht
  | cons s ss ih =>
    obtain ⟨hfirst, hrest⟩ := hs
    refine ⟨hfirst.imp_right ?_, ih hrest⟩
    rintro ⟨t, hmem, heq⟩
    exact ⟨t, List.mem_append_left _ hmem, heq⟩

/-- A stage at the end takes the rows of all that have no consumer yet. -/
theorem SendsAhead.concat {consumer : Downstream} {ss : List StageNode} {root : StageNode}
    (hs : SendsAhead (.stage root.nodes root.id) ss) (hroot : root.downstream = consumer) :
    SendsAhead consumer (ss ++ [root]) := by
  induction ss with
  | nil => exact ⟨.inl hroot, trivial⟩
  | cons s ss ih =>
    obtain ⟨hfirst, hrest⟩ := hs
    refine ⟨.inr ?_, ih hrest⟩
    rcases hfirst with heq | ⟨t, hmem, heq⟩
    · exact ⟨root, by simp, heq⟩
    · exact ⟨t, List.mem_append_left _ hmem, heq⟩

/-- The consumer of a stage that does not send its rows to the end stands further down. -/
theorem SendsAhead.exists_later {consumer : Downstream} {ss : List StageNode}
    (hs : SendsAhead consumer ss) {i : Nat} {s : StageNode} (hi : ss[i]? = some s)
    (hne : s.downstream ≠ consumer) :
    ∃ j t, i < j ∧ ss[j]? = some t ∧ s.downstream = .stage t.nodes t.id := by
  induction ss generalizing i with
  | nil => cases hi
  | cons s' ss ih =>
    obtain ⟨hfirst, hrest⟩ := hs
    cases i with
    | zero =>
      obtain rfl := Option.some.inj hi
      obtain ⟨t, hmem, heq⟩ := hfirst.resolve_left hne
      obtain ⟨j, hj⟩ := List.mem_iff_getElem?.1 hmem
      exact ⟨j + 1, t, Nat.succ_pos j, hj, heq⟩
    | succ i =>
      obtain ⟨j, t, hlt, hj, heq⟩ := ih hrest hi
      exact ⟨j + 1, t, Nat.succ_lt_succ hlt, hj, heq⟩

/-- Stages with different ids that send their rows ahead form a graph. -/
theorem ofNodes_eq {stages : List StageNode} {handler : NodeId}
    (hnodup : (stages.map (·.id)).Nodup) (hs : SendsAhead (.handler handler) stages) :
    ofNodes stages = .ok ⟨stages.map (link stages)⟩ := by
  refine ofNodes_eq_ok.2
    ⟨hnodup, fun s hmem => checkRoute_eq_ok.2 fun nodes target hroute => ?_, rfl⟩
  obtain ⟨i, hi⟩ := List.mem_iff_getElem?.1 hmem
  obtain ⟨j, t, -, hj, heq⟩ := hs.exists_later hi (hroute ▸ Downstream.noConfusion)
  obtain ⟨rfl, rfl⟩ := Downstream.stage.inj (hroute.symm.trans heq)
  exact ⟨t, find?_id hnodup (List.mem_of_getElem? hj), rfl⟩

/-! ### Trees -/

/-- A stage sends its rows to another one. -/
def ParentOf (g : StageGraph) (child parent : StageId) : Prop :=
  ∃ s ∈ g.stages, s.id = child ∧ parent ∈ s.parents

/-- The stages of a graph form a tree, in which every stage is listed before its parent. -/
structure IsTree (g : StageGraph) (root : StageId) : Prop where
  ids : (g.stages.map (·.id)).Nodup
  last : g.stages.getLast?.map (·.id) = some root
  found : g.root? = some root
  /-- Only the root sends its rows to the node that issued the query. -/
  handler : ∀ s ∈ g.stages, s.downstream.isHandler = true ↔ s.id = root
  /-- Every other stage has one parent, further down the list. -/
  parent : ∀ (i : Nat) (s : StageNode), g.stages[i]? = some s → s.id ≠ root →
    ∃ j t, i < j ∧ g.stages[j]? = some t ∧ s.parents = [t.id]
  /-- From every stage the parents lead to the root. -/
  reaches : ∀ s ∈ g.stages, Relation.ReflTransGen g.ParentOf s.id root

/-- If every stage but the root has a parent further down the list, the parents lead to the root. -/
theorem reaches_of_parent {g : StageGraph} {root : StageId}
    (hparent : ∀ (i : Nat) (s : StageNode), g.stages[i]? = some s → s.id ≠ root →
      ∃ j t, i < j ∧ g.stages[j]? = some t ∧ s.parents = [t.id]) :
    ∀ s ∈ g.stages, Relation.ReflTransGen g.ParentOf s.id root := by
  -- induction on the number of stages from here to the end of the list
  have hreach : ∀ k i s, g.stages.length ≤ i + k → g.stages[i]? = some s →
      Relation.ReflTransGen g.ParentOf s.id root := by
    intro k
    induction k with
    | zero =>
      intro i s hlength hi
      exact absurd (List.getElem?_eq_some_iff.1 hi).1 (by omega)
    | succ k ih =>
      intro i s hlength hi
      by_cases hid : s.id = root
      · rw [hid]
      · obtain ⟨j, t, hlt, hj, hparents⟩ := hparent i s hi hid
        have hstep : g.ParentOf s.id t.id :=
          ⟨s, List.mem_of_getElem? hi, rfl, by rw [hparents, List.mem_singleton]⟩
        exact .head hstep (ih j t (by omega) hj)
  intro s hs
  obtain ⟨i, hi⟩ := List.mem_iff_getElem?.1 hs
  exact hreach g.stages.length i s (by omega) hi

/-- A stage that sends its rows ahead to stages does not send them to a node. -/
theorem SendsAhead.isHandler_eq_false {nodes : List NodeId} {id : StageId} {ss : List StageNode}
    (hs : SendsAhead (.stage nodes id) ss) {s : StageNode} (h : s ∈ ss) :
    s.downstream.isHandler = false := by
  by_cases hlast : s.downstream = .stage nodes id
  · rw [hlast]
    rfl
  · obtain ⟨i, hi⟩ := List.mem_iff_getElem?.1 h
    obtain ⟨_, t, -, -, heq⟩ := hs.exists_later hi hlast
    rw [heq]
    rfl

/-- If the last stage sends its rows to the node that issued the query and all others send theirs
ahead to stages, the stages form a tree. -/
theorem isTree_link {ss : List StageNode} {root : StageNode} {handler : NodeId}
    (hnodup : ((ss ++ [root]).map (·.id)).Nodup)
    (hs : SendsAhead (.stage root.nodes root.id) ss) (hroot : root.downstream = .handler handler) :
    IsTree ⟨(ss ++ [root]).map (link (ss ++ [root]))⟩ root.id := by
  have hne : ∀ s ∈ ss, s.id ≠ root.id := by
    intro s hmem heq
    rw [List.map_append, List.nodup_append] at hnodup
    exact hnodup.2.2 s.id (List.mem_map_of_mem hmem) root.id (by simp) heq
  have hids : ((ss ++ [root]).map (link (ss ++ [root]))).map (·.id) =
      (ss ++ [root]).map (·.id) := by
    rw [List.map_map]
    exact List.map_congr_left fun _ _ => rfl
  -- the stage that a stage other than the root sends its rows to is its only parent
  have hparent : ∀ (i : Nat) (s : StageNode),
      ((ss ++ [root]).map (link (ss ++ [root])))[i]? = some s → s.id ≠ root.id →
      ∃ j t, i < j ∧ ((ss ++ [root]).map (link (ss ++ [root])))[j]? = some t ∧
        s.parents = [t.id] := by
    intro i s hi hid
    rw [List.getElem?_map] at hi
    obtain ⟨s, hs', rfl⟩ := Option.map_eq_some_iff.1 hi
    have hhandler : s.downstream ≠ .handler handler := by
      intro heq
      rcases List.mem_append.1 (List.mem_of_getElem? hs') with hmem | hmem
      · have hfalse := hs.isHandler_eq_false hmem
        rw [heq] at hfalse
        cases hfalse
      · obtain rfl := List.mem_singleton.1 hmem
        exact hid rfl
    obtain ⟨j, t, hlt, hj, heq⟩ := (hs.concat hroot).exists_later hs' hhandler
    refine ⟨j, link (ss ++ [root]) t, hlt, by rw [List.getElem?_map, hj]; rfl, ?_⟩
    show s.downstream.stage?.toList = [t.id]
    rw [heq]
    rfl
  refine ⟨hids ▸ hnodup, ?_, ?_, ?_, hparent, reaches_of_parent hparent⟩
  · rw [List.map_append, List.map_singleton, List.getLast?_concat]
    rfl
  · show ((((ss ++ [root]).map (link (ss ++ [root]))).reverse.find?
      (·.downstream.isHandler)).map (·.id)) = some root.id
    rw [List.map_append, List.map_singleton, List.reverse_concat, List.find?_cons_of_pos]
    · rfl
    · show root.downstream.isHandler = true
      rw [hroot]
      rfl
  · intro s hmem
    obtain ⟨s, hs', rfl⟩ := List.mem_map.1 hmem
    show s.downstream.isHandler = true ↔ s.id = root.id
    rcases List.mem_append.1 hs' with hmem | hmem
    · rw [hs.isHandler_eq_false hmem]
      exact iff_of_false Bool.false_ne_true (hne s hmem)
    · rw [List.mem_singleton.1 hmem, hroot]
      exact iff_of_true rfl rfl

end StageGraph

end ShardJoin
