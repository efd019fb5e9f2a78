/-
Left-deep trees of nested loops.

Joining plans one after another gives a tree whose left spine holds the joins
and whose leaves are the plans, each sent to the join above it.

* `JoinTree` — how such a tree is made up;
* `JoinTree.leaves`, `JoinTree.outputTypes` — the leaves are the joined plans,
  in order, and their rows stand side by side;
* `CrossJoin.joinTree_joinAll` — joining plans gives such a tree.
-/
import ShardJoin.Planning.CrossJoin
import ShardJoin.Proofs.Plan.Typing

namespace ShardJoin

namespace Plan

/-- The plans below the topmost joins of the left spine, a given number of them, from left to
right. -/
def leaves : Nat → Plan → List Plan
  | n + 1, .nestedLoop left right _ _ => left.leaves n ++ [right]
  | _, p => [p]

/-- The merge stages of the topmost joins of the left spine, a given number of them, from the
innermost on. -/
def joins : Nat → Plan → List MergeStage
  | n + 1, .nestedLoop left _ _ merge => left.joins n ++ [merge]
  | _, _ => []

@[simp] theorem leaves_zero (p : Plan) : p.leaves 0 = [p] := by
  cases p <;> rfl

@[simp] theorem leaves_nestedLoop (n : Nat) (left right : Plan) (leftOuter : Bool)
    (merge : MergeStage) :
    (Plan.nestedLoop left right leftOuter merge).leaves (n + 1) = left.leaves n ++ [right] := rfl

@[simp] theorem joins_zero (p : Plan) : p.joins 0 = [] := by
  cases p <;> rfl

@[simp] theorem joins_nestedLoop (n : Nat) (left right : Plan) (leftOuter : Bool)
    (merge : MergeStage) :
    (Plan.nestedLoop left right leftOuter merge).joins (n + 1) = left.joins n ++ [merge] := rfl

/-- A plan as it stands below a join: its rows are sent there. -/
def Routed (p q : Plan) : Prop := ∃ consumer, q = p.routeResult consumer

/-- What does not depend on where rows are sent is the same of plans and of the leaves that they
become. -/
theorem flatMap_routed {β : Type} {f : Plan → List β}
    (hf : ∀ (consumer : Downstream) (p : Plan), f (p.routeResult consumer) = f p)
    {plans routed : List Plan} (h : List.Forall₂ Routed plans routed) :
    routed.flatMap f = plans.flatMap f := by
  induction h with
  | nil => rfl
  | cons hrouted _ ih =>
    obtain ⟨consumer, rfl⟩ := hrouted
    rw [List.flatMap_cons, List.flatMap_cons, ih, hf]

end Plan

/-- A tree of valid joins over some plans, with consecutive stage ids.  Every join receives the
rows of its sides where it runs, and the last one sends its rows to the consumer. -/
inductive JoinTree (next : StageId) : Nat → Downstream → List Plan → Plan → Prop
  | leaf (consumer : Downstream) (p : Plan) : JoinTree next 0 consumer [p] (p.routeResult consumer)
  | join {n : Nat} {consumer : Downstream} {plans : List Plan} {left right : Plan}
    {leftOuter : Bool} {merge : MergeStage} {nodes : List NodeId}
    (hleft : JoinTree next n (.stage nodes (next + n)) plans left)
    (hid : merge.id = next + n) (hnodes : merge.executionNodes = nodes)
    (hconsumer : merge.downstream = consumer) (hvalid : merge.validate = .ok ()) :
    JoinTree next (n + 1) consumer (plans ++ [right])
      (.nestedLoop left (right.routeResult (.stage nodes (next + n))) leftOuter merge)

namespace JoinTree

variable {next : StageId} {n : Nat} {consumer : Downstream} {plans : List Plan} {p : Plan}

/-- The leaves are the joined plans in order. -/
theorem leaves (h : JoinTree next n consumer plans p) :
    List.Forall₂ Plan.Routed plans (p.leaves n) := by
  induction h with
  | leaf consumer p =>
    rw [Plan.leaves_zero]
    exact .cons ⟨consumer, rfl⟩ .nil
  | join _ _ _ _ _ ih =>
    rw [Plan.leaves_nestedLoop]
    exact List.rel_append ih (.cons ⟨_, rfl⟩ .nil)

theorem joins (h : JoinTree next n consumer plans p) :
    (p.joins n).map (·.id) = (List.range n).map (fun k : Nat => next + k) ∧
      ∀ merge ∈ p.joins n, merge.validate = .ok () := by
  induction h with
  | leaf consumer p => simp
  | join _ hid _ _ hvalid ih =>
    obtain ⟨hids, hall⟩ := ih
    rw [Plan.joins_nestedLoop, List.map_append, hids, List.range_succ, List.map_append]
    refine ⟨by simp [hid], fun merge hmerge => ?_⟩
    rcases List.mem_append.1 hmerge with hmerge | hmerge
    · exact hall merge hmerge
    · rwa [List.mem_singleton.1 hmerge]

/-- The rows of the leaves stand side by side. -/
theorem outputTypes (h : JoinTree next n consumer plans p) :
    p.outputTypes = plans.flatMap Plan.outputTypes := by
  induction h with
  | leaf consumer p => simp [Plan.outputTypes_routeResult]
  | join _ _ _ _ _ ih => simp [Plan.outputTypes, Plan.outputTypes_routeResult, ih]

theorem outputTypes_leaves (h : JoinTree next n consumer plans p) :
    p.outputTypes = (p.leaves n).flatMap Plan.outputTypes := by
  rw [h.outputTypes, Plan.flatMap_routed Plan.outputTypes_routeResult h.leaves]

/-- The last join may run other projections on its rows. -/
theorem withProjections {left right : Plan} {leftOuter : Bool} {merge : MergeStage}
    (h : JoinTree next (n + 1) consumer plans (.nestedLoop left right leftOuter merge))
    {projections : List Projection} (hvalid : { merge with projections }.validate = .ok ()) :
    JoinTree next (n + 1) consumer plans
      (.nestedLoop left right leftOuter { merge with projections }) := by
  cases h with
  | join hleft hid hnodes hconsumer _ => exact .join hleft hid hnodes hconsumer hvalid

end JoinTree

namespace CrossJoin

/-- The merge stage of a new join is valid. -/
theorem validate_passThrough {merge : MergeStage} (h : merge.projections =
    [.nestedLoopMerge (Projection.passThrough merge.inputTypes)]) : merge.validate = .ok () := by
  rw [MergeStage.validate_eq_ok, h, MergeStage.checkChain_cons_eq_ok]
  exact ⟨fun hfetch => (nomatch hfetch), fun _ hc => Projection.fitsIn_passThrough hc, rfl⟩

/-- If a plan is a tree of joins wherever it is sent, so is its join with a further plan. -/
theorem joinTree_nestedLoop (handler : NodeId) {next : StageId} {n : Nat} {plans : List Plan}
    {left : Plan} (hleft : ∀ consumer, JoinTree next n consumer plans (left.routeResult consumer))
    (right : Plan) (consumer : Downstream) :
    JoinTree next (n + 1) consumer (plans ++ [right])
      ((nestedLoop handler (next + n) left right).routeResult consumer) := by
  rw [nestedLoop, Plan.routeResult, Plan.mapResultStage]
  · exact .join (hleft _) rfl rfl rfl (validate_passThrough rfl)
  · exact fun _ _ h => (nomatch h)

/-- Joining plans one after another gives a tree of joins over them. -/
theorem joinTree_joinAll (handler : NodeId) {next : StageId} {n : Nat} {plans : List Plan}
    {left : Plan} (hleft : ∀ consumer, JoinTree next n consumer plans (left.routeResult consumer))
    (rest : List Plan) (consumer : Downstream) :
    JoinTree next (n + rest.length) consumer (plans ++ rest)
      ((joinAll handler (next + n) left rest).routeResult consumer) := by
  induction rest generalizing n plans left with
  | nil => simpa [joinAll] using hleft consumer
  | cons right rest ih =>
    have h := ih (joinTree_nestedLoop handler hleft right)
    rw [List.append_assoc] at h
    rw [joinAll, List.length_cons, Nat.add_comm rest.length, ← Nat.add_assoc, Int.add_assoc]
    exact h

/-- The outermost join joins what comes before with the last plan. -/
theorem exists_joinAll_eq (handler : NodeId) (next : StageId) (left right : Plan)
    (rest : List Plan) : ∃ id left' right',
      joinAll handler next left (right :: rest) = nestedLoop handler id left' right' := by
  induction rest generalizing next left right with
  | nil => exact ⟨next, left, right, rfl⟩
  | cons right' rest ih => exact ih (next + 1) (nestedLoop handler next left right) right'

end CrossJoin

end ShardJoin
