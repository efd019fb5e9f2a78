/-
What one task does to the ledger of a node.

Contexts that are opened and sub-contexts that are registered or refused as
duplicates are counted at once.  The end of a context and a close that fails are
counted by a task of their own, which stands behind all that hooks and callbacks
do in between; until it is done, the count is owed.

* `Happening` — what is counted for a node;
* `Node.owes` — what a task is still to count;
* `Entry` — all that a task can do to the ledger, and the tasks that it causes;
* `Effect.entry` — a task does nothing else.
-/
import ShardJoin.Proofs.Job.Books

namespace ShardJoin

/-! ### Several changes together -/

namespace Ledger

/-- Adds to several counts, one after another. -/
def post (l : Ledger) (entries : List (Series × Int)) : Ledger :=
  entries.foldl (fun l e => l.add e.1 e.2) l

theorem changes_post (l : Ledger) (entries : List (Series × Int)) :
    (l.post entries).changes = l.changes ++ entries := by
  induction entries generalizing l with
  | nil => exact (List.append_nil _).symm
  | cons e entries ih =>
    have hadd : l.post (e :: entries) = (l.add e.1 e.2).post entries := rfl
    rw [hadd, ih, add, List.append_assoc, List.singleton_append]

end Ledger

namespace Job

/-! ### Happenings -/

/-- The calls for which something is counted. -/
inductive Kind where
  | opening
  | ending
  | offer
  | close
  deriving DecidableEq

/-- What the ledger counts for a node. -/
inductive Happening where
  | opened (node : NodeId)
  | ended (node : NodeId) (outcome : Phase)
  | registered (node : NodeId)
  | duplicate (node : NodeId)
  | closeFailed (node : NodeId)

namespace Happening

def kind : Happening → Kind
  | .opened _ => .opening
  | .ended .. => .ending
  | .registered _ | .duplicate _ => .offer
  | .closeFailed _ => .close

/-- The counts that change. -/
def entries : Happening → List (Series × Int)
  | .opened node => [(⟨.contextsOpened, [node]⟩, 1), (⟨.contextsActive, [node]⟩, 1)]
  | .ended node outcome =>
    [(⟨.contextsFinished, [node, outcome.name]⟩, 1), (⟨.contextsActive, [node]⟩, -1)]
  | .registered node => [(⟨.subContextsRegistered, [node]⟩, 1)]
  | .duplicate node => [(⟨.subContextDuplicates, [node]⟩, 1)]
  | .closeFailed node => [(⟨.subContextCloseFailures, [node]⟩, 1)]

/-- What is counted of an offer that is answered with a refusal or without one. -/
def ofVerdict (node : NodeId) : Option Fault → List Happening
  | none => [.registered node]
  | some (.duplicateContext ..) => [.duplicate node]
  | some _ => []

theorem kind_ofVerdict {node : NodeId} {refusal : Option Fault} {e : Happening}
    (h : e ∈ ofVerdict node refusal) : e.kind = .offer := by
  unfold ofVerdict at h
  split at h
  · rw [List.mem_singleton.1 h]
    rfl
  · rw [List.mem_singleton.1 h]
    rfl
  · cases h

end Happening

/-- What happenings add to the counts of some series. -/
def gain (p : Series → Bool) (happened : List Happening) : Int :=
  Ledger.total p (happened.flatMap Happening.entries)

@[simp] theorem gain_nil (p : Series → Bool) : gain p [] = 0 := rfl

theorem gain_cons (p : Series → Bool) (e : Happening) (l : List Happening) :
    gain p (e :: l) = Ledger.total p e.entries + gain p l := by
  rw [gain, List.flatMap_cons, Ledger.total_append, gain]

theorem gain_append (p : Series → Bool) (l l' : List Happening) :
    gain p (l ++ l') = gain p l + gain p l' := by
  rw [gain, List.flatMap_append, Ledger.total_append, gain, gain]

/-- The context that a task closes something of, or counts for. -/
def Task.place? : Task → Option ContextId
  | .closeSub i _ | .subClosed i _ | .finished i _ => some i
  | _ => none

/-- The node of a context and its phase. -/
def Context.mark (c : Context) : NodeId × Phase := (c.node, c.phase)

namespace Node

/-- The nodes of the contexts and their phases. -/
def marks (n : Node) : List (NodeId × Phase) := n.contexts.map Context.mark

/-- What a task is still to count. -/
def owes (n : Node) : Task → List Happening
  | .finished i outcome => (n.marks[i]?.map fun m => .ended m.1 outcome).toList
  | .subClosed i true => (n.marks[i]?.map fun m => .closeFailed m.1).toList
  | _ => []

theorem kind_owes {n : Node} {i : ContextId} {fails : Bool} {e : Happening}
    (h : e ∈ n.owes (.subClosed i fails)) : e.kind = .close := by
  cases fails with
  | false => cases h
  | true =>
    obtain ⟨_, -, rfl⟩ := Option.map_eq_some_iff.1 (Option.mem_toList.1 h)
    rfl

/-- The sub-context that a task offers. -/
def offeredBy? (n : Node) : Task → Option (ContextId × SubContextId × SubContext)
  | .run command _ => n.offered? command
  | _ => none

theorem getElem?_marks {n : Node} {i : ContextId} {c : Context} (h : n.contexts[i]? = some c) :
    n.marks[i]? = some c.mark := by
  rw [marks, List.getElem?_map, h, Option.map_some]

theorem exists_of_getElem?_marks {n : Node} {i : ContextId} {m : NodeId × Phase}
    (h : n.marks[i]? = some m) : ∃ c, n.contexts[i]? = some c ∧ c.mark = m := by
  rw [marks, List.getElem?_map] at h
  exact Option.map_eq_some_iff.1 h

theorem marks_modifyContext {n : Node} {f : Context → Context} {g : NodeId × Phase → NodeId × Phase}
    (i : ContextId) (h : ∀ c, (f c).mark = g c.mark) :
    (n.modifyContext i f).marks = n.marks.modify i g := by
  refine List.ext_getElem? fun j => ?_
  simp only [marks, modifyContext, List.getElem?_map, List.getElem?_modify]
  cases n.contexts[j]? with
  | none => rfl
  | some c =>
    simp only [Option.map_some, Option.map_eq_map]
    split
    · rw [h]
    · rfl

/-- A change that does not show in the marks. -/
theorem marks_modifyContext_eq {n : Node} {f : Context → Context} (i : ContextId)
    (h : ∀ c, (f c).mark = c.mark) : (n.modifyContext i f).marks = n.marks := by
  rw [marks_modifyContext (g := id) i h, List.modify_id]

end Node

/-! ### Entries -/

/-- What a task can do to the ledger of a node, the tasks that it causes, and what has happened
then. -/
inductive Entry (n : Node) (task : Task) (n' : Node) (pushed : List Task) :
    List Happening → Prop
  | aside (hplace : task.place? = none) (hoffered : n.offeredBy? task = none)
    (hmarks : n'.marks = n.marks) (hledger : n'.ledger = n.ledger)
    (hpushed : ∀ x ∈ pushed, x.place? = none) : Entry n task n' pushed []
  | opened {node : NodeId} (hplace : task.place? = none) (hoffered : n.offeredBy? task = none)
    (hmarks : n'.marks = n.marks ++ [(node, .running)])
    (hledger : n'.ledger = n.ledger.post (Happening.opened node).entries)
    (hpushed : ∀ x ∈ pushed, x.place? = none) : Entry n task n' pushed [.opened node]
  /-- A context is finished; that is counted after all that it causes. -/
  | ended {i : ContextId} {c : Context} {target : Phase} {last : Task}
    (hplace : task.place? = none) (hoffered : n.offeredBy? task = none)
    (hc : n.contexts[i]? = some c) (hopen : c.phase.isFinished = false)
    (htarget : task.target? = some target)
    (hmarks : n'.marks = n.marks.modify i fun m => (m.1, target)) (hledger : n'.ledger = n.ledger)
    (hlast : last.place? = none) (hpushed : pushed = Node.finishTasks i c target ++ [last]) :
    Entry n task n' pushed [.ended c.node target]
  /-- A sub-context is offered; its answer says what is counted. -/
  | offered {command : Command} {reply : Reply} {i : ContextId} {id : SubContextId}
    {sub : SubContext} {c : Context} {tasks : List Task} {answer : Answer}
    (htask : task = .run command reply) (hoffered : n.offered? command = some (i, id, sub))
    (hc : n.contexts[i]? = some c) (hmarks : n'.marks = n.marks)
    (hledger : n'.ledger =
      n.ledger.post ((Happening.ofVerdict c.node answer.refusal?).flatMap Happening.entries))
    (htasks : ∀ x ∈ tasks, ∃ sub', x = .closeSub i sub')
    (hpushed : pushed = tasks ++ [.answer reply answer]) :
    Entry n task n' pushed (Happening.ofVerdict c.node answer.refusal?)
  /-- A sub-context is closed; that the close fails is counted after its hooks. -/
  | closing {i : ContextId} {sub : SubContext} {steps : List Command} {fails : Bool}
    (htask : task = .closeSub i sub) (hmarks : n'.marks = n.marks) (hledger : n'.ledger = n.ledger)
    (hpushed : pushed = Node.hooks steps ++ [.subClosed i fails]) :
    Entry n task n' pushed (n.owes (.subClosed i fails))
  | cancelled {i : ContextId} {sub : SubContext} (htask : task = .closeSub i sub)
    (hmarks : n'.marks = n.marks) (hledger : n'.ledger = n.ledger) (hpushed : pushed = []) :
    Entry n task n' pushed []
  /-- What was owed is counted. -/
  | paid (htask : (∃ i fails, task = .subClosed i fails) ∨ ∃ i outcome, task = .finished i outcome)
    (hmarks : n'.marks = n.marks)
    (hledger : n'.ledger = n.ledger.post ((n.owes task).flatMap Happening.entries))
    (hpushed : pushed = []) : Entry n task n' pushed []

/-! ### Every task -/

namespace Node

variable {n : Node}

theorem place?_answer (reply : Reply) (answer : Answer) :
    ∀ x ∈ [Task.answer reply answer], x.place? = none := by
  simp [Task.place?]

theorem place?_hooks (steps : List Command) : ∀ x ∈ hooks steps, x.place? = none := by
  intro x hx
  obtain ⟨_, -, rfl⟩ := List.mem_map.1 hx
  rfl

/-- The context that is put in place of a finished one is of the same node. -/
theorem marks_takeOut {i : ContextId} {c : Context} (hc : n.contexts[i]? = some c)
    (target : Phase) : (n.takeOut i c target).marks = n.marks.modify i fun m => (m.1, target) := by
  refine List.ext_getElem? fun j => ?_
  simp only [takeOut, marks, modifyContext, List.getElem?_map, List.getElem?_modify]
  by_cases hij : i = j
  · subst hij
    simp [hc, Context.mark, Context.emptied]
  · cases n.contexts[j]? <;> simp [hij]

/-- Counting for the node of a context pays what is owed for it. -/
theorem ledger_countFor (i : ContextId) {f : Ledger → NodeId → Ledger}
    {g : NodeId × Phase → Happening} (h : ∀ l c, f l (Context.node c) = l.post (g c.mark).entries) :
    (n.countFor i f).ledger =
      n.ledger.post ((n.marks[i]?.map g).toList.flatMap Happening.entries) := by
  unfold countFor
  cases hc : n.contexts[i]? with
  | none => simp [marks, hc, Ledger.post]
  | some c =>
    rw [getElem?_marks hc]
    simpa [count] using h n.ledger c

end Node

/-- A task does nothing else to the ledger. -/
theorem Effect.entry {n m : Node} {task : Task} {pushed : List Task} (h : Effect n task m pushed) :
    ∃ happened, Entry n task (m.push pushed) pushed happened := by
  cases h with
  | told hoffered => exact ⟨[], .aside rfl hoffered rfl rfl (Node.place?_answer _ _)⟩
  | taken _ htaken =>
    refine ⟨[], .aside rfl ?_ rfl rfl (Node.place?_answer _ _)⟩
    rcases htaken with rfl | ⟨rfl, -⟩ <;> rfl
  | dropped | keptSearch | droppedSearch | closedSearch | killAll | allKilled | accountClosed
  | left | delivered => exact ⟨[], .aside rfl rfl rfl rfl (by simp [Task.place?])⟩
  | called => exact ⟨[], .aside rfl rfl rfl rfl (Node.place?_hooks _)⟩
  | lostSearch hheld =>
    refine ⟨[], .aside rfl ?_ rfl rfl (Node.place?_answer _ _)⟩
    rw [Node.offeredBy?, Node.offered?, hheld, Option.map_none]
  | opened | entered =>
    refine ⟨_, .opened rfl rfl ?_ rfl (Node.place?_answer _ _)⟩
    exact List.map_append
  | registered =>
    refine ⟨[], .aside rfl rfl ?_ rfl (Node.place?_answer _ _)⟩
    exact Node.marks_modifyContext_eq _ fun _ => rfl
  | moved _ _ hmoved =>
    refine ⟨[], .aside rfl ?_ ?_ rfl (Node.place?_answer _ _)⟩
    · rcases hmoved with ⟨rfl, -⟩ | ⟨rfl, -⟩ <;> rfl
    · exact Node.marks_modifyContext_eq _ fun _ => rfl
  -- what is counted of an offer is what its answer says
  | rejected hoffered hc _ hanswer =>
    refine ⟨_, .offered rfl hoffered hc rfl ?_ (by simp) (show _ = [_] ++ _ from rfl)⟩
    rw [hanswer]
    rfl
  | evicted hoffered hc _ _ hanswer =>
    refine ⟨_, .offered rfl hoffered hc ?_ ?_ (by simp) (show _ = [_, _] ++ _ from rfl)⟩
    · exact Node.marks_modifyContext_eq _ fun _ => rfl
    · rw [hanswer]
      rfl
  | accepted hoffered hc _ _ hanswer =>
    refine ⟨_, .offered rfl hoffered hc ?_ ?_ (by simp) (List.nil_append _).symm⟩
    · exact Node.marks_modifyContext_eq _ fun _ => rfl
    · rw [hanswer]
      rfl
  | finished _ htarget hc hopen =>
    exact ⟨_, .ended rfl (Node.offered?_of_target? htarget) hc hopen htarget
      (Node.marks_takeOut hc _) rfl rfl rfl⟩
  | killed hc hopen =>
    exact ⟨_, .ended rfl rfl hc hopen rfl (Node.marks_takeOut hc _) rfl rfl rfl⟩
  | closing => exact ⟨_, .closing rfl rfl rfl rfl⟩
  | cancelled => exact ⟨[], .cancelled rfl rfl rfl rfl⟩
  | @closeCounted i fails =>
    refine ⟨[], .paid (.inl ⟨i, fails, rfl⟩) rfl ?_ rfl⟩
    cases fails with
    | false => rfl
    | true =>
      exact Node.ledger_countFor i (f := Ledger.closeFailed) (g := fun m => .closeFailed m.1)
        fun _ _ => rfl
  | @endCounted i outcome =>
    refine ⟨[], .paid (.inr ⟨i, outcome, rfl⟩) rfl ?_ rfl⟩
    exact Node.ledger_countFor i (f := (·.contextFinished · outcome.name))
      (g := fun m => .ended m.1 outcome) fun _ _ => rfl

namespace Node

/-- Letting contexts go changes neither nodes nor phases. -/
theorem marks_sweep (n : Node) : n.sweep.marks = n.marks := by
  refine List.ext_getElem? fun j => ?_
  rw [marks, List.getElem?_map, marks, List.getElem?_map]
  rcases n.contexts_sweep.2.2 j with heq | ⟨-, heq⟩
  · rw [heq]
  · rw [heq, Option.map_map]
    rfl

end Node

end Job

end ShardJoin
