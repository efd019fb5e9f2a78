/-
What one task does to the sub-contexts of a node.

Of what a task does, only this matters here: what the contexts have registered
and whether they are finished, how often sub-contexts were closed, the
searches that scripts keep, and the tasks that are caused.

* `Deed` — all that a task can do to these;
* `Effect.offering` — what offering a sub-context does;
* `Effect.deed` — a task does nothing else than the deeds allow.
-/
import ShardJoin.Job.Settle
import ShardJoin.Proofs.SortedMap

namespace ShardJoin.Job

/-! ### What is held -/

/-- What a context has registered, and its phase. -/
structure Holding where
  subContexts : SortedMap SubContextId SubContext
  phase : Phase

namespace Holding

/-- What a context has at first. -/
def new : Holding := ⟨.empty, .running⟩

/-- The serials of what is registered. -/
def serials (h : Holding) : List Nat := h.subContexts.values.map SubContext.serial

end Holding

/-- What a context has registered, and its phase. -/
def Context.holding (c : Context) : Holding := ⟨c.subContexts, c.phase⟩

/-- The serials of the sub-contexts that tasks are to close. -/
def pendingSerials (tasks : List Task) : List Nat :=
  tasks.filterMap fun
    | .closeSub _ sub => some sub.serial
    | _ => none

namespace Node

/-- What the contexts have registered, and their phases. -/
def holdings (n : Node) : List Holding := n.contexts.map Context.holding

/-- How often a sub-context was closed. -/
def closings (n : Node) (serial : Nat) : Nat := (n.fates[serial]?.map Fate.closings).getD 0

theorem holdings_modifyContext {n : Node} {f : Context → Context} {g : Holding → Holding}
    (i : ContextId) (h : ∀ c, (f c).holding = g c.holding) :
    (n.modifyContext i f).holdings = n.holdings.modify i g := by
  refine List.ext_getElem? fun j => ?_
  simp only [holdings, modifyContext, List.getElem?_map, List.getElem?_modify]
  cases n.contexts[j]? with
  | none => rfl
  | some c =>
    simp only [Option.map_some, Option.map_eq_map]
    split
    · rw [h]
    · rfl

/-! ### How often a sub-context was closed -/

theorem closings_of_le {n : Node} {s : Nat} (h : n.fates.length ≤ s) : n.closings s = 0 := by
  rw [closings, List.getElem?_eq_none h]
  rfl

theorem closings_append {n n' : Node} {fate : Fate} (h : n'.fates = n.fates ++ [fate])
    (hfate : fate.closings = 0) (s : Nat) : n'.closings s = n.closings s := by
  rw [closings, h, closings]
  rcases Nat.lt_trichotomy s n.fates.length with hs | rfl | hs
  · rw [List.getElem?_append_left hs]
  · simp [hfate]
  · rw [List.getElem?_eq_none (by rw [List.length_append]; exact hs),
      List.getElem?_eq_none (Nat.le_of_lt hs)]

theorem closings_markDropped (n : Node) (serial s : Nat) :
    (n.markDropped serial).closings s = n.closings s := by
  simp only [closings, markDropped, modifyFate, List.getElem?_modify]
  cases n.fates[s]? with
  | none => rfl
  | some fate => by_cases h : serial = s <;> simp [h]

theorem closings_markClosed {n : Node} {serial : Nat} (h : serial < n.fates.length) (s : Nat) :
    (n.markClosed serial).closings s = if s = serial then n.closings s + 1 else n.closings s := by
  simp only [closings, markClosed, modifyFate, List.getElem?_modify]
  by_cases hs : s = serial
  · subst hs
    simp [List.getElem?_eq_getElem h]
  · rw [if_neg hs]
    cases n.fates[s]? with
    | none => rfl
    | some fate => simp [Ne.symm hs]

theorem closings_markClosed_of_ne {n : Node} {serial s : Nat} (h : s ≠ serial) :
    (n.markClosed serial).closings s = n.closings s := by
  simp only [closings, markClosed, modifyFate, List.getElem?_modify]
  cases n.fates[s]? with
  | none => rfl
  | some fate => simp [h.symm]

end Node

/-! ### Deeds -/

/-- What becomes of an offered sub-context, and the tasks that the offer causes. -/
inductive Offering (n : Node) (i : ContextId) (id : SubContextId) (sub : SubContext)
    (reply : Reply) : Node → List Task → Prop
  /-- The context is finished. -/
  | reject {n' : Node} {h : Holding} {answer : Answer} (hi : n.holdings[i]? = some h)
    (hfinished : h.phase.isFinished = true) (hrefusal : answer.refusal?.isSome = true)
    (hholdings : n'.holdings = n.holdings) :
    Offering n i id sub reply n' [.closeSub i sub, .answer reply answer]
  /-- There is a sub-context of this id already. -/
  | evict {n' : Node} {h : Holding} {existing : SubContext} {answer : Answer}
    (hi : n.holdings[i]? = some h) (hopen : h.phase.isFinished = false)
    (hid : h.subContexts.get? id = some existing) (hrefusal : answer.refusal?.isSome = true)
    (hholdings : n'.holdings =
      n.holdings.modify i fun h => { h with subContexts := h.subContexts.erase id }) :
    Offering n i id sub reply n'
      [.closeSub i existing, .closeSub i sub, .answer reply answer]
  /-- The sub-context is registered. -/
  | accept {n' : Node} {h : Holding} {answer : Answer} (hi : n.holdings[i]? = some h)
    (hopen : h.phase.isFinished = false) (hid : h.subContexts.get? id = none)
    (hrefusal : answer.refusal? = none)
    (hholdings : n'.holdings =
      n.holdings.modify i fun h => { h with subContexts := h.subContexts.insert id sub }) :
    Offering n i id sub reply n' [.answer reply answer]

/-- Nothing of what contexts have is touched and nothing is closed; contexts may be opened, and
scripts may open searches of their own and let them go. -/
structure Aside (n n' : Node) : Prop where
  holdings : ∃ opened, n'.holdings = n.holdings ++ List.replicate opened .new
  fates : n.fates.length ≤ n'.fates.length
  searches : ∀ s ∈ n'.searches.values,
    s ∈ n.searches.values ∨ n.fates.length ≤ s ∧ s < n'.fates.length
  closings : ∀ s, n'.closings s = n.closings s

/-- What a task can do to the sub-contexts of a node, and the tasks that it causes. -/
inductive Deed (n : Node) (task : Task) : Node → List Task → Prop
  | aside {n' : Node} {pushed : List Task} (htask : pendingSerials [task] = [])
    (haside : Aside n n') (hpushed : pendingSerials pushed = []) : Deed n task n' pushed
  /-- A sub-context is closed. -/
  | close {n' : Node} {pushed : List Task} {i : ContextId} {sub : SubContext}
    (htask : task = .closeSub i sub) (hholdings : n'.holdings = n.holdings)
    (hfates : n'.fates = (n.markClosed sub.serial).fates) (hsearches : n'.searches = n.searches)
    (hpushed : pendingSerials pushed = []) : Deed n task n' pushed
  /-- A script closes a search of its own. -/
  | cancel {n' : Node} {search : Holder} {reply : Reply} {serial : Nat}
    (htask : task = .run (.closeSearch search) reply)
    (hsearch : n.searches.get? search = some serial) (hholdings : n'.holdings = n.holdings)
    (hfates : n'.fates = (n.markClosed serial).fates) (hsearches : n'.searches = n.searches) :
    Deed n task n' [.answer reply .done]
  /-- A sub-context is offered. -/
  | offer {n' : Node} {pushed : List Task} {command : Command} {reply : Reply} {i : ContextId}
    {id : SubContextId} {sub : SubContext} (htask : task = .run command reply)
    (hoffered : n.offered? command = some (i, id, sub))
    (hfates : n'.fates = n.fates ++ [.fresh]) (hsearches : n'.searches = n.searches)
    (hoffering : Offering n i id sub reply n' pushed) : Deed n task n' pushed
  /-- A context is finished. -/
  | finish {n' : Node} {i : ContextId} {c : Context} {target : Phase} {last : Task}
    (htask : pendingSerials [task] = []) (hlast : pendingSerials [last] = [])
    (hi : n.contexts[i]? = some c) (hopen : c.phase.isFinished = false)
    (hheld : n.isHeld i = true ∨ task.uses i = true) (htarget : target.isFinished = true)
    (hholdings : n'.holdings = n.holdings.modify i fun _ => ⟨.empty, target⟩)
    (hfates : n'.fates = n.fates) (hsearches : n'.searches = n.searches) :
    Deed n task n' (Node.finishTasks i c target ++ [last])

/-- A task causes some tasks before those that are still to be done. -/
def Causes (n : Node) (task : Task) (n' : Node) : Prop :=
  ∃ pushed, n'.agenda = pushed ++ n.agenda ∧ Deed n task n' pushed

/-! ### Commands and tasks that touch nothing -/

namespace Aside

variable {n n' : Node}

theorem of_same (hholdings : n'.holdings = n.holdings) (hfates : n'.fates = n.fates)
    (hsearches : n'.searches = n.searches) : Aside n n' where
  holdings := ⟨0, by simp [hholdings]⟩
  fates := Nat.le_of_eq (congrArg _ hfates.symm)
  searches s hs := .inl (hsearches ▸ hs)
  closings s := by rw [Node.closings, hfates, Node.closings]

/-- A context whose sub-contexts and phase stay. -/
theorem modifyContext (i : ContextId) {f : Context → Context}
    (h : ∀ c, (f c).holding = c.holding) : Aside n (n.modifyContext i f) := by
  refine of_same ?_ rfl rfl
  rw [Node.holdings_modifyContext (g := id) i h, List.modify_id]

theorem same {m : Node} (haside : Aside n m) (hcontexts : n'.contexts = m.contexts)
    (hfates : n'.fates = m.fates) (hsearches : n'.searches = m.searches) : Aside n n' where
  holdings := by
    rw [Node.holdings, hcontexts]
    exact haside.holdings
  fates := hfates ▸ haside.fates
  searches := by
    rw [hsearches, hfates]
    exact haside.searches
  closings s := by
    rw [Node.closings, hfates]
    exact haside.closings s

end Aside

/-! ### What is held -/

namespace Node

variable {n : Node}

theorem getElem?_holdings {i : ContextId} {c : Context} (h : n.contexts[i]? = some c) :
    n.holdings[i]? = some c.holding := by
  rw [holdings, List.getElem?_map, h, Option.map_some]

theorem isHeld_of_contextOf? {job : JobId} {i : ContextId} (h : n.contextOf? job = some i) :
    n.isHeld i = true := by
  have hmem := SortedMap.mem_values_iff.2 ⟨job, h⟩
  simp [isHeld, hmem]

/-- A command works on contexts that are held. -/
theorem isHeld_of_touches {command : Command} {reply : Reply} {i : ContextId}
    (h : i ∈ n.touches (.run command reply)) : n.isHeld i = true := by
  unfold touches at h
  split at h
  · exact isHeld_of_contextOf? (Option.mem_toList.1 h)
  · exact isHeld_of_contextOf? (Option.mem_toList.1 h)
  · obtain ⟨holder, -, hget⟩ := Option.bind_eq_some_iff.1 (Option.mem_toList.1 h)
    have hmem := SortedMap.mem_values_iff.2 ⟨holder, hget⟩
    simp [isHeld, hmem]
  all_goals rename_i heq; cases heq

theorem pendingSerials_hooks (steps : List Command) : pendingSerials (hooks steps) = [] := by
  unfold pendingSerials hooks
  rw [List.filterMap_map]
  exact List.filterMap_eq_nil_iff.2 fun _ _ => rfl

end Node

/-! ### Searches of scripts -/

namespace Aside

variable {n : Node}

theorem keepSearch (index : String) (shard : UInt32) (signal : Holder) :
    Aside n ((n.openSearch index shard signal).2.keepSearch signal
      (n.openSearch index shard signal).1) := by
  have hfates : ∀ s, (n.openSearch index shard signal).2.closings s = n.closings s :=
    Node.closings_append rfl rfl
  unfold Node.keepSearch
  refine ⟨⟨0, ?_⟩, ?_, fun s hs => ?_, fun s => ?_⟩
  · split <;> exact (List.append_nil _).symm
  · split <;> simp [Node.openSearch, Node.newSub, Node.markDropped, Node.modifyFate]
  · have hs' : s = n.fates.length ∨ s ∈ n.searches.values := by
      split at hs <;> exact SortedMap.mem_values_insert hs
    rcases hs' with rfl | hs'
    · right
      split <;> simp [Node.openSearch, Node.newSub, Node.markDropped, Node.modifyFate]
    · exact .inl hs'
  · split
    · exact (Node.closings_markDropped _ _ s).trans (hfates s)
    · exact hfates s

/-- A search that is opened for a context that does not exist. -/
theorem lostSearch (index : String) (shard : UInt32) (signal : Holder) :
    Aside n ((n.openSearch index shard signal).2.markDropped n.fates.length) where
  holdings := ⟨0, (List.append_nil _).symm⟩
  fates := by simp [Node.openSearch, Node.newSub, Node.markDropped, Node.modifyFate]
  searches _ hs := .inl hs
  closings s := (Node.closings_markDropped _ _ s).trans (Node.closings_append rfl rfl s)

theorem dropSearch (search : Holder) (serial : Nat) :
    Aside n { n.markDropped serial with searches := n.searches.erase search } where
  holdings := ⟨0, (List.append_nil _).symm⟩
  fates := by simp [Node.markDropped, Node.modifyFate]
  searches _ hs := .inl (SortedMap.mem_values_erase hs)
  closings s := Node.closings_markDropped n serial s

/-- A context is opened. -/
theorem opened {n' : Node} {c : Context} (hc : c.holding = .new)
    (hcontexts : n'.contexts = n.contexts ++ [c]) (hfates : n'.fates = n.fates)
    (hsearches : n'.searches = n.searches) : Aside n n' where
  holdings := ⟨1, by simp [Node.holdings, hcontexts, hc]⟩
  fates := Nat.le_of_eq (congrArg _ hfates.symm)
  searches s hs := .inl (hsearches ▸ hs)
  closings s := by rw [Node.closings, hfates, Node.closings]

end Aside

/-! ### Every task -/

namespace Effect

variable {n m : Node} {pushed : List Task}

/-- What offering a sub-context does. -/
theorem offering {command : Command} {reply : Reply} (h : Effect n (.run command reply) m pushed)
    {i : ContextId} {id : SubContextId} {sub : SubContext}
    (hoffered : n.offered? command = some (i, id, sub)) :
    m.fates = n.fates ++ [.fresh] ∧ m.searches = n.searches ∧
      Offering n i id sub reply (m.push pushed) pushed := by
  have hrefused : ∀ {answer : Answer} {cause : Fault}, answer.refusal? = some cause →
      answer.refusal?.isSome = true := fun h => by rw [h, Option.isSome_some]
  have hsame : ∀ {i' id' sub'}, n.offered? command = some (i', id', sub') →
      i' = i ∧ id' = id ∧ sub' = sub := fun h => by simpa using h.symm.trans hoffered
  cases h with
  | rejected hoffered' hc hfinished hanswer =>
    obtain ⟨rfl, rfl, rfl⟩ := hsame hoffered'
    exact ⟨rfl, rfl, .reject (Node.getElem?_holdings hc) hfinished (hrefused hanswer) rfl⟩
  | evicted hoffered' hc hopen hid hanswer =>
    obtain ⟨rfl, rfl, rfl⟩ := hsame hoffered'
    refine ⟨rfl, rfl, .evict (Node.getElem?_holdings hc) hopen hid (hrefused hanswer) ?_⟩
    exact Node.holdings_modifyContext _ fun _ => rfl
  | accepted hoffered' hc hopen hid hanswer =>
    obtain ⟨rfl, rfl, rfl⟩ := hsame hoffered'
    refine ⟨rfl, rfl, .accept (Node.getElem?_holdings hc) hopen hid hanswer ?_⟩
    exact Node.holdings_modifyContext _ fun _ => rfl
  | told hnone =>
    rw [hnone] at hoffered
    cases hoffered
  | lostSearch hheld =>
    rw [Node.offered?, hheld] at hoffered
    cases hoffered
  | taken _ htaken =>
    rcases htaken with rfl | ⟨rfl, -⟩ <;> cases hoffered
  | moved _ _ hmoved =>
    rcases hmoved with ⟨rfl, -⟩ | ⟨rfl, -⟩ <;> cases hoffered
  | finished _ htarget =>
    rw [Node.offered?_of_target? htarget] at hoffered
    cases hoffered
  | dropped | opened | entered | keptSearch | droppedSearch | closedSearch | registered | killAll =>
    cases hoffered

/-- A task does nothing else to the sub-contexts than the deeds allow. -/
theorem deed {task : Task} (h : Effect n task m pushed) : Deed n task (m.push pushed) pushed := by
  have hoffer : ∀ {command reply i id sub}, task = .run command reply →
      n.offered? command = some (i, id, sub) → Deed n task (m.push pushed) pushed := by
    rintro command reply i id sub rfl hoffered
    obtain ⟨hfates, hsearches, hoffering⟩ := h.offering hoffered
    exact .offer rfl hoffered hfates hsearches hoffering
  cases h with
  | told | taken | dropped | killAll | allKilled | closeCounted | endCounted | accountClosed | left
  | delivered => exact .aside rfl (.of_same rfl rfl rfl) rfl
  | called => exact .aside rfl (.of_same rfl rfl rfl) (Node.pendingSerials_hooks _)
  | opened | entered => exact .aside rfl (.opened rfl rfl rfl rfl) rfl
  | keptSearch hk =>
    subst hk
    refine .aside rfl ((Aside.keepSearch _ _ _).same ?_ rfl rfl) rfl
    unfold Node.keepSearch
    split <;> rfl
  | lostSearch => exact .aside rfl ((Aside.lostSearch _ _ _).same rfl rfl rfl) rfl
  | droppedSearch => exact .aside rfl ((Aside.dropSearch _ _).same rfl rfl rfl) rfl
  | closedSearch hsearch => exact .cancel rfl hsearch rfl rfl rfl
  | rejected hoffered | evicted hoffered | accepted hoffered => exact hoffer rfl hoffered
  | @registered _ tag steps _ i =>
    have haside : Aside n (n.modifyContext i fun c =>
        { c with callbacks := c.callbacks ++ [.script tag steps] }) := .modifyContext i fun _ => rfl
    exact .aside rfl (haside.same rfl rfl rfl) rfl
  | @moved _ _ _ _ i _ _ a' =>
    have haside : Aside n (n.modifyContext i ({ · with account := some a' })) :=
      .modifyContext i fun _ => rfl
    exact .aside rfl (haside.same rfl rfl rfl) rfl
  | finished hi htarget hc hopen =>
    refine .finish rfl rfl hc hopen (.inl (Node.isHeld_of_touches hi))
      (Task.isFinished_of_target? htarget) ?_ rfl rfl
    exact Node.holdings_modifyContext _ fun _ => rfl
  | killed hc hopen =>
    refine .finish rfl rfl hc hopen (.inr ?_) rfl ?_ rfl rfl
    · simp [Task.uses]
    · exact Node.holdings_modifyContext _ fun _ => rfl
  | closing hclose =>
    refine .close rfl rfl rfl rfl ?_
    rw [pendingSerials, List.filterMap_append, ← pendingSerials, Node.pendingSerials_hooks]
    rfl
  | cancelled => exact .close rfl rfl rfl rfl rfl

end Effect

theorem Node.doTask_causes (n : Node) (task : Task) : Causes n task (n.doTask task) := by
  obtain ⟨m, pushed, heq, heffect⟩ := n.doTask_effect task
  refine ⟨pushed, ?_, heq ▸ heffect.deed⟩
  rw [heq, Node.push, heffect.agenda]

end ShardJoin.Job
