/-
What one task does to the books of a node.

The books of a node are what its contexts have but for their sub-contexts, its
budget and the limit of its jobs.  A task opens a context, registers a
callback, moves bytes between an account and the budget, gives back what the
account of a finished context held, or finishes a context.

* `Posting` — all that a task can do to the books, and the tasks that it causes;
* `Posting.next` — what it does to one context;
* `Effect.posting` — a task does nothing else;
* `Node.standings_sweep` — letting contexts go empties none that somebody holds;
* `Node.sweep_eq_self` — it does nothing at all if all open contexts are held.
-/
import ShardJoin.Proofs.Job.Turn
import ShardJoin.Proofs.Memory.Conservation

namespace ShardJoin.Job

/-! ### Books -/

/-- What a context has, but for its sub-contexts. -/
structure Standing where
  phase : Phase
  callbacks : List Callback
  account : Option Account
  finalBytes : UInt64

namespace Standing

/-- The bytes held, or held when the job was finished. -/
def bytes (s : Standing) : UInt64 :=
  match s.account with
  | some a => a.used
  | none => s.finalBytes

/-- What is left when everything has been taken out. -/
def emptied (s : Standing) : Standing := { s with callbacks := [], account := none }

end Standing

/-- What a context has, but for its sub-contexts. -/
def Context.standing (c : Context) : Standing := ⟨c.phase, c.callbacks, c.account, c.finalBytes⟩

theorem Context.bytes_standing (c : Context) : c.standing.bytes = c.bytes := rfl

/-- What the contexts of a node have, the budget they share and the limit of each. -/
structure Books where
  standings : List Standing
  budget : Budget
  jobLimit : UInt64

/-- Whether a task neither closes an account nor calls a callback. -/
def Task.isCalm : Task → Bool
  | .closeAccount .. | .notify .. => false
  | _ => true

/-- Whether a task comes back from a call: it answers, or goes on with killing several contexts. -/
def Task.isReturn : Task → Bool
  | .answer .. | .killNext .. => true
  | _ => false

/-- The account that a task is to close. -/
def Task.account? : Task → Option Account
  | .closeAccount _ account => some account
  | _ => none

/-- Whether a task opens a context outside the directory. -/
def Task.opensOutside : Task → Bool
  | .run (.start ..) _ => true
  | _ => false

theorem Task.account?_of_isCalm {task : Task} (h : task.isCalm = true) : task.account? = none := by
  unfold account?
  split
  · cases h
  · rfl

theorem Task.isCalm_of_isReturn {task : Task} (h : task.isReturn = true) : task.isCalm = true := by
  cases task with
  | answer | killNext => rfl
  | run | closeSub | subClosed | closeAccount | notify | finished => cases h

namespace Node

def books (n : Node) : Books := ⟨n.contexts.map Context.standing, n.budget, n.jobLimit⟩

theorem getElem?_standings {n : Node} {i : ContextId} {c : Context} (h : n.contexts[i]? = some c) :
    n.books.standings[i]? = some c.standing := by
  rw [books, List.getElem?_map, h, Option.map_some]

theorem exists_of_getElem?_standings {n : Node} {i : ContextId} {s : Standing}
    (h : n.books.standings[i]? = some s) : ∃ c, n.contexts[i]? = some c ∧ c.standing = s := by
  rw [books, List.getElem?_map] at h
  exact Option.map_eq_some_iff.1 h

theorem books_modifyContext (n : Node) {f : Context → Context} {g : Standing → Standing}
    (i : ContextId) (h : ∀ c, (f c).standing = g c.standing) :
    (n.modifyContext i f).books = { n.books with standings := n.books.standings.modify i g } := by
  have hstandings : (n.contexts.modify i f).map Context.standing =
      (n.contexts.map Context.standing).modify i g := by
    refine List.ext_getElem? fun j => ?_
    simp only [List.getElem?_map, List.getElem?_modify, Option.map_map, Option.map_eq_map]
    cases n.contexts[j]? with
    | none => rfl
    | some c =>
      by_cases hij : i = j
      · simp [hij, h]
      · simp [hij]
  show Books.mk ((n.contexts.modify i f).map Context.standing) n.budget n.jobLimit = _
  rw [hstandings]
  rfl

/-- A change that does not show in the books. -/
theorem books_modifyContext_eq (n : Node) {f : Context → Context} (i : ContextId)
    (h : ∀ c, (f c).standing = c.standing) : (n.modifyContext i f).books = n.books := by
  rw [books_modifyContext n (g := id) i h, List.modify_id]

end Node

/-! ### Postings -/

/-- What a task can do to the books of a node, and the tasks that it causes. -/
inductive Posting (n : Node) (task : Task) (n' : Node) (pushed : List Task) : Prop
  | aside (htask : task.account? = none) (hbooks : n'.books = n.books)
    (haccepts : ∀ i, n.accepts task i = []) (hpushed : ∀ x ∈ pushed, x.isCalm = true)
  /-- A context is opened; it is entered in the directory, or it stays outside of it. -/
  | opened {c : Context} (label : String) (limit : UInt64) (callbacks : List Callback)
    (htask : task.isCalm = true) (hcontexts : n'.contexts = n.contexts ++ [c])
    (hentered : task.opensOutside = false → limit = n.jobLimit ∧
      n.openContextOf? c.job = none ∧ n'.directory = n.directory.insert c.job n.contexts.length)
    (hbooks : n'.books = { n.books with
      standings := n.books.standings ++ [⟨.running, callbacks, some (.start label limit), 0⟩] })
    (haccepts : ∀ i, n.accepts task i = if i = n.contexts.length then callbacks else [])
    (hpushed : ∀ x ∈ pushed, x.isCalm = true)
  | registered {i : ContextId} {c : Context} (callback : Callback) (htask : task.isCalm = true)
    (hi : n.contexts[i]? = some c) (hopen : c.phase.isFinished = false)
    (hbooks : n'.books = { n.books with standings := n.books.standings.modify i fun s =>
      { s with callbacks := s.callbacks ++ [callback] } })
    (haccepts : ∀ j, n.accepts task j = if j = i then [callback] else [])
    (hpushed : ∀ x ∈ pushed, x.isCalm = true)
  | moved {i : ContextId} {s : Standing} {a a' : Account} (htask : task.isCalm = true)
    (hi : n.books.standings[i]? = some s) (ha : s.account = some a)
    (hmoves : a.Sound → a.Moves n.budget a' n'.budget)
    (hbooks : n'.books = { n.books with
      standings := n.books.standings.modify i ({ · with account := some a' })
      budget := n'.budget })
    (haccepts : ∀ i, n.accepts task i = []) (hpushed : ∀ x ∈ pushed, x.isCalm = true)
  | paid {i : ContextId} {a : Account} (htask : task = .closeAccount i a)
    (hbooks : n'.books = { n.books with budget := (a.close n.budget).2 }) (hpushed : pushed = [])
  | finish {i : ContextId} {c : Context} {target : Phase} {last : Task}
    (htask : task.isCalm = true) (hi : n.contexts[i]? = some c)
    (hopen : c.phase.isFinished = false) (htarget : task.target? = some target)
    (hbooks : n'.books = { n.books with
      standings := n.books.standings.modify i fun _ => ⟨target, [], none, c.bytes⟩ })
    (haccepts : ∀ i, n.accepts task i = []) (hlast : last.isReturn = true)
    (hpushed : pushed = Node.finishTasks i c target ++ [last])

/-- What a task can do to what one context has, and the callbacks that it registers with it. -/
inductive Standing.Next (s : Standing) : Standing → List Callback → Prop
  | kept : s.Next s []
  | registered (hopen : s.phase.isFinished = false) (callback : Callback) :
    s.Next { s with callbacks := s.callbacks ++ [callback] } [callback]
  | moved {a a' : Account} (ha : s.account = some a) : s.Next { s with account := some a' } []
  | finish {target : Phase} (hopen : s.phase.isFinished = false)
    (htarget : target.isFinished = true) : s.Next ⟨target, [], none, s.bytes⟩ []

namespace Posting

variable {n n' : Node} {task : Task} {pushed : List Task} (h : Posting n task n' pushed)
  {i : ContextId}
include h

/-- What a task does to one context. -/
theorem next {s : Standing} (hs : n.books.standings[i]? = some s) :
    ∃ s', n'.books.standings[i]? = some s' ∧ s.Next s' (n.accepts task i) := by
  have hlt := (List.getElem?_eq_some_iff.1 hs).1
  have hlt' : i < n.contexts.length := by rwa [Node.books, List.length_map] at hlt
  have hkept : n'.books.standings[i]? = some s → n.accepts task i = [] →
      ∃ s', n'.books.standings[i]? = some s' ∧ s.Next s' (n.accepts task i) := by
    intro hs' haccepts
    rw [haccepts]
    exact ⟨s, hs', .kept⟩
  have hmodify : ∀ {j f}, n'.books.standings = n.books.standings.modify j f →
      (i = j → s.Next (f s) (n.accepts task i)) → (i ≠ j → n.accepts task i = []) →
      ∃ s', n'.books.standings[i]? = some s' ∧ s.Next s' (n.accepts task i) := by
    intro j f hstandings hnext hnone
    by_cases hij : i = j
    · refine ⟨f s, ?_, hnext hij⟩
      rw [hstandings, ← hij, List.getElem?_modify_eq, hs]
      rfl
    · refine hkept ?_ (hnone hij)
      rw [hstandings, List.getElem?_modify_ne _ _ (Ne.symm hij), hs]
  cases h with
  | aside _ hbooks haccepts _ => exact hkept (hbooks ▸ hs) (haccepts i)
  | opened label limit callbacks _ _ _ hbooks haccepts _ =>
    refine hkept ?_ ((haccepts i).trans (if_neg (Nat.ne_of_lt hlt')))
    have hstandings := congrArg Books.standings hbooks
    rw [hstandings, List.getElem?_append_left hlt, hs]
  | registered callback _ hj hopen hbooks haccepts _ =>
    refine hmodify (congrArg Books.standings hbooks) ?_ fun hij => (haccepts i).trans (if_neg hij)
    rintro rfl
    obtain rfl := Option.some.inj ((Node.getElem?_standings hj).symm.trans hs)
    rw [haccepts, if_pos rfl]
    exact .registered hopen callback
  | moved _ hj ha _ hbooks haccepts _ =>
    refine hmodify (congrArg Books.standings hbooks) ?_ fun _ => haccepts i
    rintro rfl
    obtain rfl := Option.some.inj (hj.symm.trans hs)
    rw [haccepts]
    exact .moved ha
  | paid htask hbooks _ =>
    subst htask
    have hstandings := congrArg Books.standings hbooks
    exact hkept (hstandings ▸ hs) rfl
  | finish _ hj hopen htarget hbooks haccepts _ _ =>
    refine hmodify (congrArg Books.standings hbooks) ?_ fun _ => haccepts i
    rintro rfl
    obtain rfl := Option.some.inj ((Node.getElem?_standings hj).symm.trans hs)
    rw [haccepts]
    exact .finish hopen (Task.isFinished_of_target? htarget)

/-- What a context has that a task opens, and which callbacks this registers. -/
theorem next_of_absent (hs : n.books.standings[i]? = none) :
    n'.books.standings[i]? = none ∧ n.accepts task i = [] ∨
      ∃ account, n'.books.standings[i]? =
        some ⟨.running, n.accepts task i, some account, 0⟩ := by
  have hlength : n.books.standings.length = n.contexts.length := by rw [Node.books, List.length_map]
  have hle := List.getElem?_eq_none_iff.1 hs
  have habsent : n'.books.standings.length = n.books.standings.length →
      n'.books.standings[i]? = none := by
    intro hsame
    rw [List.getElem?_eq_none_iff, hsame]
    exact hle
  cases h with
  | aside _ hbooks haccepts _ => exact .inl ⟨hbooks ▸ hs, haccepts i⟩
  | opened label limit callbacks _ _ _ hbooks haccepts _ =>
    have hstandings := congrArg Books.standings hbooks
    rw [hstandings, List.getElem?_append_right hle, haccepts]
    by_cases hi : i = n.contexts.length
    · right
      refine ⟨.start label limit, ?_⟩
      rw [if_pos hi, hi, hlength, Nat.sub_self]
      rfl
    · left
      have hlt : n.books.standings.length < i :=
        Nat.lt_of_le_of_ne hle fun heq => hi (heq.symm.trans hlength)
      refine ⟨List.getElem?_eq_none ?_, if_neg hi⟩
      rw [List.length_singleton]
      omega
  | registered callback _ hj _ hbooks haccepts _ =>
    refine .inl ⟨habsent ?_, (haccepts i).trans (if_neg ?_)⟩
    · rw [hbooks, List.length_modify]
    · rintro rfl
      rw [Node.getElem?_standings hj] at hs
      cases hs
  | moved _ _ _ _ hbooks haccepts _ =>
    refine .inl ⟨habsent ?_, haccepts i⟩
    rw [hbooks, List.length_modify]
  | paid htask hbooks _ =>
    subst htask
    have hstandings := congrArg Books.standings hbooks
    exact .inl ⟨hstandings ▸ hs, rfl⟩
  | finish _ _ _ _ hbooks haccepts _ _ =>
    refine .inl ⟨habsent ?_, haccepts i⟩
    rw [hbooks, List.length_modify]

end Posting

/-- A task does something to the books and causes some tasks before those that are still to be
done. -/
def Posts (n : Node) (task : Task) (n' : Node) : Prop :=
  ∃ pushed, n'.agenda = pushed ++ n.agenda ∧ Posting n task n' pushed

/-! ### Every task -/

namespace Node

variable {n : Node}

theorem isCalm_hooks (steps : List Command) : ∀ x ∈ hooks steps, x.isCalm = true := by
  intro x hx
  obtain ⟨_, -, rfl⟩ := List.mem_map.1 hx
  rfl

theorem books_opened (n : Node) (job : JobId) (node : NodeId) (label : String) (limit : UInt64)
    (callbacks : List Callback) : ({ n with contexts := n.contexts ++
        [.opened job node (.start label limit) callbacks] } : Node).books =
      { n.books with
        standings := n.books.standings ++ [⟨.running, callbacks, some (.start label limit), 0⟩] } := by
  rw [books, List.map_append]
  rfl

/-- Finishing a context leaves nothing with it. -/
theorem books_takeOut (n : Node) (i : ContextId) (c : Context) (target : Phase) :
    (n.takeOut i c target).books = { n.books with
      standings := n.books.standings.modify i fun _ => ⟨target, [], none, c.bytes⟩ } :=
  n.books_modifyContext i fun _ => rfl

end Node

/-- A task does nothing else to the books. -/
theorem Effect.posting {n m : Node} {task : Task} {pushed : List Task}
    (h : Effect n task m pushed) : Posting n task (m.push pushed) pushed := by
  have hanswer : ∀ (reply : Reply) (answer : Answer),
      ∀ x ∈ [Task.answer reply answer], x.isCalm = true := by
    simp [Task.isCalm]
  cases h with
  | told _ haccepts => exact .aside rfl rfl haccepts (hanswer _ _)
  | taken _ htaken =>
    refine .aside rfl rfl (fun i => ?_) (hanswer _ _)
    rcases htaken with rfl | ⟨rfl, hopen⟩
    · rfl
    · simp [Node.accepts, hopen]
  | dropped | keptSearch | lostSearch | droppedSearch | closedSearch | killAll | allKilled
  | cancelled | closeCounted | endCounted | left | delivered =>
    exact .aside rfl rfl (fun _ => rfl) (by simp [Task.isCalm])
  | called => exact .aside rfl rfl (fun _ => rfl) (Node.isCalm_hooks _)
  | closing =>
    exact .aside rfl rfl (fun _ => rfl)
      (List.forall_mem_append.2 ⟨Node.isCalm_hooks _, List.forall_mem_singleton.2 rfl⟩)
  | @opened job label limit node =>
    refine .opened label limit [] rfl rfl (fun hinside => by cases hinside) ?_
      (fun _ => (ite_self _).symm) (hanswer _ _)
    exact n.books_opened job node label limit []
  | @entered job _ _ hnone =>
    refine .opened ("job-" ++ toString job.toNat) n.jobLimit [.leave] rfl rfl
      (fun _ => ⟨rfl, hnone, rfl⟩) ?_ (fun i => ?_) (hanswer _ _)
    · exact n.books_opened job n.name _ _ _
    · simp [Node.accepts, hnone]
  | rejected hoffered =>
    exact .aside rfl rfl (Node.accepts_of_offered? hoffered _) (by simp [Task.isCalm])
  | evicted hoffered =>
    refine .aside rfl ?_ (Node.accepts_of_offered? hoffered _) (by simp [Task.isCalm])
    exact n.books_modifyContext_eq _ fun _ => rfl
  | accepted hoffered =>
    refine .aside rfl ?_ (Node.accepts_of_offered? hoffered _) (hanswer _ _)
    exact n.books_modifyContext_eq _ fun _ => rfl
  | @registered _ tag steps _ _ _ hheld hopen =>
    refine .registered (.script tag steps) rfl (Node.contexts_of_held? hheld) hopen
      (n.books_modifyContext _ fun _ => rfl) (fun j => ?_) (hanswer _ _)
    simp [Node.accepts, hheld, hopen]
  | @moved command reply _ bytes i _ a a' budget hheld ha hmoved =>
    have hmoves : a.Sound → a.Moves n.budget a' budget := by
      intro hsound
      rcases hmoved with ⟨-, hcharged⟩ | ⟨-, hreleased⟩
      · have hmoves := Account.charge_moves hsound n.budget bytes
        rwa [hcharged] at hmoves
      · have hmoves := Account.release_moves hsound n.budget bytes
        rwa [hreleased] at hmoves
    refine .moved (i := i) rfl (Node.getElem?_standings (Node.contexts_of_held? hheld)) ha hmoves ?_
      (fun _ => ?_) (hanswer _ _)
    · have hbooks := n.books_modifyContext (f := ({ · with account := some a' }))
        (g := ({ · with account := some a' })) i fun _ => rfl
      show Books.mk (n.modifyContext i _).books.standings budget n.jobLimit = _
      rw [hbooks]
      rfl
    · rcases hmoved with ⟨rfl, -⟩ | ⟨rfl, -⟩ <;> rfl
  | accountClosed => exact .paid rfl rfl rfl
  | finished _ htarget hc hopen =>
    exact .finish rfl hc hopen htarget (n.books_takeOut ..) (Node.accepts_of_target? htarget) rfl rfl
  | killed hc hopen =>
    exact .finish rfl hc hopen rfl (n.books_takeOut ..) (fun _ => rfl) rfl rfl

namespace Node

variable {n : Node}

theorem doTask_posts (n : Node) (task : Task) : Posts n task (n.doTask task) := by
  obtain ⟨m, pushed, heq, heffect⟩ := n.doTask_effect task
  refine ⟨pushed, ?_, heq ▸ heffect.posting⟩
  rw [heq, push, heffect.agenda]

/-! ### Letting go -/

/-- A context that nobody holds may be emptied, all others keep what they have. -/
theorem standings_sweep (n : Node) (i : ContextId) :
    n.sweep.books.standings[i]? = n.books.standings[i]? ∨ n.isHeld i = false ∧
      n.sweep.books.standings[i]? = n.books.standings[i]?.map .emptied := by
  simp only [books, List.getElem?_map]
  rcases n.contexts_sweep.2.2 i with heq | ⟨hheld, heq⟩
  · exact .inl (by rw [heq])
  · refine .inr ⟨hheld, ?_⟩
    rw [heq, Option.map_map, Option.map_map]
    rfl

/-- Nothing is let go if all open contexts are held. -/
theorem sweep_eq_self (h : ∀ i c, n.contexts[i]? = some c → c.phase.isFinished = false →
    n.isHeld i = true) : n.sweep = n := by
  have hplace : ∀ i, n.letGoUnheld i = n := by
    intro i
    unfold letGoUnheld
    split
    · rename_i c hc
      refine if_neg ?_
      rw [Context.isOpen]
      cases hphase : c.phase.isFinished with
      | true => simp
      | false => simp [h i c hc hphase]
    · rfl
  unfold sweep
  induction List.range n.contexts.length with
  | nil => rfl
  | cons i places ih => rw [List.foldl_cons, hplace, ih]

end Node

end ShardJoin.Job
