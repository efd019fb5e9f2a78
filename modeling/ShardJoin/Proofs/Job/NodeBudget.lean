/-
The budget of a node follows its open jobs.

As long as all contexts are opened by taking the context of a job, the open
contexts are those of the directory, so none is ever let go.  What is in use of
the budget is what their accounts hold, and what the accounts of contexts hold
that are being finished, until a task closes them.

* `Funded` — the budget agrees with the accounts;
* `Entered` — every open context is the one of the directory;
* `IsServiceRun.conserves` — between commands the budget agrees with the
  directory;
* `IsServiceRun.killed_all` — when all jobs have been killed nothing is in use;
* `IsServiceRun.budgetFollowsJobs` — every run of a service keeps to all this.
-/
import ShardJoin.Proofs.Job.Callbacks
import ShardJoin.Proofs.Job.KillAll

namespace ShardJoin.Job

/-! ### Accounts -/

/-- The bytes that accounts hold together. -/
def heldBytes (accounts : List Account) : Nat := (accounts.map (·.used.toNat)).sum

theorem heldBytes_append (accounts accounts' : List Account) :
    heldBytes (accounts ++ accounts') = heldBytes accounts + heldBytes accounts' := by
  rw [heldBytes, List.map_append, List.sum_append]
  rfl

theorem heldBytes_perm {accounts accounts' : List Account} (h : accounts.Perm accounts') :
    heldBytes accounts = heldBytes accounts' :=
  (h.map _).sum_eq

/-- The accounts of contexts. -/
def Books.accounts (b : Books) : List Account := b.standings.flatMap (·.account.toList)

/-- The accounts of contexts, and those that tasks are to close. -/
def Node.accounts (n : Node) : List Account :=
  n.books.accounts ++ n.agenda.filterMap Task.account?

/-- The accounts of all contexts but one, before and after this one changes. -/
theorem Books.accounts_modify (b : Books) {i : ContextId} {s : Standing}
    (hs : b.standings[i]? = some s) :
    ∃ others, b.accounts.Perm (s.account.toList ++ others) ∧
      ∀ f budget, (Books.mk (b.standings.modify i f) budget b.jobLimit).accounts.Perm
        ((f s).account.toList ++ others) := by
  obtain ⟨others, hall, hmodify⟩ :=
    Node.flatMap_modify_perm (fun s : Standing => s.account.toList) hs
  exact ⟨others, hall, fun f _ => hmodify f⟩

/-- Tasks that close no account. -/
theorem filterMap_account?_of_isCalm {tasks : List Task} (h : ∀ x ∈ tasks, x.isCalm = true) :
    tasks.filterMap Task.account? = [] := by
  rw [List.filterMap_eq_nil_iff]
  exact fun x hx => Task.account?_of_isCalm (h x hx)

/-- The account of a context that is finished is to be closed. -/
theorem filterMap_account?_finishTasks (i : ContextId) (c : Context) (target : Phase) :
    (Node.finishTasks i c target).filterMap Task.account? = c.account.toList := by
  have hsubs : (c.subContexts.values.map (Task.closeSub i)).filterMap Task.account? = [] := by
    rw [List.filterMap_map, List.filterMap_eq_nil_iff]
    exact fun _ _ => rfl
  have hcalls : ∀ cause bytes,
      (c.callbacks.map (Task.notify i · cause bytes)).filterMap Task.account? = [] := by
    intro cause bytes
    rw [List.filterMap_map, List.filterMap_eq_nil_iff]
    exact fun _ _ => rfl
  rw [Node.finishTasks, List.filterMap_append, List.filterMap_append, List.filterMap_append, hsubs,
    hcalls]
  cases c.account <;> rfl

/-- A budget agrees with the accounts that share it, and none of them is over its limit. -/
structure Funded (accounts : List Account) (b : Budget) : Prop where
  sound : ∀ a ∈ accounts, a.Sound
  exact : b.inUse.toNat = heldBytes accounts
  le : b.inUse ≤ b.capacity

namespace Funded

variable {accounts others : List Account} {b b' : Budget} {a a' : Account}

theorem perm (h : Funded accounts b) (hperm : accounts.Perm others) : Funded others b :=
  ⟨fun x hx => h.sound x (hperm.mem_iff.2 hx), h.exact.trans (heldBytes_perm hperm), h.le⟩

/-- One account moves bytes from or to the budget. -/
theorem moves (h : Funded (a :: others) b) (hcapacity : b.capacity < Word.max)
    (hmoves : a.Sound → a.Moves b a' b') :
    Funded (a' :: others) b' ∧ b'.capacity = b.capacity := by
  have hbefore : heldBytes (a :: others) = a.used.toNat + heldBytes others :=
    heldBytes_append [a] others
  have hafter : heldBytes (a' :: others) = a'.used.toNat + heldBytes others :=
    heldBytes_append [a'] others
  have hmoves := hmoves (h.sound a List.mem_cons_self)
  have hexact := h.exact
  have hle : a.used ≤ b.inUse := by
    rw [UInt64.le_iff_toNat_le]
    omega
  obtain ⟨hmoved, hle'⟩ := hmoves.exact hcapacity hle h.le
  refine ⟨⟨?_, by omega, hmoves.capacity ▸ hle'⟩, hmoves.capacity⟩
  intro x hx
  rcases List.mem_cons.1 hx with rfl | hx
  · exact hmoves.sound
  · exact h.sound x (List.mem_cons_of_mem _ hx)

/-- An account that holds nothing may come or go. -/
theorem cons_iff (ha : a.Sound) (hzero : a.used = 0) :
    Funded (a :: others) b ↔ Funded others b := by
  have hsum : heldBytes (a :: others) = heldBytes others := by
    have happend : heldBytes (a :: others) = a.used.toNat + heldBytes others :=
      heldBytes_append [a] others
    rw [happend, hzero, UInt64.toNat_zero, Nat.zero_add]
  constructor
  · intro h
    exact ⟨fun x hx => h.sound x (List.mem_cons_of_mem _ hx), h.exact.trans hsum, h.le⟩
  · intro h
    refine ⟨fun x hx => ?_, h.exact.trans hsum.symm, h.le⟩
    rcases List.mem_cons.1 hx with rfl | hx
    · exact ha
    · exact h.sound x hx

end Funded

/-- What a task does to the books keeps the budget in agreement with the accounts: those of
contexts, that of the task, and others that are still to be closed. -/
theorem Posting.funded {n n' : Node} {task : Task} {pushed : List Task}
    (h : Posting n task n' pushed) (hinside : task.opensOutside = false)
    (hcapacity : n.budget.capacity < Word.max) (hjobLimit : n.jobLimit < Word.max)
    {others : List Account}
    (hn : Funded (n.books.accounts ++ (task.account?.toList ++ others)) n.budget) :
    Funded (n'.books.accounts ++ (pushed.filterMap Task.account? ++ others)) n'.budget ∧
      n'.budget.capacity = n.budget.capacity ∧ n'.jobLimit = n.jobLimit := by
  have hsame : n'.books.budget = n.books.budget → n'.books.jobLimit = n.books.jobLimit →
      Funded (n'.books.accounts ++ (pushed.filterMap Task.account? ++ others)) n.budget →
      Funded (n'.books.accounts ++ (pushed.filterMap Task.account? ++ others)) n'.budget ∧
        n'.budget.capacity = n.budget.capacity ∧ n'.jobLimit = n.jobLimit := by
    intro hbudget hlimit hfunded
    have hbudget : n'.budget = n.budget := hbudget
    exact ⟨hbudget ▸ hfunded, congrArg Budget.capacity hbudget, hlimit⟩
  cases h with
  | aside htask hbooks _ hcalm =>
    refine hsame (congrArg Books.budget hbooks) (congrArg Books.jobLimit hbooks) ?_
    rw [hbooks, filterMap_account?_of_isCalm hcalm]
    rwa [htask] at hn
  | opened label limit callbacks htask _ hentered hbooks _ hcalm =>
    obtain ⟨rfl, -, -⟩ := hentered hinside
    refine hsame (by rw [hbooks]) (by rw [hbooks]) ?_
    rw [hbooks, filterMap_account?_of_isCalm hcalm, Books.accounts, List.flatMap_append]
    rw [Task.account?_of_isCalm htask] at hn
    -- the new account holds nothing yet
    refine ((Funded.cons_iff (Account.sound_start label hjobLimit) rfl).2 hn).perm ?_
    rw [List.append_assoc]
    exact List.perm_middle.symm
  | registered callback htask hi _ hbooks _ hcalm =>
    obtain ⟨rest, hall, hmodify⟩ := n.books.accounts_modify (Node.getElem?_standings hi)
    refine hsame (by rw [hbooks]) (by rw [hbooks]) ?_
    rw [hbooks, filterMap_account?_of_isCalm hcalm]
    rw [Task.account?_of_isCalm htask] at hn
    have hmodify := hmodify (fun s => { s with callbacks := s.callbacks ++ [callback] })
    exact hn.perm ((hall.trans (hmodify n.books.budget).symm).append_right _)
  | @moved i s a a' htask hi ha hmoves hbooks _ hcalm =>
    obtain ⟨rest, hall, hmodify⟩ := n.books.accounts_modify hi
    have hmodify := hmodify (fun s => { s with account := some a' })
    rw [Task.account?_of_isCalm htask] at hn
    rw [ha] at hall
    obtain ⟨hfunded, hcapacity⟩ := Funded.moves (hn.perm (hall.append_right _)) hcapacity hmoves
    refine ⟨?_, hcapacity, congrArg Books.jobLimit hbooks⟩
    rw [hbooks, filterMap_account?_of_isCalm hcalm]
    exact hfunded.perm ((hmodify n'.budget).symm.append_right _)
  | @paid i a htask hbooks hnone =>
    subst htask hnone
    have hbudget : n'.budget = (a.close n.budget).2 := congrArg Books.budget hbooks
    have hn := hn.perm List.perm_middle
    have hsound := hn.sound a List.mem_cons_self
    -- a closed account holds nothing, so it may be forgotten
    obtain ⟨hfunded, hcapacity⟩ := hn.moves hcapacity fun h => Account.close_moves h n.budget
    rw [Funded.cons_iff (Account.close_moves hsound n.budget).sound
      (Account.used_close a hsound n.budget), ← hbudget] at hfunded
    refine ⟨?_, hbudget ▸ hcapacity, congrArg Books.jobLimit hbooks⟩
    rw [hbooks]
    exact hfunded
  | @finish i c target last htask hi _ htarget hbooks _ hlast hpushed =>
    obtain ⟨rest, hall, hmodify⟩ := n.books.accounts_modify (Node.getElem?_standings hi)
    have hmodify := hmodify (fun _ => ⟨target, [], none, c.bytes⟩)
    refine hsame (by rw [hbooks]) (by rw [hbooks]) ?_
    rw [Task.account?_of_isCalm htask] at hn
    rw [hbooks, hpushed, List.filterMap_append, filterMap_account?_finishTasks,
      List.filterMap_cons_none (Task.account?_of_isCalm (Task.isCalm_of_isReturn hlast))]
    -- the account goes from the context to the tasks
    refine hn.perm ((hall.append_right _).trans ?_)
    refine List.Perm.trans ?_ ((hmodify n.books.budget).symm.append_right _)
    rw [Option.toList_none, List.nil_append, List.nil_append, List.filterMap_nil, List.append_nil,
      List.append_assoc]
    exact List.perm_append_comm_assoc _ _ _

/-- The budget of a node has a given capacity and agrees with the accounts, and the limit of its
jobs is a given one. -/
structure Solvent (n : Node) (capacity jobLimit : UInt64) : Prop where
  capacity : n.budget.capacity = capacity
  limit : n.jobLimit = jobLimit
  funded : Funded n.accounts n.budget

namespace Solvent

variable {n : Node} {capacity jobLimit : UInt64}

theorem start (name : NodeId) (capacity jobLimit : UInt64) :
    Solvent (.start name capacity jobLimit) capacity jobLimit :=
  ⟨rfl, rfl, fun _ h => absurd h List.not_mem_nil, rfl, UInt64.zero_le⟩

/-- A task keeps the budget in agreement with the accounts. -/
theorem doTask (h : Solvent n capacity jobLimit) (hcapacity : capacity < Word.max)
    (hjobLimit : jobLimit < Word.max) {task : Task} {rest : List Task}
    (hagenda : n.agenda = task :: rest) (hinside : task.opensOutside = false) :
    Solvent (Node.doTask { n with agenda := rest } task) capacity jobLimit := by
  obtain ⟨pushed, hpushed, hposting⟩ := Node.doTask_posts { n with agenda := rest } task
  have hfunded := h.funded
  have hbefore : n.accounts =
      n.books.accounts ++ (task.account?.toList ++ rest.filterMap Task.account?) := by
    rw [Node.accounts, hagenda, List.filterMap_cons]
    cases task.account? <;> rfl
  rw [hbefore] at hfunded
  obtain ⟨hfunded', hcapacity', hjobLimit'⟩ := hposting.funded hinside
    (h.capacity.symm ▸ hcapacity) (h.limit.symm ▸ hjobLimit) hfunded
  refine ⟨hcapacity'.trans h.capacity, hjobLimit'.trans h.limit, ?_⟩
  rw [Node.accounts, hpushed, List.filterMap_append]
  exact hfunded'

theorem given (h : Solvent n capacity jobLimit) (hagenda : n.agenda = []) (command : Command) :
    Solvent (n.given command) capacity jobLimit := by
  refine ⟨h.capacity, h.limit, ?_⟩
  have haccounts : (n.given command).accounts = n.accounts := by
    rw [Node.accounts, Node.accounts, hagenda]
    rfl
  rw [haccounts]
  exact h.funded

end Solvent

/-! ### The open contexts are those of the directory -/

/-- Every context is finished, or it is the one of the directory. -/
def Entered (n : Node) : Prop := ∀ i c, n.contexts[i]? = some c → Current c.job i n

/-- A task opens no context, or one that it enters in the directory. -/
theorem Posting.contexts {n n' : Node} {task : Task} {pushed : List Task}
    (h : Posting n task n' pushed) (hinside : task.opensOutside = false) :
    n'.contexts.length = n.contexts.length ∨ ∃ c, n'.contexts = n.contexts ++ [c] ∧
      n'.directory = n.directory.insert c.job n.contexts.length := by
  have hlength : n'.books.standings.length = n.books.standings.length →
      n'.contexts.length = n.contexts.length := by
    rw [n'.length_standings, n.length_standings]
    exact id
  cases h with
  | aside _ hbooks _ _ => exact .inl (hlength (by rw [hbooks]))
  | opened _ _ _ _ hcontexts hentered _ _ _ =>
    obtain ⟨-, -, hdirectory⟩ := hentered hinside
    exact .inr ⟨_, hcontexts, hdirectory⟩
  | registered _ _ _ _ hbooks _ _ =>
    exact .inl (hlength (by rw [hbooks, List.length_modify]))
  | moved _ _ _ _ hbooks _ _ => exact .inl (hlength (by rw [hbooks, List.length_modify]))
  | paid _ hbooks _ => exact .inl (hlength (by rw [hbooks]))
  | finish _ _ _ _ hbooks _ _ _ => exact .inl (hlength (by rw [hbooks, List.length_modify]))

namespace Entered

variable {n : Node} (h : Entered n)
include h

theorem current {i : ContextId} {c : Context} (hc : n.contexts[i]? = some c)
    (hopen : c.phase.isFinished = false) : n.contextOf? c.job = some i := by
  obtain ⟨c', hc', -, hphase | hi⟩ := h i c hc
  · obtain rfl := Option.some.inj (hc.symm.trans hc')
    rw [hopen] at hphase
    cases hphase
  · exact hi

/-- The directory holds all open contexts, so none of them is let go. -/
theorem sweep_eq : n.sweep = n :=
  n.sweep_eq_self fun _ _ hc hopen => Node.isHeld_of_contextOf? (h.current hc hopen)

theorem doTask (hn : Orderly n) {task : Task} {rest : List Task}
    (hagenda : n.agenda = task :: rest) (hinside : task.opensOutside = false) :
    Entered (Node.doTask { n with agenda := rest } task) := by
  obtain ⟨pushed, -, hposting⟩ := Node.doTask_posts { n with agenda := rest } task
  intro i c' hc'
  have hlt' := (List.getElem?_eq_some_iff.1 hc').1
  -- a context that was there before stays what it was
  have hold : i < n.contexts.length →
      Current c'.job i (Node.doTask { n with agenda := rest } task) := by
    intro hlt
    have hcurrent := (h i _ (List.getElem?_eq_getElem hlt)).doTask hn hagenda
    obtain ⟨c, hc, hjob, hcases⟩ := hcurrent
    obtain rfl := Option.some.inj (hc.symm.trans hc')
    exact ⟨c, hc, rfl, hjob ▸ hcases⟩
  rcases hposting.contexts hinside with hlength | ⟨c, hcontexts, hdirectory⟩
  · exact hold (by rwa [hlength] at hlt')
  · by_cases hlt : i < n.contexts.length
    · exact hold hlt
    -- the new one is the one of the directory
    · rw [hcontexts, List.length_append, List.length_singleton] at hlt'
      obtain rfl : i = n.contexts.length := 
        Nat.le_antisymm (Nat.le_of_lt_succ hlt') (Nat.le_of_not_lt hlt)
      rw [hcontexts, List.getElem?_concat_length] at hc'
      obtain rfl := Option.some.inj hc'
      refine ⟨c, by rw [hcontexts, List.getElem?_concat_length], rfl, .inr ?_⟩
      rw [Node.contextOf?, hdirectory, SortedMap.get?_insert, if_pos rfl]

end Entered

/-! ### Runs of a service -/

/-- A run in which all contexts are opened by taking those of jobs, and both the budget of the node
and the limit of its jobs are checked. -/
structure IsServiceRun (t : Nat → Node) (capacity jobLimit : UInt64) : Prop where
  run : IsRun t
  start : ∃ name, t 0 = .start name capacity jobLimit
  capacity_lt : capacity < Word.max
  jobLimit_lt : jobLimit < Word.max
  inside : ∀ k task rest, (t k).agenda = task :: rest → task.opensOutside = false

/-- Whether a script is carried out in some steps that open no context outside the directory. -/
def Node.endsInside (n : Node) (commands : List Command) : Nat → Bool
  | 0 => commands.isEmpty && n.agenda.isEmpty
  | k + 1 =>
    n.agenda.head?.all (fun task => !task.opensOutside) &&
      match commands with
      | [] => n.step.endsInside [] k
      | command :: rest =>
        if n.agenda.isEmpty then (n.given command).endsInside rest k
        else n.step.endsInside (command :: rest) k

theorem Node.following_nil {n : Node} (h : n.agenda = []) (k : Nat) : n.following [] k = n := by
  induction k with
  | zero => rfl
  | succ k ih => rw [following, step_of_agenda_nil h, ih]

theorem Node.opensOutside_of_endsInside {n : Node} {commands : List Command} {m : Nat}
    (h : n.endsInside commands m = true) (k : Nat) {task : Task} {rest : List Task}
    (hagenda : (n.following commands k).agenda = task :: rest) : task.opensOutside = false := by
  induction m generalizing n commands k with
  | zero =>
    rw [endsInside, Bool.and_eq_true, List.isEmpty_iff, List.isEmpty_iff] at h
    obtain ⟨rfl, hnil⟩ := h
    rw [following_nil hnil, hnil] at hagenda
    cases hagenda
  | succ m ih =>
    obtain ⟨hfirst, hnext⟩ := Bool.and_eq_true_iff.1 h
    cases k with
    | zero =>
      have hagenda : n.agenda = task :: rest := by cases commands <;> exact hagenda
      rw [hagenda] at hfirst
      simpa using hfirst
    | succ k =>
      cases commands with
      | nil => exact ih hnext k hagenda
      | cons command more =>
        dsimp only at hnext
        by_cases hnil : n.agenda = []
        · rw [following_given hnil] at hagenda
          rw [if_pos (List.isEmpty_iff.2 hnil)] at hnext
          exact ih hnext k hagenda
        · rw [following_step hnil] at hagenda
          rw [if_neg (mt List.isEmpty_iff.1 hnil)] at hnext
          exact ih hnext k hagenda

theorem Node.isServiceRun_following (name : NodeId) {capacity jobLimit : UInt64}
    (hcapacity : capacity < Word.max) (hjobLimit : jobLimit < Word.max)
    {commands : List Command} {m : Nat}
    (h : (start name capacity jobLimit).endsInside commands m = true) :
    IsServiceRun ((start name capacity jobLimit).following commands) capacity jobLimit :=
  ⟨isRun_following name capacity jobLimit commands, ⟨name, rfl⟩, hcapacity, hjobLimit,
    fun k _ _ => opensOutside_of_endsInside h k⟩

/-- The bytes of a context. -/
def Node.bytesOf (n : Node) (i : ContextId) : Nat := (n.contexts[i]?.map (·.bytes.toNat)).getD 0

theorem heldBytes_flatMap (js : List Nat) (g : Nat → List Account) :
    heldBytes (js.flatMap g) = (js.map fun j => heldBytes (g j)).sum := by
  induction js with
  | nil => rfl
  | cons j js ih => rw [List.flatMap_cons, heldBytes_append, ih, List.map_cons, List.sum_cons]

/-- A list read by its places. -/
theorem flatMap_eq_range {α β : Type} (l : List α) (g : α → List β) :
    l.flatMap g = (List.range l.length).flatMap fun j => l[j]?.elim [] g := by
  induction l with
  | nil => rfl
  | cons a l ih =>
    rw [List.flatMap_cons, ih, List.length_cons, List.range_succ_eq_map, List.flatMap_cons,
      List.flatMap_map]
    rfl

/-- What all members of a list give is given by some of them, if the others give nothing. -/
theorem flatMap_perm_of_places {α β : Type} {l : List α} {g : α → List β} {js : List Nat}
    (hjs : js.Nodup) (hlt : ∀ j ∈ js, j < l.length)
    (hnone : ∀ (j : Nat) (a : α), l[j]? = some a → j ∉ js → g a = []) :
    (l.flatMap g).Perm (js.flatMap fun j => l[j]?.elim [] g) := by
  have hplaces : ((List.range l.length).filter (· ∈ js)).Perm js := by
    refine (List.perm_ext_iff_of_nodup (List.nodup_range.filter _) hjs).2 fun j => ?_
    rw [List.mem_filter, List.mem_range, decide_eq_true_iff]
    exact ⟨And.right, fun hj => ⟨hlt j hj, hj⟩⟩
  have hothers : ((List.range l.length).filter fun j => !decide (j ∈ js)).flatMap
      (fun j => l[j]?.elim [] g) = [] := by
    rw [List.flatMap_eq_nil_iff]
    intro j hj
    rw [List.mem_filter, List.mem_range] at hj
    have hget := List.getElem?_eq_getElem hj.1
    rw [hget]
    exact hnone j _ hget (by simpa using hj.2)
  have hall := (List.filter_append_perm (fun j => decide (j ∈ js)) (List.range l.length)).flatMap_right
    fun j => l[j]?.elim [] g
  rw [List.flatMap_append, hothers, List.append_nil] at hall
  rw [flatMap_eq_range]
  exact hall.symm.trans (hplaces.flatMap_right _)

namespace IsServiceRun

variable {t : Nat → Node} {capacity jobLimit : UInt64} (h : IsServiceRun t capacity jobLimit)
include h

theorem entered (k : Nat) : Entered (t k) := by
  induction k with
  | zero =>
    obtain ⟨name, h0⟩ := h.start
    rw [h0]
    exact fun _ _ hc => nomatch hc
  | succ k ih =>
    cases hagenda : (t k).agenda with
    | nil =>
      rcases h.run.next k with hk | ⟨-, command, hk⟩
      · rw [hk, Node.step_of_agenda_nil hagenda]
        exact ih
      · rw [hk]
        exact ih
    | cons task rest =>
      have hdone := ih.doTask (h.run.orderly k) hagenda (h.inside k task rest hagenda)
      rw [h.run.step_eq hagenda, Node.step, hagenda]
      show Entered (Node.sweep (Node.doTask { t k with agenda := rest } task))
      rw [hdone.sweep_eq]
      exact hdone

/-- A step is just the next task: no context is let go. -/
theorem step_eq_doTask {k : Nat} {task : Task} {rest : List Task}
    (hagenda : (t k).agenda = task :: rest) :
    t (k + 1) = Node.doTask { t k with agenda := rest } task := by
  have hdone := (h.entered k).doTask (h.run.orderly k) hagenda (h.inside k task rest hagenda)
  rw [h.run.step_eq hagenda, Node.step, hagenda]
  exact hdone.sweep_eq

theorem solvent (k : Nat) : Solvent (t k) capacity jobLimit := by
  induction k with
  | zero =>
    obtain ⟨name, h0⟩ := h.start
    rw [h0]
    exact .start name capacity jobLimit
  | succ k ih =>
    cases hagenda : (t k).agenda with
    | nil =>
      rcases h.run.next k with hk | ⟨-, command, hk⟩
      · rw [hk, Node.step_of_agenda_nil hagenda]
        exact ih
      · rw [hk]
        exact ih.given hagenda command
    | cons task rest =>
      rw [h.step_eq_doTask hagenda]
      exact ih.doTask h.capacity_lt h.jobLimit_lt hagenda (h.inside k task rest hagenda)

/-- When no context is about to leave the directory it lists the open contexts. -/
theorem mem_directory_iff {k : Nat} (hquiet : ∀ task ∈ (t k).agenda, task.leaving? = none)
    {i : ContextId} :
    i ∈ (t k).directory.values ↔
      ∃ c, (t k).contexts[i]? = some c ∧ c.phase.isFinished = false := by
  rw [SortedMap.mem_values_iff]
  constructor
  · rintro ⟨job, hi⟩
    obtain ⟨c, hc, -, ⟨hopen, -⟩ | ⟨task, htask, hleaving⟩⟩ := (h.run.orderly k).entry job i hi
    · exact ⟨c, hc, hopen⟩
    · rw [hquiet task htask] at hleaving
      cases hleaving
  · rintro ⟨c, hc, hopen⟩
    exact ⟨c.job, (h.entered k).current hc hopen⟩

/-- An open context holds the bytes of its account, and a finished one has none. -/
theorem account_cases (k : Nat) {i : ContextId} {c : Context} (hc : (t k).contexts[i]? = some c) :
    c.phase.isFinished = false ∧ (∃ a, c.account = some a ∧ c.bytes = a.used) ∨
      c.phase.isFinished = true ∧ c.account = none := by
  have hfiled := h.run.filed i k
  have hs := Node.getElem?_standings hc
  cases hphase : c.phase.isFinished with
  | true => exact .inr ⟨rfl, (hfiled.finished _ hs hphase).2⟩
  | false =>
    have hheld := Node.isHeld_of_contextOf? ((h.entered k).current hc hphase)
    obtain ⟨a, ha⟩ := Option.isSome_iff_exists.1 (hfiled.running _ hs hphase hheld).2
    refine .inl ⟨rfl, a, ha, ?_⟩
    have ha : c.account = some a := ha
    rw [Context.bytes, ha]

/-- Between commands the budget agrees with the contexts of the directory. -/
theorem conserves {k : Nat} (hagenda : (t k).agenda = []) :
    (t k).budget.inUse.toNat = ((t k).directory.values.map (t k).bytesOf).sum ∧
      (t k).budget.inUse ≤ capacity := by
  have hquiet : ∀ task ∈ (t k).agenda, task.leaving? = none := by simp [hagenda]
  have hsolvent := h.solvent k
  refine ⟨?_, hsolvent.capacity ▸ hsolvent.funded.le⟩
  rw [hsolvent.funded.exact, Node.accounts, hagenda, List.filterMap_nil, List.append_nil,
    Books.accounts]
  have hplaces : ((t k).books.standings.flatMap (·.account.toList)).Perm
      ((t k).directory.values.flatMap fun j =>
        (t k).books.standings[j]?.elim [] (·.account.toList)) := by
    refine flatMap_perm_of_places (h.run.orderly k).nodup_directory (fun j hj => ?_)
      fun j s hs hj => ?_
    · obtain ⟨c, hc, -⟩ := (h.mem_directory_iff hquiet).1 hj
      rw [(t k).length_standings]
      exact (List.getElem?_eq_some_iff.1 hc).1
    -- a context that is not listed is finished
    · obtain ⟨c, hc, rfl⟩ := Node.exists_of_getElem?_standings hs
      rcases h.account_cases k hc with ⟨hopen, -⟩ | ⟨-, hnone⟩
      · exact absurd ((h.mem_directory_iff hquiet).2 ⟨c, hc, hopen⟩) hj
      · rw [show c.standing.account = none from hnone]
        rfl
  rw [heldBytes_perm hplaces, heldBytes_flatMap]
  refine congrArg List.sum (List.map_congr_left fun j hj => ?_)
  obtain ⟨c, hc, hopen⟩ := (h.mem_directory_iff hquiet).1 hj
  rcases h.account_cases k hc with ⟨-, a, ha, hbytes⟩ | ⟨hfinished, -⟩
  · rw [Node.getElem?_standings hc, Node.bytesOf, hc, Option.map_some, Option.getD_some, hbytes]
    show heldBytes c.account.toList = _
    rw [ha]
    rfl
  · rw [hopen] at hfinished
    cases hfinished

/-- A charge or release by a handle of a finished context changes no context and not the budget. -/
theorem stale {k : Nat} {command : Command} {holder : Holder} {bytes : UInt64} {reply : Reply}
    {rest : List Task} {i : ContextId} {c : Context}
    (hcommand : command = .charge holder bytes ∨ command = .release holder bytes)
    (hagenda : (t k).agenda = .run command reply :: rest)
    (hheld : (t k).held? holder = some (i, c)) (hfinished : c.phase.isFinished = true) :
    (t (k + 1)).contexts = (t k).contexts ∧ (t (k + 1)).budget = (t k).budget := by
  have hnone : c.account = none := by
    rcases h.account_cases k (Node.contexts_of_held? hheld) with ⟨hopen, -⟩ | ⟨-, hnone⟩
    · rw [hopen] at hfinished
      cases hfinished
    · exact hnone
  have hheld' : Node.held? { t k with agenda := rest } holder = some (i, c) := hheld
  rw [h.step_eq_doTask hagenda]
  rcases hcommand with rfl | rfl
  · rw [Node.doTask, Node.execute, Node.withHandle_of_held? hheld', Node.charge, hnone]
    exact ⟨rfl, rfl⟩
  · rw [Node.doTask, Node.execute, Node.withHandle_of_held? hheld', Node.release, hnone]
    exact ⟨rfl, rfl⟩

/-- When the script has killed all jobs, and no context was opened meanwhile, nothing is open and
nothing is in use. -/
theorem killed_all {c d : Nat} {killed : Nat} {won : List ContextId}
    (hagenda : (t c).agenda = [.run .killAll .script])
    (hkilling : Killing t (c + 1) d (t c).directory.values killed .script [] won)
    (hsame : (t d).contexts.length = (t c).contexts.length) :
    (t (d + 1)).activeJobs = 0 ∧ (t (d + 1)).budget.inUse = 0 := by
  have hd := h.step_eq_doTask hkilling.answer
  have hnil : (t (d + 1)).agenda = [] := by
    rw [hd]
    rfl
  have hcd := hkilling.lt
  have hfinished : ∀ i, i < (t (d + 1)).contexts.length → (t (d + 1)).isFinished i = true := by
    intro i hi
    have hlength : (t (d + 1)).contexts.length = (t d).contexts.length := by
      rw [hd]
      rfl
    rw [hlength, hsame] at hi
    refine h.run.isFinished (show d ≤ d + 1 by omega) ?_
    -- a context was open when the killing started, or it was finished before
    by_cases hlisted : i ∈ (t c).directory.values
    · exact hkilling.finished i hlisted
    · refine h.run.isFinished (show c ≤ d by omega) ?_
      rw [Node.isFinished_eq (List.getElem?_eq_getElem hi), ← Bool.not_eq_false]
      intro hopen
      refine hlisted ((h.mem_directory_iff ?_).2 ⟨_, List.getElem?_eq_getElem hi, hopen⟩)
      simp [hagenda, Task.leaving?]
  have hempty : ∀ job, (t (d + 1)).contextOf? job = none := by
    intro job
    rw [Option.eq_none_iff_forall_not_mem]
    intro i hi
    obtain ⟨ctx, hctx, hopen⟩ := (h.mem_directory_iff (by simp [hnil])).1
      (SortedMap.mem_values_iff.2 ⟨job, hi⟩)
    have hphase := hfinished i (List.getElem?_eq_some_iff.1 hctx).1
    rw [Node.isFinished_eq hctx, hopen] at hphase
    cases hphase
  have hvalues : (t (d + 1)).directory.values = [] :=
    List.map_eq_nil_iff.2 (List.length_eq_zero_iff.1 (SortedMap.size_eq_zero hempty))
  obtain ⟨hexact, -⟩ := h.conserves hnil
  rw [hvalues] at hexact
  exact ⟨SortedMap.size_eq_zero hempty, UInt64.toNat_inj.1 hexact⟩

end IsServiceRun

/-! ### The budget follows the jobs -/

/-- The budget of a node follows its open jobs. -/
structure BudgetFollowsJobs (t : Nat → Node) (capacity : UInt64) : Prop where
  /-- Between commands the directory lists the open contexts, each once. -/
  opened : ∀ k, (t k).agenda = [] → (t k).directory.values.Nodup ∧
    ∀ i, i ∈ (t k).directory.values ↔
      ∃ c, (t k).contexts[i]? = some c ∧ c.phase.isFinished = false
  /-- Between commands the bytes in use are those of the contexts of the directory. -/
  exact : ∀ k, (t k).agenda = [] →
    (t k).budget.inUse.toNat = ((t k).directory.values.map (t k).bytesOf).sum
  bounded : ∀ k, (t k).budget.inUse ≤ capacity
  /-- A charge or release of a finished context changes nothing. -/
  stale : ∀ k command holder bytes reply rest i c,
    command = .charge holder bytes ∨ command = .release holder bytes →
      (t k).agenda = .run command reply :: rest → (t k).held? holder = some (i, c) →
        c.phase.isFinished = true →
          (t (k + 1)).contexts = (t k).contexts ∧ (t (k + 1)).budget = (t k).budget
  /-- Killing all jobs finishes the contexts of the directory, and counts those that it finishes
  itself. -/
  killing : ∀ c reply rest, (t c).agenda = .run .killAll reply :: rest →
    ∃ d won, Killing t (c + 1) d (t c).directory.values 0 reply rest won
  /-- When the script has killed all jobs, all that were open are counted if nothing else finished
  one of them, and nothing is in use if none was opened. -/
  killed : ∀ c d won, (t c).agenda = [.run .killAll .script] →
    Killing t (c + 1) d (t c).directory.values 0 .script [] won →
      ((t (d + 1)).agenda = [] ∧ (t (d + 1)).lastAnswer = .number won.length) ∧
        ((∀ i ∈ (t c).directory.values, ∀ j, c < j → j < d → (t j).isFinished i = false →
          (t (j + 1)).isFinished i = true → Kills t j i .script []) →
            won.length = (t c).activeJobs) ∧
        ((t d).contexts.length = (t c).contexts.length →
          (t (d + 1)).activeJobs = 0 ∧ (t (d + 1)).budget.inUse = 0)

/-- The budget of every service follows its open jobs, whatever sub-contexts and callbacks do while
they are closed and called. -/
theorem IsServiceRun.budgetFollowsJobs {t : Nat → Node} {capacity jobLimit : UInt64}
    (h : IsServiceRun t capacity jobLimit) : BudgetFollowsJobs t capacity where
  opened k hagenda :=
    ⟨(h.run.orderly k).nodup_directory, fun _ => h.mem_directory_iff (by simp [hagenda])⟩
  exact k hagenda := (h.conserves hagenda).1
  bounded k := (h.solvent k).capacity ▸ (h.solvent k).funded.le
  stale k command holder bytes reply rest i c := h.stale
  killing c reply rest hagenda := (h.run.exists_killing_of_killAll hagenda).2
  killed c d won hagenda hkilling := by
    have hd := h.step_eq_doTask hkilling.answer
    have hsame := (h.run.exists_killing_of_killAll hagenda).1
    refine ⟨?_, fun hown => ?_, h.killed_all hagenda hkilling⟩
    · rw [hd, Nat.zero_add]
      exact ⟨rfl, rfl⟩
    · rw [Node.activeJobs, SortedMap.size, ← List.length_map Prod.snd]
      refine hkilling.length_eq (h.run.orderly c).nodup_directory (fun i hi => ?_) hown
      obtain ⟨ctx, hctx, hopen⟩ := (h.mem_directory_iff (by simp [hagenda, Task.leaving?])).1 hi
      rw [hsame, Node.isFinished_eq hctx, hopen]

/-- The first of two jobs kills the other one when it is killed. -/
def toppling : List Command :=
  [.acquire 1 "first", .acquire 2 "second", .charge "first" 30, .charge "second" 40,
    .callback "first" "topple" [.killJob 2, .charge "second" 5]]

theorem budgetFollowsJobs_toppling :
    BudgetFollowsJobs ((Node.start "node" 100 50).following (toppling ++ [.killAll])) 100 ∧
      ∃ k, ((Node.start "node" 100 50).following (toppling ++ [.killAll]) k).budget.inUse = 0 ∧
        ((Node.start "node" 100 50).following (toppling ++ [.killAll]) k).contexts.map (·.bytes) =
          [30, 40] := by
  have hinside : (Node.start "node" 100 50).endsInside (toppling ++ [.killAll]) 40 = true := by
    decide
  refine ⟨(Node.isServiceRun_following "node" (by decide) (by decide) hinside).budgetFollowsJobs,
    ?_⟩
  obtain ⟨k, hk⟩ := Node.exists_following_eq_performAll (n := .start "node" 100 50) rfl
    (toppling ++ [.killAll])
  refine ⟨k, ?_⟩
  rw [hk]
  decide

/-- Two contexts are open, none is opened, and only one is counted. -/
theorem killAll_counts_own :
    let n := (Node.start "node" 100 50).performAll toppling
    n.contexts.map (·.phase) = [.running, .running] ∧
      (n.perform .killAll).contexts.map (·.phase) = [.killed, .killed] ∧
      (n.perform .killAll).lastAnswer = .number 1 := by
  refine ⟨by decide, by decide, ?_⟩
  rfl

end ShardJoin.Job
