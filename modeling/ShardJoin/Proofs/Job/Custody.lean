/-
Who has the sub-contexts of a node.

An offered sub-context is owned as long as a context has it registered or a
task is to close it.  Nothing is owned twice, and what is owned is not closed
yet; a step closes the sub-context of its task and no other, and what is not
owned any more is never closed again.

* `Swept` — what letting contexts go does;
* `Tidy` — everything owned has one owner and is not closed yet;
* `Tidy.handover_step` — what a step does to owners and closings.
-/
import ShardJoin.Proofs.Job.Deed

namespace ShardJoin.Job

/-! ### Letting go -/

/-- Contexts that nobody holds may have lost what they had; nothing else has changed. -/
structure Swept (n n' : Node) : Prop where
  agenda : n'.agenda = n.agenda
  searches : n'.searches = n.searches
  fates : n'.fates.length = n.fates.length
  closings : ∀ s, n'.closings s = n.closings s
  held : ∀ i, n'.isHeld i = n.isHeld i
  holdings : ∀ i, n'.holdings[i]? = n.holdings[i]? ∨ n.isHeld i = false ∧
    ∃ h, n.holdings[i]? = some h ∧ h.phase.isFinished = false ∧
      n'.holdings[i]? = some ⟨.empty, h.phase⟩
  serials : (n'.holdings.flatMap Holding.serials).Sublist (n.holdings.flatMap Holding.serials)

namespace Swept

theorem refl (n : Node) : Swept n n :=
  ⟨rfl, rfl, rfl, fun _ => rfl, fun _ => rfl, fun _ => .inl rfl, .refl _⟩

theorem trans {n m n' : Node} (h : Swept n m) (h' : Swept m n') : Swept n n' where
  agenda := h'.agenda.trans h.agenda
  searches := h'.searches.trans h.searches
  fates := h'.fates.trans h.fates
  closings s := (h'.closings s).trans (h.closings s)
  held i := (h'.held i).trans (h.held i)
  holdings i := by
    rcases h'.holdings i with heq | ⟨hheld, g, hg, hopen, hempty⟩
    · rw [heq]
      exact h.holdings i
    · rw [h.held i] at hheld
      rcases h.holdings i with heq | ⟨-, g', hg', hopen', hempty'⟩
      · exact .inr ⟨hheld, g, heq ▸ hg, hopen, hempty⟩
      · rw [hg, Option.some.injEq] at hempty'
        subst hempty'
        exact .inr ⟨hheld, g', hg', hopen', hempty⟩
  serials := h'.serials.trans h.serials

end Swept

namespace Node

theorem swept_markDropped (n : Node) (subs : List SubContext) :
    Swept n (subs.foldl (fun n sub => n.markDropped sub.serial) n) ∧
      (subs.foldl (fun n sub => n.markDropped sub.serial) n).contexts = n.contexts := by
  induction subs generalizing n with
  | nil => exact ⟨.refl n, rfl⟩
  | cons sub subs ih =>
    have hfirst : Swept n (n.markDropped sub.serial) :=
      ⟨rfl, rfl, by simp [markDropped, modifyFate], closings_markDropped n _, fun _ => rfl,
        fun _ => .inl rfl, .refl _⟩
    exact ⟨hfirst.trans (ih _).1, (ih _).2⟩

theorem sublist_flatMap_modify {l : List Holding} {f : Holding → Holding} (i : Nat)
    (h : ∀ a, (f a).serials.Sublist a.serials) :
    ((l.modify i f).flatMap Holding.serials).Sublist (l.flatMap Holding.serials) := by
  induction l generalizing i with
  | nil => rw [List.modify_nil]
  | cons a l ih =>
    cases i with
    | zero =>
      rw [List.modify_zero_cons, List.flatMap_cons, List.flatMap_cons]
      exact (h a).append_right _
    | succ i =>
      rw [List.modify_succ_cons, List.flatMap_cons, List.flatMap_cons]
      exact (ih i).append_left _

theorem swept_emptied {n : Node} {i : ContextId} {c : Context} (hc : n.contexts[i]? = some c)
    (hopen : c.phase.isFinished = false) (hheld : n.isHeld i = false) (budget : Budget) :
    Swept n { n.modifyContext i Context.emptied with budget } := by
  have hholdings : ({ n.modifyContext i Context.emptied with budget } : Node).holdings =
      n.holdings.modify i fun h => { h with subContexts := .empty } :=
    holdings_modifyContext i fun _ => rfl
  refine ⟨rfl, rfl, rfl, fun _ => rfl, fun _ => rfl, fun j => ?_, ?_⟩
  · rw [hholdings]
    by_cases hij : i = j
    · subst hij
      have hi := getElem?_holdings hc
      refine .inr ⟨hheld, c.holding, hi, hopen, ?_⟩
      rw [List.getElem?_modify_eq, hi]
      rfl
    · exact .inl (List.getElem?_modify_ne _ _ hij)
  · rw [hholdings]
    exact sublist_flatMap_modify i fun _ => List.nil_sublist _

theorem swept_letGoUnheld (n : Node) (i : ContextId) : Swept n (n.letGoUnheld i) := by
  unfold letGoUnheld
  split
  · rename_i c hc
    split
    · rename_i hcond
      rw [Bool.and_eq_true, Context.isOpen, Bool.not_eq_true', Bool.not_eq_true'] at hcond
      obtain ⟨hopen, hheld⟩ := hcond
      obtain ⟨hmark, hcontexts⟩ := n.swept_markDropped c.subContexts.values
      refine hmark.trans (swept_emptied ?_ hopen ?_ _)
      · rw [hcontexts, hc]
      · rw [hmark.held, hheld]
    · exact .refl n
  · exact .refl n

theorem swept_sweep (n : Node) : Swept n n.sweep := by
  unfold sweep
  generalize List.range n.contexts.length = places
  induction places generalizing n with
  | nil => exact .refl n
  | cons i places ih => exact (n.swept_letGoUnheld i).trans (ih _)

end Node

/-! ### Owners -/

theorem pendingSerials_append (tasks tasks' : List Task) :
    pendingSerials (tasks ++ tasks') = pendingSerials tasks ++ pendingSerials tasks' :=
  List.filterMap_append

theorem pendingSerials_finishTasks (i : ContextId) (c : Context) (target : Phase) :
    pendingSerials (Node.finishTasks i c target) = c.holding.serials := by
  unfold Node.finishTasks
  rw [pendingSerials_append, pendingSerials_append, pendingSerials_append]
  have hsubs : pendingSerials (c.subContexts.values.map (.closeSub i)) = c.holding.serials := by
    unfold pendingSerials
    rw [List.filterMap_map]
    exact List.filterMap_eq_map'.symm ▸ rfl
  have haccount : pendingSerials (c.account.toList.map (.closeAccount i)) = [] := by
    cases c.account <;> rfl
  have hcalls : pendingSerials
      (c.callbacks.map (.notify i · (Node.finishCause c target) c.bytes)) = [] := by
    unfold pendingSerials
    rw [List.filterMap_map]
    exact List.filterMap_eq_nil_iff.2 fun _ _ => rfl
  rw [hsubs, haccount, hcalls]
  exact List.append_nil _

namespace Node

/-- The serials of the sub-contexts that a context has registered or a task is to close. -/
def owned (n : Node) : List Nat :=
  n.holdings.flatMap Holding.serials ++ pendingSerials n.agenda

/-- The next task closes the sub-context with a serial. -/
def Closes (n : Node) (serial : Nat) : Prop :=
  ∃ i sub rest, n.agenda = .closeSub i sub :: rest ∧ sub.serial = serial

/-- The next task closes the sub-context or a script's search with a serial. -/
def Shuts (n : Node) (serial : Nat) : Prop :=
  n.Closes serial ∨ ∃ search reply rest, n.agenda = .run (.closeSearch search) reply :: rest ∧
    n.searches.get? search = some serial

theorem Shuts.closes {n : Node} {s : Nat} (h : n.Shuts s) (hs : s ∉ n.searches.values) :
    n.Closes s := by
  rcases h with h | ⟨search, -, -, -, hsearch⟩
  · exact h
  · exact absurd (SortedMap.mem_values_iff.2 ⟨search, hsearch⟩) hs

/-- What one member of a list contributes can be changed apart from the others. -/
theorem flatMap_modify_perm {α β : Type} (g : α → List β) {l : List α} {i : Nat} {a : α}
    (hi : l[i]? = some a) :
    ∃ others, (l.flatMap g).Perm (g a ++ others) ∧
      ∀ f, ((l.modify i f).flatMap g).Perm (g (f a) ++ others) := by
  induction l generalizing i with
  | nil => cases hi
  | cons b l ih =>
    cases i with
    | zero =>
      obtain rfl : b = a := by simpa using hi
      exact ⟨l.flatMap g, .refl _, fun _ => .refl _⟩
    | succ i =>
      obtain ⟨others, hall, hmodify⟩ := ih (by simpa using hi)
      refine ⟨g b ++ others, ?_, fun f => ?_⟩
      · exact (hall.append_left _).trans (List.perm_append_comm_assoc ..)
      · rw [List.modify_succ_cons, List.flatMap_cons]
        exact ((hmodify f).append_left _).trans (List.perm_append_comm_assoc ..)

end Node

theorem Offering.owned_perm {n n' : Node} {i : ContextId} {id : SubContextId} {sub : SubContext}
    {reply : Reply} {pushed : List Task} (h : Offering n i id sub reply n' pushed)
    (hagenda : n'.agenda = pushed ++ n.agenda) : n'.owned.Perm (sub.serial :: n.owned) := by
  unfold Node.owned
  rw [hagenda, pendingSerials_append]
  cases h with
  | reject hi hfinished hrefusal hholdings =>
    rw [hholdings]
    exact List.perm_middle
  | @evict h existing _ hi hopen hid hrefusal hholdings =>
    obtain ⟨others, hall, hmodify⟩ := Node.flatMap_modify_perm Holding.serials hi
    have hmodify := hmodify fun h => { h with subContexts := h.subContexts.erase id }
    have hserials := (SortedMap.values_perm_of_get? hid).map SubContext.serial
    -- the evicted one goes from the registry to the tasks
    rw [hholdings]
    refine List.perm_iff_count.2 fun s => ?_
    have hall := hall.count_eq s
    have hmodify := hmodify.count_eq s
    have hserials := hserials.count_eq s
    simp only [Holding.serials, pendingSerials, List.filterMap_cons, List.filterMap_nil,
      List.map_cons, List.count_append, List.count_cons, List.count_nil] at hall hmodify hserials ⊢
    omega
  | @accept h _ hi hopen hid hrefusal hholdings =>
    obtain ⟨others, hall, hmodify⟩ := Node.flatMap_modify_perm Holding.serials hi
    have hmodify := hmodify fun h => { h with subContexts := h.subContexts.insert id sub }
    have hserials := (SortedMap.values_perm_insert h.subContexts id sub).map SubContext.serial
    rw [SortedMap.erase_of_get?_eq_none hid] at hserials
    -- the offered one goes to the registry
    rw [hholdings]
    refine List.perm_iff_count.2 fun s => ?_
    have hall := hall.count_eq s
    have hmodify := hmodify.count_eq s
    have hserials := hserials.count_eq s
    simp only [Holding.serials, pendingSerials, List.filterMap_cons, List.filterMap_nil,
      List.map_cons, List.count_append, List.count_cons, List.count_nil] at hall hmodify hserials ⊢
    omega

/-- A deed changes who owns a sub-context, but only an offered one gets an owner by it. -/
theorem Deed.owned_perm {n n' : Node} {task : Task} {pushed : List Task}
    (h : Deed n task n' pushed) (hagenda : n'.agenda = pushed ++ n.agenda) :
    ∃ offered, n'.owned.Perm (offered ++ n.owned) ∧
      ∀ s ∈ offered, offered = [s] ∧ s = n.fates.length ∧ s < n'.fates.length ∧
        n'.searches = n.searches := by
  cases h with
  | aside htask haside hpushed =>
    obtain ⟨opened, hholdings⟩ := haside.holdings
    refine ⟨[], ?_, fun s hs => absurd hs List.not_mem_nil⟩
    have hnew : (List.replicate opened Holding.new).flatMap Holding.serials = [] := by
      rw [List.flatMap_eq_nil_iff]
      intro h hh
      rw [(List.mem_replicate.1 hh).2]
      rfl
    rw [Node.owned, hagenda, pendingSerials_append, hpushed, hholdings, List.flatMap_append, hnew,
      List.append_nil]
    exact .refl _
  | close htask hholdings hfates hsearches hpushed =>
    refine ⟨[], ?_, fun s hs => absurd hs List.not_mem_nil⟩
    rw [Node.owned, hagenda, pendingSerials_append, hpushed, hholdings]
    exact .refl _
  | cancel htask hsearch hholdings hfates hsearches =>
    refine ⟨[], ?_, fun s hs => absurd hs List.not_mem_nil⟩
    rw [Node.owned, hagenda, hholdings]
    exact .refl _
  | @offer _ _ _ i id sub htask hoffered hfates hsearches hoffering =>
    -- nobody else gets an owner
    refine ⟨[sub.serial], hoffering.owned_perm hagenda, fun s hs => ?_⟩
    obtain rfl := List.mem_singleton.1 hs
    have hserial := Node.serial_of_offered? hoffered
    refine ⟨rfl, hserial, ?_, hsearches⟩
    rw [hfates, hserial, List.length_append]
    exact Nat.lt_succ_self _
  | @finish i c target last htask hlast hi hopen hheld htarget hholdings hfates hsearches =>
    refine ⟨[], ?_, fun s hs => absurd hs List.not_mem_nil⟩
    obtain ⟨others, hall, hmodify⟩ := Node.flatMap_modify_perm Holding.serials
      (Node.getElem?_holdings hi)
    have hmodify := hmodify fun _ => ⟨.empty, target⟩
    -- what was registered is now to be closed
    rw [Node.owned, hagenda, pendingSerials_append, pendingSerials_append, hlast,
      pendingSerials_finishTasks, hholdings]
    refine List.perm_iff_count.2 fun s => ?_
    have hall := hall.count_eq s
    have hmodify := hmodify.count_eq s
    have hempty : (⟨.empty, target⟩ : Holding).serials = [] := rfl
    simp only [hempty, Node.owned, List.nil_append, List.append_nil, List.count_append]
      at hall hmodify ⊢
    omega

/-- A deed closes nothing but the sub-context or the search of its task. -/
theorem Deed.closings_eq {n n' : Node} {task : Task} {pushed : List Task}
    (h : Deed n task n' pushed) {s : Nat} (htask : s ∉ pendingSerials [task])
    (hnot : ∀ search reply, task = .run (.closeSearch search) reply →
      n.searches.get? search ≠ some s) : n'.closings s = n.closings s := by
  cases h with
  | aside _ haside _ => exact haside.closings s
  | close heq hholdings hfates hsearches hpushed =>
    subst heq
    rw [Node.closings, hfates]
    exact Node.closings_markClosed_of_ne (by simpa [pendingSerials] using htask)
  | cancel heq hsearch hholdings hfates hsearches =>
    rw [Node.closings, hfates]
    refine Node.closings_markClosed_of_ne ?_
    rintro rfl
    exact hnot _ _ heq hsearch
  | offer _ _ hfates _ _ => exact Node.closings_append hfates rfl s
  | finish _ _ _ _ _ _ _ hfates _ => rw [Node.closings, hfates, Node.closings]

/-- The sub-context that a task is to close is closed once more by it. -/
theorem Deed.closings_succ {n n' : Node} {task : Task} {pushed : List Task}
    (h : Deed n task n' pushed) {s : Nat} (hs : s < n.fates.length)
    (htask : s ∈ pendingSerials [task]) : n'.closings s = n.closings s + 1 := by
  cases h with
  | aside hnone _ _ => rw [hnone] at htask; cases htask
  | @close _ i sub heq hholdings hfates hsearches hpushed =>
    subst heq
    obtain rfl : s = sub.serial := by simpa [pendingSerials] using htask
    rw [Node.closings, hfates]
    exact (Node.closings_markClosed hs _).trans (if_pos rfl)
  | cancel heq _ _ _ _ => subst heq; cases htask
  | offer heq _ _ _ _ => subst heq; cases htask
  | finish hnone _ _ _ _ _ _ _ _ => rw [hnone] at htask; cases htask

namespace Deed

variable {n n' : Node} {task : Task} {pushed : List Task} (h : Deed n task n' pushed)
include h

theorem fates_le : n.fates.length ≤ n'.fates.length := by
  cases h with
  | aside _ haside _ => exact haside.fates
  | close _ _ hfates _ _ => simp [hfates, Node.markClosed, Node.modifyFate]
  | cancel _ _ _ hfates _ => simp [hfates, Node.markClosed, Node.modifyFate]
  | offer _ _ hfates _ _ => simp [hfates]
  | finish _ _ _ _ _ _ _ hfates _ => exact Nat.le_of_eq (congrArg _ hfates.symm)

theorem searches_cases {s : Nat} (hs : s ∈ n'.searches.values) :
    s ∈ n.searches.values ∨ n.fates.length ≤ s ∧ s < n'.fates.length := by
  cases h with
  | aside _ haside _ => exact haside.searches s hs
  | close _ _ _ hsearches _ => exact .inl (hsearches ▸ hs)
  | cancel _ _ _ _ hsearches => exact .inl (hsearches ▸ hs)
  | offer _ _ _ hsearches _ => exact .inl (hsearches ▸ hs)
  | finish _ _ _ _ _ _ _ _ hsearches => exact .inl (hsearches ▸ hs)

/-- A finished context was finished before, or the task takes everything out of it. -/
theorem finished_cases {i : ContextId} {g : Holding} (hg : n'.holdings[i]? = some g)
    (hfinished : g.phase.isFinished = true) :
    n.holdings[i]? = some g ∨ g.subContexts = .empty ∧ pendingSerials [task] = [] ∧
      ∃ c target last, n.contexts[i]? = some c ∧ pushed = Node.finishTasks i c target ++ [last] ∧
        (n.isHeld i = true ∨ task.uses i = true) := by
  -- a change of an open context that keeps its phase
  have hmodify : ∀ {j : ContextId} {k : Holding} {f : Holding → Holding},
      n.holdings[j]? = some k → k.phase.isFinished = false → (f k).phase = k.phase →
      (n.holdings.modify j f)[i]? = some g → n.holdings[i]? = some g := by
    intro j k f hk hopen hphase hmod
    by_cases hij : j = i
    · subst hij
      rw [List.getElem?_modify_eq, hk] at hmod
      obtain rfl := Option.some.inj hmod
      rw [hphase, hopen] at hfinished
      cases hfinished
    · rwa [List.getElem?_modify_ne _ _ hij] at hmod
  cases h with
  | aside _ haside _ =>
    obtain ⟨opened, hholdings⟩ := haside.holdings
    rw [hholdings, List.getElem?_append] at hg
    split at hg
    · exact .inl hg
    · rw [List.eq_of_mem_replicate (List.mem_of_getElem? hg)] at hfinished
      cases hfinished
  | close _ hholdings _ _ _ => exact .inl (hholdings ▸ hg)
  | cancel _ _ hholdings _ _ => exact .inl (hholdings ▸ hg)
  | offer _ _ _ _ hoffering =>
    cases hoffering with
    | reject _ _ _ hholdings => exact .inl (hholdings ▸ hg)
    | evict hi hopen _ _ hholdings => exact .inl (hmodify hi hopen rfl (hholdings ▸ hg))
    | accept hi hopen _ _ hholdings => exact .inl (hmodify hi hopen rfl (hholdings ▸ hg))
  | @finish j c target last htask _ hi _ hheld _ hholdings _ _ =>
    rw [hholdings] at hg
    by_cases hij : j = i
    · subst hij
      rw [List.getElem?_modify_eq, Node.getElem?_holdings hi] at hg
      obtain rfl := Option.some.inj hg
      exact .inr ⟨rfl, htask, c, target, last, hi, rfl, hheld⟩
    · rw [List.getElem?_modify_ne _ _ hij] at hg
      exact .inl hg

end Deed

/-! ### Steps -/

/-- Every owned sub-context has one owner and is not closed yet, and finished contexts own
nothing. -/
structure Tidy (n : Node) : Prop where
  nodup : n.owned.Nodup
  owned_lt : ∀ s ∈ n.owned, s < n.fates.length
  searches_lt : ∀ s ∈ n.searches.values, s < n.fates.length
  apart : ∀ s ∈ n.owned, s ∉ n.searches.values
  unclosed : ∀ s ∈ n.owned, n.closings s = 0
  finished : ∀ g ∈ n.holdings, g.phase.isFinished = true → g.subContexts = .empty

/-- What a step does to owners and closings. -/
structure Handover (n n' : Node) : Prop where
  fates_le : n.fates.length ≤ n'.fates.length
  nodup : n'.owned.Nodup
  owned : ∀ s ∈ n'.owned, s ∈ n.owned ∧ ¬n.Closes s ∨
    s = n.fates.length ∧ s < n'.fates.length ∧ s ∉ n'.searches.values
  searches : ∀ s ∈ n'.searches.values,
    s ∈ n.searches.values ∨ n.fates.length ≤ s ∧ s < n'.fates.length
  closed : ∀ s, n.Shuts s → n'.closings s = n.closings s + 1
  unclosed : ∀ s, ¬n.Shuts s → n'.closings s = n.closings s
  finished : ∀ g ∈ n'.holdings, g.phase.isFinished = true →
    g ∈ n.holdings ∨ g.subContexts = .empty

namespace Node

variable {n : Node}

/-- A step does its task and lets go what nobody holds then. -/
theorem swept_step {task : Task} {rest : List Task} (h : n.agenda = task :: rest) :
    Swept ({ n with agenda := rest }.doTask task) n.step := by
  rw [step, h]
  exact swept_sweep _

/-- What a step does to what contexts own, if there is something to do. -/
theorem step_cases {task : Task} {rest : List Task} (h : n.agenda = task :: rest) :
    ∃ m pushed, m.agenda = pushed ++ rest ∧ Deed { n with agenda := rest } task m pushed ∧
      Swept m n.step := by
  obtain ⟨pushed, hagenda, hdeed⟩ := doTask_causes { n with agenda := rest } task
  exact ⟨_, pushed, hagenda, hdeed, swept_step h⟩

theorem owned_perm_of_agenda {task : Task} {rest : List Task} (h : n.agenda = task :: rest) :
    n.owned.Perm (pendingSerials [task] ++ ({ n with agenda := rest } : Node).owned) := by
  have hcons : pendingSerials (task :: rest) = pendingSerials [task] ++ pendingSerials rest :=
    pendingSerials_append [task] rest
  rw [owned, h, hcons]
  exact List.perm_append_comm_assoc ..

theorem closes_iff {task : Task} {rest : List Task} (h : n.agenda = task :: rest) {s : Nat} :
    n.Closes s ↔ s ∈ pendingSerials [task] := by
  unfold Closes
  rw [h]
  constructor
  · rintro ⟨i, sub, _, heq, rfl⟩
    obtain ⟨rfl, -⟩ := List.cons.inj heq
    exact List.mem_singleton_self _
  · intro hs
    obtain ⟨task', htask', hsome⟩ := List.mem_filterMap.1 hs
    obtain rfl := List.mem_singleton.1 htask'
    split at hsome
    · exact ⟨_, _, rest, rfl, Option.some.inj hsome⟩
    · cases hsome

end Node

theorem Tidy.start (name : NodeId) (capacity jobLimit : UInt64) :
    Tidy (.start name capacity jobLimit) where
  nodup := List.nodup_nil
  owned_lt _ hs := absurd hs List.not_mem_nil
  searches_lt _ hs := absurd hs List.not_mem_nil
  apart _ hs := absurd hs List.not_mem_nil
  unclosed _ hs := absurd hs List.not_mem_nil
  finished _ hg := absurd hg List.not_mem_nil

theorem Node.Closes.mem_owned {n : Node} {s : Nat} (h : n.Closes s) : s ∈ n.owned := by
  obtain ⟨i, sub, rest, hagenda, rfl⟩ := h
  rw [Node.owned, hagenda]
  exact List.mem_append_right _ List.mem_cons_self

/-- Nobody has the sub-context with a serial any more. -/
def Node.Gone (n : Node) (serial : Nat) : Prop :=
  serial < n.fates.length ∧ serial ∉ n.owned ∧ serial ∉ n.searches.values

/-- With nothing to do, nothing is handed over. -/
theorem Tidy.handover_self {n : Node} (hn : Tidy n) (h : n.agenda = []) : Handover n n := by
  have hnone : ∀ s, ¬n.Shuts s := by
    rintro s (⟨_, _, _, hcons, -⟩ | ⟨_, _, _, hcons, -⟩)
    all_goals
      rw [h] at hcons
      cases hcons
  exact ⟨Nat.le_refl _, hn.nodup, fun s hs => .inl ⟨hs, mt .inl (hnone s)⟩, fun _ hs => .inl hs,
    fun s hs => absurd hs (hnone s), fun _ _ => rfl, fun _ hg _ => .inl hg⟩

/-- The search that a script closes is closed once more. -/
theorem Node.closings_step_closeSearch {n : Node} {search : Holder} {reply : Reply}
    {rest : List Task} (hagenda : n.agenda = .run (.closeSearch search) reply :: rest) {s : Nat}
    (hsearch : n.searches.get? search = some s) (hs : s < n.fates.length) :
    n.step.closings s = n.closings s + 1 := by
  have hswept := swept_step hagenda
  simp only [doTask, execute, hsearch] at hswept
  rw [hswept.closings]
  exact (closings_markClosed hs s).trans (if_pos rfl)

/-- What the step of a tidy node does. -/
theorem Tidy.handover_step {n : Node} (hn : Tidy n) {task : Task} {rest : List Task}
    (hagenda : n.agenda = task :: rest) : Handover n n.step := by
  obtain ⟨m, pushed, hpushed, hdeed, hswept⟩ := Node.step_cases hagenda
  obtain ⟨offered, hperm, hoffered⟩ := hdeed.owned_perm hpushed
  have howned := Node.owned_perm_of_agenda hagenda
  have hcloses := fun s => Node.closes_iff hagenda (s := s)
  have hcancel : ∀ {search reply rest' s}, n.agenda = .run (.closeSearch search) reply :: rest' →
      n.searches.get? search = some s → n.step.closings s = n.closings s + 1 :=
    fun hagenda hsearch => Node.closings_step_closeSearch hagenda hsearch
      (hn.searches_lt _ (SortedMap.mem_values_iff.2 ⟨_, hsearch⟩))
  generalize n.step = n' at hswept hcancel
  generalize hn₀ : ({ n with agenda := rest } : Node) = n₀ at hdeed hperm hoffered howned
  subst hn₀
  -- what is owned after the step was owned before, apart from the task, or is offered
  have hsub : n'.owned.Sublist m.owned := by
    rw [Node.owned, hswept.agenda]
    exact hswept.serials.append_right _
  obtain ⟨-, hnodup, hapart⟩ := List.nodup_append.1 (howned.nodup_iff.1 hn.nodup)
  -- a script gets new searches only
  have hsearches : ∀ s ∈ n'.searches.values,
      s ∈ n.searches.values ∨ n.fates.length ≤ s ∧ s < n'.fates.length := by
    intro s hs
    rw [hswept.searches] at hs
    rw [hswept.fates]
    exact hdeed.searches_cases hs
  refine ⟨?_, ?_, fun s hs => ?_, hsearches, fun s hs => ?_, fun s hs => ?_,
    fun g hg hfinished => ?_⟩
  · rw [hswept.fates]
    exact hdeed.fates_le
  · refine List.Nodup.sublist hsub (hperm.nodup_iff.2 (List.nodup_append.2 ⟨?_, hnodup, ?_⟩))
    · cases offered with
      | nil => exact List.nodup_nil
      | cons a l =>
        rw [(hoffered a List.mem_cons_self).1]
        exact List.nodup_cons.2 ⟨List.not_mem_nil, List.nodup_nil⟩
    · rintro a ha _ hb rfl
      have hlt := hn.owned_lt a (howned.mem_iff.2 (List.mem_append_right _ hb))
      rw [(hoffered a ha).2.1] at hlt
      exact Nat.lt_irrefl _ hlt
  -- what is owned is new, or it was owned and is not the one that the task closes
  · rcases List.mem_append.1 (hperm.mem_iff.1 (hsub.subset hs)) with hs | hs
    · obtain ⟨-, rfl, hlt, hsame⟩ := hoffered s hs
      rw [hswept.fates, hswept.searches, hsame]
      exact .inr ⟨rfl, hlt, fun hkept => Nat.lt_irrefl _ (hn.searches_lt _ hkept)⟩
    · exact .inl ⟨howned.mem_iff.2 (List.mem_append_right _ hs), fun h =>
        hapart s ((hcloses s).1 h) s hs rfl⟩
  · rcases hs with hs | ⟨search, reply, _, hagenda', hsearch⟩
    · rw [hswept.closings]
      exact hdeed.closings_succ (hn.owned_lt s hs.mem_owned) ((hcloses s).1 hs)
    · exact hcancel hagenda' hsearch
  · rw [hswept.closings]
    refine hdeed.closings_eq (fun hmem => hs (.inl ((hcloses s).2 hmem))) ?_
    rintro search reply rfl hsearch
    exact hs (.inr ⟨search, reply, rest, hagenda, hsearch⟩)
  · obtain ⟨i, hi⟩ := List.mem_iff_getElem?.1 hg
    rcases hswept.holdings i with heq | ⟨-, k, -, -, hempty⟩
    · rw [heq] at hi
      exact (hdeed.finished_cases hi hfinished).imp List.mem_of_getElem? And.left
    · rw [hempty] at hi
      obtain rfl := Option.some.inj hi
      exact .inr rfl

theorem Tidy.handover {n : Node} (hn : Tidy n) : Handover n n.step := by
  cases hagenda : n.agenda with
  | nil =>
    have hstep : n.step = n := by rw [Node.step, hagenda]
    rw [hstep]
    exact hn.handover_self hagenda
  | cons task rest => exact hn.handover_step hagenda

namespace Handover

variable {n n' : Node} (h : Handover n n')
include h

/-- What no script keeps is closed by the tasks that name it and by no other. -/
theorem unclosed_of_not_closes {s : Nat} (hs : ¬n.Closes s) (hkept : s ∉ n.searches.values) :
    n'.closings s = n.closings s :=
  h.unclosed s fun hshuts => hs (hshuts.closes hkept)

/-- What nobody owns is not closed any more. -/
theorem gone {s : Nat} (hs : n.Gone s) : n'.Gone s ∧ n'.closings s = n.closings s := by
  obtain ⟨hlt, howned, hkept⟩ := hs
  refine ⟨⟨Nat.lt_of_lt_of_le hlt h.fates_le, fun hs => ?_, fun hs => ?_⟩, ?_⟩
  · rcases h.owned s hs with ⟨hs, -⟩ | ⟨rfl, -, -⟩
    · exact howned hs
    · exact Nat.lt_irrefl _ hlt
  · rcases h.searches s hs with hs | ⟨hle, -⟩
    · exact hkept hs
    · exact Nat.not_le_of_lt hlt hle
  · exact h.unclosed_of_not_closes (fun hc => howned hc.mem_owned) hkept

variable (hn : Tidy n)
include hn

/-- What contexts own never gets to a script. -/
theorem not_mem_searches {s : Nat} (hs : s ∈ n.owned) : s ∉ n'.searches.values := by
  intro hkept
  rcases h.searches s hkept with hkept | ⟨hle, -⟩
  · exact hn.apart s hs hkept
  · exact Nat.not_le_of_lt (hn.owned_lt s hs) hle

theorem tidy : Tidy n' where
  nodup := h.nodup
  owned_lt s hs := by
    rcases h.owned s hs with ⟨hs, -⟩ | ⟨-, hlt, -⟩
    · exact Nat.lt_of_lt_of_le (hn.owned_lt s hs) h.fates_le
    · exact hlt
  searches_lt s hs := by
    rcases h.searches s hs with hs | ⟨-, hlt⟩
    · exact Nat.lt_of_lt_of_le (hn.searches_lt s hs) h.fates_le
    · exact hlt
  apart s hs := by
    rcases h.owned s hs with ⟨hs, -⟩ | ⟨-, -, hnot⟩
    · exact h.not_mem_searches hn hs
    · exact hnot
  unclosed s hs := by
    rcases h.owned s hs with ⟨hs, hnot⟩ | ⟨rfl, -, -⟩
    · rw [h.unclosed_of_not_closes hnot (hn.apart s hs)]
      exact hn.unclosed s hs
    · rw [h.unclosed_of_not_closes (fun hc => Nat.lt_irrefl _ (hn.owned_lt _ hc.mem_owned))
        (fun hs => Nat.lt_irrefl _ (hn.searches_lt _ hs))]
      exact Node.closings_of_le (Nat.le_refl _)
  finished g hg hfinished := by
    rcases h.finished g hg hfinished with hg | hempty
    · exact hn.finished g hg hfinished
    · exact hempty

/-- What a task is to close is closed once, and nobody owns it any more. -/
theorem closes {s : Nat} (hs : n.Closes s) : n'.Gone s ∧ n'.closings s = 1 := by
  have hmem := hs.mem_owned
  refine ⟨⟨Nat.lt_of_lt_of_le (hn.owned_lt s hmem) h.fates_le, fun hs' => ?_,
    h.not_mem_searches hn hmem⟩, ?_⟩
  · rcases h.owned s hs' with ⟨-, hnot⟩ | ⟨rfl, -, -⟩
    · exact hnot hs
    · exact Nat.lt_irrefl _ (hn.owned_lt _ hmem)
  · rw [h.closed s (.inl hs), hn.unclosed s hmem]

/-- What is owned and not to be closed at once stays unclosed. -/
theorem owned_or_gone {s : Nat} (hs : s ∈ n.owned) (hnot : ¬n.Closes s) :
    (s ∈ n'.owned ∨ n'.Gone s) ∧ n'.closings s = 0 := by
  refine ⟨?_, by rw [h.unclosed_of_not_closes hnot (hn.apart s hs), hn.unclosed s hs]⟩
  by_cases hs' : s ∈ n'.owned
  · exact .inl hs'
  · exact .inr ⟨Nat.lt_of_lt_of_le (hn.owned_lt s hs) h.fates_le, hs',
      h.not_mem_searches hn hs⟩

end Handover

end ShardJoin.Job
