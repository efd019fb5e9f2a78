/-
What becomes of a registered sub-context.

It stays registered until another one of its id is offered or its context is
finished.  Evicted by an offer, it is closed by the very next task; if the
context is finished, a task is to close it from then on.

* `Deed.registered`, `Deed.registered_of` — what a task does to the registry;
* `Whereabouts` — where an accepted sub-context can be;
* `Whereabouts.step` — it cannot be anywhere else.
-/
import ShardJoin.Proofs.Job.Held

namespace ShardJoin.Job

namespace Node

/-- What a context has registered under an id. -/
def registered? (n : Node) (i : ContextId) (id : SubContextId) : Option SubContext :=
  n.contexts[i]?.bind (·.subContexts.get? id)

/-- Whether a context is finished. -/
def isFinished (n : Node) (i : ContextId) : Bool :=
  (n.contexts[i]?.map (·.phase.isFinished)).getD false

theorem registered?_of_holdings {n : Node} {i : ContextId} {g : Holding}
    (hg : n.holdings[i]? = some g) (id : SubContextId) :
    n.registered? i id = g.subContexts.get? id := by
  rw [holdings, List.getElem?_map] at hg
  obtain ⟨c, hc, rfl⟩ := Option.map_eq_some_iff.1 hg
  rw [registered?, hc]
  rfl

theorem isFinished_of_holdings {n : Node} {i : ContextId} {g : Holding}
    (hg : n.holdings[i]? = some g) : n.isFinished i = g.phase.isFinished := by
  rw [holdings, List.getElem?_map] at hg
  obtain ⟨c, hc, rfl⟩ := Option.map_eq_some_iff.1 hg
  rw [isFinished, hc]
  rfl

theorem registered?_eq_some {n : Node} {i : ContextId} {id : SubContextId} {sub : SubContext} :
    n.registered? i id = some sub ↔
      ∃ g, n.holdings[i]? = some g ∧ g.subContexts.get? id = some sub := by
  constructor
  · intro hsub
    obtain ⟨c, hc, hget⟩ := Option.bind_eq_some_iff.1 hsub
    exact ⟨c.holding, getElem?_holdings hc, hget⟩
  · rintro ⟨g, hg, hget⟩
    rw [registered?_of_holdings hg, hget]

theorem isFinished_iff {n : Node} {i : ContextId} :
    n.isFinished i = true ↔ ∃ g, n.holdings[i]? = some g ∧ g.phase.isFinished = true := by
  constructor
  · intro hfinished
    cases hc : n.contexts[i]? with
    | none =>
      rw [isFinished, hc] at hfinished
      cases hfinished
    | some c =>
      have hg := getElem?_holdings hc
      exact ⟨c.holding, hg, (isFinished_of_holdings hg).symm.trans hfinished⟩
  · rintro ⟨g, hg, hphase⟩
    rw [isFinished_of_holdings hg, hphase]

end Node

namespace Deed

variable {n n' : Node} {task : Task} {pushed : List Task} (h : Deed n task n' pushed)
include h

/-- A finished context stays finished. -/
theorem isFinished {i : ContextId} (hi : n.isFinished i = true) : n'.isFinished i = true := by
  obtain ⟨g, hg, hfinished⟩ := Node.isFinished_iff.1 hi
  rw [Node.isFinished_iff]
  -- a change of an open context
  have hmodify : ∀ {j : ContextId} {k : Holding} {f : Holding → Holding},
      n.holdings[j]? = some k → k.phase.isFinished = false →
      (n.holdings.modify j f)[i]? = some g := by
    intro j k f hk hopen
    have hji : j ≠ i := by
      rintro rfl
      rw [hg, Option.some.injEq] at hk
      rw [← hk, hfinished] at hopen
      cases hopen
    rw [List.getElem?_modify_ne _ _ hji, hg]
  refine ⟨g, ?_, hfinished⟩
  cases h with
  | aside _ haside _ =>
    obtain ⟨opened, hholdings⟩ := haside.holdings
    rw [hholdings, List.getElem?_append_left (List.getElem?_eq_some_iff.1 hg).1, hg]
  | close _ hholdings _ _ _ => rw [hholdings, hg]
  | cancel _ _ hholdings _ _ => rw [hholdings, hg]
  | offer _ _ _ _ hoffering =>
    cases hoffering with
    | reject _ _ _ hholdings => rw [hholdings, hg]
    | evict hi hopen _ _ hholdings => rw [hholdings, hmodify hi hopen]
    | accept hi hopen _ _ hholdings => rw [hholdings, hmodify hi hopen]
  | finish _ _ hi hopen _ _ hholdings _ _ =>
    rw [hholdings, hmodify (Node.getElem?_holdings hi) hopen]

theorem holdings_length_le : n.holdings.length ≤ n'.holdings.length := by
  cases h with
  | aside _ haside _ =>
    obtain ⟨opened, hholdings⟩ := haside.holdings
    simp [hholdings]
  | close _ hholdings _ _ _ => exact Nat.le_of_eq (congrArg _ hholdings.symm)
  | cancel _ _ hholdings _ _ => exact Nat.le_of_eq (congrArg _ hholdings.symm)
  | offer _ _ _ _ hoffering =>
    cases hoffering with
    | reject _ _ _ hholdings => exact Nat.le_of_eq (congrArg _ hholdings.symm)
    | evict _ _ _ _ hholdings => simp [hholdings]
    | accept _ _ _ _ hholdings => simp [hholdings]
  | finish _ _ _ _ _ _ hholdings _ _ => simp [hholdings]

/-- What was registered stays so, or it is to be closed: at once, or because its context is
finished. -/
theorem registered {i : ContextId} {id : SubContextId} {sub : SubContext}
    (hsub : n.registered? i id = some sub) :
    n'.registered? i id = some sub ∨ (∃ more, pushed = .closeSub i sub :: more) ∨
      n'.isFinished i = true ∧ .closeSub i sub ∈ pushed := by
  obtain ⟨g, hg, hget⟩ := Node.registered?_eq_some.1 hsub
  simp only [Node.registered?_eq_some]
  cases h with
  | aside _ haside _ =>
    obtain ⟨opened, hholdings⟩ := haside.holdings
    refine .inl ⟨g, ?_, hget⟩
    rw [hholdings, List.getElem?_append_left (List.getElem?_eq_some_iff.1 hg).1, hg]
  | close _ hholdings _ _ _ => exact .inl ⟨g, by rw [hholdings, hg], hget⟩
  | cancel _ _ hholdings _ _ => exact .inl ⟨g, by rw [hholdings, hg], hget⟩
  | @offer _ _ _ j id' sub' _ _ _ _ hoffering =>
    by_cases hij : j = i
    · subst hij
      cases hoffering with
      | reject _ _ _ hholdings => exact .inl ⟨g, by rw [hholdings, hg], hget⟩
      | @evict k existing _ hk _ hid _ hholdings =>
        obtain rfl : k = g := Option.some.inj (hk.symm.trans hg)
        by_cases hids : id = id'
        · subst hids
          obtain rfl : existing = sub := Option.some.inj (hid.symm.trans hget)
          -- the evicted one is the first that the offer closes
          exact .inr (.inl ⟨_, rfl⟩)
        · refine .inl ⟨_, by rw [hholdings, List.getElem?_modify_eq, hk]; rfl, ?_⟩
          rw [SortedMap.get?_erase, if_neg hids, hget]
      | @accept k _ hk _ hid _ hholdings =>
        obtain rfl : k = g := Option.some.inj (hk.symm.trans hg)
        refine .inl ⟨_, by rw [hholdings, List.getElem?_modify_eq, hk]; rfl, ?_⟩
        -- the offer is accepted under another id
        have hids : id ≠ id' := by
          rintro rfl
          rw [hget] at hid
          cases hid
        rw [SortedMap.get?_insert, if_neg hids, hget]
    · refine .inl ⟨g, ?_, hget⟩
      cases hoffering with
      | reject _ _ _ hholdings => rw [hholdings, hg]
      | evict _ _ _ _ hholdings => rw [hholdings, List.getElem?_modify_ne _ _ hij, hg]
      | accept _ _ _ _ hholdings => rw [hholdings, List.getElem?_modify_ne _ _ hij, hg]
  | @finish j c target last _ _ hj _ _ htarget hholdings _ _ =>
    by_cases hij : j = i
    · subst hij
      have hk := Node.getElem?_holdings hj
      obtain rfl : c.holding = g := Option.some.inj (hk.symm.trans hg)
      refine .inr (.inr ⟨Node.isFinished_iff.2 ⟨⟨.empty, target⟩, ?_, htarget⟩, ?_⟩)
      · rw [hholdings, List.getElem?_modify_eq, hk]
        rfl
      · refine List.mem_append_left _ (List.mem_append_left _ (List.mem_map_of_mem ?_))
        exact SortedMap.mem_values_iff.2 ⟨id, hget⟩
    · exact .inl ⟨g, by rw [hholdings, List.getElem?_modify_ne _ _ hij, hg], hget⟩

/-- What is registered was so before, or it is accepted now. -/
theorem registered_of {i : ContextId} {id : SubContextId} {sub : SubContext}
    (hsub : n'.registered? i id = some sub) :
    n.registered? i id = some sub ∨ ∃ command reply answer, task = .run command reply ∧
      n.offered? command = some (i, id, sub) ∧ pushed = [.answer reply answer] ∧
      answer.refusal? = none := by
  obtain ⟨g, hg, hget⟩ := Node.registered?_eq_some.1 hsub
  simp only [Node.registered?_eq_some]
  cases h with
  | aside _ haside _ =>
    obtain ⟨opened, hholdings⟩ := haside.holdings
    rw [hholdings, List.getElem?_append] at hg
    split at hg
    · exact .inl ⟨g, hg, hget⟩
    · rw [List.eq_of_mem_replicate (List.mem_of_getElem? hg)] at hget
      cases hget
  | close _ hholdings _ _ _ => exact .inl ⟨g, hholdings ▸ hg, hget⟩
  | cancel _ _ hholdings _ _ => exact .inl ⟨g, hholdings ▸ hg, hget⟩
  | @offer _ command reply j id' sub' htask hoffered _ _ hoffering =>
    by_cases hij : j = i
    · subst hij
      cases hoffering with
      | reject _ _ _ hholdings => exact .inl ⟨g, hholdings ▸ hg, hget⟩
      | evict hk _ _ _ hholdings =>
        rw [hholdings, List.getElem?_modify_eq, hk] at hg
        obtain rfl := Option.some.inj hg
        rw [SortedMap.get?_erase] at hget
        split at hget
        · cases hget
        · exact .inl ⟨_, hk, hget⟩
      | @accept k answer hk _ hid hrefusal hholdings =>
        rw [hholdings, List.getElem?_modify_eq, hk] at hg
        obtain rfl := Option.some.inj hg
        rw [SortedMap.get?_insert] at hget
        split at hget
        · rename_i hids
          subst hids
          obtain rfl := Option.some.inj hget
          -- this is the one that is offered
          exact .inr ⟨command, reply, answer, htask, hoffered, rfl, hrefusal⟩
        · exact .inl ⟨_, hk, hget⟩
    · refine .inl ⟨g, ?_, hget⟩
      cases hoffering with
      | reject _ _ _ hholdings => exact hholdings ▸ hg
      | evict _ _ _ _ hholdings => rwa [hholdings, List.getElem?_modify_ne _ _ hij] at hg
      | accept _ _ _ _ hholdings => rwa [hholdings, List.getElem?_modify_ne _ _ hij] at hg
  | @finish j c target last _ _ hj _ _ _ hholdings _ _ =>
    rw [hholdings] at hg
    by_cases hij : j = i
    · subst hij
      rw [List.getElem?_modify_eq, Node.getElem?_holdings hj] at hg
      obtain rfl := Option.some.inj hg
      cases hget
    · rw [List.getElem?_modify_ne _ _ hij] at hg
      exact .inl ⟨g, hg, hget⟩

end Deed

namespace Swept

variable {n n' : Node} (h : Swept n n')
include h

theorem isFinished (i : ContextId) : n'.isFinished i = n.isFinished i := by
  rw [Bool.eq_iff_iff, Node.isFinished_iff, Node.isFinished_iff]
  rcases h.holdings i with heq | ⟨-, g, hg, hopen, hempty⟩
  · rw [heq]
  · rw [hg, hempty]
    simp [hopen]

theorem registered {i : ContextId} {id : SubContextId} {sub : SubContext}
    (hsub : n.registered? i id = some sub) :
    n'.registered? i id = some sub ∨ n'.isHeld i = false := by
  rw [Node.registered?_eq_some] at hsub ⊢
  rcases h.holdings i with heq | ⟨hheld, -⟩
  · rw [heq]
    exact .inl hsub
  · rw [h.held]
    exact .inr hheld

theorem registered_of {i : ContextId} {id : SubContextId} {sub : SubContext}
    (hsub : n'.registered? i id = some sub) : n.registered? i id = some sub := by
  rw [Node.registered?_eq_some] at hsub ⊢
  rcases h.holdings i with heq | ⟨-, _, -, -, hempty⟩
  · rwa [← heq]
  · rw [hempty] at hsub
    obtain ⟨_, hg, hget⟩ := hsub
    obtain rfl := Option.some.inj hg
    cases hget

end Swept

/-! ### Whereabouts -/

/-- Where a sub-context can be that a context has accepted under an id. -/
inductive Whereabouts (n : Node) (i : ContextId) (id : SubContextId) (sub : SubContext) : Prop
  | registered (hsub : n.registered? i id = some sub)
  /-- It was evicted and is closed at once. -/
  | next (hnext : ∃ rest, n.agenda = .closeSub i sub :: rest)
  /-- Its context is finished. -/
  | finishing (hfinished : n.isFinished i = true) (hpending : .closeSub i sub ∈ n.agenda)
  | closed (hgone : n.Gone sub.serial) (hclosed : n.closings sub.serial = 1)
  /-- Its context was let go. -/
  | unheld (hheld : n.isHeld i = false)

theorem Node.step_agenda {n : Node} {task : Task} {rest : List Task}
    (hagenda : n.agenda = task :: rest) : ∃ pushed, n.step.agenda = pushed ++ rest := by
  obtain ⟨m, pushed, hpushed, -, hswept⟩ := step_cases hagenda
  exact ⟨pushed, hswept.agenda.trans hpushed⟩

theorem Node.step_of_agenda_nil {n : Node} (hagenda : n.agenda = []) : n.step = n := by
  rw [step, hagenda]

/-- A finished context stays finished. -/
theorem Node.isFinished_step {n : Node} {i : ContextId} (h : n.isFinished i = true) :
    n.step.isFinished i = true := by
  cases hagenda : n.agenda with
  | nil => rwa [step_of_agenda_nil hagenda]
  | cons task rest =>
    obtain ⟨m, pushed, -, hdeed, hswept⟩ := step_cases hagenda
    rw [hswept.isFinished]
    exact hdeed.isFinished h

/-- Contexts stay. -/
theorem Node.lt_length_contexts_step {n : Node} {i : ContextId} (hi : i < n.contexts.length) :
    i < n.step.contexts.length := by
  cases hagenda : n.agenda with
  | nil => rwa [step_of_agenda_nil hagenda]
  | cons task rest =>
    obtain ⟨m, pushed, -, hdeed, hswept⟩ := step_cases hagenda
    have hm : i < m.holdings.length :=
      Nat.lt_of_lt_of_le (by simpa [holdings] using hi) hdeed.holdings_length_le
    have hstep : i < n.step.holdings.length := by
      rcases hswept.holdings i with heq | ⟨-, _, -, -, hempty⟩
      · rw [List.getElem?_eq_getElem hm] at heq
        exact (List.getElem?_eq_some_iff.1 heq).1
      · exact (List.getElem?_eq_some_iff.1 hempty).1
    simpa [holdings] using hstep

/-- An accepted sub-context cannot be anywhere else. -/
theorem Whereabouts.step {n : Node} {i : ContextId} {id : SubContextId} {sub : SubContext}
    (h : Whereabouts n i id sub) (hn : Tidy n) (hi : i < n.contexts.length) :
    Whereabouts n.step i id sub := by
  cases hagenda : n.agenda with
  | nil => rwa [Node.step_of_agenda_nil hagenda]
  | cons task rest =>
    -- wherever it is, its own task closes it
    have hclosed : task = .closeSub i sub → Whereabouts n.step i id sub := by
      rintro rfl
      obtain ⟨hgone, hclosed⟩ := hn.handover.closes hn ⟨i, sub, rest, hagenda, rfl⟩
      exact .closed hgone hclosed
    cases h with
    | registered hsub =>
      obtain ⟨m, pushed, hpushed, hdeed, hswept⟩ := Node.step_cases hagenda
      rcases hdeed.registered hsub with hsub | ⟨more, rfl⟩ | ⟨hfinished, hmem⟩
      · rcases hswept.registered hsub with hsub | hheld
        · exact .registered hsub
        · exact .unheld hheld
      · exact .next ⟨more ++ rest, hswept.agenda.trans hpushed⟩
      · refine .finishing ((hswept.isFinished i).trans hfinished) ?_
        rw [hswept.agenda, hpushed]
        exact List.mem_append_left _ hmem
    | next hnext =>
      obtain ⟨rest', hnext⟩ := hnext
      exact hclosed (List.cons.inj (hagenda.symm.trans hnext)).1
    | finishing hfinished hpending =>
      rw [hagenda] at hpending
      rcases List.mem_cons.1 hpending with hhead | hpending
      · exact hclosed hhead.symm
      · obtain ⟨pushed, hstep⟩ := Node.step_agenda hagenda
        refine .finishing (Node.isFinished_step hfinished) ?_
        rw [hstep]
        exact List.mem_append_right _ hpending
    | closed hgone hclosed =>
      obtain ⟨hgone', hsame⟩ := hn.handover.gone hgone
      exact .closed hgone' (hsame.trans hclosed)
    | unheld hheld => exact .unheld (unheld_iff.1 ((unheld_iff.2 hheld).step hi))

end ShardJoin.Job
