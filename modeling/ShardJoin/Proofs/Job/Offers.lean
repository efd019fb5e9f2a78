/-
Offers of sub-contexts in a run.

An offered sub-context is closed at most once.  A refused one is closed when
the offer comes back, and so is the one that it evicts; an accepted one comes
back at once and is never lost afterwards.

* `IsRun.closings_pos_iff` — what has closed a sub-context;
* `IsRun.closings_le_one` — nothing offered is closed twice;
* `IsOffer.refused_or_accepted` — what an offer comes back with;
* `IsRun.exists_offer_of_registered` — what is registered was accepted.
-/
import ShardJoin.Proofs.Job.Run

namespace ShardJoin.Job

/-- The next task offers a sub-context to a context. -/
def Node.Offers (n : Node) (i : ContextId) (id : SubContextId) (sub : SubContext) (reply : Reply)
    (rest : List Task) : Prop :=
  ∃ command, n.agenda = .run command reply :: rest ∧ n.offered? command = some (i, id, sub)

/-- An offer of a sub-context that comes back with an answer. -/
def IsOffer (t : Nat → Node) (a b : Nat) (i : ContextId) (id : SubContextId) (sub : SubContext)
    (answer : Answer) : Prop :=
  ∃ reply rest, (t a).Offers i id sub reply rest ∧ Returns t a b (.answer reply answer) rest

theorem Node.Offers.serial_eq {n : Node} {i : ContextId} {id : SubContextId} {sub : SubContext}
    {reply : Reply} {rest : List Task} (h : n.Offers i id sub reply rest) :
    sub.serial = n.fates.length := by
  obtain ⟨command, -, hoffered⟩ := h
  exact serial_of_offered? hoffered

theorem Node.mem_owned_of_registered? {n : Node} {i : ContextId} {id : SubContextId}
    {sub : SubContext} (h : n.registered? i id = some sub) : sub.serial ∈ n.owned := by
  obtain ⟨g, hg, hget⟩ := registered?_eq_some.1 h
  refine List.mem_append_left _ (List.mem_flatMap.2 ⟨g, List.mem_of_getElem? hg, ?_⟩)
  exact List.mem_map_of_mem (SortedMap.mem_values_iff.2 ⟨id, hget⟩)

/-- A finished context has nothing registered. -/
theorem Tidy.isFinished_of_registered? {n : Node} (hn : Tidy n) {i : ContextId}
    {id : SubContextId} {sub : SubContext} (h : n.registered? i id = some sub) :
    n.isFinished i = false := by
  obtain ⟨g, hg, hget⟩ := Node.registered?_eq_some.1 h
  rw [Node.isFinished_of_holdings hg, Bool.eq_false_iff]
  intro hphase
  rw [hn.finished g (List.mem_of_getElem? hg) hphase] at hget
  cases hget

/-! ### Closings -/

namespace IsRun

variable {t : Nat → Node} (h : IsRun t)
include h

/-- What has been closed was closed by some task. -/
theorem closings_pos_iff {k s : Nat} : 0 < (t k).closings s ↔ ∃ j < k, (t j).Shuts s := by
  induction k with
  | zero =>
    obtain ⟨name, capacity, jobLimit, h0⟩ := h.start
    have hnone : (t 0).closings s = 0 := by
      rw [h0]
      rfl
    simp [hnone]
  | succ k ih =>
    by_cases hshuts : (t k).Shuts s
    · rw [(h.handover k).closed s hshuts]
      exact iff_of_true (Nat.succ_pos _) ⟨k, Nat.lt_succ_self k, hshuts⟩
    · rw [(h.handover k).unclosed s hshuts, ih]
      constructor
      · rintro ⟨j, hjk, hj⟩
        exact ⟨j, Nat.lt_succ_of_lt hjk, hj⟩
      · rintro ⟨j, hjk, hj⟩
        rcases Nat.lt_succ_iff_lt_or_eq.1 hjk with hjk | rfl
        · exact ⟨j, hjk, hj⟩
        · exact absurd hj hshuts

variable {a : Nat} {i : ContextId} {id : SubContextId} {sub : SubContext} {reply : Reply}
  {rest : List Task} (hoffers : (t a).Offers i id sub reply rest)
include hoffers

/-- The step that offers a sub-context. -/
theorem offers_step : ∃ m pushed, m.agenda = pushed ++ rest ∧
    m.fates = (t a).fates ++ [.fresh] ∧ m.searches = (t a).searches ∧ Swept m (t (a + 1)) ∧
      Offering { t a with agenda := rest } i id sub reply m pushed := by
  obtain ⟨command, hagenda, hoffered⟩ := hoffers
  obtain ⟨m, pushed, heq, heffect⟩ := Node.execute_does { t a with agenda := rest } command reply
  obtain ⟨hfates, hsearches, hoffering⟩ := heffect.offering hoffered
  refine ⟨m.push pushed, pushed, ?_, hfates, hsearches, heq ▸ h.swept hagenda, hoffering⟩
  rw [Node.push, heffect.agenda]

/-- An offered sub-context is owned, or it is gone and was closed at most once. -/
theorem owned_or_gone {k : Nat} (hak : a < k) : sub.serial ∈ (t k).owned ∨
    (t k).Gone sub.serial ∧ (t k).closings sub.serial ≤ 1 := by
  induction hak with
  | refl =>
    obtain ⟨m, pushed, hpushed, hfates, hsearches, hswept, hoffering⟩ := h.offers_step hoffers
    -- let go at once, it is new, so no script keeps it and nothing has closed it
    by_cases howned : sub.serial ∈ (t (a + 1)).owned
    · exact .inl howned
    · have hserial := hoffers.serial_eq
      have hkept : sub.serial ∉ (t a).searches.values := fun hs =>
        absurd ((h.tidy a).searches_lt _ hs) (Nat.not_lt_of_ge (Nat.le_of_eq hserial.symm))
      refine .inr ⟨⟨?_, howned, ?_⟩, ?_⟩
      · rw [hswept.fates, hfates, List.length_append, hserial]
        exact Nat.lt_succ_self _
      · rwa [hswept.searches, hsearches]
      · rw [hswept.closings, Node.closings_append hfates rfl,
          Node.closings_of_le (Nat.le_of_eq hserial.symm)]
        exact Nat.zero_le _
  | @step k _ ih =>
    have hand := h.handover k
    have htidy := h.tidy k
    rcases ih with howned | ⟨hgone, hle⟩
    · by_cases hcloses : (t k).Closes sub.serial
      -- closed for the first time, since what is owned is not closed
      · obtain ⟨hgone, hclosed⟩ := hand.closes htidy hcloses
        exact .inr ⟨hgone, Nat.le_of_eq hclosed⟩
      · obtain ⟨howned | hgone, hzero⟩ := hand.owned_or_gone htidy howned hcloses
        · exact .inl howned
        · exact .inr ⟨hgone, Nat.le_trans (Nat.le_of_eq hzero) (Nat.zero_le 1)⟩
    · obtain ⟨hgone, hsame⟩ := hand.gone hgone
      exact .inr ⟨hgone, Nat.le_trans (Nat.le_of_eq hsame) hle⟩

/-- An offered sub-context is closed at most once. -/
theorem closings_le_one (k : Nat) : (t k).closings sub.serial ≤ 1 := by
  rcases Nat.lt_or_ge a k with hak | hka
  · rcases h.owned_or_gone hoffers hak with howned | ⟨-, hle⟩
    · rw [(h.tidy k).unclosed _ howned]
      exact Nat.zero_le _
    · exact hle
  · rw [Node.closings_of_le (hoffers.serial_eq ▸ h.fates_le hka)]
    exact Nat.zero_le _

/-- Every offer comes back. -/
theorem exists_isOffer : ∃ b answer, Returns t a b (.answer reply answer) rest := by
  obtain ⟨command, hagenda, hoffered⟩ := hoffers
  refine h.exists_returns hagenda ?_
  rintro rfl
  cases hoffered

end IsRun

/-! ### Refused and accepted -/

/-- After a context has registered a sub-context, the sub-context is somewhere. -/
theorem Swept.whereabouts_of_insert {n m n' : Node} (hswept : Swept m n') {i : ContextId}
    {id : SubContextId} {sub : SubContext} {g : Holding} (hi : n.holdings[i]? = some g)
    (hopen : g.phase.isFinished = false)
    (hholdings : m.holdings =
      n.holdings.modify i fun h => { h with subContexts := h.subContexts.insert id sub }) :
    n'.isFinished i = false ∧ Whereabouts n' i id sub := by
  have hm : m.holdings[i]? = some { g with subContexts := g.subContexts.insert id sub } := by
    rw [hholdings, List.getElem?_modify_eq, hi]
    rfl
  constructor
  · rw [hswept.isFinished, Node.isFinished_of_holdings hm, hopen]
  · have hregistered : m.registered? i id = some sub := by
      rw [Node.registered?_of_holdings hm, SortedMap.get?_insert, if_pos rfl]
    rcases hswept.registered hregistered with hregistered | hheld
    · exact .registered hregistered
    · exact .unheld hheld

section IsOffer

variable {t : Nat → Node} (h : IsRun t)
include h

/-- A refused sub-context and the one that it evicts are closed when the offer comes back; the
offer of an accepted one comes back at once. -/
theorem IsOffer.refused_or_accepted {a b : Nat} {i : ContextId} {id : SubContextId}
    {sub : SubContext} {answer : Answer} (hoffer : IsOffer t a b i id sub answer) :
    answer.refusal?.isSome = true ∧
        ((t b).Gone sub.serial ∧ (t b).closings sub.serial = 1) ∧
        (∀ existing, (t a).registered? i id = some existing →
          (t b).closings existing.serial = 1) ∨
      answer.refusal? = none ∧ (t a).registered? i id = none ∧ b = a + 1 ∧
        (t b).isFinished i = false ∧ i < (t b).contexts.length ∧ Whereabouts (t b) i id sub := by
  obtain ⟨reply, rest, hoffers, hreturns⟩ := hoffer
  obtain ⟨m, pushed, hpushed, -, -, hswept, hoffering⟩ := h.offers_step hoffers
  rw [← hswept.agenda] at hpushed
  have hnext : a < a + 1 := Nat.lt_succ_self a
  cases hoffering with
  | @reject g answer' hi hfinished hrefusal hholdings =>
    have hagenda : (t (a + 1)).agenda =
        [.closeSub i sub] ++ .answer reply answer' :: rest := hpushed
    obtain ⟨hanswer, -⟩ := hreturns.eq_last hagenda
    obtain ⟨-, rfl⟩ := Task.answer.inj hanswer
    -- a finished context has nothing to evict
    refine .inl ⟨hrefusal, hreturns.closed_of_pending h hnext hreturns.lt hagenda
      List.mem_cons_self, fun existing hexisting => ?_⟩
    have hclosed : (t a).isFinished i = true := Node.isFinished_iff.2 ⟨g, hi, hfinished⟩
    rw [(h.tidy a).isFinished_of_registered? hexisting] at hclosed
    cases hclosed
  | @evict g existing' answer' hi hopen hid hrefusal hholdings =>
    have hagenda : (t (a + 1)).agenda =
        [.closeSub i existing', .closeSub i sub] ++ .answer reply answer' :: rest := hpushed
    obtain ⟨hanswer, -⟩ := hreturns.eq_last hagenda
    obtain ⟨-, rfl⟩ := Task.answer.inj hanswer
    -- both are closed before the answer
    have hclosed : ∀ sub', Task.closeSub i sub' ∈ [.closeSub i existing', .closeSub i sub] →
        (t b).Gone sub'.serial ∧ (t b).closings sub'.serial = 1 :=
      fun _ => hreturns.closed_of_pending h hnext hreturns.lt hagenda
    refine .inl ⟨hrefusal, hclosed sub (List.mem_cons_of_mem _ List.mem_cons_self),
      fun existing hexisting => ?_⟩
    have hregistered : (t a).registered? i id = g.subContexts.get? id :=
      Node.registered?_of_holdings hi id
    rw [hregistered, hid, Option.some.injEq] at hexisting
    subst hexisting
    exact (hclosed _ List.mem_cons_self).2
  | @accept g answer' hi hopen hid hrefusal hholdings =>
    have hagenda : (t (a + 1)).agenda = [] ++ .answer reply answer' :: rest := hpushed
    obtain ⟨hanswer, hb⟩ := hreturns.eq_last hagenda
    obtain ⟨-, rfl⟩ := Task.answer.inj hanswer
    -- there is nothing to do before the answer
    obtain rfl := hb rfl
    have hlt : i < (t a).contexts.length := by
      simpa [Node.holdings] using (List.getElem?_eq_some_iff.1 hi).1
    have hregistered : (t a).registered? i id = g.subContexts.get? id :=
      Node.registered?_of_holdings hi id
    obtain ⟨hrunning, hsub⟩ := hswept.whereabouts_of_insert hi hopen hholdings
    exact .inr ⟨hrefusal, hregistered.trans hid, rfl, hrunning,
      h.lt_length_contexts (Nat.le_of_lt hnext) hlt, hsub⟩

/-- An accepted sub-context is somewhere from then on. -/
theorem IsOffer.whereabouts {a b : Nat} {i : ContextId} {id : SubContextId} {sub : SubContext}
    {answer : Answer} (hoffer : IsOffer t a b i id sub answer) (hanswer : answer.refusal? = none)
    {k : Nat} (hbk : b ≤ k) : Whereabouts (t k) i id sub := by
  rcases hoffer.refused_or_accepted h with ⟨hrefused, -⟩ | ⟨-, -, -, -, hlt, hsub⟩
  · rw [hanswer] at hrefused
    cases hrefused
  · exact h.whereabouts hbk hlt hsub

end IsOffer

/-! ### What is registered -/

namespace IsRun

variable {t : Nat → Node} (h : IsRun t)
include h

/-- What is registered was accepted before. -/
theorem exists_offer_of_registered {k : Nat} {i : ContextId} {id : SubContextId}
    {sub : SubContext} (hsub : (t k).registered? i id = some sub) :
    ∃ a b answer, IsOffer t a b i id sub answer ∧ b ≤ k ∧ answer.refusal? = none := by
  induction k with
  | zero =>
    obtain ⟨name, capacity, jobLimit, h0⟩ := h.start
    rw [h0] at hsub
    cases hsub
  | succ k ih =>
    have hbefore : (t k).registered? i id = some sub →
        ∃ a b answer, IsOffer t a b i id sub answer ∧ b ≤ k + 1 ∧ answer.refusal? = none := by
      intro hsub
      obtain ⟨a, b, answer, hoffer, hbk, hanswer⟩ := ih hsub
      exact ⟨a, b, answer, hoffer, Nat.le_succ_of_le hbk, hanswer⟩
    rcases h.next k with hk | ⟨-, command, hk⟩
    · rw [hk] at hsub
      cases hagenda : (t k).agenda with
      | nil =>
        rw [Node.step_of_agenda_nil hagenda] at hsub
        exact hbefore hsub
      | cons task rest =>
        obtain ⟨m, pushed, hpushed, hdeed, hswept⟩ := Node.step_cases hagenda
        -- a step registers only what it accepts
        rcases hdeed.registered_of (hswept.registered_of hsub) with
          hsub | ⟨command, reply, answer, rfl, hoffered, rfl, hanswer⟩
        · exact hbefore hsub
        · have hdone : (t (k + 1)).agenda = .answer reply answer :: rest := by
            rw [hk]
            exact hswept.agenda.trans hpushed
          refine ⟨k, k + 1, answer, ⟨reply, rest, ⟨command, hagenda, hoffered⟩, ?_⟩,
            Nat.le_refl _, hanswer⟩
          exact ⟨⟨_, hagenda⟩, Nat.lt_succ_self k, hdone, fun j hkj hjk => by omega⟩
    · rw [hk] at hsub
      exact hbefore hsub

/-- An open context has registered what it has accepted and not closed yet. -/
theorem registered?_iff {k : Nat} (hagenda : (t k).agenda = []) {i : ContextId}
    (hheld : (t k).isHeld i = true) (hopen : (t k).isFinished i = false) {id : SubContextId}
    {sub : SubContext} : (t k).registered? i id = some sub ↔
      ∃ a b answer, IsOffer t a b i id sub answer ∧ b ≤ k ∧ answer.refusal? = none ∧
        (t k).closings sub.serial = 0 := by
  constructor
  · intro hsub
    obtain ⟨a, b, answer, hoffer, hbk, hanswer⟩ := h.exists_offer_of_registered hsub
    exact ⟨a, b, answer, hoffer, hbk, hanswer,
      (h.tidy k).unclosed _ (Node.mem_owned_of_registered? hsub)⟩
  · rintro ⟨a, b, answer, hoffer, hbk, hanswer, hzero⟩
    cases hoffer.whereabouts h hanswer hbk with
    | registered hsub => exact hsub
    | next hnext =>
      obtain ⟨rest, hnext⟩ := hnext
      rw [hagenda] at hnext
      cases hnext
    | finishing hfinished _ =>
      rw [hopen] at hfinished
      cases hfinished
    | closed _ hclosed =>
      rw [hzero] at hclosed
      cases hclosed
    | unheld hunheld =>
      rw [hheld] at hunheld
      cases hunheld

end IsRun

end ShardJoin.Job
