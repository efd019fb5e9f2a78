/-
Every sub-context is closed exactly once.

An offered sub-context is closed at most once.  An offer that is refused has
closed it, and the one that it evicts, when it comes back; the close or kill
that finishes a context has closed all that came before when it comes back;
and as long as a context is open, it has registered what it has accepted and
not closed.

* `IsFinish` — a context is finished;
* `IsFinish.closed` — then everything that it was offered is closed;
* `ClosesExactlyOnce` — what a run keeps to;
* `IsRun.closesExactlyOnce` — every run does.
-/
import ShardJoin.Proofs.Job.Offers

namespace ShardJoin.Job

/-- The context that a command is to finish. -/
def Node.finishes? (n : Node) : Command → Option ContextId
  | .close holder | .kill holder => (n.held? holder).map (·.1)
  | .closeJob job | .killJob job => n.contextOf? job
  | _ => none

/-- The call at time `c` finishes a context, and comes back at time `d`. -/
structure IsFinish (t : Nat → Node) (c d : Nat) (i : ContextId) : Prop where
  opened : (t c).isFinished i = false
  finished : (t (c + 1)).isFinished i = true
  returns : ∃ last rest, Returns t c d last rest

/-! ### Finishing -/

namespace Node

variable {n : Node} {i : ContextId}

/-- The step that finishes a context is to close all that is registered. -/
theorem exists_finishTasks {task : Task} {rest : List Task} (hagenda : n.agenda = task :: rest)
    (hopen : n.isFinished i = false) (hfinished : n.step.isFinished i = true) :
    ∃ c target last, n.contexts[i]? = some c ∧
      n.step.agenda = finishTasks i c target ++ last :: rest ∧ (∀ s, ¬n.Closes s) ∧
      n.isHeld i = true := by
  obtain ⟨m, pushed, hpushed, hdeed, hswept⟩ := step_cases hagenda
  rw [hswept.isFinished, isFinished_iff] at hfinished
  obtain ⟨g, hg, hphase⟩ := hfinished
  rcases hdeed.finished_cases hg hphase with hi | ⟨-, htask, c, target, last, hc, rfl, hheld⟩
  · have hi : n.holdings[i]? = some g := hi
    rw [isFinished_of_holdings hi, hphase] at hopen
    cases hopen
  · refine ⟨c, target, last, hc, ?_, fun s hs => ?_, ?_⟩
    · rw [hswept.agenda, hpushed, List.append_assoc]
      rfl
    · rw [closes_iff hagenda, htask] at hs
      cases hs
    · rw [isHeld, hagenda, List.any_cons]
      rcases hheld with hheld | huses
      · rw [isHeld, Bool.or_eq_true] at hheld
        rcases hheld with hheld | hheld
        · rw [hheld, Bool.true_or]
        · rw [hheld, Bool.or_true, Bool.or_true]
      · rw [huses, Bool.true_or, Bool.or_true]

/-- A close or kill answers whether it finishes the context. -/
theorem finishAndAnswer_cases {target : Phase} (htarget : target.isFinished = true)
    (reply : Reply) : let n' := n.finishAndAnswer i target reply
    (∃ tasks, n'.agenda = tasks ++ .answer reply (.flag true) :: n.agenda) ∧
        n.isFinished i = false ∧ n'.isFinished i = true ∨
      n'.agenda = .answer reply (.flag false) :: n.agenda ∧
        n'.isFinished i = n.isFinished i := by
  unfold finishAndAnswer
  split
  · obtain ⟨c, hc, hopen, rfl, rfl⟩ := finish?_eq_some ‹_›
    refine .inl ⟨⟨finishTasks i c target, by simp [answerAfter, push, takeOut, modifyContext]⟩,
      ?_, ?_⟩
    · rw [isFinished, hc]
      exact hopen
    · simp [isFinished, answerAfter, push, takeOut, modifyContext, hc, htarget]
  · exact .inr ⟨rfl, rfl⟩

theorem execute_of_finishes? {command : Command} (h : n.finishes? command = some i)
    (reply : Reply) : ∃ target, target.isFinished = true ∧
      n.execute command reply = n.finishAndAnswer i target reply := by
  have hheld : ∀ {holder : Holder} {target : Phase}, (n.held? holder).map (·.1) = some i →
      n.withHandle holder reply (fun j _ => n.finishAndAnswer j target reply) =
        n.finishAndAnswer i target reply := by
    intro holder target hmap
    obtain ⟨⟨_, c⟩, hc, rfl⟩ := Option.map_eq_some_iff.1 hmap
    exact withHandle_of_held? hc reply _
  have hjob : ∀ {job : JobId} {target : Phase}, n.contextOf? job = some i →
      n.finishJob job target reply = n.finishAndAnswer i target reply := by
    intro job target hj
    rw [finishJob, hj]
  cases command with
  | close holder => exact ⟨.closed, rfl, hheld h⟩
  | kill holder => exact ⟨.killed, rfl, hheld h⟩
  | closeJob job => exact ⟨.closed, rfl, hjob h⟩
  | killJob job => exact ⟨.killed, rfl, hjob h⟩
  | acquire | find | start | status | add | search | closeSearch | dropSearch | signal | callback
  | charge | release | killAll | service | describe | drop | unreadable => cases h

end Node

section Finish

variable {t : Nat → Node} (h : IsRun t)
include h

/-- Of the closes and kills of a context, those that finish it answer true. -/
theorem IsRun.answer_iff_isFinish {c d : Nat} {command : Command} {reply : Reply} {i : ContextId}
    {answer : Answer} {rest : List Task} (hagenda : (t c).agenda = .run command reply :: rest)
    (hfinishes : (t c).finishes? command = some i)
    (hreturns : Returns t c d (.answer reply answer) rest) :
    answer = .flag true ∧ IsFinish t c d i ∨ answer = .flag false ∧ ¬IsFinish t c d i := by
  obtain ⟨target, htarget, hexecute⟩ :=
    Node.execute_of_finishes? (n := { t c with agenda := rest }) hfinishes reply
  have hswept : Swept (Node.finishAndAnswer { t c with agenda := rest } i target reply)
      (t (c + 1)) := by
    rw [← hexecute]
    exact h.swept hagenda
  rcases Node.finishAndAnswer_cases (n := { t c with agenda := rest }) (i := i) htarget reply with
    ⟨⟨tasks, htasks⟩, hopen, hfinished⟩ | ⟨hanswer, hsame⟩
  · obtain ⟨heq, -⟩ := hreturns.eq_last (hswept.agenda.trans htasks)
    obtain ⟨-, rfl⟩ := Task.answer.inj heq
    exact .inl ⟨rfl, hopen, (hswept.isFinished i).trans hfinished, _, _, hreturns⟩
  · have hdone : (t (c + 1)).agenda = [] ++ .answer reply (.flag false) :: rest :=
      hswept.agenda.trans hanswer
    obtain ⟨heq, -⟩ := hreturns.eq_last hdone
    obtain ⟨-, rfl⟩ := Task.answer.inj heq
    refine .inr ⟨rfl, fun hfinish => ?_⟩
    have hfinished := hfinish.finished
    rw [hswept.isFinished, hsame] at hfinished
    exact absurd hfinished (Bool.eq_false_iff.1 hfinish.opened)

/-- The call that finishes a context comes back. -/
theorem IsRun.exists_isFinish {c : Nat} {i : ContextId} (hopen : (t c).isFinished i = false)
    (hfinished : (t (c + 1)).isFinished i = true) : ∃ d, IsFinish t c d i := by
  have hsame : (t c).isFinished i ≠ (t (c + 1)).isFinished i := by
    rw [hopen, hfinished]
    exact Bool.false_ne_true
  rcases h.next c with hstep | ⟨-, command, hgiven⟩
  · cases hagenda : (t c).agenda with
    | nil =>
      rw [hstep, Node.step_of_agenda_nil hagenda] at hsame
      exact absurd rfl hsame
    | cons task rest =>
      obtain ⟨ctx, target, last, -, htasks, -⟩ :=
        Node.exists_finishTasks hagenda hopen (hstep ▸ hfinished)
      rw [← hstep] at htasks
      obtain ⟨d, hcd, hdone, hbusy⟩ := h.exists_done htasks
      exact ⟨d, hopen, hfinished, last, rest, ⟨task, hagenda⟩, hcd, hdone,
        fun k hck hkd => hbusy k hck hkd⟩
  · rw [hgiven] at hsame
    exact absurd rfl hsame

namespace IsFinish

variable {c d : Nat} {i : ContextId} (hfinish : IsFinish t c d i)
include hfinish

/-- When a context has been finished, it has nothing registered. -/
theorem size_eq_zero : ∃ ctx, (t d).contexts[i]? = some ctx ∧ ctx.subContexts.size = 0 := by
  obtain ⟨_, _, hreturns⟩ := hfinish.returns
  obtain ⟨g, hg, hphase⟩ := Node.isFinished_iff.1 (h.isFinished hreturns.lt hfinish.finished)
  have hempty := (h.tidy d).finished g (List.mem_of_getElem? hg) hphase
  rw [Node.holdings, List.getElem?_map] at hg
  obtain ⟨ctx, hctx, rfl⟩ := Option.map_eq_some_iff.1 hg
  refine ⟨ctx, hctx, ?_⟩
  rw [show ctx.subContexts = .empty from hempty]
  rfl

/-- When a context has been finished, what it was offered is closed. -/
theorem closed {a b : Nat} {id : SubContextId} {sub : SubContext} {answer : Answer}
    (hoffer : IsOffer t a b i id sub answer) (hbd : b ≤ d) : (t d).closings sub.serial = 1 := by
  obtain ⟨last, rest, hreturns⟩ := hfinish.returns
  obtain ⟨task, hagenda⟩ := hreturns.call
  have hcd : c ≤ d := Nat.le_of_lt hreturns.lt
  rcases hoffer.refused_or_accepted h with ⟨-, ⟨hgone, hclosed⟩, -⟩ | ⟨hanswer, -, rfl, hopen, -⟩
  · exact (h.gone hbd hgone).2.trans hclosed
  -- a finished context accepts nothing
  rcases Nat.lt_or_ge c (a + 1) with hca | hac
  · rw [h.isFinished hca hfinish.finished] at hopen
    cases hopen
  -- it was accepted before the context is finished
  have hstep := h.step_eq hagenda
  obtain ⟨ctx, target, last', hctx, htasks, hnot, hheld⟩ :=
    Node.exists_finishTasks hagenda hfinish.opened (hstep ▸ hfinish.finished)
  rw [← hstep] at htasks
  obtain ⟨rfl, -⟩ := hreturns.eq_last htasks
  cases hoffer.whereabouts h hanswer hac with
  | registered hsub =>
    obtain ⟨_, hctx', hget⟩ := Option.bind_eq_some_iff.1 hsub
    obtain rfl := Option.some.inj (hctx.symm.trans hctx')
    have hmem := List.mem_map_of_mem (f := Task.closeSub i) (SortedMap.mem_values_iff.2 ⟨id, hget⟩)
    exact (hreturns.closed_of_pending h (Nat.lt_succ_self c) hreturns.lt htasks
      (List.mem_append_left _ hmem)).2
  | next hnext =>
    obtain ⟨rest', hnext⟩ := hnext
    exact absurd ⟨i, sub, rest', hnext, rfl⟩ (hnot sub.serial)
  | finishing hfinished _ =>
    rw [hfinish.opened] at hfinished
    cases hfinished
  | closed hgone hclosed => exact (h.gone hcd hgone).2.trans hclosed
  | unheld hunheld =>
    rw [hheld] at hunheld
    cases hunheld

end IsFinish

end Finish

/-! ### Signals -/

/-- A signal says whether its search is closed. -/
theorem IsRun.signal_iff {t : Nat → Node} (h : IsRun t) {c d : Nat} {holder : Holder}
    {reply : Reply} {rest : List Task} {cancelled wakes : Bool}
    (hagenda : (t c).agenda = .run (.signal holder) reply :: rest)
    (hreturns : Returns t c d (.answer reply (.signal cancelled wakes)) rest) :
    ∃ serial, (t c).signals.get? holder = some serial ∧
      (cancelled = true ↔ ∃ j < c, (t j).Shuts serial) := by
  have hstep : (t (c + 1)).agenda =
      (Node.execute { t c with agenda := rest } (.signal holder) reply).agenda :=
    (h.swept hagenda).agenda
  rw [Node.execute] at hstep
  split at hstep
  · rename_i fate hfate
    obtain ⟨serial, hserial, hget⟩ := Option.bind_eq_some_iff.1 hfate
    have hdone : (t (c + 1)).agenda =
        [] ++ .answer reply (.signal fate.cancelled fate.wakes) :: rest := hstep
    obtain ⟨heq, -⟩ := hreturns.eq_last hdone
    obtain ⟨-, hanswer⟩ := Task.answer.inj heq
    obtain ⟨rfl, -⟩ := Answer.signal.inj hanswer
    have hclosings : (t c).closings serial = fate.closings := by
      rw [Node.closings, show (t c).fates[serial]? = some fate from hget]
      rfl
    refine ⟨serial, hserial, ?_⟩
    rw [← h.closings_pos_iff, hclosings, Fate.cancelled, decide_eq_true_iff]
  · have hdone : (t (c + 1)).agenda = [] ++ .answer reply .unreadable :: rest := hstep
    obtain ⟨heq, -⟩ := hreturns.eq_last hdone
    cases heq

/-! ### Exactly once -/

/-- Every sub-context is closed exactly once. -/
structure ClosesExactlyOnce (t : Nat → Node) : Prop where
  /-- Every offer comes back, and nothing offered is closed twice. -/
  offer : ∀ a i id sub reply rest, (t a).Offers i id sub reply rest →
    (∃ b answer, Returns t a b (.answer reply answer) rest) ∧
      ∀ k, (t k).closings sub.serial ≤ 1
  /-- A refused sub-context is closed when its offer comes back. -/
  refused : ∀ a b i id sub answer, IsOffer t a b i id sub answer →
    answer.refusal?.isSome = true → (t b).closings sub.serial = 1
  /-- An offer under an id that is taken is refused, and closes the one that had the id. -/
  evicted : ∀ a b i id sub answer existing, IsOffer t a b i id sub answer →
    (t a).registered? i id = some existing →
      answer.refusal?.isSome = true ∧ (t b).closings existing.serial = 1
  /-- The step that finishes a context belongs to a call that comes back. -/
  finish : ∀ c i, (t c).isFinished i = false → (t (c + 1)).isFinished i = true →
    ∃ d, IsFinish t c d i
  /-- A close or kill says whether it is the one that finishes the context. -/
  wins : ∀ c d command reply i answer rest, (t c).agenda = .run command reply :: rest →
    (t c).finishes? command = some i → Returns t c d (.answer reply answer) rest →
      answer = .flag true ∧ IsFinish t c d i ∨ answer = .flag false ∧ ¬IsFinish t c d i
  /-- When a context has been finished, it has nothing registered, and what it was offered in
  calls that are over is closed. -/
  finished : ∀ c d i, IsFinish t c d i →
    (∃ ctx, (t d).contexts[i]? = some ctx ∧ ctx.subContexts.size = 0) ∧
      ∀ a b id sub answer, IsOffer t a b i id sub answer → b ≤ d →
        (t d).closings sub.serial = 1
  /-- Between commands an open context that somebody holds has registered what it has accepted and
  not closed. -/
  registered : ∀ k i, (t k).agenda = [] → (t k).isHeld i = true → (t k).isFinished i = false →
    ∀ id sub, (t k).registered? i id = some sub ↔
      ∃ a b answer, IsOffer t a b i id sub answer ∧ b ≤ k ∧ answer.refusal? = none ∧
        (t k).closings sub.serial = 0
  /-- A signal reads cancelled from the close of its search on. -/
  signal : ∀ c d holder reply rest cancelled wakes,
    (t c).agenda = .run (.signal holder) reply :: rest →
      Returns t c d (.answer reply (.signal cancelled wakes)) rest →
        ∃ serial, (t c).signals.get? holder = some serial ∧
          (cancelled = true ↔ ∃ j < c, (t j).Shuts serial)

/-- Every sub-context of a run is closed exactly once, in whatever order commands are given,
whatever they cause while sub-contexts are closed and callbacks are called, and whichever closes
fail. -/
theorem IsRun.closesExactlyOnce {t : Nat → Node} (h : IsRun t) : ClosesExactlyOnce t where
  offer a i id sub reply rest hoffers := ⟨h.exists_isOffer hoffers, h.closings_le_one hoffers⟩
  refused a b i id sub answer hoffer hrefused := by
    rcases hoffer.refused_or_accepted h with ⟨-, ⟨-, hclosed⟩, -⟩ | ⟨haccepted, -⟩
    · exact hclosed
    · rw [haccepted] at hrefused
      cases hrefused
  evicted a b i id sub answer existing hoffer hexisting := by
    rcases hoffer.refused_or_accepted h with ⟨hrefused, -, hevicted⟩ | ⟨-, hnone, -⟩
    · exact ⟨hrefused, hevicted existing hexisting⟩
    · rw [hexisting] at hnone
      cases hnone
  finish c i := h.exists_isFinish
  wins c d command reply i answer rest := h.answer_iff_isFinish
  finished c d i hfinish := ⟨hfinish.size_eq_zero h, fun _ _ _ _ _ => hfinish.closed h⟩
  registered k i hagenda hheld hopen id sub := h.registered?_iff hagenda hheld hopen
  signal c d holder reply rest cancelled wakes := h.signal_iff

/-- The first sub-context kills the job while it is closed, because another one has its id. -/
def evicting : List Command :=
  [.acquire 7 "job", .add "job" 1 "first" false [.kill "job"], .add "job" 2 "second" true [],
    .add "job" 1 "third" false []]

theorem closesExactlyOnce_evicting :
    ClosesExactlyOnce ((Node.start "node" 100 50).following evicting) ∧
      ∃ k, ((Node.start "node" 100 50).following evicting k).fates =
        [⟨1, false⟩, ⟨1, false⟩, ⟨1, false⟩] := by
  refine ⟨(Node.isRun_following "node" 100 50 evicting).closesExactlyOnce, ?_⟩
  obtain ⟨k, hk⟩ := Node.exists_following_eq_performAll (n := .start "node" 100 50) rfl evicting
  refine ⟨k, ?_⟩
  rw [hk]
  decide

end ShardJoin.Job
