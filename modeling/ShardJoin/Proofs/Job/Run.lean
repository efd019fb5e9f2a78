/-
Runs of a node, and the calls in them.

A node does its tasks one after another; with nothing left to do it may be
given a command.  A call is over when all that it has caused is done but its
last task, the answer; the tasks behind it are not touched until then.

* `IsRun` — commands are given to a node one after another;
* `isRun_following`, `exists_following_eq_performAll` — carrying out a script
  is a run;
* `Returns` — a call comes back;
* `IsRun.exists_returns` — every call comes back.
-/
import ShardJoin.Proofs.Job.Registry

namespace ShardJoin.Job

/-! ### Runs -/

/-- A node that is to carry out a command. -/
def Node.given (n : Node) (command : Command) : Node := { n with agenda := [.run command .script] }

/-- A node does its next task, or it has nothing to do and may be given a command. -/
structure IsRun (t : Nat → Node) : Prop where
  start : ∃ name capacity jobLimit, t 0 = .start name capacity jobLimit
  next : ∀ k, t (k + 1) = (t k).step ∨
    (t k).agenda = [] ∧ ∃ command, t (k + 1) = (t k).given command

namespace Node

/-- The states in which a script is carried out. -/
def following (n : Node) (commands : List Command) : Nat → Node
  | 0 => n
  | k + 1 =>
    match commands with
    | [] => n.step.following [] k
    | command :: rest =>
      if n.agenda.isEmpty then (n.given command).following rest k
      else n.step.following (command :: rest) k

theorem following_given {n : Node} (h : n.agenda = []) (command : Command) (rest : List Command)
    (k : Nat) : n.following (command :: rest) (k + 1) = (n.given command).following rest k := by
  simp [following, h]

theorem following_step {n : Node} (h : n.agenda ≠ []) (commands : List Command) (k : Nat) :
    n.following commands (k + 1) = n.step.following commands k := by
  cases commands with
  | nil => rfl
  | cons command rest => simp [following, h]

theorem following_succ (n : Node) (commands : List Command) (k : Nat) :
    n.following commands (k + 1) = (n.following commands k).step ∨
      (n.following commands k).agenda = [] ∧
        ∃ command, n.following commands (k + 1) = (n.following commands k).given command := by
  induction k generalizing n commands with
  | zero =>
    cases commands with
    | nil => exact .inl rfl
    | cons command rest =>
      by_cases h : n.agenda = []
      · exact .inr ⟨h, command, following_given h command rest 0⟩
      · exact .inl (following_step h _ 0)
  | succ k ih =>
    cases commands with
    | nil => exact ih n.step []
    | cons command rest =>
      by_cases h : n.agenda = []
      · rw [following_given h, following_given h]
        exact ih _ rest
      · rw [following_step h, following_step h]
        exact ih _ _

theorem isRun_following (name : NodeId) (capacity jobLimit : UInt64) (commands : List Command) :
    IsRun ((start name capacity jobLimit).following commands) :=
  ⟨⟨name, capacity, jobLimit, rfl⟩, following_succ _ commands⟩

theorem steps_add (n : Node) (j k : Nat) : n.steps (j + k) = (n.steps j).steps k := by
  induction j generalizing n with
  | zero => rw [Nat.zero_add, steps]
  | succ j ih => rw [Nat.succ_add, steps, ih, steps]

theorem settle_step {n : Node} (h : n.agenda ≠ []) : n.step.settle = n.settle := by
  have hlt := weight_step_lt h
  obtain ⟨k, hk⟩ := Nat.exists_eq_add_of_lt hlt
  rw [settle, settle, hk, steps, steps_add]
  exact (steps_of_agenda_nil (agenda_settle n.step) k).symm

/-- A script comes to where its first commands have been carried out. -/
theorem exists_following_settle (n : Node) (commands : List Command) :
    ∃ k, ∀ j, n.following commands (k + j) = n.settle.following commands j := by
  by_cases h : n.agenda = []
  · exact ⟨0, fun j => by rw [Nat.zero_add, settle, steps_of_agenda_nil h]⟩
  · have hlt := weight_step_lt h
    obtain ⟨k, hk⟩ := n.step.exists_following_settle commands
    refine ⟨k + 1, fun j => ?_⟩
    rw [Nat.add_right_comm, following_step h, hk, settle_step h]
termination_by n.weight

/-- What a script leads to is a state of its run. -/
theorem exists_following_eq_performAll {n : Node} (h : n.agenda = []) (commands : List Command) :
    ∃ k, n.following commands k = n.performAll commands := by
  induction commands generalizing n with
  | nil => exact ⟨0, rfl⟩
  | cons command rest ih =>
    obtain ⟨k, hk⟩ := (n.given command).exists_following_settle rest
    obtain ⟨j, hj⟩ := ih (agenda_perform n command)
    refine ⟨k + j + 1, ?_⟩
    rw [following_given h]
    exact (hk j).trans hj

end Node

/-! ### Given commands -/

section Given

variable {n : Node} (h : n.agenda = []) (command : Command)
include h

theorem Tidy.handover_given (hn : Tidy n) : Handover n (n.given command) := by
  have howned : (n.given command).owned = n.owned := by
    rw [Node.owned, Node.owned, h]
    rfl
  have hself := hn.handover_self h
  exact ⟨hself.fates_le, howned ▸ hself.nodup, howned ▸ hself.owned, hself.searches, hself.closed,
    hself.unclosed, hself.finished⟩

theorem Node.isHeld_given (i : ContextId) : (n.given command).isHeld i = n.isHeld i := by
  rw [isHeld, isHeld, h]
  rfl

theorem Whereabouts.given {i : ContextId} {id : SubContextId} {sub : SubContext}
    (hsub : Whereabouts n i id sub) (hn : Tidy n) : Whereabouts (n.given command) i id sub := by
  cases hsub with
  | registered hsub => exact .registered hsub
  | next hnext =>
    obtain ⟨rest, hnext⟩ := hnext
    rw [h] at hnext
    cases hnext
  | finishing hfinished hpending =>
    rw [h] at hpending
    cases hpending
  | closed hgone hclosed =>
    obtain ⟨hgone', hsame⟩ := (hn.handover_given h command).gone hgone
    exact .closed hgone' (hsame.trans hclosed)
  | unheld hheld => exact .unheld ((Node.isHeld_given h command i).trans hheld)

end Given

namespace IsRun

variable {t : Nat → Node} (h : IsRun t)
include h

/-- With something to do, a node does it. -/
theorem step_eq {k : Nat} {task : Task} {rest : List Task} (hagenda : (t k).agenda = task :: rest) :
    t (k + 1) = (t k).step := by
  rcases h.next k with hk | ⟨hnil, -⟩
  · exact hk
  · rw [hagenda] at hnil
    cases hnil

theorem swept {k : Nat} {task : Task} {rest : List Task} (hagenda : (t k).agenda = task :: rest) :
    Swept ({ t k with agenda := rest }.doTask task) (t (k + 1)) := by
  rw [h.step_eq hagenda]
  exact Node.swept_step hagenda

theorem tidy (k : Nat) : Tidy (t k) := by
  induction k with
  | zero =>
    obtain ⟨name, capacity, jobLimit, h0⟩ := h.start
    rw [h0]
    exact .start name capacity jobLimit
  | succ k ih =>
    rcases h.next k with hk | ⟨hagenda, command, hk⟩
    · rw [hk]
      exact ih.handover.tidy ih
    · rw [hk]
      exact (ih.handover_given hagenda command).tidy ih

/-- A property of nodes that steps and given commands keep holds from some time on. -/
theorem mono {P : Node → Prop} (hstep : ∀ n, Tidy n → P n → P n.step)
    (hgiven : ∀ n command, Tidy n → n.agenda = [] → P n → P (n.given command)) {j k : Nat}
    (hjk : j ≤ k) (hj : P (t j)) : P (t k) := by
  induction hjk with
  | refl => exact hj
  | @step k _ ih =>
    rcases h.next k with hk | ⟨hagenda, command, hk⟩
    · rw [hk]
      exact hstep _ (h.tidy k) ih
    · rw [hk]
      exact hgiven _ command (h.tidy k) hagenda ih

theorem handover (k : Nat) : Handover (t k) (t (k + 1)) := by
  rcases h.next k with hk | ⟨hagenda, command, hk⟩
  · rw [hk]
    exact (h.tidy k).handover
  · rw [hk]
    exact (h.tidy k).handover_given hagenda command

/-- What nobody has is not closed any more. -/
theorem gone {s j k : Nat} (hjk : j ≤ k) (hs : (t j).Gone s) :
    (t k).Gone s ∧ (t k).closings s = (t j).closings s := by
  induction hjk with
  | refl => exact ⟨hs, rfl⟩
  | @step k _ ih =>
    obtain ⟨hgone, hsame⟩ := (h.handover k).gone ih.1
    exact ⟨hgone, hsame.trans ih.2⟩

theorem fates_le {j k : Nat} (hjk : j ≤ k) : (t j).fates.length ≤ (t k).fates.length := by
  induction hjk with
  | refl => exact Nat.le_refl _
  | @step k _ ih => exact Nat.le_trans ih (h.handover k).fates_le

theorem isFinished {i : ContextId} {j k : Nat} (hjk : j ≤ k) (hi : (t j).isFinished i = true) :
    (t k).isFinished i = true :=
  h.mono (P := (·.isFinished i = true)) (fun _ _ => Node.isFinished_step) (fun _ _ _ _ => id) hjk hi

theorem lt_length_contexts {i : ContextId} {j k : Nat} (hjk : j ≤ k)
    (hi : i < (t j).contexts.length) : i < (t k).contexts.length :=
  h.mono (P := (i < ·.contexts.length)) (fun _ _ => Node.lt_length_contexts_step)
    (fun _ _ _ _ => id) hjk hi

/-- An accepted sub-context is always somewhere. -/
theorem whereabouts {i : ContextId} {id : SubContextId} {sub : SubContext} {j k : Nat}
    (hjk : j ≤ k) (hi : i < (t j).contexts.length) (hsub : Whereabouts (t j) i id sub) :
    Whereabouts (t k) i id sub := by
  have hmono := h.mono (P := fun n => i < n.contexts.length ∧ Whereabouts n i id sub)
    (fun n hn hP => ⟨Node.lt_length_contexts_step hP.1, hP.2.step hn hP.1⟩)
    (fun n command hn hagenda hP => ⟨hP.1, hP.2.given hagenda command hn⟩) hjk ⟨hi, hsub⟩
  exact hmono.2

end IsRun

/-! ### Calls -/

/-- The call at time `c` comes back at time `d`: all that it has caused is done but its last
task. -/
structure Returns (t : Nat → Node) (c d : Nat) (last : Task) (rest : List Task) : Prop where
  call : ∃ task, (t c).agenda = task :: rest
  lt : c < d
  done : (t d).agenda = last :: rest
  busy : ∀ k, c < k → k < d → ∃ first more, (t k).agenda = first :: (more ++ last :: rest)

namespace Returns

variable {t : Nat → Node} {c d : Nat} {last : Task} {rest : List Task}
  (h : Returns t c d last rest)
include h

/-- What the first step of a call has caused ends with the last task. -/
theorem eq_last {tasks : List Task} {task : Task}
    (hcaused : (t (c + 1)).agenda = tasks ++ task :: rest) :
    task = last ∧ (tasks = [] → d = c + 1) := by
  -- the agenda ends in the tasks behind the call, so it splits before them in one way
  have hsplit : ∀ front : List Task, (t (c + 1)).agenda = front ++ last :: rest →
      task = last ∧ tasks = front := by
    intro front hfront
    have heq : (tasks ++ [task]) ++ rest = (front ++ [last]) ++ rest := by
      rw [List.append_assoc, List.append_assoc]
      exact hcaused.symm.trans hfront
    obtain ⟨htasks, hlast⟩ := List.append_inj' (List.append_cancel_right heq) rfl
    exact ⟨(List.cons.inj hlast).1, htasks⟩
  rcases Nat.lt_or_eq_of_le h.lt with hlt | heq
  · obtain ⟨first, more, hbusy⟩ := h.busy (c + 1) (Nat.lt_succ_self c) hlt
    obtain ⟨hlast, htasks⟩ := hsplit (first :: more) hbusy
    refine ⟨hlast, fun hnil => ?_⟩
    rw [hnil] at htasks
    cases htasks
  · have hdone := h.done
    rw [← heq] at hdone
    exact ⟨(hsplit [] hdone).1, fun _ => heq.symm⟩

/-- What is to be closed when a call comes back is closed by then. -/
theorem closed_of_pending (ht : IsRun t) {k : Nat} (hck : c < k) (hkd : k ≤ d) {i : ContextId}
    {sub : SubContext} {front : List Task} (hagenda : (t k).agenda = front ++ last :: rest)
    (hmem : .closeSub i sub ∈ front) :
    (t d).Gone sub.serial ∧ (t d).closings sub.serial = 1 := by
  -- the tasks before the last are done in turn: by induction on the time that is left
  induction hleft : d - k generalizing k front with
  | zero =>
    obtain rfl : k = d := by omega
    have hnil : front = [] := by
      rw [h.done] at hagenda
      simpa using hagenda
    rw [hnil] at hmem
    cases hmem
  | succ left ih =>
    obtain ⟨first, more, hbusy⟩ := h.busy k hck (by omega)
    obtain rfl : front = first :: more :=
      List.append_cancel_right (hagenda.symm.trans hbusy)
    rcases List.mem_cons.1 hmem with rfl | hmem
    -- it is the next one
    · obtain ⟨hgone, hclosed⟩ := (ht.handover k).closes (ht.tidy k) ⟨i, sub, _, hbusy, rfl⟩
      obtain ⟨hgone', hsame⟩ := ht.gone (show k + 1 ≤ d by omega) hgone
      exact ⟨hgone', hsame.trans hclosed⟩
    · obtain ⟨pushed, hstep⟩ := Node.step_agenda hbusy
      rw [← ht.step_eq hbusy, ← List.append_assoc] at hstep
      exact ih (Nat.lt_succ_of_lt hck) (by omega) hstep (List.mem_append_right _ hmem) (by omega)

end Returns

namespace IsRun

variable {t : Nat → Node} (h : IsRun t)
include h

/-- What stands before a task is done some time. -/
theorem exists_done {k : Nat} {front : List Task} {last : Task} {rest : List Task}
    (hagenda : (t k).agenda = front ++ last :: rest) :
    ∃ d, k ≤ d ∧ (t d).agenda = last :: rest ∧
      ∀ j, k ≤ j → j < d → ∃ first more, (t j).agenda = first :: (more ++ last :: rest) := by
  -- every step makes the weight smaller, so what stands before the task comes to its end
  induction hweight : (t k).weight using Nat.strongRecOn generalizing k front with
  | ind weight ih =>
    cases front with
    | nil => exact ⟨k, Nat.le_refl k, hagenda, fun j hkj hjk => absurd hkj (Nat.not_le_of_lt hjk)⟩
    | cons first more =>
      rw [List.cons_append] at hagenda
      obtain ⟨pushed, hstep⟩ := Node.step_agenda hagenda
      rw [← h.step_eq hagenda, ← List.append_assoc] at hstep
      have hlt : (t (k + 1)).weight < weight := by
        rw [h.step_eq hagenda, ← hweight]
        refine Node.weight_step_lt ?_
        rw [hagenda]
        exact List.cons_ne_nil _ _
      obtain ⟨d, hkd, hdone, hbusy⟩ := ih _ hlt hstep rfl
      refine ⟨d, Nat.le_of_succ_le hkd, hdone, fun j hkj hjd => ?_⟩
      rcases Nat.eq_or_lt_of_le hkj with rfl | hkj
      · exact ⟨first, more, hagenda⟩
      · exact hbusy j hkj hjd

/-- Every call comes back with an answer; one that kills several contexts comes back to kill the
next of them. -/
theorem exists_returns {c : Nat} {command : Command} {reply : Reply} {rest : List Task}
    (hagenda : (t c).agenda = .run command reply :: rest) (hcommand : command ≠ .killAll) :
    ∃ d answer, Returns t c d (.answer reply answer) rest := by
  obtain ⟨m, pushed, heq, heffect⟩ := Node.execute_does { t c with agenda := rest } command reply
  obtain ⟨tasks, answer, rfl⟩ := heffect.answered hcommand
  have hstep : (t (c + 1)).agenda = tasks ++ .answer reply answer :: rest := by
    rw [(h.swept hagenda).agenda, Node.doTask, heq, Node.push, heffect.agenda, List.append_assoc]
    rfl
  obtain ⟨d, hcd, hdone, hbusy⟩ := h.exists_done hstep
  exact ⟨d, answer, ⟨_, hagenda⟩, hcd, hdone, fun k hck hkd => hbusy k hck hkd⟩

end IsRun

end ShardJoin.Job
