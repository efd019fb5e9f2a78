/-
Which contexts the directory gives out.

Finishing a context makes it finished at once.  Then its sub-contexts and its
account are closed, and then its callbacks are called; by the first of them it
leaves the directory.  Until it has left, the directory gives it out and counts
it although it is finished.

* `Node.isLeaving` — a context is finished and still has to leave the directory;
* `IsRun.leave_not_mem_tail` — a context leaves the directory by its first
  callback, or it was never entered there;
* `Leaving` — the part of finishing in which a context of the directory is
  finished;
* `IsRun.handsOut` — the directory gives out and counts open contexts, and
  those that are leaving.
-/
import ShardJoin.Proofs.Job.Callbacks

namespace ShardJoin.Job

/-! ### Leaving the directory -/

/-- What stands only at the front of two lists together stands at the front of the second one if
it is there at all. -/
theorem eq_cons_of_not_mem_tail {α : Type} {a : α} {l l' : List α} (h : a ∈ l')
    (htail : a ∉ (l ++ l').tail) : l = [] ∧ ∃ rest, l' = a :: rest := by
  cases l with
  | cons _ _ => exact absurd (List.mem_append_right _ h) htail
  | nil =>
    cases l' with
    | nil => cases h
    | cons first rest =>
      rcases List.mem_cons.1 h with rfl | h
      · exact ⟨rfl, rest, rfl⟩
      · exact absurd h htail

namespace Node

variable {n : Node} {i : ContextId}

/-- Whether a context is still to leave the directory. -/
def isLeaving (n : Node) (i : ContextId) : Bool :=
  n.agenda.any fun task => task.leaving? == some i

theorem isLeaving_iff : n.isLeaving i = true ↔ ∃ task ∈ n.agenda, task.leaving? = some i := by
  simp [isLeaving]

theorem isFinished_of_isLeaving (hn : Orderly n) (h : n.isLeaving i = true) :
    n.isFinished i = true := by
  obtain ⟨task, htask, hleaving⟩ := isLeaving_iff.1 h
  exact hn.leaving task htask i hleaving

theorem exists_call_of_isLeaving (h : n.isLeaving i = true) :
    ∃ call ∈ pendingCalls i n.agenda, call.callback = .leave := by
  obtain ⟨task, htask, hleaving⟩ := isLeaving_iff.1 h
  unfold Task.leaving? at hleaving
  split at hleaving
  · obtain rfl := Option.some.inj hleaving
    exact ⟨⟨.leave, _, _⟩, mem_pendingCalls.2 htask, rfl⟩
  · cases hleaving

theorem agenda_find_none {job : JobId} (hi : n.contextOf? job = none) (holder : Option Holder)
    (reply : Reply) :
    (n.execute (.find job holder) reply).agenda = .answer reply .nothing :: n.agenda := by
  rw [execute, hi]
  rfl

/-- The context that is found is told with the names that it has had so far. -/
theorem agenda_find {job : JobId} (hi : n.contextOf? job = some i) {c : Context}
    (hc : n.contexts[i]? = some c) (holder : Option Holder) (reply : Reply) :
    (n.execute (.find job holder) reply).agenda =
      .answer reply (.held (n.holdersOf i) c.status) :: n.agenda := by
  rw [execute, hi]
  simp only [answerHeld, hc]
  cases holder <;> rfl

/-- A task registers one callback at most, and only a context that was not there before accepts
to leave the directory. -/
theorem registers_cases (n : Node) (i : ContextId) : n.registers i = [] ∨
    (∃ tag steps, n.registers i = [.script tag steps]) ∨
      i = n.contexts.length ∧ n.registers i = [.leave] := by
  unfold registers
  cases n.agenda.head? with
  | none => exact .inl rfl
  | some task =>
    rw [Option.elim_some]
    unfold accepts
    split
    · split
      · split
        · exact .inr (.inl ⟨_, _, rfl⟩)
        · exact .inl rfl
      · exact .inl rfl
    · split
      · rename_i hnew
        exact .inr (.inr ⟨hnew.1, rfl⟩)
      · exact .inl rfl
    · exact .inl rfl

end Node

namespace IsRun

variable {t : Nat → Node} (h : IsRun t) {i : ContextId} {k : Nat}
include h

/-- Only the first callback of a context takes it out of the directory. -/
theorem leave_not_mem_tail (i : ContextId) (k : Nat) : .leave ∉ (registered t i k).tail := by
  induction k with
  | zero => simp [registered]
  | succ k ih =>
    rw [registered_succ]
    rcases (t k).registers_cases i with hnone | ⟨tag, steps, hscript⟩ | ⟨hnew, hleave⟩
    · rwa [hnone, List.append_nil]
    · rw [hscript]
      cases hold : registered t i k with
      | nil => simp
      | cons first more =>
        rw [hold] at ih
        simpa using ih
    -- a new context has accepted nothing before
    · have habsent : (t k).books.standings[i]? = none := by
        rw [List.getElem?_eq_none_iff, (t k).length_standings, hnew]
      rw [(h.filed i k).absent habsent, hleave]
      simp

/-- A finished context was finished by a call. -/
theorem exists_isFinish_lt (hfinished : (t k).isFinished i = true) :
    ∃ c d, c < k ∧ IsFinish t c d i := by
  induction k with
  | zero =>
    obtain ⟨name, capacity, jobLimit, h0⟩ := h.start
    rw [h0] at hfinished
    cases hfinished
  | succ k ih =>
    cases hbefore : (t k).isFinished i with
    | true =>
      obtain ⟨c, d, hck, hfinish⟩ := ih hbefore
      exact ⟨c, d, Nat.lt_succ_of_lt hck, hfinish⟩
    | false =>
      obtain ⟨d, hfinish⟩ := h.exists_isFinish hbefore hfinished
      exact ⟨k, d, Nat.lt_succ_self k, hfinish⟩

/-- The callbacks that a finished context has accepted were called or are still to be called, in
order. -/
theorem callbacks_of_finished (hfinished : (t k).isFinished i = true) :
    (fired t i k).map Call.callback ++ (pendingCalls i (t k).agenda).map Call.callback =
      registered t i k := by
  obtain ⟨c, d, hck, hfinish⟩ := h.exists_isFinish_lt hfinished
  obtain ⟨ctx, target, last, rest, htaken⟩ := hfinish.taken h
  rw [← List.map_append, htaken.calls h hck, htaken.registered_eq h (Nat.le_of_lt hck),
    List.map_map]
  exact List.map_id _

/-- Before a context leaves the directory nobody is called. -/
theorem calls_of_isLeaving (hleaving : (t k).isLeaving i = true) : fired t i k = [] ∧
    ∃ call calls, pendingCalls i (t k).agenda = call :: calls ∧ call.callback = .leave := by
  have hall := h.callbacks_of_finished (Node.isFinished_of_isLeaving (h.orderly k) hleaving)
  have htail := h.leave_not_mem_tail i k
  rw [← hall] at htail
  obtain ⟨call, hcall, hleave⟩ := Node.exists_call_of_isLeaving hleaving
  obtain ⟨hfired, calls, hpending⟩ :=
    eq_cons_of_not_mem_tail (List.mem_map.2 ⟨call, hcall, hleave⟩) htail
  obtain ⟨first, more, hpending, hfirst, -⟩ := List.map_eq_cons_iff.1 hpending
  exact ⟨List.map_eq_nil_iff.1 hfired, first, more, hpending, hfirst⟩

end IsRun

/-- At time `k` a context is being finished, and its sub-contexts and its account are being closed:
it is still to leave the directory, and nobody has been called. -/
structure Leaving (t : Nat → Node) (k : Nat) (i : ContextId) : Prop where
  pending : (t k).isLeaving i = true
  uncalled : fired t i k = []
  within : ∃ c d, IsFinish t c d i ∧ c < k ∧ k < d

namespace IsRun

variable {t : Nat → Node} (h : IsRun t) {i : ContextId} {k : Nat}
include h

theorem leaving (hleaving : (t k).isLeaving i = true) : Leaving t k i := by
  obtain ⟨huncalled, call, calls, hpending, -⟩ := h.calls_of_isLeaving hleaving
  have hfinished := Node.isFinished_of_isLeaving (h.orderly k) hleaving
  obtain ⟨c, d, hck, hfinish⟩ := h.exists_isFinish_lt hfinished
  refine ⟨hleaving, huncalled, c, d, hfinish, hck, Nat.lt_of_not_le fun hdk => ?_⟩
  -- when the call is over everybody has been called
  obtain ⟨ctx, target, last, rest, htaken⟩ := hfinish.taken h
  have hfired := htaken.fired_eq h hdk
  have hall := h.callbacks_of_finished hfinished
  rw [huncalled] at hfired hall
  rw [List.map_eq_nil_iff.1 hfired.symm, hpending] at hall
  cases hall

/-- A context of the directory is open, or it is finished and still to leave. -/
theorem found {job : JobId} (hi : (t k).contextOf? job = some i) :
    ∃ c, (t k).contexts[i]? = some c ∧ c.job = job ∧
      (c.phase = .running ∧ (t k).isLeaving i = false ∨
        c.phase.isFinished = true ∧ Leaving t k i) := by
  have hfinished := Node.isFinished_of_isLeaving (h.orderly k) (i := i)
  obtain ⟨c, hc, hjob, ⟨hopen, -⟩ | hleaving⟩ := (h.orderly k).entry job i hi
  · refine ⟨c, hc, hjob, .inl ⟨Phase.eq_running hopen, Bool.eq_false_iff.2 fun hleaving => ?_⟩⟩
    rw [Node.isFinished_eq hc, hopen] at hfinished
    cases hfinished hleaving
  · rw [← Node.isLeaving_iff] at hleaving
    rw [Node.isFinished_eq hc] at hfinished
    exact ⟨c, hc, hjob, .inr ⟨hfinished hleaving, h.leaving hleaving⟩⟩

/-- From the call of a callback on, its context is not in the directory. -/
theorem contextOf?_of_called {tag : String} {steps : List Command} {cause : Option Fault}
    {bytes : UInt64} {rest : List Task}
    (hagenda : (t k).agenda = .notify i (.script tag steps) cause bytes :: rest) {m : Nat}
    (hkm : k ≤ m) (job : JobId) : (t m).contextOf? job ≠ some i := by
  intro hi
  have hfires : (t k).fires i = [⟨.script tag steps, cause, bytes⟩] := by
    simp [Node.fires, hagenda, pendingCalls]
  have hpending := Node.fires_append hagenda i
  rw [hfires, List.singleton_append] at hpending
  have hfinished : (t k).isFinished i = true := by
    by_contra hopen
    rw [(h.filed i k).quiet (Bool.eq_false_iff.2 hopen)] at hpending
    cases hpending
  obtain ⟨c, hc, -, ⟨hrunning, -⟩ | ⟨-, hleaving⟩⟩ := h.found hi
  · have hstill := h.isFinished hkm hfinished
    rw [Node.isFinished_eq hc, hrunning] at hstill
    cases hstill
  · rcases Nat.eq_or_lt_of_le hkm with rfl | hlt
    -- the context would leave by this very call
    · obtain ⟨-, call, calls, hcalls, hleave⟩ := h.calls_of_isLeaving hleaving.pending
      rw [hcalls] at hpending
      obtain rfl := (List.cons.inj hpending).1
      cases hleave
    · rw [fired_eq_nil_iff.1 hleaving.uncalled k hlt] at hfires
      cases hfires

/-- The directory lists open contexts and contexts that are leaving. -/
theorem activeJobs_eq (k : Nat) : (t k).activeJobs =
    (t k).directory.values.countP (fun i => !(t k).isFinished i) +
      (t k).directory.values.countP (t k).isLeaving := by
  have hsame : ∀ i ∈ (t k).directory.values, (t k).isLeaving i = (t k).isFinished i := by
    intro i hi
    obtain ⟨job, hjob⟩ := SortedMap.mem_values_iff.1 hi
    obtain ⟨c, hc, -, ⟨hrunning, hnot⟩ | ⟨hfinished, hleaving⟩⟩ := h.found hjob
    · rw [hnot, Node.isFinished_eq hc, hrunning]
      rfl
    · rw [hleaving.pending, Node.isFinished_eq hc, hfinished]
  have hleaving : (t k).directory.values.countP (t k).isLeaving =
      (t k).directory.values.countP (t k).isFinished :=
    List.countP_congr fun i hi => by rw [hsame i hi]
  rw [hleaving, Nat.add_comm, Node.activeJobs, SortedMap.size, ← List.length_map Prod.snd]
  exact (List.length_eq_countP_add_countP (t k).isFinished).trans (by simp [SortedMap.values])

end IsRun

/-- What the directory gives out and counts. -/
structure HandsOut (t : Nat → Node) : Prop where
  /-- A context that is found for a job is of this job, and open unless it is leaving. -/
  found : ∀ k job i, (t k).contextOf? job = some i → ∃ c, (t k).contexts[i]? = some c ∧
    c.job = job ∧ (c.phase = .running ∧ (t k).isLeaving i = false ∨
      c.phase.isFinished = true ∧ Leaving t k i)
  /-- Whoever asks for the context of a job is told its status, or that there is none. -/
  answered : ∀ k job holder reply rest, (t k).agenda = .run (.find job holder) reply :: rest →
    (t k).contextOf? job = none ∧ (t (k + 1)).agenda = .answer reply .nothing :: rest ∨
      ∃ i c, (t k).contextOf? job = some i ∧ (t k).contexts[i]? = some c ∧
        (t (k + 1)).agenda = .answer reply (.held ((t k).holdersOf i) c.status) :: rest
  /-- The contexts of the directory are counted, each once: those that are open and those that are
  leaving. -/
  counted : ∀ k, (t k).directory.values.Nodup ∧ (t k).activeJobs =
    (t k).directory.values.countP (fun i => !(t k).isFinished i) +
      (t k).directory.values.countP (t k).isLeaving
  /-- Whoever asks for the number of jobs is told this number. -/
  told : ∀ k reply rest, (t k).agenda = .run .service reply :: rest →
    (t (k + 1)).agenda = .answer reply (.service (t k).name (t k).activeJobs) :: rest
  /-- From the call of a callback on, its context is not given out. -/
  called : ∀ k i tag steps cause bytes rest,
    (t k).agenda = .notify i (.script tag steps) cause bytes :: rest →
      ∀ m, k ≤ m → ∀ job, (t m).contextOf? job ≠ some i

/-- At every time of a run, also while sub-contexts are closed and callbacks are called, the
directory gives out and counts open contexts, and those that are finished and still to leave it. -/
theorem IsRun.handsOut {t : Nat → Node} (h : IsRun t) : HandsOut t where
  found k job i := h.found
  answered k job holder reply rest hagenda := by
    rw [(h.swept hagenda).agenda]
    cases hi : (t k).contextOf? job with
    | none => exact .inl ⟨rfl, Node.agenda_find_none (n := { t k with agenda := rest }) hi _ _⟩
    | some i =>
      obtain ⟨c, hc, -⟩ := h.found hi
      exact .inr ⟨i, c, rfl, hc, Node.agenda_find (n := { t k with agenda := rest }) hi hc _ _⟩
  counted k := ⟨(h.orderly k).nodup_directory, h.activeJobs_eq k⟩
  told k reply rest hagenda := by
    rw [(h.swept hagenda).agenda]
    rfl
  called k i tag steps cause bytes rest hagenda m := h.contextOf?_of_called hagenda

/-- A job is killed.  Its sub-context looks for it while it is closed, and so does a callback. -/
def peeking : List Command :=
  [.acquire 1 "a", .add "a" 1 "shard" false [.find 1 (some "b"), .service],
    .callback "a" "done" [.find 1 (some "c"), .service], .killJob 1]

/-- When the callback looks for it, the job has no context any more. -/
theorem handsOut_peeking :
    HandsOut ((Node.start "n1" 1024 512).following peeking) ∧
      ((Node.start "n1" 1024 512).following peeking 20).contexts.map (·.phase) = [.killed] ∧
      ((Node.start "n1" 1024 512).following peeking 20).contextOf? 1 = none ∧
      ((Node.start "n1" 1024 512).following peeking 20).activeJobs = 0 :=
  ⟨(Node.isRun_following "n1" 1024 512 peeking).handsOut, by decide, by decide, by decide⟩

/-- When the sub-context looks for it, it finds the killed context, which is counted as active. -/
theorem found_killed_peeking :
    ∃ reply rest status,
      ((Node.start "n1" 1024 512).following peeking 12).agenda =
        .run (.find 1 (some "b")) reply :: rest ∧
      ((Node.start "n1" 1024 512).following peeking 13).agenda =
        .answer reply (.held ["a"] status) :: rest ∧ status.phase = .killed ∧
      ((Node.start "n1" 1024 512).following peeking 12).contextOf? 1 = some 0 ∧
      ((Node.start "n1" 1024 512).following peeking 12).isFinished 0 = true ∧
      ((Node.start "n1" 1024 512).following peeking 12).activeJobs = 1 := by
  refine ⟨_, _, _, rfl, rfl, ?_, ?_, ?_, ?_⟩ <;> decide

end ShardJoin.Job
