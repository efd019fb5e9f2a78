/-
What is counted and what is owed.

What happens in a step is counted at once or owed by a task.  So the ledger and
what is owed together always agree with the history of a run, and between
commands, when nothing is owed, the ledger does.

* `Entry.balance` — what a task counts, owes and leaves to others to count;
* `Entry.countP_marks` — what happens to the contexts that are in some phase;
* `Happens` — what happens in one step of a run;
* `IsRun.booked_eq` — what grows by what happens is what is counted or owed;
* `IsRun.counted_eq` — between commands it is what is counted.
-/
import ShardJoin.Proofs.Job.Directory
import ShardJoin.Proofs.Job.Entries

namespace ShardJoin.Job

/-! ### One task -/

theorem countP_eq_totalWeight {α : Type} (p : α → Bool) (l : List α) :
    l.countP p = totalWeight (fun a => if p a then 1 else 0) l := by
  induction l with
  | nil => rfl
  | cons a l ih => rw [List.countP_cons, totalWeight, ih, Nat.add_comm]

theorem countP_modify {α : Type} (p : α → Bool) (f : α → α) {l : List α} {i : Nat} {a : α}
    (h : l[i]? = some a) : (l.modify i f).countP p + (if p a then 1 else 0) =
      l.countP p + if p (f a) then 1 else 0 := by
  rw [countP_eq_totalWeight, countP_eq_totalWeight]
  exact totalWeight_modify _ f h

namespace Node

theorem isFinished_eq_marks (n : Node) (i : ContextId) :
    n.isFinished i = (n.marks[i]?.map (·.2.isFinished)).getD false := by
  rw [isFinished, marks, List.getElem?_map, Option.map_map]
  rfl

/-- What is counted for some series. -/
def counted (n : Node) (p : Series → Bool) : Int := Ledger.total p n.ledger.changes

/-- What is counted for some series, and what is still to be counted. -/
def booked (n : Node) (p : Series → Bool) : Int :=
  n.counted p + gain p (n.agenda.flatMap n.owes)

theorem counted_of_post {n n' : Node} {happened : List Happening}
    (h : n'.ledger = n.ledger.post (happened.flatMap Happening.entries)) (p : Series → Bool) :
    n'.counted p = n.counted p + gain p happened := by
  rw [counted, h, Ledger.changes_post, Ledger.total_append, counted, gain]

theorem counted_of_eq {n n' : Node} (h : n'.ledger = n.ledger) (p : Series → Bool) :
    n'.counted p = n.counted p := by
  rw [counted, h, counted]

/-- Every task counts for a context that is there. -/
def Placed (n : Node) : Prop := ∀ x ∈ n.agenda, ∀ i, x.place? = some i → i < n.marks.length

theorem owes_of_place?_eq_none (n : Node) {task : Task} (h : task.place? = none) :
    n.owes task = [] := by
  cases task with
  | run | closeAccount | notify | killNext | answer => rfl
  | closeSub | subClosed | finished => cases h

/-- What a task owes depends on the node of its context alone. -/
theorem owes_congr {n n' : Node} {task : Task}
    (h : ∀ i, task.place? = some i → n'.marks[i]?.map (·.1) = n.marks[i]?.map (·.1)) :
    n'.owes task = n.owes task := by
  have hmap : ∀ {i : ContextId} (f : NodeId → Happening),
      n'.marks[i]?.map (·.1) = n.marks[i]?.map (·.1) →
      n'.marks[i]?.map (fun m => f m.1) = n.marks[i]?.map (fun m => f m.1) := by
    intro i f heq
    have := congrArg (Option.map f) heq
    rwa [Option.map_map, Option.map_map] at this
  cases task with
  | run | closeSub | closeAccount | notify | killNext | answer => rfl
  | subClosed i fails =>
    cases fails with
    | false => rfl
    | true => exact congrArg Option.toList (hmap .closeFailed (h i rfl))
  | finished i outcome => exact congrArg Option.toList (hmap (.ended · outcome) (h i rfl))

theorem place?_finishTasks {i : ContextId} {c : Context} {target : Phase} {task : Task}
    (h : task ∈ finishTasks i c target) : task.place? = none ∨ task.place? = some i := by
  simp only [finishTasks, List.mem_append, List.mem_map, List.mem_singleton] at h
  rcases h with ⟨_, -, rfl⟩ | ⟨_, -, rfl⟩ | ⟨_, -, rfl⟩ | rfl
  · exact .inr rfl
  · exact .inl rfl
  · exact .inl rfl
  · exact .inr rfl

/-- Of the tasks that finish a context, the last one owes its end. -/
theorem owes_finishTasks (n : Node) {i : ContextId} (c : Context) (target : Phase)
    {m : NodeId × Phase} (hm : n.marks[i]? = some m) :
    (finishTasks i c target).flatMap n.owes = [.ended m.1 target] := by
  have hsubs : (c.subContexts.values.map (.closeSub i)).flatMap n.owes = [] :=
    List.flatMap_eq_nil_iff.2 (List.forall_mem_map.2 fun _ _ => rfl)
  have haccount : (c.account.toList.map (.closeAccount i)).flatMap n.owes = [] :=
    List.flatMap_eq_nil_iff.2 (List.forall_mem_map.2 fun _ _ => rfl)
  have hcallbacks : (c.callbacks.map
      (.notify i · (finishCause c target) c.bytes)).flatMap n.owes = [] :=
    List.flatMap_eq_nil_iff.2 (List.forall_mem_map.2 fun _ _ => rfl)
  simp only [finishTasks, List.flatMap_append, hsubs, haccount, hcallbacks, List.nil_append]
  simp [owes, hm]

end Node

namespace Happening

/-- What a happening adds to the number of contexts with some marks. -/
def shift (p : NodeId × Phase → Bool) : Happening → Int
  | .opened node => if p (node, .running) then 1 else 0
  | .ended node outcome =>
    (if p (node, outcome) then 1 else 0) - if p (node, .running) then 1 else 0
  | .registered _ | .duplicate _ | .closeFailed _ => 0

/-- What several happenings add to it. -/
def shifts (p : NodeId × Phase → Bool) : List Happening → Int
  | [] => 0
  | e :: happened => e.shift p + shifts p happened

/-- Offers and closes change no context. -/
theorem shifts_eq_zero {p : NodeId × Phase → Bool} {happened : List Happening}
    (h : ∀ e ∈ happened, e.kind = .offer ∨ e.kind = .close) : shifts p happened = 0 := by
  induction happened with
  | nil => rfl
  | cons e happened ih =>
    rw [List.forall_mem_cons] at h
    have he : e.shift p = 0 := by
      cases e with
      | registered | duplicate | closeFailed => rfl
      | opened | ended => exact absurd h.1 (by simp [kind])
    rw [shifts, he, ih h.2, Int.zero_add]

/-- Contexts end finished. -/
def Sound : Happening → Prop
  | .ended _ outcome => outcome.isFinished = true
  | .opened _ | .registered _ | .duplicate _ | .closeFailed _ => True

theorem sound_of_kind {e : Happening} (h : e.kind ≠ .ending) : e.Sound := by
  cases e with
  | ended => exact absurd rfl h
  | opened | registered | duplicate | closeFailed => trivial

end Happening

namespace Entry

variable {n n' : Node} {task : Task} {pushed : List Task} {happened : List Happening}
  (h : Entry n task n' pushed happened)
include h

theorem of_eq {m : Node} (hmarks : m.marks = n'.marks) (hledger : m.ledger = n'.ledger) :
    Entry n task m pushed happened := by
  cases h with
  | aside hplace hoffered hm hl hpushed =>
    exact .aside hplace hoffered (hmarks.trans hm) (hledger.trans hl) hpushed
  | opened hplace hoffered hm hl hpushed =>
    exact .opened hplace hoffered (hmarks.trans hm) (hledger.trans hl) hpushed
  | ended hplace hoffered hc hopen htarget hm hl hlast hpushed =>
    exact .ended hplace hoffered hc hopen htarget (hmarks.trans hm) (hledger.trans hl) hlast hpushed
  | offered htask hoffered hc hm hl htasks hpushed =>
    exact .offered htask hoffered hc (hmarks.trans hm) (hledger.trans hl) htasks hpushed
  | closing htask hm hl hpushed =>
    exact .closing htask (hmarks.trans hm) (hledger.trans hl) hpushed
  | cancelled htask hm hl hpushed =>
    exact .cancelled htask (hmarks.trans hm) (hledger.trans hl) hpushed
  | paid htask hm hl hpushed => exact .paid htask (hmarks.trans hm) (hledger.trans hl) hpushed

/-- Contexts stay, each on its node, and finished ones as they are. -/
theorem stays {i : ContextId} {m : NodeId × Phase} (hm : n.marks[i]? = some m) :
    ∃ m', n'.marks[i]? = some m' ∧ m'.1 = m.1 ∧ (m.2.isFinished = true → m' = m) := by
  have hself : n'.marks = n.marks →
      ∃ m', n'.marks[i]? = some m' ∧ m'.1 = m.1 ∧ (m.2.isFinished = true → m' = m) :=
    fun hmarks => ⟨m, hmarks ▸ hm, rfl, fun _ => rfl⟩
  cases h with
  | aside _ _ hmarks _ _ | offered _ _ _ hmarks _ _ _ | closing _ hmarks _ _
  | cancelled _ hmarks _ _ | paid _ hmarks _ _ => exact hself hmarks
  | opened _ _ hmarks _ _ =>
    have hi := (List.getElem?_eq_some_iff.1 hm).1
    exact ⟨m, by rw [hmarks, List.getElem?_append_left hi, hm], rfl, fun _ => rfl⟩
  | @ended j c target _ _ _ hc hopen _ hmarks _ _ _ =>
    by_cases hij : j = i
    · subst hij
      obtain rfl : c.mark = m := Option.some.inj ((Node.getElem?_marks hc).symm.trans hm)
      refine ⟨(c.node, target), ?_, rfl, fun hfinished => ?_⟩
      · rw [hmarks, List.getElem?_modify_eq, hm]
        rfl
      · rw [show c.mark.2 = c.phase from rfl, hopen] at hfinished
        cases hfinished
    · refine ⟨m, ?_, rfl, fun _ => rfl⟩
      rw [hmarks, List.getElem?_modify_ne _ _ hij, hm]

theorem lt_length_marks {i : ContextId} (hi : i < n.marks.length) : i < n'.marks.length := by
  obtain ⟨_, hm, -⟩ := h.stays (List.getElem?_eq_getElem hi)
  exact (List.getElem?_eq_some_iff.1 hm).1

/-- The tasks that are caused count for contexts that are there. -/
theorem placed (htask : ∀ i, task.place? = some i → i < n.marks.length) :
    ∀ x ∈ pushed, ∀ i, x.place? = some i → i < n'.marks.length := by
  intro x hx i hi
  refine h.lt_length_marks ?_
  have hsilent : (∀ x ∈ pushed, x.place? = none) → i < n.marks.length := by
    intro hpushed
    rw [hpushed x hx] at hi
    cases hi
  have hlt : ∀ {j : ContextId} {c : Context}, n.contexts[j]? = some c → j < n.marks.length :=
    fun hc => (List.getElem?_eq_some_iff.1 (Node.getElem?_marks hc)).1
  cases h with
  | aside _ _ _ _ hpushed | opened _ _ _ _ hpushed => exact hsilent hpushed
  | @ended j c target last _ _ hc _ _ _ _ hlast hpushed =>
    subst hpushed
    rcases List.mem_append.1 hx with hx | hx
    · rcases Node.place?_finishTasks hx with hnone | hj
      · rw [hnone] at hi
        cases hi
      · rw [hj, Option.some.injEq] at hi
        subst hi
        exact hlt hc
    · rw [List.mem_singleton.1 hx, hlast] at hi
      cases hi
  | @offered _ _ j _ _ c tasks _ _ _ hc _ _ htasks hpushed =>
    subst hpushed
    rcases List.mem_append.1 hx with hx | hx
    · obtain ⟨_, rfl⟩ := htasks x hx
      obtain rfl : j = i := Option.some.inj hi
      exact hlt hc
    · rw [List.mem_singleton.1 hx] at hi
      cases hi
  | @closing j _ steps _ htask' _ _ hpushed =>
    subst hpushed
    rcases List.mem_append.1 hx with hx | hx
    · rw [Node.place?_hooks steps x hx] at hi
      cases hi
    · rw [List.mem_singleton.1 hx] at hi
      exact htask i (by rw [htask']; exact hi)
  | cancelled _ _ _ hpushed | paid _ _ _ hpushed =>
    subst hpushed
    cases hx

/-- A task counts what it owes, and what happens is counted or owed by what is caused. -/
theorem balance (p : Series → Bool) : n'.counted p + gain p (pushed.flatMap n'.owes) =
    n.counted p + gain p (n.owes task) + gain p happened := by
  have hnone : ∀ {tasks : List Task}, (∀ x ∈ tasks, x.place? = none) →
      tasks.flatMap n'.owes = [] := fun htasks =>
    List.flatMap_eq_nil_iff.2 fun x hx => n'.owes_of_place?_eq_none (htasks x hx)
  cases h with
  | aside hplace _ _ hledger hpushed =>
    rw [Node.counted_of_eq hledger, hnone hpushed, n.owes_of_place?_eq_none hplace]
    simp
  | @opened node hplace _ _ hledger hpushed =>
    have hentries : (Happening.opened node).entries =
        [Happening.opened node].flatMap Happening.entries := rfl
    rw [hentries] at hledger
    rw [Node.counted_of_post hledger, hnone hpushed, n.owes_of_place?_eq_none hplace]
    simp
  | @ended i c target last hplace _ hc _ _ hmarks hledger hlast hpushed =>
    have hm : n'.marks[i]? = some (c.node, target) := by
      rw [hmarks, List.getElem?_modify_eq, Node.getElem?_marks hc]
      rfl
    rw [Node.counted_of_eq hledger, hpushed, List.flatMap_append, n'.owes_finishTasks c target hm,
      hnone (List.forall_mem_singleton.2 hlast), n.owes_of_place?_eq_none hplace]
    simp
  | @offered command reply _ _ _ c tasks answer htask _ _ _ hledger htasks hpushed =>
    have hcloses : tasks.flatMap n'.owes = [] :=
      List.flatMap_eq_nil_iff.2 fun x hx => by obtain ⟨_, rfl⟩ := htasks x hx; rfl
    rw [Node.counted_of_post hledger, hpushed, List.flatMap_append, hcloses,
      hnone (Node.place?_answer reply answer), htask, n.owes_of_place?_eq_none rfl]
    simp
  | @closing i _ steps fails htask hmarks hledger hpushed =>
    have howes : n'.owes (.subClosed i fails) = n.owes (.subClosed i fails) :=
      Node.owes_congr fun _ _ => by rw [hmarks]
    have hclose : n.owes task = [] := by rw [htask]; rfl
    rw [Node.counted_of_eq hledger, hpushed, List.flatMap_append, hnone (Node.place?_hooks steps),
      hclose, List.flatMap_singleton, howes]
    simp
  | cancelled htask _ hledger hpushed =>
    have hclose : n.owes task = [] := by rw [htask]; rfl
    rw [Node.counted_of_eq hledger, hpushed, hclose]
    simp
  | paid _ _ hledger hpushed =>
    rw [Node.counted_of_post hledger, hpushed]
    simp

/-- Contexts end finished. -/
theorem sound : ∀ e ∈ happened, e.Sound := by
  cases h with
  | aside | cancelled | paid => exact fun _ he => nomatch he
  | opened => exact List.forall_mem_singleton.2 trivial
  | ended _ _ _ _ htarget _ _ _ _ =>
    exact List.forall_mem_singleton.2 (Task.isFinished_of_target? htarget)
  | offered =>
    exact fun e he => Happening.sound_of_kind (by simp [Happening.kind_ofVerdict he])
  | closing => exact fun e he => Happening.sound_of_kind (by simp [Node.kind_owes he])

/-- The number of contexts with some marks changes by what happens. -/
theorem countP_marks (p : NodeId × Phase → Bool) :
    (n'.marks.countP p : Int) = n.marks.countP p + Happening.shifts p happened := by
  cases h with
  | aside _ _ hmarks _ _ | cancelled _ hmarks _ _ | paid _ hmarks _ _ =>
    rw [hmarks, Happening.shifts, Int.add_zero]
  | @opened node _ _ hmarks _ _ =>
    rw [hmarks, List.countP_append]
    simp only [List.countP_singleton, Happening.shifts, Happening.shift]
    split <;> simp
  | @ended i c target _ _ _ hc hopen _ hmarks _ _ _ =>
    have hmodify := countP_modify p (fun m => (m.1, target)) (Node.getElem?_marks hc)
    rw [← hmarks, Context.mark, Phase.eq_running hopen] at hmodify
    simp only [Happening.shifts, Happening.shift]
    grind
  | offered _ _ _ hmarks _ _ _ =>
    rw [hmarks, Happening.shifts_eq_zero fun e he => .inl (Happening.kind_ofVerdict he),
      Int.add_zero]
  | closing _ hmarks _ _ =>
    rw [hmarks, Happening.shifts_eq_zero fun e he => .inr (Node.kind_owes he), Int.add_zero]

/-- A context is finished by what ends it. -/
theorem finishes {i : ContextId} (hopen : n.isFinished i = false)
    (hfinished : n'.isFinished i = true) : ∃ c target, n.contexts[i]? = some c ∧
      task.target? = some target ∧ happened = [.ended c.node target] := by
  have hsame : n'.marks[i]? ≠ n.marks[i]? := by
    intro heq
    rw [Node.isFinished_eq_marks, heq, ← Node.isFinished_eq_marks, hopen] at hfinished
    cases hfinished
  cases h with
  | aside _ _ hmarks _ _ | offered _ _ _ hmarks _ _ _ | closing _ hmarks _ _
  | cancelled _ hmarks _ _ | paid _ hmarks _ _ => exact absurd (by rw [hmarks]) hsame
  | opened _ _ hmarks _ _ =>
    -- a context that is opened runs
    rw [Node.isFinished_eq_marks, hmarks, List.getElem?_append] at hfinished
    split at hfinished
    · rw [← Node.isFinished_eq_marks, hopen] at hfinished
      cases hfinished
    · rw [List.getElem?_singleton] at hfinished
      split at hfinished <;> cases hfinished
  | @ended j c target _ _ _ hc _ htarget hmarks _ _ _ =>
    by_cases hij : j = i
    · subst hij
      exact ⟨c, target, hc, htarget, rfl⟩
    · exact absurd (by rw [hmarks, List.getElem?_modify_ne _ _ hij]) hsame

end Entry

/-! ### One step -/

/-- What happens in one step of a run: nothing between commands, else what the task does. -/
inductive Happens (t : Nat → Node) (k : Nat) : List Happening → Prop
  | idle (hnil : (t k).agenda = []) (hmarks : (t (k + 1)).marks = (t k).marks)
    (hledger : (t (k + 1)).ledger = (t k).ledger)
    (hnext : ∀ x ∈ (t (k + 1)).agenda, x.place? = none) : Happens t k []
  | task {task : Task} {rest pushed : List Task} {happened : List Happening}
    (hagenda : (t k).agenda = task :: rest)
    (hentry : Entry { t k with agenda := rest } task (t (k + 1)) pushed happened)
    (hnext : (t (k + 1)).agenda = pushed ++ rest) : Happens t k happened

namespace Happens

variable {t : Nat → Node} {k : Nat} {happened : List Happening} (h : Happens t k happened)
include h

theorem sound : ∀ e ∈ happened, e.Sound := by
  cases h with
  | idle => exact fun _ he => nomatch he
  | task _ hentry _ => exact hentry.sound

theorem countP_marks (p : NodeId × Phase → Bool) :
    ((t (k + 1)).marks.countP p : Int) = (t k).marks.countP p + Happening.shifts p happened := by
  cases h with
  | idle _ hmarks _ _ =>
    rw [hmarks, Happening.shifts, Int.add_zero]
  | task _ hentry _ => exact hentry.countP_marks p

theorem placed (hplaced : (t k).Placed) : (t (k + 1)).Placed := by
  intro x hx i hi
  cases h with
  | idle _ _ _ hnext =>
    rw [hnext x hx] at hi
    cases hi
  | task hagenda hentry hnext =>
    rw [hnext] at hx
    rw [Node.Placed, hagenda, List.forall_mem_cons] at hplaced
    rcases List.mem_append.1 hx with hx | hx
    · exact hentry.placed hplaced.1 x hx i hi
    · exact hentry.lt_length_marks (hplaced.2 x hx i hi)

/-- What happens is counted or owed. -/
theorem booked (hplaced : (t k).Placed) (p : Series → Bool) :
    (t (k + 1)).booked p = (t k).booked p + gain p happened := by
  cases h with
  | idle hnil _ hledger hnext =>
    have hnone : (t (k + 1)).agenda.flatMap (t (k + 1)).owes = [] :=
      List.flatMap_eq_nil_iff.2 fun x hx => Node.owes_of_place?_eq_none _ (hnext x hx)
    rw [Node.booked, Node.booked, Node.counted_of_eq hledger, hnone, hnil]
    simp
  | @task task rest pushed happened hagenda hentry hnext =>
    rw [Node.Placed, hagenda, List.forall_mem_cons] at hplaced
    -- what the tasks behind owe stays
    have hrest : rest.flatMap (t (k + 1)).owes = rest.flatMap (t k).owes := by
      refine List.flatMap_congr fun x hx => Node.owes_congr fun i hi => ?_
      have hm := List.getElem?_eq_getElem (hplaced.2 x hx i hi)
      obtain ⟨m', hm', hnode, -⟩ := hentry.stays hm
      rw [hm', hm, Option.map_some, Option.map_some, hnode]
    have hbalance : (t (k + 1)).counted p + gain p (pushed.flatMap (t (k + 1)).owes) =
        (t k).counted p + gain p ((t k).owes task) + gain p happened := hentry.balance p
    rw [Node.booked, Node.booked, hnext, hagenda, List.flatMap_append, List.flatMap_cons,
      gain_append, gain_append, hrest]
    omega

end Happens

/-! ### Runs -/

/-- A step with something to do is an entry. -/
theorem Node.records_step {n : Node} {task : Task} {rest : List Task}
    (hagenda : n.agenda = task :: rest) : ∃ pushed happened, n.step.agenda = pushed ++ rest ∧
      Entry { n with agenda := rest } task n.step pushed happened := by
  obtain ⟨m, pushed, heq, heffect⟩ := doTask_effect { n with agenda := rest } task
  obtain ⟨happened, hentry⟩ := heffect.entry
  have hstep : n.step = (m.push pushed).sweep := by
    rw [step, hagenda]
    exact congrArg sweep heq
  refine ⟨pushed, happened, ?_, ?_⟩
  · rw [hstep, sweep_keeps Node.agenda (fun _ _ _ _ => rfl), push, heffect.agenda]
  · rw [hstep]
    exact hentry.of_eq (marks_sweep _) (sweep_keeps Node.ledger (fun _ _ _ _ => rfl) _)

namespace IsRun

variable {t : Nat → Node} (h : IsRun t)
include h

theorem exists_happens (k : Nat) : ∃ happened, Happens t k happened := by
  rcases h.next k with hstep | ⟨hnil, command, hgiven⟩
  · cases hagenda : (t k).agenda with
    | nil =>
      rw [Node.step_of_agenda_nil hagenda] at hstep
      refine ⟨[], .idle hagenda (by rw [hstep]) (by rw [hstep]) fun x hx => ?_⟩
      rw [hstep, hagenda] at hx
      cases hx
    | cons task rest =>
      obtain ⟨pushed, happened, hnext, hentry⟩ := Node.records_step hagenda
      rw [← hstep] at hnext hentry
      exact ⟨happened, .task hagenda hentry hnext⟩
  · refine ⟨[], .idle hnil (by rw [hgiven]; rfl) (by rw [hgiven]; rfl) fun x hx => ?_⟩
    rw [hgiven] at hx
    rw [List.mem_singleton.1 hx]
    rfl

theorem placed (k : Nat) : (t k).Placed := by
  induction k with
  | zero =>
    obtain ⟨name, capacity, jobLimit, h0⟩ := h.start
    rw [h0]
    exact fun _ hx => nomatch hx
  | succ k ih =>
    obtain ⟨_, hhappens⟩ := h.exists_happens k
    exact hhappens.placed ih

/-- What grows by what happens is what is counted or owed. -/
theorem booked_eq {p : Series → Bool} (total : Nat → Int) (hzero : total 0 = 0)
    (hsucc : ∀ k happened, Happens t k happened → total (k + 1) = total k + gain p happened)
    (k : Nat) : (t k).booked p = total k := by
  induction k with
  | zero =>
    obtain ⟨name, capacity, jobLimit, h0⟩ := h.start
    rw [h0, hzero]
    rfl
  | succ k ih =>
    obtain ⟨happened, hhappens⟩ := h.exists_happens k
    rw [hhappens.booked (h.placed k) p, ih, hsucc k happened hhappens]

/-- Between commands nothing is owed. -/
theorem counted_eq {p : Series → Bool} (total : Nat → Int) (hzero : total 0 = 0)
    (hsucc : ∀ k happened, Happens t k happened → total (k + 1) = total k + gain p happened)
    {k : Nat} (hagenda : (t k).agenda = []) : (t k).counted p = total k := by
  rw [← h.booked_eq total hzero hsucc k, Node.booked, hagenda, List.flatMap_nil, gain_nil,
    Int.add_zero]

end IsRun

end ShardJoin.Job
