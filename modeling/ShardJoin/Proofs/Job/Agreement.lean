/-
The ledger agrees with what has happened.

Between commands nothing is owed, so the counts of a node are those of the
history: contexts that were opened, calls that finished one, offers that came
back, and closes that came back with an error.  By which key series are told
apart is open: the counts are those of every key that tells the series of the
node from the others that were counted.

* `OfferReturns`, `CloseFails`, `Ends` — the calls that are counted;
* `Happens.offer`, `Happens.close`, `Happens.finish` — a step counts the call
  that it begins;
* `ToldApart` — a key tells the series of a node from those of the others;
* `IsRun.ledgerAgrees` — the ledger of a run agrees, whatever commands are given.
-/
import Mathlib.Data.Nat.Count
import ShardJoin.Proofs.Job.Callbacks
import ShardJoin.Proofs.Job.Counts
import ShardJoin.Proofs.Ledger

namespace ShardJoin

namespace Job

/-! ### Calls -/

section Calls

variable (t : Nat → Node)

/-- The call at time `c` offers a sub-context to a context of a node and comes back with some
verdict. -/
def OfferReturns (name : NodeId) (verdict : Option Fault → Prop) (c : Nat) : Prop :=
  ∃ d i id sub answer ctx, IsOffer t c d i id sub answer ∧ (t c).contexts[i]? = some ctx ∧
    ctx.node = name ∧ verdict answer.refusal?

/-- The close at time `c` of a sub-context of a node comes back with an error. -/
def CloseFails (name : NodeId) (c : Nat) : Prop :=
  ∃ d i sub rest ctx, (t c).agenda = .closeSub i sub :: rest ∧
    Returns t c d (.subClosed i true) rest ∧ (t c).contexts[i]? = some ctx ∧ ctx.node = name

/-- The call at time `c` finishes a context of a node with an outcome: it is a close or a kill. -/
def Ends (name : NodeId) (outcome : Phase) (c : Nat) : Prop :=
  ∃ d i ctx task rest, IsFinish t c d i ∧ (t c).contexts[i]? = some ctx ∧
    (t c).agenda = task :: rest ∧ task.target? = some outcome ∧ ctx.node = name

end Calls

open Classical in
/-- How many of the first times have a property. -/
noncomputable def often (P : Nat → Prop) (k : Nat) : Nat := Nat.count P k

theorem often_zero (P : Nat → Prop) : often P 0 = 0 := by rw [often, Nat.count_zero]

open Classical in
theorem often_succ (P : Nat → Prop) (k : Nat) :
    (often P (k + 1) : Int) = often P k + if P k then 1 else 0 := by
  rw [often, Nat.count_succ, often]
  split <;> rfl

/-! ### One step -/

/-- A call that comes back has caused its last task. -/
theorem Returns.caused {t : Nat → Node} {c d : Nat} {last : Task} {rest : List Task}
    (h : Returns t c d last rest) : ∃ tasks, (t (c + 1)).agenda = tasks ++ last :: rest := by
  rcases Nat.lt_or_eq_of_le h.lt with hlt | heq
  · obtain ⟨first, more, hbusy⟩ := h.busy (c + 1) (Nat.lt_succ_self c) hlt
    exact ⟨first :: more, hbusy⟩
  · have hdone := h.done
    rw [← heq] at hdone
    exact ⟨[], hdone⟩

section Calls

variable {t : Nat → Node} {k : Nat} {task : Task} {rest : List Task}
  (hagenda : (t k).agenda = task :: rest)
include hagenda

theorem not_offerReturns (hoffered : (t k).offeredBy? task = none) (name : NodeId)
    (verdict : Option Fault → Prop) : ¬OfferReturns t name verdict k := by
  rintro ⟨_, _, _, _, _, _, ⟨_, _, ⟨command, hagenda', hoffered'⟩, _⟩, _⟩
  obtain ⟨rfl, -⟩ := List.cons.inj (hagenda.symm.trans hagenda')
  have hnone : (t k).offered? command = none := hoffered
  rw [hoffered'] at hnone
  cases hnone

theorem not_closeFails (htask : ∀ i sub, task ≠ .closeSub i sub) (name : NodeId) :
    ¬CloseFails t name k := by
  rintro ⟨_, _, _, _, _, hagenda', _⟩
  exact htask _ _ (List.cons.inj (hagenda.symm.trans hagenda')).1

omit hagenda in
/-- An offer comes back with the answer that it has caused. -/
theorem IsRun.offerReturns_iff (ht : IsRun t) {command : Command} {reply : Reply}
    (hagenda : (t k).agenda = .run command reply :: rest) {i : ContextId} {id : SubContextId}
    {sub : SubContext} (hoffered : (t k).offered? command = some (i, id, sub)) {ctx : Context}
    (hctx : (t k).contexts[i]? = some ctx) {tasks : List Task} {answer : Answer}
    (hnext : (t (k + 1)).agenda = tasks ++ .answer reply answer :: rest) (name : NodeId)
    (verdict : Option Fault → Prop) :
    OfferReturns t name verdict k ↔ ctx.node = name ∧ verdict answer.refusal? := by
  constructor
  · rintro ⟨d, i', id', sub', answer', ctx', ⟨reply', rest', ⟨command', hagenda', hoffered'⟩,
      hreturns⟩, hctx', hon, hverdict⟩
    obtain ⟨heq, rfl⟩ := List.cons.inj (hagenda.symm.trans hagenda')
    obtain ⟨rfl, -⟩ := Task.run.inj heq
    obtain ⟨rfl, -⟩ := Prod.mk.inj (Option.some.inj (hoffered.symm.trans hoffered'))
    obtain rfl := Option.some.inj (hctx.symm.trans hctx')
    obtain ⟨-, rfl⟩ := Task.answer.inj (hreturns.eq_last hnext).1
    exact ⟨hon, hverdict⟩
  · rintro ⟨hon, hverdict⟩
    have hoffers : (t k).Offers i id sub reply rest := ⟨command, hagenda, hoffered⟩
    obtain ⟨d, answer', hreturns⟩ := ht.exists_isOffer hoffers
    obtain ⟨-, rfl⟩ := Task.answer.inj (hreturns.eq_last hnext).1
    exact ⟨d, i, id, sub, answer, ctx, ⟨reply, rest, hoffers, hreturns⟩, hctx, hon, hverdict⟩

omit hagenda in
/-- A close comes back with an error if that is what is to be counted for it. -/
theorem IsRun.closeFails_iff (ht : IsRun t) {i : ContextId} {sub : SubContext}
    (hagenda : (t k).agenda = .closeSub i sub :: rest) {ctx : Context}
    (hctx : (t k).contexts[i]? = some ctx) {tasks : List Task} {fails : Bool}
    (hnext : (t (k + 1)).agenda = tasks ++ .subClosed i fails :: rest) (name : NodeId) :
    CloseFails t name k ↔ fails = true ∧ ctx.node = name := by
  constructor
  · rintro ⟨d, i', sub', rest', ctx', hagenda', hreturns, hctx', hon⟩
    obtain ⟨heq, rfl⟩ := List.cons.inj (hagenda.symm.trans hagenda')
    obtain ⟨rfl, -⟩ := Task.closeSub.inj heq
    obtain rfl := Option.some.inj (hctx.symm.trans hctx')
    obtain ⟨-, rfl⟩ := Task.subClosed.inj (hreturns.eq_last hnext).1
    exact ⟨rfl, hon⟩
  · rintro ⟨rfl, hon⟩
    obtain ⟨d, hkd, hlast, hbusy⟩ := ht.exists_done hnext
    exact ⟨d, i, sub, rest, ctx, hagenda, ⟨⟨_, hagenda⟩, hkd, hlast, hbusy⟩, hctx, hon⟩

/-- A close that has nothing to do is over at once and has no task of its own. -/
theorem not_closeFails_of_silent (hnext : (t (k + 1)).agenda = rest) (name : NodeId) :
    ¬CloseFails t name k := by
  rintro ⟨d, i, sub, rest', ctx, hagenda', hreturns, -⟩
  obtain ⟨-, rfl⟩ := List.cons.inj (hagenda.symm.trans hagenda')
  obtain ⟨tasks, htasks⟩ := hreturns.caused
  have hlength := congrArg List.length (hnext.symm.trans htasks)
  rw [List.length_append, List.length_cons] at hlength
  omega

end Calls

namespace Happens

variable {t : Nat → Node} (ht : IsRun t) {k : Nat} {happened : List Happening}
  (h : Happens t k happened)
include ht h

/-- A step counts the offer that it begins by what comes back, and else no offer. -/
theorem offer : (∃ node refusal, happened = Happening.ofVerdict node refusal ∧
      ∀ name verdict, OfferReturns t name verdict k ↔ node = name ∧ verdict refusal) ∨
    (∀ e ∈ happened, e.kind ≠ .offer) ∧ ∀ name verdict, ¬OfferReturns t name verdict k := by
  cases h with
  | idle hnil _ _ _ =>
    refine .inr ⟨by simp, ?_⟩
    rintro name verdict ⟨_, _, _, _, _, _, ⟨_, _, ⟨_, hagenda, _⟩, _⟩, _⟩
    rw [hnil] at hagenda
    cases hagenda
  | @task task rest pushed _ hagenda hentry hnext =>
    cases hentry with
    | aside _ hoffered _ _ _ => exact .inr ⟨by simp, not_offerReturns hagenda hoffered⟩
    | opened _ hoffered _ _ _ | ended _ hoffered _ _ _ _ _ _ _ =>
      exact .inr ⟨by simp [Happening.kind], not_offerReturns hagenda hoffered⟩
    | @offered command reply i id sub ctx tasks answer htask hoffered hctx _ _ _ hpushed =>
      subst htask hpushed
      rw [List.append_assoc] at hnext
      exact .inl ⟨ctx.node, answer.refusal?, rfl,
        ht.offerReturns_iff hagenda hoffered hctx hnext⟩
    | closing htask _ _ _ =>
      subst htask
      exact .inr ⟨fun e he => by simp [Node.kind_owes he], not_offerReturns hagenda rfl⟩
    | cancelled htask _ _ _ =>
      subst htask
      exact .inr ⟨by simp, not_offerReturns hagenda rfl⟩
    | paid htask _ _ _ =>
      refine .inr ⟨by simp, not_offerReturns hagenda ?_⟩
      obtain ⟨_, _, rfl⟩ | ⟨_, _, rfl⟩ := htask <;> rfl

/-- A step counts the close that it begins, if that fails, and else no close. -/
theorem close : (∃ node, happened = [.closeFailed node] ∧
      ∀ name, CloseFails t name k ↔ node = name) ∨
    (∀ e ∈ happened, e.kind ≠ .close) ∧ ∀ name, ¬CloseFails t name k := by
  have hplaced := ht.placed k
  cases h with
  | idle hnil _ _ _ =>
    refine .inr ⟨by simp, ?_⟩
    rintro name ⟨_, _, _, _, _, hagenda, _⟩
    rw [hnil] at hagenda
    cases hagenda
  | @task task rest pushed _ hagenda hentry hnext =>
    have hsilent : task.place? = none → ∀ name, ¬CloseFails t name k := fun hplace =>
      not_closeFails hagenda fun _ _ htask => by
        rw [htask] at hplace
        cases hplace
    cases hentry with
    | aside hplace _ _ _ _ => exact .inr ⟨by simp, hsilent hplace⟩
    | opened hplace _ _ _ _ | ended hplace _ _ _ _ _ _ _ _ =>
      exact .inr ⟨by simp [Happening.kind], hsilent hplace⟩
    | offered htask _ _ _ _ _ _ =>
      subst htask
      exact .inr ⟨fun e he => by simp [Happening.kind_ofVerdict he], hsilent rfl⟩
    | @closing i sub steps fails htask _ _ hpushed =>
      subst htask hpushed
      rw [List.append_assoc] at hnext
      rw [Node.Placed, hagenda, List.forall_mem_cons] at hplaced
      obtain ⟨ctx, hctx, -⟩ :=
        Node.exists_of_getElem?_marks (List.getElem?_eq_getElem (hplaced.1 i rfl))
      have hiff := ht.closeFails_iff hagenda hctx hnext
      cases fails with
      | false => exact .inr ⟨List.forall_mem_nil _, by simp [hiff]⟩
      | true =>
        have howes : (t k).owes (.subClosed i true) = [.closeFailed ctx.node] := by
          rw [Node.owes, Node.getElem?_marks hctx]
          rfl
        exact .inl ⟨ctx.node, howes, by simp [hiff]⟩
    | cancelled htask _ _ hpushed =>
      subst htask hpushed
      exact .inr ⟨by simp, not_closeFails_of_silent hagenda hnext⟩
    | paid htask _ _ _ =>
      refine .inr ⟨by simp, not_closeFails hagenda ?_⟩
      obtain ⟨_, _, rfl⟩ | ⟨_, _, rfl⟩ := htask <;> simp

/-- A step counts the end of the context that it finishes, and else no end. -/
theorem finish : (∃ node target, happened = [.ended node target] ∧
      ∀ name outcome, Ends t name outcome k ↔ node = name ∧ target = outcome) ∨
    (∀ e ∈ happened, e.kind ≠ .ending) ∧ ∀ name outcome, ¬Ends t name outcome k := by
  cases h with
  | idle hnil _ _ _ =>
    refine .inr ⟨by simp, ?_⟩
    rintro name outcome ⟨_, _, _, _, _, _, _, hagenda, _⟩
    rw [hnil] at hagenda
    cases hagenda
  | @task task rest pushed _ hagenda hentry hnext =>
    by_cases hends : ∃ i, (t k).isFinished i = false ∧ (t (k + 1)).isFinished i = true
    · obtain ⟨i, hopen, hfinished⟩ := hends
      obtain ⟨ctx, target, hctx, htarget, rfl⟩ := hentry.finishes hopen hfinished
      refine .inl ⟨ctx.node, target, rfl, fun name outcome => ⟨?_, ?_⟩⟩
      · rintro ⟨d, i', ctx', task', rest', hfinish, hctx', hagenda', houtcome, hname⟩
        obtain ⟨rfl, -⟩ := List.cons.inj (hagenda.symm.trans hagenda')
        obtain rfl := Option.some.inj (htarget.symm.trans houtcome)
        obtain ⟨ctx'', target'', hctx'', -, heq⟩ :=
          hentry.finishes hfinish.opened hfinish.finished
        obtain rfl := Option.some.inj (hctx''.symm.trans hctx')
        obtain ⟨hnode, -⟩ := Happening.ended.inj (List.singleton_inj.1 heq)
        exact ⟨hnode.trans hname, rfl⟩
      · rintro ⟨rfl, rfl⟩
        obtain ⟨d, hfinish⟩ := ht.exists_isFinish hopen hfinished
        exact ⟨d, i, ctx, task, rest, hfinish, hctx, hagenda, htarget, rfl⟩
    · refine .inr ⟨fun e he => ?_, ?_⟩
      · cases hentry with
        | aside | cancelled | paid => cases he
        | opened => simp [List.mem_singleton.1 he, Happening.kind]
        | offered => simp [Happening.kind_ofVerdict he]
        | closing => simp [Node.kind_owes he]
        | @ended i ctx target _ _ _ hctx hopen htarget hmarks _ _ _ =>
          refine absurd ⟨i, ?_, ?_⟩ hends
          · exact (Node.isFinished_eq hctx).trans hopen
          · rw [Node.isFinished_eq_marks, hmarks, List.getElem?_modify_eq,
              Node.getElem?_marks hctx]
            exact Task.isFinished_of_target? htarget
      · rintro name outcome ⟨d, i, _, _, _, hfinish, _⟩
        exact hends ⟨i, hfinish.opened, hfinish.finished⟩

end Happens

/-! ### Series -/

theorem gain_eq_shifts {p : Series → Bool} {q : NodeId × Phase → Bool} {happened : List Happening}
    (h : ∀ e ∈ happened, Ledger.total p e.entries = e.shift q) :
    gain p happened = Happening.shifts q happened := by
  induction happened with
  | nil => rfl
  | cons e happened ih =>
    rw [List.forall_mem_cons] at h
    rw [gain_cons, h.1, ih h.2, Happening.shifts]

theorem gain_eq_zero {p : Series → Bool} {happened : List Happening}
    (h : ∀ e ∈ happened, Ledger.total p e.entries = 0) : gain p happened = 0 := by
  induction happened with
  | nil => rfl
  | cons e happened ih =>
    rw [List.forall_mem_cons] at h
    rw [gain_cons, h.1, ih h.2, Int.add_zero]

/-- The calls whose kind alone is counted in a family. -/
def callsOf? : Family → Option Kind
  | .contextsFinished => some .ending
  | .subContextsRegistered | .subContextDuplicates => some .offer
  | .subContextCloseFailures => some .close
  | _ => none

theorem total_entries_eq_zero {s : Series} {kind : Kind} (hs : callsOf? s.family = some kind)
    {e : Happening} (he : e.kind ≠ kind) : Ledger.total (· == s) e.entries = 0 := by
  obtain ⟨family, values⟩ := s
  cases family with
  | contextsActive | contextsOpened | plannerNotApplicable | plansBuilt => cases hs
  | contextsFinished | subContextsRegistered | subContextDuplicates | subContextCloseFailures =>
    obtain rfl := Option.some.inj hs
    cases e <;> simp_all [Happening.kind, Happening.entries, Ledger.total]

theorem Phase.name_inj {p q : Phase} (h : p.name = q.name) : p = q := by
  cases p <;> cases q <;> first | rfl | (revert h; decide)

section Series

variable (name : NodeId)

theorem total_opened (e : Happening) :
    Ledger.total (· == ⟨.contextsOpened, [name]⟩) e.entries = e.shift fun m => m.1 == name := by
  cases e <;> simp [Happening.entries, Happening.shift, Ledger.total]

/-- What ends was active, and is not any more. -/
theorem total_active {e : Happening} (he : e.Sound) :
    Ledger.total (· == ⟨.contextsActive, [name]⟩) e.entries =
      e.shift fun m => m.1 == name && !m.2.isFinished := by
  have hrunning : Phase.running.isFinished = false := rfl
  cases e with
  | ended node outcome =>
    have hfinished : outcome.isFinished = true := he
    by_cases hname : node = name <;>
      simp [Happening.entries, Happening.shift, Ledger.total, hfinished, hrunning, hname]
  | opened | registered | duplicate | closeFailed =>
    simp [Happening.entries, Happening.shift, Ledger.total, hrunning]

theorem total_finished {outcome : Phase} (houtcome : outcome.isFinished = true) (e : Happening) :
    Ledger.total (· == ⟨.contextsFinished, [name, outcome.name]⟩) e.entries =
      e.shift fun m => m.1 == name && m.2 == outcome := by
  have hrunning : (Phase.running == outcome) = false :=
    beq_false_of_ne fun h => by subst h; cases houtcome
  cases e with
  | ended node target =>
    have hiff : target.name = outcome.name ↔ target = outcome :=
      ⟨Phase.name_inj, fun h => h ▸ rfl⟩
    simp [Happening.entries, Happening.shift, Ledger.total, hrunning, hiff]
  | opened | registered | duplicate | closeFailed =>
    simp [Happening.entries, Happening.shift, Ledger.total, hrunning]

end Series

/-- The number of contexts with some marks is what was counted, if happenings add to both the
same. -/
theorem IsRun.counted_eq_countP {t : Nat → Node} (h : IsRun t) {p : Series → Bool}
    (q : NodeId × Phase → Bool)
    (hp : ∀ e : Happening, e.Sound → Ledger.total p e.entries = e.shift q) {k : Nat}
    (hagenda : (t k).agenda = []) :
    (t k).counted p = (t k).contexts.countP fun c => q c.mark := by
  have hcount := h.counted_eq (p := p) (fun k => ((t k).marks.countP q : Int)) ?_ ?_ hagenda
  · rw [hcount, Node.marks, List.countP_map]
    rfl
  · obtain ⟨name, capacity, jobLimit, h0⟩ := h.start
    rw [h0]
    rfl
  · intro k happened hhappens
    rw [hhappens.countP_marks q, gain_eq_shifts fun e he => hp e (hhappens.sound e he)]

/-! ### Steps that are counted -/

namespace Happens

variable {t : Nat → Node} (ht : IsRun t) {k : Nat} {happened : List Happening}
  (h : Happens t k happened) {s : Series}
include ht h

open Classical in
theorem gain_offer {name : NodeId} {verdict : Option Fault → Prop}
    (hoffer : ∀ node refusal, gain (· == s) (Happening.ofVerdict node refusal) =
      if node = name ∧ verdict refusal then 1 else 0)
    (hs : callsOf? s.family = some .offer) :
    gain (· == s) happened = if OfferReturns t name verdict k then 1 else 0 := by
  rcases h.offer ht with ⟨node, refusal, rfl, hiff⟩ | ⟨hkinds, hnot⟩
  · rw [hoffer]
    simp only [hiff]
  · rw [if_neg (hnot name verdict),
      gain_eq_zero fun e he => total_entries_eq_zero hs (hkinds e he)]

open Classical in
theorem gain_close (name : NodeId) :
    gain (· == ⟨.subContextCloseFailures, [name]⟩) happened =
      if CloseFails t name k then 1 else 0 := by
  rcases h.close ht with ⟨node, rfl, hiff⟩ | ⟨hkinds, hnot⟩
  · simp [gain, Happening.entries, Ledger.total, hiff]
  · rw [if_neg (hnot name), gain_eq_zero fun e he => total_entries_eq_zero rfl (hkinds e he)]

open Classical in
theorem gain_finish (name : NodeId) (outcome : Phase) :
    gain (· == ⟨.contextsFinished, [name, outcome.name]⟩) happened =
      if Ends t name outcome k then 1 else 0 := by
  rcases h.finish ht with ⟨node, target, rfl, hiff⟩ | ⟨hkinds, hnot⟩
  · have hname : target.name = outcome.name ↔ target = outcome :=
      ⟨Phase.name_inj, fun h => h ▸ rfl⟩
    simp [gain, Happening.entries, Ledger.total, hiff, hname]
  · rw [if_neg (hnot name outcome),
      gain_eq_zero fun e he => total_entries_eq_zero rfl (hkinds e he)]

end Happens

/-- The number of calls is what was counted, if a step adds to it what it begins. -/
theorem IsRun.counted_eq_often {t : Nat → Node} (h : IsRun t) {p : Series → Bool}
    (P : Nat → Prop) (hP : ∀ k happened, Happens t k happened →
      open Classical in gain p happened = if P k then 1 else 0)
    {k : Nat} (hagenda : (t k).agenda = []) : (t k).counted p = often P k := by
  refine h.counted_eq (fun k => (often P k : Int)) ?_ (fun k happened hhappens => ?_) hagenda
  · rw [often_zero]
    rfl
  · rw [often_succ, hP k happened hhappens]

/-! ### Agreement -/

/-- The series of a node. -/
def seriesOf (name : NodeId) : List Series :=
  [⟨.contextsOpened, [name]⟩, ⟨.contextsActive, [name]⟩,
    ⟨.contextsFinished, [name, Phase.closed.name]⟩, ⟨.contextsFinished, [name, Phase.killed.name]⟩,
    ⟨.subContextsRegistered, [name]⟩, ⟨.subContextDuplicates, [name]⟩,
    ⟨.subContextCloseFailures, [name]⟩]

/-- No series that was counted has the key of another one of a node. -/
def ToldApart {κ : Type} [DecidableEq κ] (key : List String → κ) (l : Ledger) (name : NodeId) :
    Prop :=
  ∀ s ∈ seriesOf name, ∀ e ∈ l.changes, s.alike key e.1 = true → e.1 = s

/-- If different label values have different keys, all series are told apart. -/
theorem ToldApart.of_injective {κ : Type} [DecidableEq κ] {key : List String → κ}
    (hkey : Function.Injective key) (l : Ledger) (name : NodeId) : ToldApart key l name := by
  rintro ⟨family, values⟩ - ⟨⟨family', values'⟩, n⟩ - halike
  obtain ⟨hfamily, hvalues⟩ := Series.alike_iff.1 halike
  exact congrArg₂ Series.mk hfamily.symm (hkey hvalues).symm

section Agreement

variable {κ : Type} [DecidableEq κ] (key : List String → κ)

/-- The ledger agrees with the history of a node. -/
structure LedgerAgrees (t : Nat → Node) (k : Nat) (name : NodeId) : Prop where
  /-- All calls that have begun have come back. -/
  returned : ∀ c d last rest, c < k → Returns t c d last rest → d ≤ k
  /-- Contexts were opened. -/
  opened : (t k).ledger.count key ⟨.contextsOpened, [name]⟩ =
    (t k).contexts.countP fun c => c.node == name
  /-- Calls finished a context, and it has got the outcome. -/
  finished : ∀ outcome, outcome.isFinished = true →
    (t k).ledger.count key ⟨.contextsFinished, [name, outcome.name]⟩ =
        often (Ends t name outcome) k ∧
      (t k).ledger.count key ⟨.contextsFinished, [name, outcome.name]⟩ =
        (t k).contexts.countP fun c => c.node == name && c.phase == outcome
  /-- Contexts were opened and not finished. -/
  active : (t k).ledger.count key ⟨.contextsActive, [name]⟩ =
    (t k).contexts.countP fun c => c.node == name && !c.phase.isFinished
  /-- What is active was opened, and neither closed nor killed. -/
  balance : (t k).ledger.count key ⟨.contextsActive, [name]⟩ =
    (t k).ledger.count key ⟨.contextsOpened, [name]⟩ -
      (t k).ledger.count key ⟨.contextsFinished, [name, Phase.closed.name]⟩ -
      (t k).ledger.count key ⟨.contextsFinished, [name, Phase.killed.name]⟩
  nonneg : 0 ≤ (t k).ledger.count key ⟨.contextsActive, [name]⟩
  /-- Offers came back without a refusal. -/
  registered : (t k).ledger.count key ⟨.subContextsRegistered, [name]⟩ =
    often (OfferReturns t name (· = none)) k
  /-- Offers came back because the id was taken. -/
  duplicates : (t k).ledger.count key ⟨.subContextDuplicates, [name]⟩ =
    often (OfferReturns t name fun refusal => ∃ job id, refusal = some (.duplicateContext job id)) k
  /-- Closes came back with an error. -/
  closeFailures : (t k).ledger.count key ⟨.subContextCloseFailures, [name]⟩ =
    often (CloseFails t name) k
  /-- What is shown of a series is its count. -/
  shown : ∀ s n, (s, n) ∈ (t k).ledger.countsBy key → (t k).ledger.count key s = n

/-- A context is open, closed or killed. -/
theorem countP_node (name : NodeId) (contexts : List Context) :
    (contexts.countP fun c => c.node == name) =
      (contexts.countP fun c => c.node == name && !c.phase.isFinished) +
        (contexts.countP fun c => c.node == name && c.phase == .closed) +
        contexts.countP fun c => c.node == name && c.phase == .killed := by
  induction contexts with
  | nil => rfl
  | cons c contexts ih =>
    rw [List.countP_cons, List.countP_cons, List.countP_cons, List.countP_cons, ih]
    cases hphase : c.phase <;> cases hnode : c.node == name <;> simp [Phase.isFinished] <;> omega

variable {key}

theorem ToldApart.count_eq {n : Node} {name : NodeId} (h : ToldApart key n.ledger name)
    {s : Series} (hs : s ∈ seriesOf name) : n.ledger.count key s = n.counted (· == s) :=
  Ledger.count_eq (h s hs)

/-- Between commands, in whatever order they are given and whatever they cause while sub-contexts
are closed and callbacks are called, the ledger agrees with what has happened on every node whose
series are told apart. -/
theorem IsRun.ledgerAgrees {t : Nat → Node} (h : IsRun t) {k : Nat} (hagenda : (t k).agenda = [])
    {name : NodeId} (hkey : ToldApart key (t k).ledger name) : LedgerAgrees key t k name := by
  have hopened : (t k).ledger.count key ⟨.contextsOpened, [name]⟩ =
      (t k).contexts.countP fun c => c.node == name := by
    rw [hkey.count_eq (by simp [seriesOf])]
    exact h.counted_eq_countP (fun m => m.1 == name) (fun e _ => total_opened name e) hagenda
  have hactive : (t k).ledger.count key ⟨.contextsActive, [name]⟩ =
      (t k).contexts.countP fun c => c.node == name && !c.phase.isFinished := by
    rw [hkey.count_eq (by simp [seriesOf])]
    exact h.counted_eq_countP (fun m => m.1 == name && !m.2.isFinished)
      (fun _ => total_active name) hagenda
  have hended : ∀ outcome : Phase, outcome.isFinished = true →
      (t k).ledger.count key ⟨.contextsFinished, [name, outcome.name]⟩ =
        (t k).counted (· == ⟨.contextsFinished, [name, outcome.name]⟩) := by
    intro outcome houtcome
    cases outcome with
    | running => cases houtcome
    | closed | killed => exact hkey.count_eq (by simp [seriesOf])
  have hfinished : ∀ outcome : Phase, outcome.isFinished = true →
      (t k).ledger.count key ⟨.contextsFinished, [name, outcome.name]⟩ =
        (t k).contexts.countP fun c => c.node == name && c.phase == outcome := by
    intro outcome houtcome
    rw [hended outcome houtcome]
    exact h.counted_eq_countP (fun m => m.1 == name && m.2 == outcome)
      (fun e _ => total_finished name houtcome e) hagenda
  exact {
    returned := by
      intro c d last rest hck hreturns
      by_contra hkd
      obtain ⟨first, more, hbusy⟩ := hreturns.busy k hck (Nat.lt_of_not_le hkd)
      rw [hagenda] at hbusy
      cases hbusy
    opened := hopened
    finished := fun outcome houtcome => by
      refine ⟨?_, hfinished outcome houtcome⟩
      rw [hended outcome houtcome]
      exact h.counted_eq_often _ (fun k _ hhappens => hhappens.gain_finish h name outcome) hagenda
    active := hactive
    balance := by
      rw [hactive, hopened, hfinished .closed rfl, hfinished .killed rfl, countP_node]
      omega
    nonneg := by
      rw [hactive]
      exact Int.natCast_nonneg _
    registered := by
      rw [hkey.count_eq (by simp [seriesOf])]
      refine h.counted_eq_often _ (fun k _ hhappens => hhappens.gain_offer h ?_ rfl) hagenda
      intro node refusal
      unfold Happening.ofVerdict
      split <;> simp [gain, Happening.entries, Ledger.total]
    duplicates := by
      rw [hkey.count_eq (by simp [seriesOf])]
      refine h.counted_eq_often _ (fun k _ hhappens => hhappens.gain_offer h ?_ rfl) hagenda
      intro node refusal
      unfold Happening.ofVerdict
      split <;> simp_all [gain, Happening.entries, Ledger.total]
    closeFailures := by
      rw [hkey.count_eq (by simp [seriesOf])]
      exact h.counted_eq_often _ (fun k _ hhappens => hhappens.gain_close h name) hagenda
    shown := fun _ _ => Ledger.count_of_mem_countsBy }

end Agreement

/-- A sub-context of a guest on another node is registered while a duplicate is refused. -/
def hosting : List Command :=
  [.acquire 7 "job", .start 8 "guest" 50 "other" "guest",
    .add "job" 1 "first" true [.add "guest" 1 "nested" false []], .add "job" 1 "second" false [],
    .close "job", .kill "guest"]

/-- Two nodes, and the label values themselves as their key. -/
theorem ledgerAgrees_hosting : ∃ k,
    LedgerAgrees id ((Node.start "node" 100 50).following hosting) k "node" ∧
      LedgerAgrees id ((Node.start "node" 100 50).following hosting) k "other" ∧
      ((Node.start "node" 100 50).following hosting k).ledger.countsBy id =
        [(⟨.contextsOpened, ["node"]⟩, 1), (⟨.contextsActive, ["node"]⟩, 0),
          (⟨.contextsOpened, ["other"]⟩, 1), (⟨.contextsActive, ["other"]⟩, 0),
          (⟨.subContextsRegistered, ["node"]⟩, 1), (⟨.subContextDuplicates, ["node"]⟩, 1),
          (⟨.subContextsRegistered, ["other"]⟩, 1), (⟨.subContextCloseFailures, ["node"]⟩, 1),
          (⟨.contextsFinished, ["node", "closed"]⟩, 1),
          (⟨.contextsFinished, ["other", "killed"]⟩, 1)] := by
  obtain ⟨k, hk⟩ := Node.exists_following_eq_performAll (n := .start "node" 100 50) rfl hosting
  have hagenda : ((Node.start "node" 100 50).following hosting k).agenda = [] := by
    rw [hk]
    exact Node.agenda_perform _ _
  have hrun := Node.isRun_following "node" 100 50 hosting
  have hkey : ∀ name, ToldApart id ((Node.start "node" 100 50).following hosting k).ledger name :=
    ToldApart.of_injective Function.injective_id _
  refine ⟨k, hrun.ledgerAgrees hagenda (hkey "node"), hrun.ledgerAgrees hagenda (hkey "other"), ?_⟩
  rw [hk]
  decide +kernel

end Job

end ShardJoin
