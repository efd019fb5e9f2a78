/-
What joining planned sources fails for.

* `Except.FailsOnly` — a result that fails for reasons of one kind only;
* `Planning.fails_bind` — a sequence of steps fails where one of them does;
* `JoinFault` — plans that say too little about their rows;
* `ResultRow.projections_failsOnly` — the projections of a statement are
  refused for nothing else.
-/
import ShardJoin.Proofs.Planning.Success

namespace ShardJoin

/-! ### Results that fail in known ways -/

namespace Except

variable {ε β γ : Type} {P : ε → Prop}

/-- A result that fails, if it does, for a reason of one kind. -/
def FailsOnly (P : ε → Prop) (x : Except ε β) : Prop := ∀ e, x = .error e → P e

theorem failsOnly_ok (b : β) : FailsOnly P (.ok b) := fun _ h => nomatch h

theorem failsOnly_error {e : ε} (h : P e) : FailsOnly P (.error e : Except ε β) := by
  rintro _ ⟨⟩
  exact h

theorem failsOnly_bind {x : Except ε β} {f : β → Except ε γ} (hx : FailsOnly P x)
    (hf : ∀ b, x = .ok b → FailsOnly P (f b)) : FailsOnly P (x >>= f) := by
  cases x with
  | error e => exact failsOnly_error (hx e rfl)
  | ok b => exact hf b rfl

theorem failsOnly_mapM {f : β → Except ε γ} {l : List β} (h : ∀ b ∈ l, FailsOnly P (f b)) :
    FailsOnly P (l.mapM f) := by
  induction l with
  | nil => exact failsOnly_ok _
  | cons b l ih =>
    rw [List.forall_mem_cons] at h
    rw [List.mapM_cons]
    refine failsOnly_bind h.1 fun _ _ => failsOnly_bind (ih h.2) fun _ _ => failsOnly_ok _

end Except

/-! ### Planning steps -/

namespace Planning

variable {β γ : Type} {before after : Session} {fault : Fault}

/-- A planning step fails and leads to a session. -/
def Fails (step : Planning β) (before : Session) (fault : Fault) (after : Session) : Prop :=
  outcome step before = (.error fault, after)

theorem fails_bind {step : Planning β} {next : β → Planning γ} :
    Fails (step >>= next) before fault after ↔ Fails step before fault after ∨
      ∃ b between, Gives step before b between ∧ Fails (next b) between fault after := by
  unfold Fails Gives
  rw [outcome_bind]
  cases hstep : outcome step before with
  | mk result between =>
    cases result with
    | error e => simp
    | ok b => simp

@[simp] theorem not_fails_pure {b : β} : ¬Fails (pure b) before fault after := by
  simp [Fails, outcome_pure]

@[simp] theorem not_fails_get : ¬Fails get before fault after := by
  simp [Fails, outcome_get]

@[simp] theorem not_fails_set {session : Session} : ¬Fails (set session) before fault after := by
  simp [Fails, outcome_set]

@[simp] theorem fails_throw {e : Fault} :
    Fails (throw e : Planning β) before fault after ↔ e = fault ∧ before = after := by
  simp [Fails, outcome_throw]

@[simp] theorem fails_ofExcept {x : Except PlanFault β} :
    Fails (ofExcept x) before fault after ↔
      (∃ cause, x = .error cause ∧ .planning cause = fault) ∧ before = after := by
  cases x with
  | error e => simp [ofExcept]
  | ok a => simp [ofExcept]

end Planning

namespace CrossJoin

open Planning

theorem not_fails_built {plan : Plan} {before after : Session} {fault : Fault} :
    ¬Fails (built plan) before fault after := by
  intro h
  rcases fails_bind.1 h with h | ⟨_, _, -, h⟩
  · cases h
  · exact not_fails_pure h

/-- A statement whose sources come to be joined is refused for what their join is. -/
theorem ReadyToJoin.fails_plan {planner : RelationPlanner} {s : Statement}
    {before between after : Session} {split : Split} {plans : List (RelationName × Plan)}
    (h : ReadyToJoin planner s before split plans between) {fault : Fault}
    (hjoin : Fails (join s.select split plans) between fault after) :
    Fails (plan planner s) before fault after :=
  (outcome_plan h).trans (fails_bind.2 (.inl hjoin))

/-- A statement is refused if its projections do not fit on the row that its sources emit. -/
theorem ReadyToJoin.fails_plan_of_steps {planner : RelationPlanner} {s : Statement}
    {before between : Session} {split : Split} {plans : List (RelationName × Plan)}
    (hready : ReadyToJoin planner s before split plans between)
    {order : List Nat} (horder : joinOrder split.firstKeys = order) {row : List Expr}
    (hrow : joinedRow (order.filterMap (plans[·]?)) = .ok row) {first : Plan} {rest : List Plan}
    (hplans : (order.filterMap (plans[·]?)).map (·.2) = first :: rest) {cause : PlanFault}
    (hfinish : finish between s.select split row
      ((order.filterMap (plans[·]?)).map fun (relation, plan) => Leaf.ofPlan relation plan)
      (joinAll between.handler between.nextStage first rest) = .error cause) :
    Fails (plan planner s) before (.planning cause) (between.skipStages rest.length) :=
  hready.fails_plan ((outcome_join horder hrow hplans between).trans
    (fails_ofExcept.2 ⟨⟨cause, hfinish, rfl⟩, rfl⟩))

end CrossJoin

/-! ### Joining plans -/

/-- What plans may be refused for when they are joined: a plan says nothing of its columns, or
changes them at its end, or does not collect what is needed. -/
inductive JoinFault : PlanFault → Prop
  | noOutputs (relation : RelationName) : JoinFault (.noOutputs relation)
  | reshaped (relation : RelationName) : JoinFault (.reshaped relation)
  | notCollected (use : JoinUse) (relation : RelationName) (column : String) :
    JoinFault (.notCollected use relation column)
  | noDocId (relation : RelationName) (docId column : String) :
    JoinFault (.noDocId relation docId column)
  | noCollectStage (relation : RelationName) : JoinFault (.noCollectStage relation)

namespace CrossJoin

theorem joinedRow_failsOnly (ordered : List (RelationName × Plan)) :
    Except.FailsOnly JoinFault (joinedRow ordered) := by
  induction ordered with
  | nil => exact Except.failsOnly_ok _
  | cons p rest ih =>
    rw [joinedRow]
    split
    · exact Except.failsOnly_error (.noOutputs p.1)
    · split
      · exact Except.failsOnly_bind ih fun _ _ => Except.failsOnly_ok _
      · exact Except.failsOnly_error (.reshaped p.1)

end CrossJoin

namespace ResultRow

variable {row : List Expr}

theorem resolveOn_failsOnly (use : JoinUse) (e : Expr) :
    Except.FailsOnly JoinFault (resolveOn row use e) := by
  unfold resolveOn
  split
  · exact Except.failsOnly_ok _
  · exact Except.failsOnly_error (.notCollected _ _ _)

theorem filters_failsOnly (query : Option Expr) :
    Except.FailsOnly JoinFault (filters row query) := by
  cases query with
  | none => exact Except.failsOnly_ok _
  | some query =>
    exact Except.failsOnly_bind (resolveOn_failsOnly _ _) fun _ _ => Except.failsOnly_ok _

theorem orderBy_failsOnly (order : Option OrderBy) :
    Except.FailsOnly JoinFault (orderBy row order) := by
  cases order with
  | none => exact Except.failsOnly_ok _
  | some o =>
    exact Except.failsOnly_bind (Except.failsOnly_mapM fun _ _ => resolveOn_failsOnly _ _)
      fun _ _ => Except.failsOnly_ok _

theorem leafFetch?_failsOnly (outputs : List Expr) (leaf : Leaf) :
    Except.FailsOnly JoinFault (leafFetch? row outputs leaf) := by
  unfold leafFetch?
  split
  · exact Except.failsOnly_ok _
  · split
    · exact Except.failsOnly_error (.noDocId _ _ _)
    · split
      · exact Except.failsOnly_error (.noCollectStage _)
      · exact Except.failsOnly_ok _

/-- The projections of a statement are refused only for what the plans say too little about. -/
theorem projections_failsOnly (session : Session) (select : Select) (split : Split)
    (leaves : List Leaf) :
    Except.FailsOnly JoinFault (projections session select split row leaves) := by
  unfold projections
  refine Except.failsOnly_bind (filters_failsOnly _) fun _ _ => ?_
  refine Except.failsOnly_bind (orderBy_failsOnly _) fun _ _ => ?_
  dsimp only
  split
  · exact Except.failsOnly_ok _
  · refine Except.failsOnly_bind ?_ fun _ _ => Except.failsOnly_ok _
    exact Except.failsOnly_bind (Except.failsOnly_mapM fun _ _ => leafFetch?_failsOnly _ _)
      fun _ _ => Except.failsOnly_ok _

/-- If keys and outputs are found in the joined row, only what remains of the predicate can be
refused. -/
theorem projections_cases {s : Statement} {settings : PlannerSettings} {split : Split}
    (hsplit : split.IsOf s settings)
    (hkeys : ∀ o ∈ s.remainingOrderBy, ∀ key ∈ o.keys, (key.resolve row).references = [])
    (houtputs : ∀ e ∈ s.select.outputs, (e.resolve row).references = []) (session : Session)
    (leaves : List Leaf) :
    (∃ all, projections session s.select split row leaves = .ok all) ∨
      ∃ query r, s.remainingQuery = some query ∧ r ∈ (query.resolve row).references ∧
        projections session s.select split row leaves =
          .error (.notCollected .condition r.relation r.column) := by
  have horder : ∃ order, orderBy row split.remainingOrderBy = .ok order := by
    rw [hsplit.remainingOrderBy]
    cases ho : s.remainingOrderBy with
    | none => exact ⟨none, rfl⟩
    | some o =>
      obtain ⟨keys, hall⟩ := exists_forall₂ (R := fun key resolved =>
        resolveOn row .orderBy key = .ok resolved) fun key hkey =>
          ⟨_, resolveOn_eq_ok.2 ⟨rfl, hkeys o ho key hkey⟩⟩
      exact ⟨_, Except.bind_eq_ok.2 ⟨keys, Except.mapM_eq_ok.2 hall, rfl⟩⟩
  obtain ⟨order, horder⟩ := horder
  have hall : (s.select.outputs.map (Expr.resolve row)).all (·.references.isEmpty) = true := by
    simpa using houtputs
  have hrest : ∀ found, filters row split.remainingQuery = .ok found →
      ∃ all, projections session s.select split row leaves = .ok all := by
    intro found hfound
    refine ⟨found ++ [.topN split.limit s.select.offset order
      (s.select.outputs.map (Expr.resolve row))], ?_⟩
    refine Except.bind_eq_ok.2 ⟨found, hfound, Except.bind_eq_ok.2 ⟨order, horder, ?_⟩⟩
    exact if_pos hall
  rw [hsplit.remainingQuery] at hrest
  cases hquery : s.remainingQuery with
  | none =>
    rw [hquery] at hrest
    exact .inl (hrest [] rfl)
  | some query =>
    rw [hquery] at hrest
    cases hreferences : (query.resolve row).references with
    | nil =>
      have hresolved : resolveOn row .condition query = .ok (query.resolve row) :=
        resolveOn_eq_ok.2 ⟨rfl, hreferences⟩
      exact .inl (hrest _ (Except.bind_eq_ok.2 ⟨_, hresolved, rfl⟩))
    | cons r rest =>
      refine .inr ⟨query, r, rfl, by rw [hreferences]; exact List.mem_cons_self, ?_⟩
      unfold projections
      rw [hsplit.remainingQuery, hquery, filters, resolveOn, hreferences]
      rfl

end ResultRow

end ShardJoin
