/-
What a successful planning run has done.

* `Planning.gives_bind` — a sequence of steps succeeds if each of them does;
* `CrossJoin.plan_cases` — a planned statement is either known to be empty or
  joined from the plans of its sources;
* `CrossJoin.ReadyToJoin.gives_plan_of_steps` — a statement is planned by the
  steps that join its sources.
-/
import Mathlib.Data.List.Forall2
import ShardJoin.Planning.CrossJoin

namespace ShardJoin

/-! ### Results that may fail -/

theorem Except.bind_eq_ok {ε β γ : Type} {x : Except ε β} {f : β → Except ε γ} {c : γ} :
    (x >>= f) = .ok c ↔ ∃ b, x = .ok b ∧ f b = .ok c := by
  cases x with
  | error e => simp [bind, Except.bind]
  | ok b => simp [bind, Except.bind]

/-- A list is mapped if each of its elements is. -/
theorem Except.mapM_eq_ok {ε β γ : Type} {f : β → Except ε γ} {l : List β} {l' : List γ} :
    l.mapM f = .ok l' ↔ List.Forall₂ (fun b c => f b = .ok c) l l' := by
  induction l generalizing l' with
  | nil => simp [pure, Except.pure, eq_comm]
  | cons b l ih =>
    rw [List.mapM_cons, Except.bind_eq_ok]
    constructor
    · rintro ⟨c, hc, h⟩
      obtain ⟨cs, hcs, h⟩ := Except.bind_eq_ok.1 h
      obtain rfl := Except.ok.inj h
      exact .cons hc (ih.1 hcs)
    · intro h
      cases h with
      | cons hc hcs => exact ⟨_, hc, Except.bind_eq_ok.2 ⟨_, ih.2 hcs, rfl⟩⟩

theorem exists_forall₂ {β γ : Type} {R : β → γ → Prop} {l : List β}
    (h : ∀ b ∈ l, ∃ c, R b c) : ∃ l', List.Forall₂ R l l' := by
  induction l with
  | nil => exact ⟨[], .nil⟩
  | cons b l ih =>
    rw [List.forall_mem_cons] at h
    obtain ⟨⟨c, hc⟩, hl⟩ := h
    obtain ⟨cs, hcs⟩ := ih hl
    exact ⟨c :: cs, .cons hc hcs⟩

theorem exists_getElem?_of_forall₂ {β γ : Type} {R : β → γ → Prop} {l : List β} {l' : List γ}
    (h : List.Forall₂ R l l') {i : Nat} {c : γ} (hc : l'[i]? = some c) :
    ∃ b, l[i]? = some b ∧ R b c := by
  obtain ⟨hlt, rfl⟩ := List.getElem?_eq_some_iff.1 hc
  have hlt' : i < l.length := h.length_eq ▸ hlt
  exact ⟨l[i], List.getElem?_eq_getElem hlt', h.get hlt' hlt⟩

theorem eq_map_of_forall₂ {β γ : Type} {f : β → γ} {P : β → Prop} {l : List β} {l' : List γ}
    (h : List.Forall₂ (fun b c => c = f b ∧ P b) l l') : l' = l.map f ∧ ∀ b ∈ l, P b := by
  induction h with
  | nil => simp
  | cons hb _ ih =>
    obtain ⟨rfl, hP⟩ := hb
    exact ⟨by rw [ih.1, List.map_cons], List.forall_mem_cons.2 ⟨hP, ih.2⟩⟩

theorem forall₂_flatMap {β γ δ : Type} {R : γ → δ → Prop} {f : β → List γ} {g : β → List δ}
    {l : List β} (h : ∀ b ∈ l, List.Forall₂ R (f b) (g b)) :
    List.Forall₂ R (l.flatMap f) (l.flatMap g) := by
  induction l with
  | nil => exact .nil
  | cons b l ih =>
    rw [List.forall_mem_cons] at h
    exact List.rel_append h.1 (ih h.2)

/-! ### Statements taken apart -/

/-- How a split is made up. -/
structure Split.IsOf (split : Split) (s : Statement) (settings : PlannerSettings) : Prop where
  orderBy : ∀ o, s.select.orderBy = some o → o.validate = .ok ()
  shares : List.Forall₂ (fun i share => s.shareOf settings.selectLimit i = .ok share)
    (List.range s.sources.length) split.shares
  remainingQuery : split.remainingQuery = s.remainingQuery
  remainingOrderBy : split.remainingOrderBy = s.remainingOrderBy
  firstKeys : split.firstKeys = (List.range s.sources.length).map s.firstKeyOf?
  limit : split.limit = s.limitOr settings.selectLimit

theorem Statement.checkSources_eq_ok {sources : List (RelationName × Source)} :
    checkSources sources = .ok () ↔ ∀ x ∈ sources, x.2.isSubQuery = false := by
  induction sources with
  | nil => simp [checkSources]
  | cons x rest ih =>
    rw [checkSources, List.forall_mem_cons, ← ih]
    cases x.2.isSubQuery <;> simp

theorem Statement.isSubQuery_of_split {s : Statement} {settings : PlannerSettings} {split : Split}
    (h : s.split settings = .ok split) : ∀ x ∈ s.sources, x.2.isSubQuery = false := by
  obtain ⟨_, hcheck, -⟩ := Except.bind_eq_ok.1 h
  exact checkSources_eq_ok.1 hcheck

theorem Statement.split_spec {s : Statement} {settings : PlannerSettings} {split : Split}
    (h : s.split settings = .ok split) : split.IsOf s settings := by
  unfold Statement.split at h
  obtain ⟨_, -, h⟩ := Except.bind_eq_ok.1 h
  -- the sources are taken apart in the same way with and without an order by
  have hrest : (∀ o, s.select.orderBy = some o → o.validate = .ok ()) ∧
      (do
        let shares ← (List.range s.sources.length).mapM (s.shareOf settings.selectLimit)
        return { shares
                 remainingQuery := s.remainingQuery
                 remainingOrderBy := s.remainingOrderBy
                 firstKeys := (List.range s.sources.length).map s.firstKeyOf?
                 limit := s.limitOr settings.selectLimit : Split }) = .ok split := by
    cases ho : s.select.orderBy with
    | none =>
      rw [ho] at h
      exact ⟨fun o ho => (nomatch ho), h⟩
    | some o =>
      rw [ho] at h
      obtain ⟨_, hvalid, h⟩ := Except.bind_eq_ok.1 h
      refine ⟨fun o' ho' => ?_, h⟩
      rw [← Option.some.inj ho']
      exact hvalid
  obtain ⟨hvalid, h⟩ := hrest
  obtain ⟨shares, hshares, h⟩ := Except.bind_eq_ok.1 h
  obtain rfl := Except.ok.inj h
  exact ⟨hvalid, Except.mapM_eq_ok.1 hshares, rfl, rfl, rfl, rfl⟩

namespace Split.IsOf

variable {split : Split} {s : Statement} {settings : PlannerSettings} (h : split.IsOf s settings)
include h

theorem length_shares : split.shares.length = s.sources.length := by
  rw [← h.shares.length_eq, List.length_range]

/-- The share at a position is that of the source there. -/
theorem shareOf_eq {i : Nat} {share : Option TableQuery} (hi : split.shares[i]? = some share) :
    s.shareOf settings.selectLimit i = .ok share := by
  obtain ⟨j, hj, hshare⟩ := exists_getElem?_of_forall₂ h.shares hi
  obtain ⟨hlt, rfl⟩ := List.getElem?_eq_some_iff.1 hj
  rwa [List.getElem_range] at hshare

end Split.IsOf

/-! ### Planning steps -/

namespace Planning

variable {β γ : Type}

/-- The result of a planning step and the session that it leads to. -/
def outcome (step : Planning β) (before : Session) : Except Fault β × Session :=
  step.run.run before

/-- A planning step succeeds with a result and leads to a session. -/
def Gives (step : Planning β) (before : Session) (b : β) (after : Session) : Prop :=
  outcome step before = (.ok b, after)

theorem outcome_pure (a : β) (before : Session) :
    outcome (pure a) before = (.ok a, before) := rfl

theorem outcome_throw (e : Fault) (before : Session) :
    outcome (throw e : Planning β) before = (.error e, before) := rfl

theorem outcome_get (before : Session) : outcome get before = (.ok before, before) := rfl

theorem outcome_set (session before : Session) :
    outcome (set session) before = (.ok ⟨⟩, session) := rfl

theorem outcome_bind (step : Planning β) (next : β → Planning γ) (before : Session) :
    outcome (step >>= next) before =
      match outcome step before with
      | (.ok b, between) => outcome (next b) between
      | (.error e, between) => (.error e, between) := by
  unfold outcome
  rw [ExceptT.run_bind, StateT.run_bind]
  cases hstep : StateT.run (ExceptT.run step) before with
  | mk result between => cases result <;> rfl

theorem gives_bind {step : Planning β} {next : β → Planning γ} {before after : Session} {c : γ} :
    Gives (step >>= next) before c after ↔
      ∃ b between, Gives step before b between ∧ Gives (next b) between c after := by
  unfold Gives
  rw [outcome_bind]
  cases hstep : outcome step before with
  | mk result between =>
    cases result with
    | error e => simp
    | ok b => simp

@[simp] theorem gives_pure {a b : β} {before after : Session} :
    Gives (pure a) before b after ↔ a = b ∧ before = after := by
  simp [Gives, outcome_pure]

@[simp] theorem not_gives_throw {e : Fault} {before after : Session} {b : β} :
    ¬Gives (throw e) before b after := by
  simp [Gives, outcome_throw]

@[simp] theorem gives_get {before after result : Session} :
    Gives get before result after ↔ before = result ∧ before = after := by
  simp [Gives, outcome_get]

@[simp] theorem gives_set {session before after : Session} {u : PUnit} :
    Gives (set session) before u after ↔ session = after := by
  simp [Gives, outcome_set]

@[simp] theorem gives_ofExcept {x : Except PlanFault β} {before after : Session} {b : β} :
    Gives (ofExcept x) before b after ↔ x = .ok b ∧ before = after := by
  cases x with
  | error e => simp [ofExcept]
  | ok a => simp [ofExcept]

end Planning

namespace CrossJoin

open Planning

theorem gives_check {s : Statement} {before after : Session} {u : Unit} :
    Gives (check s) before u after ↔ validate s = .ok () ∧ before = after := by
  unfold check
  split <;> simp_all

/-- A source has a plan after planning if it had one, or if the planner made one for its share. -/
theorem gives_planSource {planner : RelationPlanner} {source planned : Source}
    {share : Option TableQuery} {before after : Session}
    (h : Gives (planSource planner source share) before planned after) {p : Plan}
    (hp : planned.plan? = some p) :
    source.plan? = some p ∨ ∃ q, share = some q ∧ Gives (planner q) before (some p) after := by
  unfold planSource at h
  split at h
  · obtain ⟨rfl, -⟩ := gives_pure.1 h
    exact .inl hp
  · rename_i query _
    obtain ⟨made, between, hmade, h⟩ := gives_bind.1 h
    cases made with
    | none =>
      obtain ⟨rfl, -⟩ := gives_pure.1 h
      cases hp
    | some plan =>
      obtain ⟨rfl, rfl⟩ := gives_pure.1 h
      obtain rfl := Option.some.inj hp
      exact .inr ⟨query, rfl, hmade⟩
  · obtain ⟨rfl, -⟩ := gives_pure.1 h
    exact .inl hp

/-- The plans of the sources are those that they had, or come from the planner, one for each
share. -/
theorem gives_planSources {planner : RelationPlanner} {sources : List (RelationName × Source)}
    {shares : List (Option TableQuery)} (hlength : shares.length = sources.length)
    {before after : Session} {planned : List (RelationName × Source)}
    (h : Gives (planSources planner sources shares) before planned after)
    {plans : List (RelationName × Plan)} (hplans : allPlans? planned = some plans) :
    List.Forall₂ (fun x p => x.1.1 = p.1 ∧ (x.1.2.plan? = some p.2 ∨
        ∃ q, x.2 = some q ∧ ∃ σ σ', Gives (planner q) σ (some p.2) σ'))
      (sources.zip shares) plans := by
  induction sources generalizing shares before planned plans with
  | nil =>
    obtain ⟨rfl, -⟩ := gives_pure.1 h
    obtain rfl := Option.some.inj hplans
    exact .nil
  -- each source is planned by its own share, in the order of the sources
  | cons x rest ih =>
    cases shares with
    | nil => cases hlength
    | cons share shares =>
      rw [planSources] at h
      obtain ⟨source, σ, hsource, h⟩ := gives_bind.1 h
      obtain ⟨others, σ', hothers, h⟩ := gives_bind.1 h
      obtain ⟨rfl, rfl⟩ := gives_pure.1 h
      rw [allPlans?] at hplans
      obtain ⟨p, hp, hplans⟩ := Option.bind_eq_some_iff.1 hplans
      obtain ⟨ps, hps, hplans⟩ := Option.bind_eq_some_iff.1 hplans
      obtain rfl := Option.some.inj hplans
      refine .cons ⟨rfl, ?_⟩ (ih (Nat.succ.inj hlength) hothers hps)
      rcases gives_planSource hsource hp with h | ⟨q, hq, h⟩
      · exact .inl h
      · exact .inr ⟨q, hq, _, _, h⟩

theorem gives_built {plan : Plan} {before after : Session} {outcome : Outcome}
    (h : Gives (built plan) before outcome after) : outcome = .planned plan := by
  obtain ⟨-, -, -, h⟩ := gives_bind.1 h
  exact (gives_pure.1 h).1.symm

/-- Counting a plan changes nothing else. -/
theorem session_of_built {plan : Plan} {before after : Session} {outcome : Outcome}
    (h : Gives (built plan) before outcome after) : ∃ ledger, after = { before with ledger } := by
  obtain ⟨_, _, hcount, h⟩ := gives_bind.1 h
  obtain ⟨-, rfl⟩ := gives_pure.1 h
  obtain rfl := (Prod.mk.inj hcount).2
  exact ⟨_, rfl⟩

theorem gives_deferred {before after : Session} {outcome : Outcome}
    (h : Gives deferred before outcome after) : outcome = .notApplicable := by
  obtain ⟨-, -, -, h⟩ := gives_bind.1 h
  exact (gives_pure.1 h).1.symm

/-- What is known of the plans of the sources when all are there. -/
def PlansOf (planner : RelationPlanner) (s : Statement) (split : Split)
    (plans : List (RelationName × Plan)) : Prop :=
  List.Forall₂ (fun x p => x.1.1 = p.1 ∧ (x.1.2.plan? = some p.2 ∨
      ∃ q, x.2 = some q ∧ ∃ σ σ', Gives (planner q) σ (some p.2) σ'))
    (s.sources.zip split.shares) plans

/-- The sources of a statement come to be joined: none is missing, none is empty. -/
structure ReadyToJoin (planner : RelationPlanner) (s : Statement) (before : Session)
    (split : Split) (plans : List (RelationName × Plan)) (between : Session) : Prop where
  length : 2 ≤ s.sources.length
  valid : validate s = .ok ()
  possible : s.select.whereClause.isStaticallyFalse = false
  splits : s.split before.settings = .ok split
  sources : ∃ planned, Gives (planSources planner s.sources split.shares) before planned between ∧
    allPlans? planned = some plans
  nonempty : plans.any (·.2.isNoOp) = false

theorem plansOf_of_gives {planner : RelationPlanner} {s : Statement} {settings : PlannerSettings}
    {split : Split} (hsplit : s.split settings = .ok split) {before after : Session}
    {planned : List (RelationName × Source)}
    (h : Gives (planSources planner s.sources split.shares) before planned after)
    {plans : List (RelationName × Plan)} (hplans : allPlans? planned = some plans) :
    PlansOf planner s split plans := by
  exact gives_planSources (s.split_spec hsplit).length_shares h hplans

theorem ReadyToJoin.plansOf {planner : RelationPlanner} {s : Statement} {before between : Session}
    {split : Split} {plans : List (RelationName × Plan)}
    (h : ReadyToJoin planner s before split plans between) : PlansOf planner s split plans := by
  obtain ⟨planned, hplanned, hplans⟩ := h.sources
  exact plansOf_of_gives h.splits hplanned hplans

/-- The ways in which a statement is planned. -/
inductive PlannedBy (planner : RelationPlanner) (s : Statement) (before : Session) :
    Plan → Session → Prop
  | impossible {after : Session} (h : s.select.whereClause.isStaticallyFalse = true) :
    PlannedBy planner s before (emptyPlan s) after
  | emptySource {after : Session} {split : Split} {plans : List (RelationName × Plan)}
    (hpossible : s.select.whereClause.isStaticallyFalse = false)
    (hsplit : s.split before.settings = .ok split) (hplans : PlansOf planner s split plans)
    (hempty : plans.any (·.2.isNoOp) = true) : PlannedBy planner s before (emptyPlan s) after
  | joined {p : Plan} {after : Session} {split : Split} {plans : List (RelationName × Plan)}
    {σ σ' : Session} (hready : ReadyToJoin planner s before split plans σ)
    (hjoin : Gives (join s.select split plans) σ p σ')
    (hbuilt : Gives (built p) σ' (.planned p) after) : PlannedBy planner s before p after

theorem plannedBy_of_gives {planner : RelationPlanner} {s : Statement} {before after : Session}
    {p : Plan} (h : Gives (plan planner s) before (.planned p) after) :
    PlannedBy planner s before p after := by
  unfold plan at h
  split at h
  · have := gives_deferred (show Gives deferred before (.planned p) after from ‹_›)
    cases this
  rename_i hlength
  obtain ⟨_, σ, hcheck, h⟩ := gives_bind.1 h
  obtain ⟨hvalid, rfl⟩ := gives_check.1 hcheck
  split at h
  · obtain rfl := Outcome.planned.inj (gives_built h)
    exact .impossible ‹_›
  · rename_i hfalse
    obtain ⟨session, σ, hget, h⟩ := gives_bind.1 h
    obtain ⟨rfl, rfl⟩ := gives_get.1 hget
    obtain ⟨split, σ, hsplit, h⟩ := gives_bind.1 h
    obtain ⟨hok, rfl⟩ := gives_ofExcept.1 hsplit
    obtain ⟨planned, σ, hplanned, h⟩ := gives_bind.1 h
    split at h
    · cases gives_deferred h
    · rename_i plans hplans
      split at h
      · obtain rfl := Outcome.planned.inj (gives_built h)
        exact .emptySource (Bool.eq_false_iff.2 hfalse) hok
          (plansOf_of_gives hok hplanned hplans) ‹_›
      · obtain ⟨root, σ', hjoin, h⟩ := gives_bind.1 h
        obtain rfl := Outcome.planned.inj (gives_built h)
        exact .joined ⟨Nat.le_of_not_lt hlength, hvalid, Bool.eq_false_iff.2 hfalse, hok,
          ⟨planned, hplanned, hplans⟩, Bool.eq_false_iff.2 ‹¬_›⟩ hjoin h

/-- A planned statement is either empty because its predicate or one of its sources is, or joined
from the plans of its sources. -/
theorem plan_cases {planner : RelationPlanner} {s : Statement} {before after : Session} {p : Plan}
    (h : Gives (plan planner s) before (.planned p) after) :
    (s.select.whereClause.isStaticallyFalse = true ∧ p = emptyPlan s) ∨
      s.select.whereClause.isStaticallyFalse = false ∧
      ∃ split plans, s.split before.settings = .ok split ∧ PlansOf planner s split plans ∧
        ((plans.any (·.2.isNoOp) = true ∧ p = emptyPlan s) ∨
          plans.any (·.2.isNoOp) = false ∧
            ∃ σ σ', Gives (join s.select split plans) σ p σ') := by
  cases plannedBy_of_gives h with
  | impossible hfalse => exact .inl ⟨hfalse, rfl⟩
  | emptySource hpossible hsplit hplans hempty =>
    exact .inr ⟨hpossible, _, _, hsplit, hplans, .inl ⟨hempty, rfl⟩⟩
  | joined hready hjoin _ =>
    exact .inr ⟨hready.possible, _, _, hready.splits, hready.plansOf,
      .inr ⟨hready.nonempty, _, _, hjoin⟩⟩

/-- Once the sources are planned, planning a statement is joining them. -/
theorem outcome_plan {planner : RelationPlanner} {s : Statement} {before between : Session}
    {split : Split} {plans : List (RelationName × Plan)}
    (h : ReadyToJoin planner s before split plans between) :
    outcome (plan planner s) before = outcome (join s.select split plans >>= built) between := by
  obtain ⟨planned, hplanned, hplans⟩ := h.sources
  have hcheck : outcome (check s) before = (.ok (), before) := gives_check.2 ⟨h.valid, rfl⟩
  have hsplit : outcome (ofExcept (s.split before.settings)) before = (.ok split, before) :=
    gives_ofExcept.2 ⟨h.splits, rfl⟩
  unfold Gives at hplanned
  rw [plan, if_neg (Nat.not_lt.2 h.length), outcome_bind, hcheck]
  simp only [h.possible, Bool.false_eq_true, if_false, outcome_bind, outcome_get, hsplit, hplanned,
    hplans, h.nonempty]

/-- A statement whose sources come to be joined is planned if they are; its plan is counted. -/
theorem ReadyToJoin.gives_plan {planner : RelationPlanner} {s : Statement}
    {before between after : Session} {split : Split} {plans : List (RelationName × Plan)}
    (h : ReadyToJoin planner s before split plans between) {p : Plan}
    (hjoin : Gives (join s.select split plans) between p after) :
    Gives (plan planner s) before (.planned p)
      { after with ledger := after.ledger.planBuilt plannerName p.kind } :=
  (outcome_plan h).trans (gives_bind.2 ⟨p, after, hjoin, rfl⟩)

/-- Once the sources of a statement are planned, so is its first step. -/
theorem gives_planInner {planner : RelationPlanner} {s : Statement} {before after : Session}
    {split : Split} {planned : List (RelationName × Source)} (hvalid : validate s = .ok ())
    (hsplit : s.split before.settings = .ok split)
    (hplanned : Gives (planSources planner s.sources split.shares) before planned after) :
    Gives (planInner planner s) before { s with sources := planned } after := by
  refine gives_bind.2 ⟨(), before, gives_check.2 ⟨hvalid, rfl⟩, ?_⟩
  refine gives_bind.2 ⟨before, before, gives_get.2 ⟨rfl, rfl⟩, ?_⟩
  refine gives_bind.2 ⟨split, before, gives_ofExcept.2 ⟨hsplit, rfl⟩, ?_⟩
  exact gives_bind.2 ⟨planned, after, hplanned, gives_pure.2 ⟨rfl, rfl⟩⟩

/-- Once the joined row is known, joining plans is adding the projections of the statement at the
root of a tree of nested loops. -/
theorem outcome_join {select : Select} {split : Split} {plans : List (RelationName × Plan)}
    {order : List Nat} (horder : joinOrder split.firstKeys = order) {row : List Expr}
    (hrow : joinedRow (order.filterMap (plans[·]?)) = .ok row) {first : Plan} {rest : List Plan}
    (hplans : (order.filterMap (plans[·]?)).map (·.2) = first :: rest) (before : Session) :
    outcome (join select split plans) before =
      outcome (ofExcept (finish before select split row
        ((order.filterMap (plans[·]?)).map fun (relation, plan) => Leaf.ofPlan relation plan)
        (joinAll before.handler before.nextStage first rest))) (before.skipStages rest.length) := by
  subst horder
  have hok : outcome (ofExcept (joinedRow ((joinOrder split.firstKeys).filterMap (plans[·]?))))
      before = (.ok row, before) := gives_ofExcept.2 ⟨hrow, rfl⟩
  rw [join, outcome_bind, hok]
  simp only [hplans, outcome_bind, outcome_get, outcome_set]

/-- A join has the projections of the statement added at the root of a tree of nested loops. -/
theorem gives_join {select : Select} {split : Split} {plans : List (RelationName × Plan)}
    {order : List Nat} (horder : joinOrder split.firstKeys = order) {before after : Session}
    {p : Plan} :
    Gives (join select split plans) before p after ↔
      ∃ row first rest, joinedRow (order.filterMap (plans[·]?)) = .ok row ∧
        (order.filterMap (plans[·]?)).map (·.2) = first :: rest ∧
        finish before select split row
          ((order.filterMap (plans[·]?)).map fun (relation, plan) => Leaf.ofPlan relation plan)
          (joinAll before.handler before.nextStage first rest) = .ok p ∧
        before.skipStages rest.length = after := by
  subst horder
  constructor
  · intro h
    unfold join at h
    obtain ⟨row, σ, hrow, h⟩ := gives_bind.1 h
    obtain ⟨hok, rfl⟩ := gives_ofExcept.1 hrow
    split at h
    · exact absurd h not_gives_throw
    · rename_i first rest hplans
      obtain ⟨session, σ, hget, h⟩ := gives_bind.1 h
      obtain ⟨rfl, rfl⟩ := gives_get.1 hget
      obtain ⟨_, σ, hset, h⟩ := gives_bind.1 h
      obtain rfl := gives_set.1 hset
      obtain ⟨hfinish, rfl⟩ := gives_ofExcept.1 h
      exact ⟨row, first, rest, hok, hplans, hfinish, rfl⟩
  · rintro ⟨row, first, rest, hok, hplans, hfinish, rfl⟩
    unfold Gives
    rw [outcome_join rfl hok hplans]
    exact gives_ofExcept.2 ⟨hfinish, rfl⟩

/-- A statement is planned step by step: its sources come to be joined, they emit a row in the
order in which they are joined, and the projections of the statement fit on that row. -/
theorem ReadyToJoin.gives_plan_of_steps {planner : RelationPlanner} {s : Statement}
    {before between : Session} {split : Split} {plans : List (RelationName × Plan)}
    (hready : ReadyToJoin planner s before split plans between)
    {order : List Nat} (horder : joinOrder split.firstKeys = order) {row : List Expr}
    (hrow : joinedRow (order.filterMap (plans[·]?)) = .ok row) {first : Plan} {rest : List Plan}
    (hplans : (order.filterMap (plans[·]?)).map (·.2) = first :: rest) {p : Plan}
    (hfinish : finish between s.select split row
      ((order.filterMap (plans[·]?)).map fun (relation, plan) => Leaf.ofPlan relation plan)
      (joinAll between.handler between.nextStage first rest) = .ok p) :
    Gives (plan planner s) before (.planned p)
      { between.skipStages rest.length with
        ledger := (between.skipStages rest.length).ledger.planBuilt plannerName p.kind } :=
  hready.gives_plan ((gives_join horder).2 ⟨row, first, rest, hrow, hplans, hfinish, rfl⟩)

theorem finish_eq_ok {session : Session} {select : Select} {split : Split} {row : List Expr}
    {leaves : List Leaf} {root p : Plan}
    (h : finish session select split row leaves root = .ok p) :
    ∃ left right leftOuter merge projections,
      root = .nestedLoop left right leftOuter merge ∧
      ResultRow.projections session select split row leaves = .ok projections ∧
      { merge with projections := merge.projections ++ projections }.validate = .ok () ∧
      p = .nestedLoop left right leftOuter
        { merge with projections := merge.projections ++ projections } := by
  unfold finish at h
  split at h
  · rename_i left right leftOuter merge
    obtain ⟨projections, hprojections, h⟩ := Except.bind_eq_ok.1 h
    obtain ⟨_, hvalid, h⟩ := Except.bind_eq_ok.1 h
    exact ⟨left, right, leftOuter, merge, projections, rfl, hprojections, hvalid,
      (Except.ok.inj h).symm⟩
  · cases h

/-- The joined row has the columns of the leaves one after another. -/
theorem joinedRow_eq_ok {ordered : List (RelationName × Plan)} {row : List Expr}
    (h : joinedRow ordered = .ok row) :
    (∀ p ∈ ordered, ∃ outputs, p.2.outputs? = some outputs) ∧
      row = ordered.flatMap fun p => p.2.outputs?.getD [] := by
  induction ordered generalizing row with
  | nil =>
    obtain rfl := Except.ok.inj h
    simp
  | cons p rest ih =>
    rw [joinedRow] at h
    split at h
    · cases h
    · rename_i outputs houtputs
      split at h
      · obtain ⟨others, hothers, h⟩ := Except.bind_eq_ok.1 h
        obtain rfl := Except.ok.inj h
        obtain ⟨hall, rfl⟩ := ih hothers
        refine ⟨List.forall_mem_cons.2 ⟨⟨outputs, houtputs⟩, hall⟩, ?_⟩
        rw [List.flatMap_cons, houtputs]
        rfl
      · cases h

end CrossJoin

namespace ResultRow

variable {row : List Expr}

theorem resolveOn_eq_ok {use : JoinUse} {e resolved : Expr} :
    resolveOn row use e = .ok resolved ↔
      resolved = e.resolve row ∧ (e.resolve row).references = [] := by
  unfold resolveOn
  cases (e.resolve row).references with
  | nil => simp [eq_comm]
  | cons r rs => simp

/-- A predicate that is left runs as one filter over the joined row. -/
theorem filters_eq_ok {query : Option Expr} {projections : List Projection}
    (h : filters row query = .ok projections) :
    projections = query.toList.map (.filter <| Expr.resolve row ·) ∧
      ∀ e ∈ query, (e.resolve row).references = [] := by
  cases query with
  | none =>
    obtain rfl := Except.ok.inj h
    simp
  | some query =>
    obtain ⟨resolved, hresolved, h⟩ := Except.bind_eq_ok.1 h
    obtain ⟨rfl, hreferences⟩ := resolveOn_eq_ok.1 hresolved
    obtain rfl := Except.ok.inj h
    simpa using hreferences

/-- The keys that are left are read from the joined row. -/
theorem orderBy_eq_ok {order resolved : Option OrderBy} (h : orderBy row order = .ok resolved) :
    resolved = order.map (·.mapKeys (Expr.resolve row)) ∧
      ∀ o ∈ order, ∀ key ∈ o.keys, (key.resolve row).references = [] := by
  cases order with
  | none =>
    obtain rfl := Except.ok.inj h
    simp
  | some o =>
    obtain ⟨keys, hkeys, h⟩ := Except.bind_eq_ok.1 h
    obtain rfl := Except.ok.inj h
    obtain ⟨rfl, hreferences⟩ := eq_map_of_forall₂
      ((Except.mapM_eq_ok.1 hkeys).imp fun _ _ => resolveOn_eq_ok.1)
    exact ⟨rfl, by simpa using hreferences⟩

/-- The projections of a statement: a filter for what remains of the predicate, a top-n for what
remains of the order by, and a fetch if some output is not in the joined row. -/
theorem projections_shape {session : Session} {select : Select} {split : Split}
    {leaves : List Leaf} {all : List Projection}
    (h : projections session select split row leaves = .ok all) :
    ∃ filters order, ResultRow.filters row split.remainingQuery = .ok filters ∧
      orderBy row split.remainingOrderBy = .ok order ∧
      (((∀ e ∈ select.outputs, (e.resolve row).references = []) ∧
          all = filters ++
            [.topN split.limit select.offset order (select.outputs.map (Expr.resolve row))]) ∨
        ¬(∀ e ∈ select.outputs, (e.resolve row).references = []) ∧
          ∃ f, fetch session row (select.outputs.map (Expr.resolve row)) leaves split.limit = .ok f ∧
            all = filters ++ [.topN split.limit select.offset order
              (Projection.passThrough (row.map Expr.type)), .fetch f]) := by
  unfold projections at h
  obtain ⟨filters, hfilters, h⟩ := Except.bind_eq_ok.1 h
  obtain ⟨order, horder, h⟩ := Except.bind_eq_ok.1 h
  have hall : (select.outputs.map (Expr.resolve row)).all (·.references.isEmpty) = true ↔
      ∀ e ∈ select.outputs, (e.resolve row).references = [] := by simp
  refine ⟨filters, order, hfilters, horder, ?_⟩
  dsimp only at h
  split at h
  · exact .inl ⟨hall.1 ‹_›, (Except.ok.inj h).symm⟩
  · obtain ⟨f, hf, h⟩ := Except.bind_eq_ok.1 h
    exact .inr ⟨fun h => absurd (hall.2 h) ‹_›, f, hf, (Except.ok.inj h).symm⟩

/-- If every output can be read from the joined row, nothing is fetched. -/
theorem projections_eq_ok {session : Session} {select : Select} {split : Split}
    {leaves : List Leaf} {all : List Projection}
    (h : projections session select split row leaves = .ok all)
    (houtputs : ∀ e ∈ select.outputs, (e.resolve row).references = []) :
    ∃ filters order, ResultRow.filters row split.remainingQuery = .ok filters ∧
      orderBy row split.remainingOrderBy = .ok order ∧
      all = filters ++
        [.topN split.limit select.offset order (select.outputs.map (Expr.resolve row))] := by
  obtain ⟨filters, order, hfilters, horder, ⟨-, hall⟩ | ⟨hnot, -⟩⟩ := projections_shape h
  · exact ⟨filters, order, hfilters, horder, hall⟩
  · exact absurd houtputs hnot

end ResultRow

end ShardJoin
