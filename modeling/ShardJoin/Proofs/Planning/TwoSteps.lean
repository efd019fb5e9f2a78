/-
Planning a statement in two steps.

Tables that cannot be planned at first are planned in a second step, on the
statement that the first one leaves.  Wherever the statement can be planned at
once, the second step succeeds too, but for one case: a conjunct that was left
to a table in the first step is wanted on the joined row in the second one,
where the plan of the table need not have its columns.

* `Planning.exists_planSources` — planning sources one after another;
* `CrossJoin.exists_snapshot` — the first step;
* `CrossJoin.exists_readyToJoin` — the sources of the second step;
* `CrossJoin.plan_planInner` — both steps.
-/
import ShardJoin.Proofs.Planning.Snapshot

namespace ShardJoin

open Planning

/-- A scan that reads nothing back later emits what it collects, in a cluster where the table has a
routing. -/
theorem Strategy.exists_scanPlan {q : TableQuery} {options : ScanOptions}
    (hfetch : options.fetch = false) {σ : Session} {routing : Routing}
    (hrouting : σ.cluster.routing q.tableName = .ok routing) :
    ∃ p σ', Gives (scanPlan q options) σ p σ' ∧ p.outputs? = some (scanOutputs q options) ∧
      (p.resultTypes == p.outputTypes) = true ∧ σ'.cluster = σ.cluster := by
  have hok : outcome (ofExcept (σ.cluster.routing q.tableName)) σ = (.ok routing, σ) :=
    gives_ofExcept.2 ⟨hrouting, rfl⟩
  obtain ⟨fetch, merge, docId, joinOutputs, wrap, mergeNodes⟩ := options
  obtain rfl : fetch = false := hfetch
  -- with or without a merge stage, alone or as the last of several plans
  cases merge <;> cases wrap <;>
    exact ⟨_, _, gives_bind.2 ⟨σ, σ, rfl, gives_bind.2 ⟨routing, σ, hok,
      gives_bind.2 ⟨_, _, rfl, rfl⟩⟩⟩, rfl, BEq.rfl, rfl⟩

namespace CrossJoin

/-- A planner that declines some tables at first. -/
def declining (declines : TableQuery → Bool) (planner : RelationPlanner) : RelationPlanner :=
  fun q => if declines q then return none else planner q

/-- A planner that accepts the tables of a statement: whatever is asked of them, it makes a plan
that collects it. -/
def Accepts (planner : RelationPlanner) (s : Statement) (cluster : Cluster) : Prop :=
  ∀ q : TableQuery, (∃ x ∈ s.sources, x.2.table? = some q.table) →
    ∀ σ : Session, σ.cluster = cluster →
      ∃ p σ', Gives (planner q) σ (some p) σ' ∧ Collects q p ∧ σ'.cluster = cluster

/-- Scans accept the tables that have a routing. -/
theorem accepts_scan {s : Statement} {cluster : Cluster} {options : ScanOptions}
    (hfetch : options.fetch = false) (hjoin : options.joinOutputs = true)
    (hrouting : ∀ x ∈ s.sources, ∀ table ∈ x.2.table?,
      ∃ routing, cluster.routing table.table.name = .ok routing) :
    Accepts (Strategy.planTable (.scan options)) s cluster := by
  rintro q ⟨x, hx, htable⟩ σ rfl
  obtain ⟨routing, hrouting⟩ := hrouting x hx q.table htable
  obtain ⟨p, σ', hp, houtputs, htypes, hσ'⟩ := Strategy.exists_scanPlan hfetch hrouting
  exact ⟨p, σ', gives_bind.2 ⟨p, σ', hp, gives_pure.2 ⟨rfl, rfl⟩⟩,
    ⟨⟨_, houtputs, Strategy.foundIn_scanOutputs hfetch hjoin⟩, htypes⟩, hσ'⟩

/-! ### Planning sources -/

/-- Sources are planned one after another if each of them can be planned, wherever the one before
has led to. -/
theorem exists_planSources (planner : RelationPlanner) {cluster : Cluster}
    {R : Source → Option TableQuery → Source → Prop} {sources : List (RelationName × Source)}
    {shares : List (Option TableQuery)} (hlength : shares.length = sources.length)
    (hsource : ∀ x ∈ sources.zip shares, ∀ σ : Session, σ.cluster = cluster →
      ∃ y σ', Gives (planSource planner x.1.2 x.2) σ y σ' ∧ σ'.cluster = cluster ∧ R x.1.2 x.2 y)
    {before : Session} (hbefore : before.cluster = cluster) :
    ∃ planned after, Gives (planSources planner sources shares) before planned after ∧
      after.cluster = cluster ∧
      List.Forall₂ (fun x y => y.1 = x.1.1 ∧ R x.1.2 x.2 y.2) (sources.zip shares) planned := by
  induction sources generalizing shares before with
  | nil => exact ⟨[], before, gives_pure.2 ⟨rfl, rfl⟩, hbefore, .nil⟩
  | cons x rest ih =>
    cases shares with
    | nil => cases hlength
    | cons share shares =>
      rw [List.zip_cons_cons, List.forall_mem_cons] at hsource
      obtain ⟨y, σ, hy, hσ, hR⟩ := hsource.1 before hbefore
      obtain ⟨planned, after, hplanned, hafter, hall⟩ := ih (Nat.succ.inj hlength) hsource.2 hσ
      refine ⟨(x.1, y) :: planned, after, ?_, hafter, .cons ⟨rfl, hR⟩ hall⟩
      exact gives_bind.2 ⟨y, σ, hy, gives_bind.2 ⟨planned, after, hplanned,
        gives_pure.2 ⟨rfl, rfl⟩⟩⟩

/-- A table is planned by the planner, and left with its share if the planner declines it. -/
theorem gives_planSource_of_table {planner : RelationPlanner} {source : Source}
    (htable : source.table?.isSome = true) {q : TableQuery} {σ σ' : Session} {made : Option Plan}
    (h : Gives (planner q) σ made σ') :
    Gives (planSource planner source (some q)) σ (made.elim (.queried q) .planned) σ' := by
  cases source with
  | planned plan => cases htable
  | subQuery query => cases htable
  | table relation =>
    refine gives_bind.2 ⟨made, σ', h, ?_⟩
    cases made <;> exact gives_pure.2 ⟨rfl, rfl⟩
  | queried query =>
    refine gives_bind.2 ⟨made, σ', h, ?_⟩
    cases made <;> exact gives_pure.2 ⟨rfl, rfl⟩

variable {s s' : Statement} {settings : PlannerSettings} {split : Split}

/-- The share of a source, by its position. -/
theorem getElem?_shares (hsplit : split.IsOf s settings) {i : Nat} {x : RelationName × Source}
    {share : Option TableQuery} (hi : (s.sources.zip split.shares)[i]? = some (x, share)) :
    s.sources[i]? = some x ∧ s.shareOf settings.selectLimit i = .ok share := by
  obtain ⟨hx, hshare⟩ := List.getElem?_zip_eq_some.1 hi
  exact ⟨hx, hsplit.shareOf_eq hshare⟩

/-- A table has a share. -/
theorem exists_share {default : UInt64} {i : Nat} {name : RelationName} {source : Source}
    {table : TableRelation} (hsource : s.sources[i]? = some (name, source))
    (htable : source.table? = some table) {share : Option TableQuery}
    (hshare : s.shareOf default i = .ok share) :
    ∃ q, share = some q ∧ q.table = table :=
  Statement.eq_some_of_share (by rw [Statement.tableAt?, hsource, Option.bind_some, htable]) hshare

/-! ### The first step -/

theorem isSubQuery_of_table {source : Source} (h : source.table?.isSome = true) :
    source.isSubQuery = false := by
  cases source with
  | subQuery query => cases h
  | table relation => rfl
  | queried query => rfl
  | planned plan => rfl

/-- In the first step a table is left with its share if it is declined, and planned otherwise. -/
theorem Accepts.exists_attempt {planner : RelationPlanner} {cluster : Cluster}
    (hplanner : Accepts planner s cluster) (declines : TableQuery → Bool) {q : TableQuery}
    {source : Source} (htable : source.table? = some q.table) (hmem : ∃ x ∈ s.sources, x.2 = source)
    {σ : Session} (hσ : σ.cluster = cluster) :
    ∃ y σ', Gives (planSource (declining declines planner) source (some q)) σ y σ' ∧
      σ'.cluster = cluster ∧ Attempt declines q y := by
  have hsome : source.table?.isSome = true := by
    rw [htable]
    rfl
  cases hdeclines : declines q with
  | true =>
    have hgives : Gives (declining declines planner q) σ none σ := by
      rw [declining, if_pos hdeclines]
      exact gives_pure.2 ⟨rfl, rfl⟩
    exact ⟨_, σ, gives_planSource_of_table hsome hgives, hσ, .declined hdeclines⟩
  | false =>
    obtain ⟨x, hx, rfl⟩ := hmem
    obtain ⟨p, σ', hp, hcollects, hσ'⟩ := hplanner q ⟨x, hx, htable⟩ σ hσ
    have hgives : Gives (declining declines planner q) σ (some p) σ' := by
      rw [declining, if_neg (Bool.eq_false_iff.1 hdeclines)]
      exact hp
    exact ⟨_, σ', gives_planSource_of_table hsome hgives, hσ', .planned hdeclines hcollects⟩

/-- The first step of planning a statement leads to a snapshot. -/
theorem exists_snapshot {planner : RelationPlanner} {cluster : Cluster} (hs : s.ReadsTables)
    (hplanner : Accepts planner s cluster) (hvalid : validate s = .ok ())
    (horder : ∀ o, s.select.orderBy = some o → o.validate = .ok ())
    (declines : TableQuery → Bool) {start : Session} (hstart : start.cluster = cluster) :
    ∃ s' between, Gives (planInner (declining declines planner) s) start s' between ∧
      between.cluster = cluster ∧ Snapshot declines start.settings.selectLimit s s' := by
  obtain ⟨split, hsplit⟩ := Statement.exists_split
    (fun x hx => isSubQuery_of_table (hs.tables x hx)) horder start.settings
  have hspec := Statement.split_spec hsplit
  have hlength := hspec.length_shares
  have hsource : ∀ x ∈ s.sources.zip split.shares, ∀ σ : Session, σ.cluster = cluster →
      ∃ y σ', Gives (planSource (declining declines planner) x.1.2 x.2) σ y σ' ∧
        σ'.cluster = cluster ∧ ∃ q, x.2 = some q ∧ Attempt declines q y := by
    rintro ⟨x, share⟩ hx σ hσ
    obtain ⟨i, hi⟩ := List.mem_iff_getElem?.1 hx
    obtain ⟨hx, hshare⟩ := getElem?_shares hspec hi
    have hmem := List.mem_of_getElem? hx
    obtain ⟨table, htable⟩ := Option.isSome_iff_exists.1 (hs.tables x hmem)
    obtain ⟨q, rfl, rfl⟩ := exists_share hx htable hshare
    obtain ⟨y, σ', hy, hσ', hattempt⟩ := hplanner.exists_attempt declines htable ⟨x, hmem, rfl⟩ hσ
    exact ⟨y, σ', hy, hσ', q, rfl, hattempt⟩
  obtain ⟨planned, between, hplanned, hbetween, hall⟩ := exists_planSources
    (declining declines planner) (R := fun _ share y => ∃ q, share = some q ∧ Attempt declines q y)
    hlength hsource hstart
  refine ⟨{ s with sources := planned }, between, ?_, hbetween, rfl, ?_, fun i y hy => ?_⟩
  · exact gives_planInner hvalid hsplit hplanned
  · have hnames : planned.map (·.1) = (s.sources.zip split.shares).map (·.1.1) := by
      refine (eq_map_of_forall₂ (P := fun _ => True) ?_).1
      exact List.forall₂_map_right_iff.2 (hall.imp fun _ _ h => ⟨h.1, trivial⟩)
    show planned.map (·.1) = s.sources.map (·.1)
    have hzip := List.map_fst_zip (Nat.le_of_eq hlength.symm)
    rw [hnames, ← hzip, List.map_map, hzip]
    rfl
  · obtain ⟨⟨x, share⟩, hi, -, q, rfl, hattempt⟩ := exists_getElem?_of_forall₂ hall hy
    exact ⟨q, (getElem?_shares hspec hi).2, hattempt⟩

/-! ### The second step -/

/-- The plans of sources that all have one. -/
theorem exists_allPlans? {β : Type} {name : β → RelationName} {R : β → Plan → Prop} {l : List β}
    {planned : List (RelationName × Source)}
    (h : List.Forall₂ (fun x y => y.1 = name x ∧ ∃ p, y.2 = .planned p ∧ R x p) l planned) :
    ∃ plans, allPlans? planned = some plans ∧
      List.Forall₂ (fun x z => z.1 = name x ∧ R x z.2) l plans := by
  induction h with
  | nil => exact ⟨[], rfl, .nil⟩
  | @cons x y l planned hxy _ ih =>
    obtain ⟨hname, p, hp, hR⟩ := hxy
    obtain ⟨plans, hplans, hall⟩ := ih
    obtain ⟨relation, source⟩ := y
    obtain rfl : source = .planned p := hp
    refine ⟨(relation, p) :: plans, ?_, .cons ⟨hname, hR⟩ hall⟩
    rw [allPlans?, hplans]
    rfl

/-- A statement is ready to be joined if each of its sources can be planned, wherever planning has
led to. -/
theorem exists_ready (planner : RelationPlanner) {before : Session}
    {R : Source → Option TableQuery → Plan → Prop}
    (hsub : ∀ x ∈ s.sources, x.2.isSubQuery = false) (hlength : 2 ≤ s.sources.length)
    (hvalid : validate s = .ok ()) (hpossible : s.select.whereClause.isStaticallyFalse = false)
    (horder : ∀ o, s.select.orderBy = some o → o.validate = .ok ())
    (hsource : ∀ i x share, s.sources[i]? = some x →
      s.shareOf before.settings.selectLimit i = .ok share →
      ∀ σ : Session, σ.cluster = before.cluster →
        ∃ p σ', Gives (planSource planner x.2 share) σ (.planned p) σ' ∧
          σ'.cluster = before.cluster ∧ p.isNoOp = false ∧ R x.2 share p) :
    ∃ split plans σ, ReadyToJoin planner s before split plans σ ∧
      ∀ i z, plans[i]? = some z → ∃ x share, s.sources[i]? = some x ∧
        s.shareOf before.settings.selectLimit i = .ok share ∧ R x.2 share z.2 := by
  obtain ⟨split, hsplit⟩ := Statement.exists_split hsub horder before.settings
  have hspec := Statement.split_spec hsplit
  have hshares := hspec.length_shares
  obtain ⟨planned, σ, hplanned, -, hall⟩ := exists_planSources planner
    (R := fun source share y => ∃ p, y = .planned p ∧ p.isNoOp = false ∧ R source share p)
    hshares (fun ⟨x, share⟩ hx σ hσ => by
      obtain ⟨i, hi⟩ := List.mem_iff_getElem?.1 hx
      obtain ⟨hx, hshare⟩ := getElem?_shares hspec hi
      obtain ⟨p, σ', hp, hσ', hR⟩ := hsource i x share hx hshare σ hσ
      exact ⟨_, σ', hp, hσ', p, rfl, hR⟩) rfl
  obtain ⟨plans, hplans, hall⟩ := exists_allPlans?
    (R := fun (x : (RelationName × Source) × Option TableQuery) p =>
      p.isNoOp = false ∧ R x.1.2 x.2 p) hall
  refine ⟨split, plans, σ, ⟨hlength, hvalid, hpossible, hsplit, ⟨planned, hplanned, hplans⟩, ?_⟩,
    fun i z hz => ?_⟩
  · rw [List.any_eq_false]
    intro z hz
    obtain ⟨i, hi⟩ := List.mem_iff_getElem?.1 hz
    obtain ⟨_, -, -, hrows, -⟩ := exists_getElem?_of_forall₂ hall hi
    rw [hrows]
    exact Bool.false_ne_true
  · obtain ⟨⟨x, share⟩, hi, -, -, hR⟩ := exists_getElem?_of_forall₂ hall hz
    obtain ⟨hx, hshare⟩ := getElem?_shares hspec hi
    exact ⟨x, share, hx, hshare, hR⟩

/-- In the second step a table has the plan of the first step, or one for its new share. -/
inductive PlannedIn (default default' : UInt64) (s s' : Statement) (i : Nat) (p : Plan) : Prop
  | first {name : RelationName} {q : TableQuery} (hsource : s'.sources[i]? = some (name, .planned p))
    (hshare : s.shareOf default i = .ok (some q)) (hcollects : Collects q p)
  | again {q : TableQuery} (hshare : s'.shareOf default' i = .ok (some q))
    (hcollects : Collects q p)

variable {declines : TableQuery → Bool} {default : UInt64}

theorem isSubQuery_snapshot (hsnapshot : Snapshot declines default s s') :
    ∀ x ∈ s'.sources, x.2.isSubQuery = false := by
  intro x hx
  obtain ⟨i, hi⟩ := List.mem_iff_getElem?.1 hx
  obtain ⟨q, -, hattempt⟩ := hsnapshot.source i x hi
  obtain ⟨name, source⟩ := x
  cases hattempt with
  | declined _ => rfl
  | planned _ _ => rfl

theorem validate_snapshot (hsnapshot : Snapshot declines default s s')
    (hvalid : validate s = .ok ()) : validate s' = .ok () := by
  have hsources : s'.sources.any (·.2.isSubQuery) = false := by
    rw [List.any_eq_false]
    intro x hx
    rw [isSubQuery_snapshot hsnapshot x hx]
    exact Bool.false_ne_true
  unfold validate at hvalid ⊢
  rw [hsnapshot.select, hsources]
  split at hvalid
  · cases hvalid
  · rename_i hgroup
    split at hvalid
    · cases hvalid
    · rename_i haggregates
      rw [if_neg hgroup, if_neg haggregates, if_neg Bool.false_ne_true]

/-- In the second step a table keeps its plan, or the planner is asked for the new share. -/
theorem Accepts.exists_planned {planner : RelationPlanner} {cluster : Cluster}
    (hplanner : Accepts planner s cluster) (hsnapshot : Snapshot declines default s s')
    {default' : UInt64} {i : Nat} {x : RelationName × Source} (hx : s'.sources[i]? = some x)
    {share : Option TableQuery} (hshare : s'.shareOf default' i = .ok share) {σ : Session}
    (hσ : σ.cluster = cluster) :
    ∃ y σ', Gives (planSource planner x.2 share) σ y σ' ∧ σ'.cluster = cluster ∧
      ∃ p, y = .planned p ∧ (x.2 = .planned p ∨ ∃ q, share = some q ∧ Collects q p) := by
  obtain ⟨q, hfirst, hattempt⟩ := hsnapshot.source i x hx
  obtain ⟨name, source⟩ := x
  cases hattempt with
  | @planned p _ hcollects =>
    have hgives : Gives (planSource planner (.planned p) share) σ (.planned p) σ := by
      cases share <;> exact gives_pure.2 ⟨rfl, rfl⟩
    exact ⟨_, σ, hgives, hσ, p, rfl, .inl rfl⟩
  | declined _ =>
    obtain ⟨q', rfl, hname⟩ := exists_share hx rfl hshare
    -- it is the table that the statement has at this position
    obtain ⟨z, hz, htable⟩ := Option.bind_eq_some_iff.1 (Statement.tableAt?_of_share hfirst)
    obtain ⟨p, σ', hp, hcollects, hσ'⟩ :=
      hplanner q' ⟨z, List.mem_of_getElem? hz, by rw [hname, htable]⟩ σ hσ
    exact ⟨_, σ', gives_planSource_of_table rfl hp, hσ', p, rfl, .inr ⟨q', rfl, hcollects⟩⟩

/-- A snapshot is ready to be joined if the planner accepts the tables that are left. -/
theorem exists_readyToJoin {planner : RelationPlanner} {cluster : Cluster}
    (hplanner : Accepts planner s cluster) (hsnapshot : Snapshot declines default s s')
    (hlength : 2 ≤ s.sources.length) (hvalid : validate s = .ok ())
    (hpossible : s.select.whereClause.isStaticallyFalse = false)
    (horder : ∀ o, s.select.orderBy = some o → o.validate = .ok ()) {between : Session}
    (hbetween : between.cluster = cluster) :
    ∃ split plans σ, ReadyToJoin planner s' between split plans σ ∧
      ∀ i z, plans[i]? = some z →
        PlannedIn default between.settings.selectLimit s s' i z.2 := by
  subst hbetween
  have hfrom : ∀ i x share, s'.sources[i]? = some x →
      s'.shareOf between.settings.selectLimit i = .ok share → ∀ p,
        x.2 = .planned p ∨ (∃ q, share = some q ∧ Collects q p) →
          p.isNoOp = false ∧ PlannedIn default between.settings.selectLimit s s' i p := by
    rintro i ⟨name, source⟩ share hx hshare p (rfl | ⟨q, rfl, hcollects⟩)
    · obtain ⟨q, hshare, hattempt⟩ := hsnapshot.source i _ hx
      cases hattempt with
      | planned _ hcollects => exact ⟨hcollects.isNoOp, .first hx hshare hcollects⟩
    · exact ⟨hcollects.isNoOp, .again hshare hcollects⟩
  obtain ⟨split, plans, σ, hready, hplans⟩ := exists_ready planner (s := s')
    (R := fun source share p => source = .planned p ∨ ∃ q, share = some q ∧ Collects q p)
    (isSubQuery_snapshot hsnapshot) (hsnapshot.length_sources.symm ▸ hlength)
    (validate_snapshot hsnapshot hvalid) (hsnapshot.select ▸ hpossible)
    (hsnapshot.select ▸ horder) (fun i x share hx hshare σ hσ => by
      obtain ⟨_, σ', hp, hσ', p, rfl, hcases⟩ := hplanner.exists_planned hsnapshot hx hshare hσ
      exact ⟨p, σ', hp, hσ', (hfrom i x share hx hshare p hcases).1, hcases⟩)
  refine ⟨split, plans, σ, hready, fun i z hz => ?_⟩
  obtain ⟨x, share, hx, hshare, hcases⟩ := hplans i z hz
  exact (hfrom i x share hx hshare z.2 hcases).2

/-! ### Joining the plans -/

/-- Plans that collect what is asked of them have a joined row, which has their columns. -/
theorem exists_joinedRow {ordered : List (RelationName × Plan)}
    (h : ∀ x ∈ ordered, ∃ q, Collects q x.2) :
    ∃ row, joinedRow ordered = .ok row ∧
      ∀ x ∈ ordered, ∀ outputs, x.2.outputs? = some outputs → outputs ⊆ row := by
  induction ordered with
  | nil => exact ⟨[], rfl, fun x hx => absurd hx List.not_mem_nil⟩
  | cons x rest ih =>
    rw [List.forall_mem_cons] at h
    obtain ⟨⟨q, hcollects⟩, hrest⟩ := h
    obtain ⟨row, hrow, hsub⟩ := ih hrest
    obtain ⟨outputs, houtputs, -⟩ := hcollects.required
    refine ⟨outputs ++ row, ?_, ?_⟩
    · rw [joinedRow, houtputs]
      show (if x.2.resultTypes == x.2.outputTypes then do return outputs ++ (← joinedRow rest)
        else .error (.reshaped x.1)) = .ok (outputs ++ row)
      rw [if_pos hcollects.unshaped, hrow]
      rfl
    · intro y hy outputs' houtputs'
      rcases List.mem_cons.1 hy with rfl | hy
      · obtain rfl := Option.some.inj (houtputs.symm.trans houtputs')
        exact List.subset_append_left _ _
      · exact List.Subset.trans (hsub y hy outputs' houtputs') (List.subset_append_right _ _)

/-- The joined row of the second step has what the tables are asked for. -/
theorem exists_covers {planner : RelationPlanner} (hsnapshot : Snapshot declines default s s')
    {between σ : Session} {split : Split} {plans : List (RelationName × Plan)}
    (hready : ReadyToJoin planner s' between split plans σ)
    (hfrom : ∀ i z, plans[i]? = some z →
      PlannedIn default between.settings.selectLimit s s' i z.2) :
    ∃ row, joinedRow (s'.sourceOrder.filterMap (plans[·]?)) = .ok row ∧
      Covers default between.settings.selectLimit s s' row ∧
      ∀ (i : Nat) (name : RelationName) (p : Plan), s'.sources[i]? = some (name, .planned p) →
        ∀ outputs, p.outputs? = some outputs → outputs ⊆ row := by
  have hcollects : ∀ x ∈ s'.sourceOrder.filterMap (plans[·]?), ∃ q, Collects q x.2 := by
    intro x hx
    obtain ⟨i, -, hi⟩ := List.mem_filterMap.1 hx
    cases hfrom i x hi with
    | first _ _ hcollects => exact ⟨_, hcollects⟩
    | again _ hcollects => exact ⟨_, hcollects⟩
  obtain ⟨row, hrow, hsub⟩ := exists_joinedRow hcollects
  -- every table has one of the plans that are joined
  have hplans : ∀ i < s'.sources.length, ∃ z, z ∈ s'.sourceOrder.filterMap (plans[·]?) ∧
      PlannedIn default between.settings.selectLimit s s' i z.2 := by
    intro i hi
    have hz := List.getElem?_eq_getElem (hready.length_plans.symm ▸ hi : i < plans.length)
    exact ⟨_, hready.mem_joined hz, hfrom i _ hz⟩
  have hfound : ∀ q z, z ∈ s'.sourceOrder.filterMap (plans[·]?) → Collects q z.2 →
      q.FoundIn row := by
    intro q z hz hq e he
    obtain ⟨outputs, houtputs, hfound⟩ := hq.required
    obtain ⟨o, ho, hsame⟩ := hfound e he
    exact ⟨o, hsub z hz outputs houtputs ho, hsame⟩
  refine ⟨row, hrow, fun i hi => ?_, fun i name p hsource outputs houtputs => ?_⟩
  · obtain ⟨z, hz, hplanned⟩ := hplans i (hsnapshot.length_sources.symm ▸ hi)
    cases hplanned with
    | @first name q hsource hshare hq =>
      refine .inl ⟨⟨q, hshare, hfound q z hz hq⟩, ?_⟩
      rw [Statement.tableAt?, hsource]
      rfl
    | @again q hshare hq => exact .inr ⟨q, hshare, hfound q z hz hq⟩
  · obtain ⟨z, hz, hplanned⟩ := hplans i (List.getElem?_eq_some_iff.1 hsource).1
    cases hplanned with
    | first hsource' _ _ =>
      rw [hsource, Option.some.injEq, Prod.mk.injEq, Source.planned.injEq] at hsource'
      exact hsub z hz outputs (hsource'.2 ▸ houtputs)
    | again hshare _ =>
      have hnone : s'.tableAt? i = none := by
        rw [Statement.tableAt?, hsource]
        rfl
      rw [Statement.tableAt?_of_share hshare] at hnone
      cases hnone

/-- What the second step comes to. -/
inductive SecondStep (planner : RelationPlanner) (s s' : Statement) (between : Session) : Prop
  /-- The sources are joined. -/
  | joined {left right : Plan} {outer : Bool} {merge : MergeStage} {after : Session}
    (h : Gives (plan planner s') between (.planned (.nestedLoop left right outer merge)) after)
  /-- A conjunct was left to a table that is planned already, by a plan that does not collect one
  of its columns. -/
  | refused {i : Nat} {name : RelationName} {p : Plan} {c : Expr} {r : ColumnRef} {after : Session}
    (hplanned : s'.sources[i]? = some (name, .planned p)) (hconjunct : c ∈ s.conjunctsOf i)
    (hreference : r ∈ c.references)
    (hmissing : ∀ outputs, p.outputs? = some outputs → ∀ o ∈ outputs, (o == .column r) = false)
    (h : Fails (plan planner s') between
      (.planning (.notCollected .condition r.relation r.column)) after)

/-- A snapshot whose tables all have plans is planned, or refused for a conjunct of a table that
was planned before. -/
theorem secondStep_of_ready {planner : RelationPlanner} (hs : s.ReadsTables)
    (hsnapshot : Snapshot declines default s s') {between σ : Session} {split : Split}
    {plans : List (RelationName × Plan)} (hready : ReadyToJoin planner s' between split plans σ)
    (hfrom : ∀ i z, plans[i]? = some z →
      PlannedIn default between.settings.selectLimit s s' i z.2) :
    SecondStep planner s s' between := by
  have hsplit := Statement.split_spec hready.splits
  have hinputs : ∀ e ∈ s'.exprs, e.inputs = [] := by
    rw [hsnapshot.exprs_eq]
    exact hs.inputs
  obtain ⟨first, second, rest, hordered, -⟩ := hready.inJoinOrder_eq
  obtain ⟨row, hrow, hcovers, hplanned⟩ := exists_covers hsnapshot hready hfrom
  have htypes := types_joinedRow hrow
  rw [← inJoinOrder, hordered] at htypes
  obtain ⟨leaves, hplan⟩ := hready.outcome_plan hrow hordered
  rw [outcome_bind] at hplan
  -- keys and outputs are found in the joined row
  rcases ResultRow.projections_cases hsplit
    (fun o ho key hkey => hsnapshot.references_key hcovers hs ho hkey)
    (fun e he => hsnapshot.references_output hcovers hs (hsnapshot.select ▸ he)) σ leaves with
    ⟨all, hall⟩ | ⟨query, r, hquery, hr, herror⟩
  · obtain ⟨left, right, outer, merge, hfinish, -⟩ :=
      finish_joinAll_eq_ok hinputs hsplit htypes hall σ.handler σ.nextStage
    rw [hfinish] at hplan
    exact .joined hplan
  · rw [finish_joinAll_eq_error herror] at hplan
    obtain ⟨i, c, hi, hnone, hc, hreference, hmissing⟩ :=
      hsnapshot.exists_conjunct hcovers hs hquery hr
    obtain ⟨q, -, hat | ⟨-, name, p, hsource, -⟩⟩ := hsnapshot.cases_tableAt? hi
    · rw [hnone] at hat
      cases hat
    · exact .refused hsource hc hreference (fun outputs houtputs o ho =>
        hmissing o (hplanned i name p hsource outputs houtputs ho)) hplan

/-- A statement that can be planned at once can be planned in two steps, whatever tables are
declined at first, unless a conjunct that was left to a table in the first step has a column that
the plan of the table does not collect. -/
theorem plan_planInner {planner : RelationPlanner} {before after : Session}
    (hs : s.ReadsTables) (hplanner : Accepts planner s before.cluster) {left right : Plan}
    {outer : Bool} {merge : MergeStage}
    (h : Gives (plan planner s) before (.planned (.nestedLoop left right outer merge)) after)
    (declines : TableQuery → Bool) (start : Session) (hstart : start.cluster = before.cluster) :
    ∃ s' between, Gives (planInner (declining declines planner) s) start s' between ∧
      Snapshot declines start.settings.selectLimit s s' ∧ SecondStep planner s s' between := by
  cases plannedBy_of_gives h with
  | @joined _ _ split plans σ σ' hready _ _ =>
    have horder := (Statement.split_spec hready.splits).orderBy
    obtain ⟨s', between, hgives, hbetween, hsnapshot⟩ :=
      exists_snapshot hs hplanner hready.valid horder declines hstart
    obtain ⟨split', plans', σ', hready', hfrom⟩ := exists_readyToJoin hplanner hsnapshot
      hready.length hready.valid hready.possible horder hbetween
    exact ⟨s', between, hgives, hsnapshot, secondStep_of_ready hs hsnapshot hready' hfrom⟩

/-! ### Two tables -/

open Statement

/-- The numbers of the second table, once for every one in the first table. -/
def lookedUp : Statement :=
  { pairs with
    select :=
      { Select.ofOutputs (columnTable "u" "b").allColumns with
        whereClause :=
          .ofQuery (.apply (.comparison .eq) ((columnTable "t" "a").allColumns ++ [.int64 1])) } }

theorem readsTables_lookedUp : lookedUp.ReadsTables where
  tables := by decide
  references := by decide
  inputs := by decide
  numbers := by decide

theorem accepts_lookedUp : Accepts (Strategy.planTable (.scan plainScan)) lookedUp oneNode :=
  accepts_scan rfl rfl fun _ _ _ _ => ⟨_, rfl⟩

theorem gives_lookedUp : ∃ left right outer merge after,
    Gives (plan (Strategy.planTable (.scan plainScan)) lookedUp) (.start oneNode ⟨10000, 10000⟩ 1)
      (.planned (.nestedLoop left right outer merge)) after := by
  have hready : ReadyToJoin (Strategy.planTable (.scan plainScan)) lookedUp
      (.start oneNode ⟨10000, 10000⟩ 1) _ _ _ :=
    ⟨Nat.le_refl 2, rfl, rfl, rfl, ⟨_, rfl, rfl⟩, rfl⟩
  exact ⟨_, _, _, _, _, hready.gives_plan_of_steps joinOrder_unsorted rfl rfl rfl⟩

/-- The share of a table that is asked for some outputs, up to the default limit. -/
def lookedUpShare (table : TableRelation) (outputs : List Expr) (w : WhereClause) : TableQuery :=
  ⟨table, { Select.ofOutputs outputs with whereClause := w, limit := some 10000 }, []⟩

/-- The statement when the first table has been scanned for the ones, and nothing of it has been
collected. -/
def lookedUpLater : Statement :=
  let first := lookedUpShare (columnTable "t" "a") [] lookedUp.select.whereClause
  let second := lookedUpShare (columnTable "u" "b") (columnTable "u" "b").allColumns .matchAll
  { lookedUp with
    sources :=
      [("t", .planned (.scan ⟨Strategy.collectStage "node" first plainScan ⟨.empty⟩ 0 none, none, none⟩)),
        ("u", .queried second)] }

theorem gives_lookedUpLater :
    Gives (planInner (declining (·.name == "u") (Strategy.planTable (.scan plainScan))) lookedUp)
      (.start oneNode ⟨10000, 10000⟩ 1) lookedUpLater
      ((Session.start oneNode ⟨10000, 10000⟩ 1).skipStages 1) :=
  gives_planInner rfl rfl rfl

theorem fails_lookedUpLater :
    Fails (plan (Strategy.planTable (.scan plainScan)) lookedUpLater)
      ((Session.start oneNode ⟨10000, 10000⟩ 1).skipStages 1)
      (.planning (.notCollected .condition "t" "a"))
      ((Session.start oneNode ⟨10000, 10000⟩ 1).skipStages 3) := by
  have hready : ReadyToJoin (Strategy.planTable (.scan plainScan)) lookedUpLater
      ((Session.start oneNode ⟨10000, 10000⟩ 1).skipStages 1) _ _ _ :=
    ⟨Nat.le_refl 2, rfl, rfl, rfl, ⟨_, rfl, rfl⟩, rfl⟩
  exact hready.fails_plan_of_steps joinOrder_unsorted rfl rfl rfl

/-- If the second table is declined at first, the column of the first one is missing later. -/
theorem refused_lookedUp :
    lookedUp.ReadsTables ∧ (lookedUp.sources.map (·.1)).Nodup ∧
      Accepts (Strategy.planTable (.scan plainScan)) lookedUp oneNode ∧
      (∃ left right outer merge after,
        Gives (plan (Strategy.planTable (.scan plainScan)) lookedUp)
          (.start oneNode ⟨10000, 10000⟩ 1) (.planned (.nestedLoop left right outer merge)) after) ∧
      ∃ s' between after,
        Gives (planInner (declining (·.name == "u") (Strategy.planTable (.scan plainScan)))
          lookedUp) (.start oneNode ⟨10000, 10000⟩ 1) s' between ∧
        Fails (plan (Strategy.planTable (.scan plainScan)) s') between
          (.planning (.notCollected .condition "t" "a")) after :=
  ⟨readsTables_lookedUp, by decide, accepts_lookedUp, gives_lookedUp,
    lookedUpLater, _, _, gives_lookedUpLater, fails_lookedUpLater⟩

/-- If the first table is declined at first, the statement is planned later. -/
theorem planned_lookedUp : ∃ s' between,
    Gives (planInner (declining (·.name == "t") (Strategy.planTable (.scan plainScan))) lookedUp)
      (.start oneNode ⟨10000, 10000⟩ 1) s' between ∧
    ∃ left right outer merge after, Gives (plan (Strategy.planTable (.scan plainScan)) s') between
      (.planned (.nestedLoop left right outer merge)) after := by
  obtain ⟨left, right, outer, merge, after, h⟩ := gives_lookedUp
  obtain ⟨s', between, hgives, hsnapshot, hsecond⟩ :=
    plan_planInner readsTables_lookedUp accepts_lookedUp h (·.name == "t")
      (.start oneNode ⟨10000, 10000⟩ 1) rfl
  refine ⟨s', between, hgives, ?_⟩
  cases hsecond with
  | joined h => exact ⟨_, _, _, _, _, h⟩
  | @refused i name p c r _ hplanned hconjunct _ _ _ =>
    obtain ⟨q, hshare, hattempt⟩ := hsnapshot.source i _ hplanned
    have htable := tableAt?_of_share hshare
    cases hattempt with
    | planned hdeclines _ =>
      rcases i with _ | _ | i
      · have hq : columnTable "t" "a" = q.table := Option.some.inj htable
        rw [TableQuery.name, ← hq] at hdeclines
        cases hdeclines
      -- nothing of the predicate is left to the second table
      · cases hconjunct
      · cases htable

end CrossJoin

end ShardJoin
