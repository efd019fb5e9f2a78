/-
The order in which the sources of a statement are joined.

A source goes before another one if its keys come first in the order by, the
first of them counting; a source without keys goes after all that have some, and
before those without keys that are listed later.

* `Statement.sourceOrder_eq_iff` — the sources are joined in this order, which is
  the only one of its kind;
* `CrossJoin.Numbers` — planners that take the ids of their stages from the
  session, so that the joins have ids which no source has;
* `CrossJoin.joinsInOrder` — what a planned statement is made up of, from the
  leaves to the ids of its joins.
-/
import ShardJoin.Proofs.Planning.Columns
import ShardJoin.Proofs.Planning.ExactFetch
import ShardJoin.Proofs.Planning.SortKeys
import ShardJoin.Proofs.Planning.Stages

namespace ShardJoin

namespace Statement

variable {s : Statement}

/-! ### Which source goes first -/

/-- The key at a position refers to the source at a position and to no other. -/
def IsKeyOf (s : Statement) (k i : Nat) : Prop :=
  ∃ key, s.sortKeys[k]? = some key ∧ s.home? key = some i

/-- The source at one position goes before the source at another one: it has a key that comes
before all keys of the other one, or neither has a key and it is listed earlier. -/
def GoesBefore (s : Statement) (i j : Nat) : Prop :=
  (∃ k, s.IsKeyOf k i ∧ ∀ l ≤ k, ¬s.IsKeyOf l j) ∨
    (∀ k, ¬s.IsKeyOf k i) ∧ (∀ k, ¬s.IsKeyOf k j) ∧ i < j

theorem isKeyOf_iff {k i : Nat} : s.IsKeyOf k i ↔ k ∈ s.keysOf i := by
  rw [mem_keysOf, keyHomes, List.getElem?_map, Option.map_eq_some_iff]
  rfl

/-- The first key of a source is its key that no other one comes before. -/
theorem firstKeyOf?_eq_some_iff {k i : Nat} :
    s.firstKeyOf? i = some k ↔ s.IsKeyOf k i ∧ ∀ l < k, ¬s.IsKeyOf l i := by
  simp only [isKeyOf_iff, mem_keysOf, firstKeyOf?, List.findIdx?_eq_some_iff_getElem,
    List.getElem?_eq_some_iff, beq_iff_eq]
  constructor
  · rintro ⟨hlt, hhome, hbefore⟩
    exact ⟨⟨hlt, hhome⟩, fun l hl ⟨_, hl'⟩ => hbefore l hl hl'⟩
  · rintro ⟨⟨hlt, hhome⟩, hbefore⟩
    exact ⟨hlt, hhome, fun l hl hl' => hbefore l hl ⟨by omega, hl'⟩⟩

theorem firstKeyOf?_eq_none_iff {i : Nat} : s.firstKeyOf? i = none ↔ ∀ k, ¬s.IsKeyOf k i := by
  constructor
  · intro h k hk
    obtain ⟨first, -, hfirst, -⟩ := firstKeyOf?_of_mem (isKeyOf_iff.1 hk)
    rw [h] at hfirst
    cases hfirst
  · intro h
    cases hfirst : s.firstKeyOf? i with
    | none => rfl
    | some k => exact absurd (firstKeyOf?_eq_some_iff.1 hfirst).1 (h k)

/-- The key of a source is not that of another one. -/
theorem IsKeyOf.eq {k i j : Nat} (h : s.IsKeyOf k i) (h' : s.IsKeyOf k j) : i = j := by
  obtain ⟨key, hkey, hi⟩ := h
  obtain ⟨key', hkey', hj⟩ := h'
  obtain rfl := Option.some.inj (hkey.symm.trans hkey')
  exact Option.some.inj (hi.symm.trans hj)

/-- A source goes before another one if the order by first keys says so and, where it says nothing,
it is listed earlier. -/
theorem goesBefore_iff {i j : Nat} :
    s.GoesBefore i j ↔ CrossJoin.keyLE (s.firstKeyOf? i) (s.firstKeyOf? j) = true ∧
      (CrossJoin.keyLE (s.firstKeyOf? j) (s.firstKeyOf? i) = true → i < j) := by
  unfold GoesBefore
  cases hi : s.firstKeyOf? i with
  | none =>
    rw [firstKeyOf?_eq_none_iff] at hi
    have hnot : ¬∃ k, s.IsKeyOf k i ∧ ∀ l ≤ k, ¬s.IsKeyOf l j := fun ⟨k, hk, _⟩ => hi k hk
    cases hj : s.firstKeyOf? j with
    | none =>
      rw [firstKeyOf?_eq_none_iff] at hj
      simp [hi, hj, CrossJoin.keyLE]
    | some b =>
      have hb := (firstKeyOf?_eq_some_iff.1 hj).1
      simp only [hnot, CrossJoin.keyLE, Bool.false_eq_true, false_and, iff_false, false_or]
      exact fun h => h.2.1 b hb
  | some a =>
    obtain ⟨ha, hbefore⟩ := firstKeyOf?_eq_some_iff.1 hi
    cases hj : s.firstKeyOf? j with
    | none =>
      rw [firstKeyOf?_eq_none_iff] at hj
      simp only [CrossJoin.keyLE, Bool.false_eq_true, false_implies, and_true, iff_true]
      exact .inl ⟨a, ha, fun l _ => hj l⟩
    | some b =>
      obtain ⟨hb, hbefore'⟩ := firstKeyOf?_eq_some_iff.1 hj
      simp only [CrossJoin.keyLE, decide_eq_true_eq]
      constructor
      · rintro (⟨k, hk, hfirst⟩ | ⟨hnone, -⟩)
        · have hak : a ≤ k := Nat.le_of_not_lt fun hlt => hbefore k hlt hk
          have hkb : k < b := Nat.lt_of_not_le fun hle => hfirst b hle hb
          exact ⟨by omega, fun hle => by omega⟩
        · exact absurd ha (hnone a)
      · rintro ⟨hle, htie⟩
        -- two sources do not share their first key
        have hne : a ≠ b := by
          rintro rfl
          obtain rfl := ha.eq hb
          exact Nat.lt_irrefl i (htie hle)
        exact .inl ⟨a, ha, fun l hl => hbefore' l (by omega)⟩

instance (s : Statement) : DecidableRel s.GoesBefore := fun _ _ =>
  decidable_of_iff _ goesBefore_iff.symm

theorem GoesBefore.asymm {i j : Nat} (h : s.GoesBefore i j) (h' : s.GoesBefore j i) : False := by
  rw [goesBefore_iff] at h h'
  exact Nat.lt_asymm (h.2 h'.1) (h'.2 h.1)

/-! ### The order of the join -/

/-- The sources are sorted by their first keys, and listed in their order where these are equal. -/
theorem stable_sourceOrder (s : Statement) :
    s.sourceOrder.Pairwise fun i j =>
      CrossJoin.keyLE (s.firstKeyOf? i) (s.firstKeyOf? j) = true ∧
        (CrossJoin.keyLE (s.firstKeyOf? j) (s.firstKeyOf? i) = true → i ≤ j) := by
  set keys := (List.range s.sources.length).map s.firstKeyOf? with hkeys
  set le : Nat → Nat → Bool := fun i j =>
    CrossJoin.keyLE (keys[i]?.getD none) (keys[j]?.getD none) with hle
  -- sorting is stable: it sorts by key and position
  have hstable : s.sourceOrder =
      ((List.range s.sources.length).zipIdx.mergeSort (List.zipIdxLE le)).map (·.1) := by
    rw [List.mergeSort_zipIdx, sourceOrder, CrossJoin.joinOrder, List.length_map, List.length_range]
  have htrans : ∀ i j k, le i j = true → le j k = true → le i k = true :=
    fun i j k => keyLE_trans _ _ _
  have htotal : ∀ i j, (le i j || le j i) = true := fun i j => keyLE_total _ _
  have hsorted := List.pairwise_mergeSort (List.zipIdxLE_trans htrans)
    (List.zipIdxLE_total htotal) (List.range s.sources.length).zipIdx
  have hposition : ∀ x ∈ (List.range s.sources.length).zipIdx.mergeSort (List.zipIdxLE le),
      x.2 = x.1 ∧ keys[x.1]?.getD none = s.firstKeyOf? x.1 := by
    intro x hx
    rw [List.mem_mergeSort, List.mem_zipIdx_iff_getElem?] at hx
    obtain ⟨hlt, heq⟩ := List.getElem?_eq_some_iff.1 hx
    rw [List.length_range] at hlt
    rw [List.getElem_range] at heq
    rw [← heq, hkeys]
    simp [hlt]
  rw [hstable, List.pairwise_map]
  refine hsorted.imp_of_mem fun {x y} hx hy h => ?_
  obtain ⟨hx, hxkey⟩ := hposition x hx
  obtain ⟨hy, hykey⟩ := hposition y hy
  simp only [List.zipIdxLE, hle, hxkey, hykey, hx, hy] at h
  split at h
  · rename_i hxy
    refine ⟨hxy, fun hyx => ?_⟩
    rw [if_pos hyx, decide_eq_true_eq] at h
    exact h
  · cases h

/-- The sources are joined so that each goes before those that come after it. -/
theorem pairwise_goesBefore (s : Statement) : s.sourceOrder.Pairwise s.GoesBefore :=
  (s.nodup_sourceOrder.and s.stable_sourceOrder).imp fun ⟨hne, hle, htie⟩ =>
    goesBefore_iff.2 ⟨hle, fun h => Nat.lt_of_le_of_ne (htie h) hne⟩

/-- There is one order of the sources in which each goes before those that come after it. -/
theorem sourceOrder_eq_iff {order : List Nat} :
    order.Perm (List.range s.sources.length) ∧ order.Pairwise s.GoesBefore ↔
      s.sourceOrder = order := by
  constructor
  · rintro ⟨hperm, hsorted⟩
    exact (s.sourceOrder_perm.trans hperm.symm).eq_of_pairwise
      (fun i j _ _ h h' => (h.asymm h').elim) s.pairwise_goesBefore hsorted
  · rintro rfl
    exact ⟨s.sourceOrder_perm, s.pairwise_goesBefore⟩

end Statement

/-! ### Ids that are not taken -/

namespace CrossJoin

open Planning

/-- A planner that takes the ids of its stages from the session. -/
def Numbers (planner : RelationPlanner) : Prop :=
  ∀ ⦃q : TableQuery⦄ ⦃σ σ' : Session⦄ ⦃made : Option Plan⦄, Gives (planner q) σ made σ' →
    σ.nextStage ≤ σ'.nextStage ∧ ∀ p ∈ made, ∀ id ∈ p.stageIds, id < σ'.nextStage

theorem nextStage_openSearches (σ : Session) (locations : List ShardLocation) :
    (σ.openSearches locations).2.nextStage = σ.nextStage := by
  induction locations generalizing σ with
  | nil => rfl
  | cons location rest ih => exact ih (σ.openSearch location).2

/-- A scan takes the id of its collect stage, and then that of its merge, if it has one. -/
theorem stageIds_scanPlan {q : TableQuery} {options : ScanOptions} {σ σ' : Session} {p : Plan}
    (h : Gives (Strategy.scanPlan q options) σ p σ') :
    p.stageIds = [σ.nextStage] ∧ σ'.nextStage = σ.nextStage + 1 ∨
      p.stageIds = [σ.nextStage, σ.nextStage + 1] ∧ σ'.nextStage = σ.nextStage + 1 + 1 := by
  obtain ⟨_, _, hget, h⟩ := gives_bind.1 h
  obtain ⟨rfl, rfl⟩ := gives_get.1 hget
  obtain ⟨routing, _, hrouting, h⟩ := gives_bind.1 h
  obtain ⟨-, rfl⟩ := gives_ofExcept.1 hrouting
  obtain ⟨fetch, merge, docId, joinOutputs, wrap, mergeNodes⟩ := options
  cases fetch with
  | false =>
    cases merge with
    | false => cases wrap <;> cases h <;> exact .inl ⟨rfl, rfl⟩
    | true => cases wrap <;> cases h <;> exact .inr ⟨rfl, rfl⟩
  | true =>
    -- the searches that are kept open for the fetch take no stage ids
    cases merge with
    | false => cases wrap <;> cases h <;> exact .inl ⟨rfl, nextStage_openSearches _ _⟩
    | true => cases wrap <;> cases h <;> exact .inr ⟨rfl, nextStage_openSearches _ _⟩

/-- Scans take their ids from the session. -/
theorem numbers_scan (options : ScanOptions) : Numbers (Strategy.planTable (.scan options)) := by
  intro q σ σ' made h
  obtain ⟨p, _, hscan, hmade⟩ := gives_bind.1 h
  obtain ⟨rfl, rfl⟩ := gives_pure.1 hmade
  have hlt : ∀ id : StageId, id < id + 1 := fun id => Int.lt_succ id
  rcases stageIds_scanPlan hscan with ⟨hids, hnext⟩ | ⟨hids, hnext⟩
  · rw [hnext]
    refine ⟨Int.le_of_lt (hlt _), ?_⟩
    rintro _ ⟨⟩
    rw [hids, List.forall_mem_singleton]
    exact hlt _
  · rw [hnext]
    have htwo := Int.lt_trans (hlt σ.nextStage) (hlt _)
    refine ⟨Int.le_of_lt htwo, ?_⟩
    rintro _ ⟨⟩
    rw [hids, List.forall_mem_cons, List.forall_mem_singleton]
    exact ⟨htwo, hlt _⟩

/-- Planning a source leaves ids that are not taken. -/
theorem stageIds_planSource {planner : RelationPlanner} (hnumbers : Numbers planner)
    {source planned : Source} {share : Option TableQuery} {before after : Session}
    (h : Gives (planSource planner source share) before planned after)
    (hbelow : ∀ p ∈ source.plan?, ∀ id ∈ p.stageIds, id < before.nextStage) :
    before.nextStage ≤ after.nextStage ∧
      ∀ p ∈ planned.plan?, ∀ id ∈ p.stageIds, id < after.nextStage := by
  unfold planSource at h
  split at h
  · obtain ⟨rfl, rfl⟩ := gives_pure.1 h
    exact ⟨Int.le_refl _, hbelow⟩
  · obtain ⟨made, between, hmade, h⟩ := gives_bind.1 h
    obtain ⟨hle, hids⟩ := hnumbers hmade
    cases made with
    | none =>
      obtain ⟨rfl, rfl⟩ := gives_pure.1 h
      exact ⟨hle, fun p hp => nomatch hp⟩
    | some plan =>
      obtain ⟨rfl, rfl⟩ := gives_pure.1 h
      exact ⟨hle, hids⟩
  · obtain ⟨rfl, rfl⟩ := gives_pure.1 h
    exact ⟨Int.le_refl _, hbelow⟩

/-- Planning the sources leaves ids that are not taken. -/
theorem stageIds_planSources {planner : RelationPlanner} (hnumbers : Numbers planner)
    {sources planned : List (RelationName × Source)} {shares : List (Option TableQuery)}
    {before after : Session} (h : Gives (planSources planner sources shares) before planned after)
    (hbelow : ∀ x ∈ sources, ∀ p ∈ x.2.plan?, ∀ id ∈ p.stageIds, id < before.nextStage) :
    before.nextStage ≤ after.nextStage ∧
      ∀ x ∈ planned, ∀ p ∈ x.2.plan?, ∀ id ∈ p.stageIds, id < after.nextStage := by
  induction sources generalizing shares before planned with
  | nil =>
    obtain ⟨rfl, rfl⟩ := gives_pure.1 h
    exact ⟨Int.le_refl _, fun x hx => nomatch hx⟩
  | cons x rest ih =>
    cases shares with
    | nil =>
      obtain ⟨rfl, rfl⟩ := gives_pure.1 h
      exact ⟨Int.le_refl _, fun x hx => nomatch hx⟩
    | cons share shares =>
      rw [planSources] at h
      obtain ⟨source, σ, hsource, h⟩ := gives_bind.1 h
      obtain ⟨others, σ', hothers, h⟩ := gives_bind.1 h
      obtain ⟨rfl, rfl⟩ := gives_pure.1 h
      rw [List.forall_mem_cons] at hbelow
      obtain ⟨hle, hids⟩ := stageIds_planSource hnumbers hsource hbelow.1
      obtain ⟨hle', hids'⟩ := ih hothers fun x hx p hp id hid =>
        Int.lt_of_lt_of_le (hbelow.2 x hx p hp id hid) hle
      refine ⟨Int.le_trans hle hle', List.forall_mem_cons.2 ⟨fun p hp id hid => ?_, hids'⟩⟩
      exact Int.lt_of_lt_of_le (hids p hp id hid) hle'

theorem mem_allPlans? {planned : List (RelationName × Source)}
    {plans : List (RelationName × Plan)} (h : allPlans? planned = some plans)
    {z : RelationName × Plan} (hz : z ∈ plans) : ∃ x ∈ planned, x.2.plan? = some z.2 := by
  induction planned generalizing plans with
  | nil =>
    obtain rfl := Option.some.inj h
    cases hz
  | cons x rest ih =>
    rw [allPlans?] at h
    obtain ⟨p, hp, h⟩ := Option.bind_eq_some_iff.1 h
    obtain ⟨ps, hps, h⟩ := Option.bind_eq_some_iff.1 h
    obtain rfl := Option.some.inj h
    rcases List.mem_cons.1 hz with rfl | hz
    · exact ⟨x, List.mem_cons_self, hp⟩
    · obtain ⟨y, hy, hplan⟩ := ih hps hz
      exact ⟨y, List.mem_cons_of_mem _ hy, hplan⟩

/-! ### What a statement is joined to -/

/-- How the plans of the sources of a statement are joined to a plan. -/
structure JoinsInOrder (planner : RelationPlanner) (s : Statement) (before between after : Session)
    (plans : List (RelationName × Plan)) (p : Plan) : Prop where
  /-- The sources are joined in the one order in which each goes before those after it. -/
  order : ∀ l : List Nat,
    l.Perm (List.range s.sources.length) ∧ l.Pairwise s.GoesBefore ↔ s.sourceOrder = l
  /-- There is one join less than there are sources, and each has a plan on its right side. -/
  tree : JoinTree between.nextStage (s.sources.length - 1) (.handler between.handler)
    (inJoinOrder s plans) p
  /-- The leaves are the plans of the sources, each at its place. -/
  leaves : List.Forall₂ (fun i leaf => ∃ z, plans[i]? = some z ∧ z.2.Routed leaf)
    s.sourceOrder (p.leaves (s.sources.length - 1))
  /-- The joins have the next ids, from the innermost on. -/
  ids : (p.joins (s.sources.length - 1)).map (·.id) =
    (List.range (s.sources.length - 1)).map fun k : Nat => between.nextStage + k
  /-- These are not given out again. -/
  nextStage : after.nextStage = between.nextStage + (s.sources.length - 1 : Nat)
  /-- As long as the next id is a word of 32 bits, so are they. -/
  words : IsWord32 between.nextStage → IsWord32 after.nextStage →
    ∀ merge ∈ p.joins (s.sources.length - 1), IsWord32 merge.id
  /-- They have not been given out before, so no stage of a leaf has one of them. -/
  fresh : Numbers planner →
    (∀ x ∈ s.sources, ∀ q ∈ x.2.plan?, ∀ id ∈ q.stageIds, id < before.nextStage) →
    before.nextStage ≤ between.nextStage ∧
      ∀ leaf ∈ p.leaves (s.sources.length - 1), ∀ merge ∈ p.joins (s.sources.length - 1),
        merge.id ∉ leaf.stageIds
  /-- The plan emits what its leaves emit, side by side. -/
  outputs : (∀ leaf ∈ p.leaves (s.sources.length - 1), ∃ row, leaf.outputs? = some row) ∧
    p.outputs? = some ((p.leaves (s.sources.length - 1)).flatMap (·.outputs?.getD []))

variable {planner : RelationPlanner} {s : Statement} {before between after : Session}
  {split : Split} {plans : List (RelationName × Plan)} {p : Plan}

/-- Each leaf is the plan of the source at its place. -/
theorem ReadyToJoin.forall₂_leaves (h : ReadyToJoin planner s before split plans between)
    {leaves : List Plan} (hleaves : List.Forall₂ Plan.Routed (inJoinOrder s plans) leaves) :
    List.Forall₂ (fun i leaf => ∃ z, plans[i]? = some z ∧ z.2.Routed leaf) s.sourceOrder leaves := by
  have hplan : ∀ i ∈ s.sourceOrder, ∃ z, plans[i]? = some z := fun i hi => by
    rw [Statement.mem_sourceOrder, ← h.length_plans] at hi
    exact ⟨_, List.getElem?_eq_getElem hi⟩
  unfold inJoinOrder at hleaves
  generalize s.sourceOrder = order at hplan hleaves ⊢
  induction order generalizing leaves with
  | nil =>
    cases hleaves
    exact .nil
  | cons i order ih =>
    rw [List.forall_mem_cons] at hplan
    obtain ⟨⟨z, hz⟩, hplan⟩ := hplan
    rw [List.filterMap_cons_some hz, List.map_cons] at hleaves
    cases hleaves with
    | cons hrouted hleaves => exact .cons ⟨z, hz, hrouted⟩ (ih hplan hleaves)

/-- The ids of the stages of the sources are taken before they are joined. -/
theorem ReadyToJoin.stageIds_lt (h : ReadyToJoin planner s before split plans between)
    (hnumbers : Numbers planner)
    (hbelow : ∀ x ∈ s.sources, ∀ q ∈ x.2.plan?, ∀ id ∈ q.stageIds, id < before.nextStage) :
    before.nextStage ≤ between.nextStage ∧
      ∀ z ∈ plans, ∀ id ∈ z.2.stageIds, id < between.nextStage := by
  obtain ⟨planned, hplanned, hplans⟩ := h.sources
  obtain ⟨hle, hids⟩ := stageIds_planSources hnumbers hplanned hbelow
  refine ⟨hle, fun z hz => ?_⟩
  obtain ⟨x, hx, hplan⟩ := mem_allPlans? hplans hz
  exact hids x hx z.2 hplan

/-- A planned join consists of the plans of all sources, in the order of the join. -/
theorem joinsInOrder {left right : Plan} {leftOuter : Bool} {merge : MergeStage}
    (h : Gives (plan planner s) before (.planned (.nestedLoop left right leftOuter merge)) after) :
    ∃ split plans between, ReadyToJoin planner s before split plans between ∧
      JoinsInOrder planner s before between after plans (.nestedLoop left right leftOuter merge) := by
  have hjoins := joins_of_gives h
  cases plannedBy_of_gives h with
  | @joined _ _ split plans between σ hready hjoin hbuilt =>
    have htree := hready.joinTree hjoin
    obtain ⟨hids, -⟩ := htree.joins
    have hnext := hready.nextStage_eq hjoin hbuilt
    refine ⟨split, plans, between, hready, ?_⟩
    refine ⟨fun l => Statement.sourceOrder_eq_iff, htree, hready.forall₂_leaves htree.leaves, hids,
      hnext, fun hbetween hafter merge hmerge => ?_, fun hnumbers hbelow => ?_,
      fun leaf hleaf => ?_, hjoins.outputs?⟩
    · refine isWord32_of_mem_range hbetween (hnext ▸ hafter) _ ?_
      exact hids ▸ List.mem_map_of_mem hmerge
    · obtain ⟨hle, hlt⟩ := hready.stageIds_lt hnumbers hbelow
      refine ⟨hle, fun leaf hleaf join hmem hid => ?_⟩
      obtain ⟨i, z, hz, consumer, rfl⟩ := hready.exists_routed hjoin hleaf
      rw [Plan.stageIds_routeResult] at hid
      have htaken := hlt z (List.mem_of_getElem? hz) _ hid
      obtain ⟨k, -, hk⟩ := List.mem_map.1 (hids ▸ List.mem_map_of_mem hmem)
      have hnext : between.nextStage ≤ join.id :=
        hk ▸ Int.le_add_of_nonneg_right (Int.natCast_nonneg k)
      exact Int.lt_irrefl _ (Int.lt_of_le_of_lt hnext htaken)
    · obtain ⟨outputs, houtputs, -⟩ := hjoins.fit leaf hleaf
      exact ⟨outputs, houtputs⟩

/-! ### Three tables -/

open Statement

/-- The numbers of three tables, sorted by those of the second one. -/
def sortedBySecond : Statement :=
  let columns := (columnTable "t" "a").allColumns ++ (columnTable "u" "b").allColumns ++
    (columnTable "w" "c").allColumns
  .ofTables [columnTable "t" "a", columnTable "u" "b", columnTable "w" "c"]
    { Select.ofOutputs columns with orderBy := some (.asc (columnTable "u" "b").allColumns) }

theorem joinOrder_sortedBySecond : joinOrder [none, some 0, none] = [1, 0, 2] :=
  (sourceOrder_eq_iff (s := sortedBySecond)).1 ⟨by decide, by decide⟩

theorem gives_sortedBySecond : ∃ left right leftOuter merge after,
    Gives (plan (Strategy.planTable (.scan plainScan)) sortedBySecond)
      (.start oneNode ⟨10000, 10000⟩ 1) (.planned (.nestedLoop left right leftOuter merge)) after ∧
    after.nextStage = 5 ∧
    (Plan.nestedLoop left right leftOuter merge).outputs? =
      some ((columnTable "u" "b").allColumns ++ (columnTable "t" "a").allColumns ++
        (columnTable "w" "c").allColumns) := by
  have hready : ReadyToJoin (Strategy.planTable (.scan plainScan)) sortedBySecond
      (.start oneNode ⟨10000, 10000⟩ 1) _ _ _ :=
    ⟨by decide, rfl, rfl, rfl, ⟨_, rfl, rfl⟩, rfl⟩
  exact ⟨_, _, _, _, _, hready.gives_plan_of_steps joinOrder_sortedBySecond rfl rfl rfl, rfl, rfl⟩

/-- The second table comes first, then the others in their order; after the three scans, the joins
have the next two ids. -/
theorem joinsInOrder_sortedBySecond : ∃ left right leftOuter merge after,
    Gives (plan (Strategy.planTable (.scan plainScan)) sortedBySecond)
      (.start oneNode ⟨10000, 10000⟩ 1) (.planned (.nestedLoop left right leftOuter merge)) after ∧
    ((Plan.nestedLoop left right leftOuter merge).joins 2).map (·.id) = [3, 4] ∧
    (∀ join ∈ (Plan.nestedLoop left right leftOuter merge).joins 2, IsWord32 join.id) ∧
    ((Plan.nestedLoop left right leftOuter merge).leaves 2).flatMap (·.outputs?.getD []) =
      (columnTable "u" "b").allColumns ++ (columnTable "t" "a").allColumns ++
        (columnTable "w" "c").allColumns ∧
    ∀ leaf ∈ (Plan.nestedLoop left right leftOuter merge).leaves 2,
      ∀ join ∈ (Plan.nestedLoop left right leftOuter merge).joins 2, join.id ∉ leaf.stageIds := by
  obtain ⟨left, right, leftOuter, merge, after, h, hafter, houtputs⟩ := gives_sortedBySecond
  obtain ⟨split, plans, between, -, hjoins⟩ := joinsInOrder h
  have hnext : between.nextStage = 3 := by
    have hcount : 2 + 3 = 2 + between.nextStage :=
      (hafter.symm.trans hjoins.nextStage).trans (Int.add_comm _ _)
    exact (Int.add_left_cancel hcount).symm
  have hplanned : ∀ x ∈ sortedBySecond.sources, x.2.plan? = none := by decide
  refine ⟨left, right, leftOuter, merge, after, h, ?_, ?_, ?_, ?_⟩
  · have hids := hjoins.ids
    rw [hnext] at hids
    exact hids
  · exact hjoins.words (hnext ▸ by decide) (hafter ▸ by decide)
  · exact Option.some.inj (hjoins.outputs.2.symm.trans houtputs)
  · refine (hjoins.fresh (numbers_scan plainScan) fun x hx q hq => ?_).2
    rw [hplanned x hx] at hq
    cases hq

end CrossJoin

end ShardJoin
