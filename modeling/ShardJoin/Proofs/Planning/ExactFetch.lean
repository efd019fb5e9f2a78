/-
What a planned join reads back, table by table.

A fetch lists the relations to read from, their row ids, their columns, the
stages that collected them with the nodes, the searches that these stages keep
open, and the page size.  All of that is about the same leaves of the join:
those to which some output still refers once it is resolved in the joined row.

* `ResultRow.missingColumns_eq_eraseDups` — the columns of a relation, each once;
* `LeafFetch.IsOf` — what is read back for one leaf;
* `FetchesFrom` — what is read back altogether;
* `CrossJoin.exact_fetch` — the fetch of a planned statement.
-/
import Mathlib.Data.List.Nodup
import ShardJoin.Proofs.Planning.JoinOutputs

namespace ShardJoin

/-! ### Lists without repetition -/

section

variable {β : Type} [BEq β]

theorem mem_of_mem_eraseDups {l : List β} {b : β} (h : b ∈ l.eraseDups) : b ∈ l := by
  -- every element takes those like it out of the rest, so the induction is on the length
  induction hn : l.length using Nat.strongRecOn generalizing l with
  | ind n ih =>
    cases l with
    | nil => exact h
    | cons a l =>
      rw [List.eraseDups_cons] at h
      rcases List.mem_cons.1 h with rfl | h
      · exact List.mem_cons_self
      · have hlength := List.length_filter_le (fun c => !c == a) l
        rw [List.length_cons] at hn
        have hmem := ih _ (by omega) h rfl
        exact List.mem_cons_of_mem _ (List.mem_filter.1 hmem).1

variable [EquivBEq β]

/-- Of the elements that are equal to a given one, exactly one is kept. -/
theorem countP_eraseDups {l : List β} {b : β} (h : b ∈ l) : l.eraseDups.countP (· == b) = 1 := by
  induction hn : l.length using Nat.strongRecOn generalizing l with
  | ind n ih =>
    cases l with
    | nil => cases h
    | cons a l =>
      rw [List.eraseDups_cons, List.countP_cons]
      by_cases hab : (a == b) = true
      · -- nothing like the first element is left in the rest
        have hnone : (l.filter fun c => !c == a).eraseDups.countP (· == b) = 0 := by
          rw [List.countP_eq_zero]
          intro c hc hcb
          have hca := (List.mem_filter.1 (mem_of_mem_eraseDups hc)).2
          rw [BEq.trans hcb (BEq.symm hab)] at hca
          cases hca
        rw [hnone, if_pos hab]
      · rw [if_neg hab, Nat.add_zero]
        have hlength := List.length_filter_le (fun c => !c == a) l
        rw [List.length_cons] at hn
        refine ih _ (by omega) (List.mem_filter.2 ⟨?_, ?_⟩) rfl
        · rcases List.mem_cons.1 h with rfl | h
          · exact absurd BEq.rfl hab
          · exact h
        · rw [Bool.not_eq_true', Bool.eq_false_iff]
          exact fun hba => hab (BEq.symm hba)

/-- Adding elements at the end, unless one like them is there, keeps first appearances. -/
theorem foldl_pushNew_eq (l found : List β) :
    l.foldl (fun found b => if found.any (· == b) then found else found ++ [b]) found =
      found ++ (l.filter fun b => !found.any (· == b)).eraseDups := by
  induction l generalizing found with
  | nil => simp
  | cons a l ih =>
    rw [List.foldl_cons, ih]
    by_cases ha : found.any (· == a) = true
    · rw [if_pos ha, List.filter_cons_of_neg (by simp [ha])]
    · rw [if_neg ha, List.filter_cons_of_pos (by simpa using ha), List.eraseDups_cons,
        List.filter_filter, List.append_assoc, List.singleton_append]
      congr 3
      refine List.filter_congr fun b _ => ?_
      rw [List.any_append, List.any_cons, List.any_nil, Bool.or_false, Bool.not_or, Bool.and_comm,
        BEq.comm]

end

/-! ### The leaves to be read from -/

namespace Expr

/-- The columns of a relation that some expressions refer to, each once, in the order in which they
first appear. -/
def columnsOf (es : List Expr) (relation : RelationName) : List ColumnRef :=
  ((es.flatMap references).filter (·.relation == relation)).eraseDups

/-- Whether some expressions refer to a relation. -/
def mention (es : List Expr) (relation : RelationName) : Bool :=
  (es.flatMap references).any (·.relation == relation)

/-- The leaves of a join that some expressions refer to. -/
def owners (es : List Expr) (leaves : List (RelationName × Plan)) : List (RelationName × Plan) :=
  leaves.filter fun z => mention es z.1

theorem owners_cons (es : List Expr) (z : RelationName × Plan)
    (leaves : List (RelationName × Plan)) :
    owners es (z :: leaves) =
      if mention es z.1 = true then z :: owners es leaves else owners es leaves :=
  List.filter_cons

theorem countP_columnsOf {es : List Expr} {e : Expr} (he : e ∈ es) {r : ColumnRef}
    (hr : r ∈ e.references) : (columnsOf es r.relation).countP (· == r) = 1 :=
  countP_eraseDups (List.mem_filter.2 ⟨List.mem_flatMap.2 ⟨e, he, hr⟩, beq_iff_eq.2 rfl⟩)

theorem columnsOf_eq_nil_iff {es : List Expr} {relation : RelationName} :
    columnsOf es relation = [] ↔ mention es relation = false := by
  rw [mention, List.any_eq_false]
  constructor
  · intro h r hr hrelation
    obtain ⟨e, he, hr⟩ := List.mem_flatMap.1 hr
    have hcount := countP_columnsOf he hr
    rw [beq_iff_eq.1 hrelation, h] at hcount
    cases hcount
  · intro h
    rw [columnsOf, List.filter_eq_nil_iff.2 h]
    rfl

end Expr

/-- The collect stage of a scan. -/
def Plan.collect? : Plan → Option CollectStage
  | .scan s => some s.collect
  | _ => none

namespace ResultRow

variable {row outputs : List Expr}

theorem missingColumns_eq_eraseDups (relation : RelationName) (outputs : List Expr) :
    missingColumns relation outputs = Expr.columnsOf outputs relation := by
  rw [missingColumns, foldl_pushNew_eq]
  simp [Expr.columnsOf]

/-- What is read back for a leaf: all its columns, by the first of its row ids in the joined row,
from the stage that collected it. -/
structure LeafFetch.IsOf (entry : LeafFetch) (row outputs : List Expr)
    (z : RelationName × Plan) : Prop where
  relation : entry.relation = z.1
  columns : entry.columns = Expr.columnsOf outputs z.1
  index : row.findIdx? (isDocIdOf z.1) = some entry.docId.index
  type : row[entry.docId.index]?.map Expr.type = some entry.docId.type
  collect : ∃ stage, z.2.collect? = some stage ∧ entry.collect = stage.id ∧
    entry.nodes = stage.executionNodes

theorem collect_ofPlan {relation : RelationName} {p : Plan} {id : StageId} {nodes : List NodeId}
    (h : (Leaf.ofPlan relation p).collect = some (id, nodes)) :
    ∃ stage, p.collect? = some stage ∧ id = stage.id ∧ nodes = stage.executionNodes := by
  cases p with
  | scan s =>
    obtain ⟨rfl, rfl⟩ := Prod.mk.inj (Option.some.inj h)
    exact ⟨s.collect, rfl, rfl, rfl⟩
  | _ => cases h

/-- A leaf that no output refers to has nothing to be read back, every other one has all of it. -/
theorem isOf_leafFetch {z : RelationName × Plan} {found : Option LeafFetch}
    (h : leafFetch? row outputs (Leaf.ofPlan z.1 z.2) = .ok found) :
    if Expr.mention outputs z.1 = true then
      ∃ entry, found = some entry ∧ entry.IsOf row outputs z
    else found = none := by
  unfold leafFetch? at h
  rw [CrossJoin.relation_ofPlan] at h
  have hmissing := missingColumns_eq_eraseDups z.1 outputs
  split at h
  · rename_i hnil
    rw [hnil] at hmissing
    rw [Expr.columnsOf_eq_nil_iff.1 hmissing.symm, if_neg Bool.false_ne_true]
    exact (Except.ok.inj h).symm
  · rename_i first rest hcolumns
    have hmention : Expr.mention outputs z.1 = true := by
      rw [← Bool.not_eq_false, ← Expr.columnsOf_eq_nil_iff, ← hmissing, hcolumns]
      exact List.cons_ne_nil _ _
    rw [if_pos hmention]
    split at h
    · cases h
    · rename_i i hi
      obtain ⟨hlt, -⟩ := List.findIdx?_eq_some_iff_getElem.1 hi
      split at h
      · cases h
      · rename_i id nodes hcollect
        refine ⟨_, (Except.ok.inj h).symm, rfl, hcolumns.symm.trans hmissing, hi, ?_,
          collect_ofPlan hcollect⟩
        rw [List.getElem?_eq_getElem hlt]
        rfl

/-- The entries of a fetch are those of the leaves that some output refers to, in their order. -/
theorem forall₂_owners {leaves : List (RelationName × Plan)} {found : List (Option LeafFetch)}
    (h : List.Forall₂ (fun z found => leafFetch? row outputs (Leaf.ofPlan z.1 z.2) = .ok found)
      leaves found) :
    List.Forall₂ (fun z (entry : LeafFetch) => entry.IsOf row outputs z)
      (Expr.owners outputs leaves) (found.filterMap id) := by
  induction h with
  | nil => exact .nil
  | @cons z found leaves founds hz _ ih =>
    have hleaf := isOf_leafFetch hz
    by_cases hmention : Expr.mention outputs z.1 = true
    · rw [if_pos hmention] at hleaf
      obtain ⟨entry, rfl, hentry⟩ := hleaf
      rw [Expr.owners_cons, if_pos hmention]
      exact .cons hentry ih
    · rw [if_neg hmention] at hleaf
      subst hleaf
      rw [Expr.owners_cons, if_neg hmention]
      exact ih

end ResultRow

/-! ### What is read back altogether -/

/-- A fetch reads back from the leaves that its outputs refer to, for a joined row. -/
structure FetchesFrom (session : Session) (limit : UInt64) (row : List Expr)
    (leaves : List (RelationName × Plan)) (f : Fetch) : Prop where
  inputTypes : f.inputTypes = row.map Expr.type
  /-- The row ids of each leaf are looked for from the left. -/
  docIds : List.Forall₂ (fun z d => d.1 = z.1 ∧
      row.findIdx? (ResultRow.isDocIdOf z.1) = some d.2.index ∧
      row[d.2.index]?.map Expr.type = some d.2.type)
    (Expr.owners f.outputs leaves) f.docIdColumns
  fetchColumns : f.fetchColumns = (Expr.owners f.outputs leaves).map fun z =>
    (z.1, (Expr.columnsOf f.outputs z.1).filter (!·.partitioned))
  partitionColumns : f.partitionColumns = ((Expr.owners f.outputs leaves).map fun z =>
    (z.1, (Expr.columnsOf f.outputs z.1).filter (·.partitioned))).filter (!·.2.isEmpty)
  /-- Every column that is left in the outputs is among the columns of its relation once. -/
  once : ∀ e ∈ f.outputs, ∀ r ∈ e.references,
    (Expr.columnsOf f.outputs r.relation).countP (· == r) = 1
  /-- The leaves are scans. -/
  collected : ∀ z ∈ Expr.owners f.outputs leaves, ∃ stage, z.2.collect? = some stage
  executionNodes : ∀ id nodes, f.executionNodes.get? id = some nodes ↔
    ∃ z ∈ Expr.owners f.outputs leaves, ∃ stage, z.2.collect? = some stage ∧ stage.id = id ∧
      nodes = stage.executionNodes
  subContexts : ∀ id location, f.subContexts.get? id = some location ↔
    session.subContexts.get? id = some location ∧
      ∃ z ∈ Expr.owners f.outputs leaves, ∃ stage, z.2.collect? = some stage ∧
        location.collectStage = stage.id
  bulkSize : f.bulkSize =
    if session.settings.pageSize < limit then some session.settings.pageSize else none

namespace ResultRow

variable {row outputs : List Expr} {leaves zs : List (RelationName × Plan)}
  {entries : List LeafFetch}

/-- Of leaves with different collect stages, each is known by the id of its stage. -/
theorem collect?_inj (hids : ((leaves.filterMap (·.2.collect?)).map (·.id)).Nodup)
    {z z' : RelationName × Plan} (hz : z ∈ leaves) (hz' : z' ∈ leaves) {stage stage' : CollectStage}
    (hstage : z.2.collect? = some stage) (hstage' : z'.2.collect? = some stage')
    (hid : stage.id = stage'.id) : stage = stage' :=
  List.inj_on_of_nodup_map hids (List.mem_filterMap.2 ⟨z, hz, hstage⟩)
    (List.mem_filterMap.2 ⟨z', hz', hstage'⟩) hid

section

variable (h : List.Forall₂ (fun z (entry : LeafFetch) => entry.IsOf row outputs z) zs entries)
include h

/-- What depends on the leaf alone is listed leaf by leaf. -/
theorem map_entries {β : Type} {g : LeafFetch → β} {k : RelationName × Plan → β}
    (hgk : ∀ z entry, LeafFetch.IsOf entry row outputs z → g entry = k z) :
    entries.map g = zs.map k := by
  induction h with
  | nil => rfl
  | cons hentry _ ih => rw [List.map_cons, List.map_cons, hgk _ _ hentry, ih]

theorem exists_collect (z : RelationName × Plan) (hz : z ∈ zs) :
    ∃ entry ∈ entries, ∃ stage, z.2.collect? = some stage ∧ entry.collect = stage.id ∧
      entry.nodes = stage.executionNodes := by
  obtain ⟨k, hk, rfl⟩ := List.mem_iff_getElem.1 hz
  have hk' : k < entries.length := h.length_eq ▸ hk
  exact ⟨entries[k], List.getElem_mem hk', (h.get hk hk').collect⟩

theorem exists_owner {entry : LeafFetch} (hentry : entry ∈ entries) :
    ∃ z ∈ zs, ∃ stage, z.2.collect? = some stage ∧ entry.collect = stage.id ∧
      entry.nodes = stage.executionNodes := by
  obtain ⟨k, hk⟩ := List.mem_iff_getElem?.1 hentry
  obtain ⟨z, hz, hof⟩ := exists_getElem?_of_forall₂ h hk
  exact ⟨z, List.mem_of_getElem? hz, hof.collect⟩

/-- The stages of a fetch are those of its leaves. -/
theorem mem_stages {id : StageId} {nodes : List NodeId} :
    (id, nodes) ∈ entries.map (fun e => (e.collect, e.nodes)) ↔
      ∃ z ∈ zs, ∃ stage, z.2.collect? = some stage ∧ stage.id = id ∧
        nodes = stage.executionNodes := by
  rw [List.mem_map]
  constructor
  · rintro ⟨entry, hentry, heq⟩
    obtain ⟨rfl, rfl⟩ := Prod.mk.inj heq
    obtain ⟨z, hz, stage, hstage, hid, hnodes⟩ := exists_owner h hentry
    exact ⟨z, hz, stage, hstage, hid.symm, hnodes⟩
  · rintro ⟨z, hz, stage, hstage, rfl, rfl⟩
    obtain ⟨entry, hentry, stage', hstage', hid, hnodes⟩ := exists_collect h z hz
    obtain rfl := Option.some.inj (hstage.symm.trans hstage')
    exact ⟨entry, hentry, by rw [hid, hnodes]⟩

theorem get?_stages (hids : ((leaves.filterMap (·.2.collect?)).map (·.id)).Nodup)
    (hsub : zs ⊆ leaves) {id : StageId} {nodes : List NodeId} :
    (SortedMap.ofList (entries.map fun e => (e.collect, e.nodes))).get? id = some nodes ↔
      ∃ z ∈ zs, ∃ stage, z.2.collect? = some stage ∧ stage.id = id ∧
        nodes = stage.executionNodes := by
  rw [SortedMap.get?_ofList_iff, mem_stages h]
  intro id nodes nodes' hmem hmem'
  obtain ⟨z, hz, stage, hstage, rfl, rfl⟩ := (mem_stages h).1 hmem
  obtain ⟨z', hz', stage', hstage', hid, rfl⟩ := (mem_stages h).1 hmem'
  rw [collect?_inj hids (hsub hz') (hsub hz) hstage' hstage hid]

/-- The searches of a fetch are those that the stages of its leaves keep open. -/
theorem get?_searches (session : Session) {id : SubContextId} {location : ShardLocation} :
    (SortedMap.ofList (entries.flatMap fun e =>
        (session.subContextsOf e.collect).entries)).get? id = some location ↔
      session.subContexts.get? id = some location ∧
        ∃ z ∈ zs, ∃ stage, z.2.collect? = some stage ∧ location.collectStage = stage.id := by
  have hmem : ∀ {id : SubContextId} {location : ShardLocation},
      (id, location) ∈ entries.flatMap (fun e => (session.subContextsOf e.collect).entries) ↔
        session.subContexts.get? id = some location ∧
          ∃ entry ∈ entries, location.collectStage = entry.collect := by
    intro id location
    rw [List.mem_flatMap, SortedMap.get?_eq_some_iff]
    simp only [Session.subContextsOf, SortedMap.filter, List.mem_filter, beq_iff_eq]
    constructor
    · rintro ⟨entry, hentry, hin, hat⟩
      exact ⟨hin, entry, hentry, hat⟩
    · rintro ⟨hin, entry, hentry, hat⟩
      exact ⟨entry, hentry, hin, hat⟩
  rw [SortedMap.get?_ofList_iff, hmem]
  · refine and_congr_right fun _ => ⟨?_, ?_⟩
    · rintro ⟨entry, hentry, hat⟩
      obtain ⟨z, hz, stage, hstage, hid, -⟩ := exists_owner h hentry
      exact ⟨z, hz, stage, hstage, hat.trans hid⟩
    · rintro ⟨z, hz, stage, hstage, hat⟩
      obtain ⟨entry, hentry, stage', hstage', hid, -⟩ := exists_collect h z hz
      obtain rfl := Option.some.inj (hstage.symm.trans hstage')
      exact ⟨entry, hentry, hat.trans hid.symm⟩
  · intro id location location' hin hin'
    exact Option.some.inj ((hmem.1 hin).1.symm.trans (hmem.1 hin').1)

end

theorem fetchesFrom_fetch {session : Session} {limit : UInt64} {f : Fetch}
    (hids : ((leaves.filterMap (·.2.collect?)).map (·.id)).Nodup)
    (h : fetch session row outputs (leaves.map fun z => Leaf.ofPlan z.1 z.2) limit = .ok f) :
    f.outputs = outputs ∧ FetchesFrom session limit row leaves f := by
  obtain ⟨found, hfound, h⟩ := Except.bind_eq_ok.1 h
  obtain rfl := Except.ok.inj h
  have hentries := forall₂_owners (List.forall₂_map_left_iff.1 (Except.mapM_eq_ok.1 hfound))
  refine ⟨rfl, rfl, ?_, ?_, ?_, fun e he r hr => Expr.countP_columnsOf he hr, fun z hz => ?_,
    fun id nodes => get?_stages hentries hids fun z hz => (List.mem_filter.1 hz).1,
    fun id location => get?_searches hentries session, rfl⟩
  · exact List.forall₂_map_right_iff.2
      (hentries.imp fun z entry hof => ⟨hof.relation, hof.index, hof.type⟩)
  · exact map_entries hentries fun z entry hof => by rw [hof.relation, hof.columns]
  · refine congrArg (List.filter _) (map_entries hentries fun z entry hof => ?_)
    rw [hof.relation, hof.columns]
  · obtain ⟨entry, -, stage, hstage, -⟩ := exists_collect hentries z hz
    exact ⟨stage, hstage⟩

end ResultRow

/-! ### The fetch of a planned statement -/

/-- The names of the sources in the order in which they are joined. -/
def Statement.joinedNames (s : Statement) : List RelationName :=
  s.sourceOrder.filterMap fun i => s.sources[i]?.map (·.1)

/-- A plan is collected in the same stage wherever its rows are sent. -/
theorem Leaf.ofPlan_routeResult (relation : RelationName) (consumer : Downstream) (p : Plan) :
    Leaf.ofPlan relation (p.routeResult consumer) = Leaf.ofPlan relation p := by
  cases p with
  | scan s =>
    obtain ⟨collect, merge, fetch⟩ := s
    cases merge <;> rfl
  | _ => rfl

/-- The row ids stand in the row that a fetch receives where they stand in the joined row. -/
theorem FetchesFrom.getElem?_passThrough {session : Session} {limit : UInt64} {row : List Expr}
    {leaves : List (RelationName × Plan)} {f : Fetch} (h : FetchesFrom session limit row leaves f)
    {d : RelationName × InputColumn} (hd : d ∈ f.docIdColumns) :
    (Projection.passThrough (row.map Expr.type))[d.2.index]? = some (.input d.2) := by
  obtain ⟨k, hk⟩ := List.mem_iff_getElem?.1 hd
  obtain ⟨z, -, -, -, htype⟩ := exists_getElem?_of_forall₂ h.docIds hk
  rw [Projection.passThrough, List.getElem?_mapIdx, List.getElem?_map, htype]
  rfl

namespace CrossJoin

open Planning Statement

variable {planner : RelationPlanner} {s : Statement} {before between after : Session}
  {split : Split} {plans : List (RelationName × Plan)}

/-- The leaves of a tree of joins under the names of their sources. -/
theorem exists_named {ordered : List (RelationName × Plan)} {routed : List Plan}
    (h : List.Forall₂ Plan.Routed (ordered.map (·.2)) routed) :
    ∃ leaves : List (RelationName × Plan), leaves.map (·.1) = ordered.map (·.1) ∧
      leaves.map (·.2) = routed ∧ leaves.map (fun z => Leaf.ofPlan z.1 z.2) =
        ordered.map fun (relation, plan) => Leaf.ofPlan relation plan := by
  induction ordered generalizing routed with
  | nil =>
    obtain rfl := List.forall₂_nil_left_iff.1 h
    exact ⟨[], rfl, rfl, rfl⟩
  | cons z ordered ih =>
    obtain ⟨q, rest, ⟨consumer, rfl⟩, hrest, rfl⟩ := List.forall₂_cons_left_iff.1 h
    obtain ⟨leaves, hnames, hplans, hleaves⟩ := ih hrest
    refine ⟨(z.1, z.2.routeResult consumer) :: leaves, ?_, ?_, ?_⟩
    · rw [List.map_cons, hnames, List.map_cons]
    · rw [List.map_cons, hplans]
    · rw [List.map_cons, hleaves, List.map_cons, Leaf.ofPlan_routeResult]

theorem ReadyToJoin.joinedNames_eq (h : ReadyToJoin planner s before split plans between) :
    (s.sourceOrder.filterMap (plans[·]?)).map (·.1) = s.joinedNames := by
  rw [List.map_filterMap, joinedNames]
  refine List.filterMap_congr fun i hi => ?_
  have hlt : i < plans.length := h.length_plans ▸ mem_sourceOrder.1 hi
  obtain ⟨x, hx, hname, -⟩ :=
    exists_getElem?_of_forall₂ h.plansOf (List.getElem?_eq_getElem hlt)
  rw [List.getElem?_eq_getElem hlt, (List.getElem?_zip_eq_some.1 hx).1, Option.map_some,
    Option.map_some, hname]

/-- What a planned statement reads back.  The row that its leaves emit together reaches the fetch
as it is, filtered and cut, so that the row ids stand where the fetch looks for them; and the fetch
reads, for every leaf that an output still refers to and for no other one, the columns that the
outputs refer to. -/
theorem exact_fetch {left right : Plan} {leftOuter : Bool} {merge : MergeStage}
    (h : Gives (plan planner s) before (.planned (.nestedLoop left right leftOuter merge)) after)
    {f : Fetch} (hf : .fetch f ∈ merge.projections)
    (hids : ((((Plan.nestedLoop left right leftOuter merge).leaves
      (s.sources.length - 1)).filterMap Plan.collect?).map (·.id)).Nodup) :
    ∃ row leaves, (Plan.nestedLoop left right leftOuter merge).outputs? = some row ∧
      leaves.map (·.1) = s.joinedNames ∧
      leaves.map (·.2) =
        (Plan.nestedLoop left right leftOuter merge).leaves (s.sources.length - 1) ∧
      f.outputs = s.select.outputs.map (Expr.resolve row) ∧
      FetchesFrom after (s.limitOr before.settings.selectLimit) row leaves f ∧
      merge.projections = .nestedLoopMerge (Projection.passThrough (row.map Expr.type)) ::
        s.remainingQuery.toList.map (fun query => .filter (query.resolve row)) ++
          [.topN (s.limitOr before.settings.selectLimit) s.select.offset
            (s.remainingOrderBy.map (·.mapKeys (Expr.resolve row)))
            (Projection.passThrough (row.map Expr.type)), .fetch f] ∧
      ∀ d ∈ f.docIdColumns,
        (Projection.passThrough (row.map Expr.type))[d.2.index]? = some (.input d.2) := by
  obtain ⟨-, houtputs, -⟩ := joins_of_gives h
  cases plannedBy_of_gives h with
  | @joined _ _ split plans σ σ' hready hjoin hbuilt =>
    have hsplit := split_spec hready.splits
    have hrouted := (hready.joinTree hjoin).leaves
    rw [rowOf_routed hrouted] at houtputs
    obtain ⟨leaves, hnames, hplans, hleaves⟩ := exists_named hrouted
    rw [hready.joinedNames_eq] at hnames
    rw [← hplans, List.filterMap_map] at hids
    obtain ⟨_, _, _, _, projections, hp, -, hprojections, hmerge⟩ :=
      hready.exists_projections hjoin
    cases hp
    obtain ⟨filters, order, hfilters, horder, hrest⟩ := ResultRow.projections_shape hprojections
    obtain ⟨rfl, -⟩ := ResultRow.filters_eq_ok hfilters
    obtain ⟨rfl, -⟩ := ResultRow.orderBy_eq_ok horder
    rcases hrest with ⟨-, rfl⟩ | ⟨-, f', hfetch, rfl⟩
    · simp [hmerge] at hf
    obtain rfl : f = f' := by simpa [hmerge] using hf
    rw [← hleaves, hsplit.limit] at hfetch
    rw [hsplit.limit, hsplit.remainingQuery, hsplit.remainingOrderBy] at hmerge
    obtain ⟨hresolved, hfrom⟩ := ResultRow.fetchesFrom_fetch hids hfetch
    -- neither joining nor counting the plan touches settings and searches
    obtain ⟨_, _, _, _, -, -, -, -, hskip⟩ := hready.gives_join hjoin
    obtain ⟨ledger, rfl⟩ := session_of_built hbuilt
    subst hskip
    refine ⟨_, leaves, houtputs, hnames, hplans, hresolved, ⟨hfrom.inputTypes, hfrom.docIds,
      hfrom.fetchColumns, hfrom.partitionColumns, hfrom.once, hfrom.collected,
      hfrom.executionNodes, hfrom.subContexts, hfrom.bulkSize⟩, hmerge,
      fun d hd => hfrom.getElem?_passThrough hd⟩

/-! ### One table read back -/

/-- A cluster of one node with two shards of every table. -/
def twoShards : Cluster :=
  ⟨"node", fun _ => .ok ⟨.ofList [("node", .ofList [("index", [0, 1])])]⟩⟩

/-- Only the row ids of the first table are collected, and all of the second one. -/
def firstLate : RelationPlanner := fun q =>
  Strategy.planTable (.scan (if q.name == "t" then lateScan true else plainScan)) q

/-- Two columns of the first table are read back, one of them from its partitions, with a page of
100 rows at a time, through the searches of its two shards. -/
theorem exact_fetch_twiceListed : ∃ left right leftOuter merge after f row leaves,
    Gives (plan firstLate twiceListed) (.start twoShards ⟨10000, 100⟩ 1)
      (.planned (.nestedLoop left right leftOuter merge)) after ∧
    .fetch f ∈ merge.projections ∧
    ((((Plan.nestedLoop left right leftOuter merge).leaves
      (twiceListed.sources.length - 1)).filterMap Plan.collect?).map (·.id)).Nodup ∧
    f.docIdColumns = [("t", ⟨0, .utf8⟩)] ∧
    f.fetchColumns.map (fun x => (x.1, x.2.map (·.column))) = [("t", ["c"])] ∧
    f.partitionColumns.map (fun x => (x.1, x.2.map (·.column))) = [("t", ["d"])] ∧
    f.executionNodes.entries = [(0, ["node"])] ∧ f.subContexts.size = 2 ∧
    f.bulkSize = some 100 ∧ leaves.map (·.1) = ["t", "u"] ∧
    FetchesFrom after 10000 row leaves f := by
  have hgives : ∃ left right leftOuter merge after f,
      Gives (plan firstLate twiceListed) (.start twoShards ⟨10000, 100⟩ 1)
        (.planned (.nestedLoop left right leftOuter merge)) after ∧
      .fetch f ∈ merge.projections ∧
      (((Plan.nestedLoop left right leftOuter merge).leaves
        (twiceListed.sources.length - 1)).filterMap Plan.collect?).map (·.id) = [0, 1] ∧
      f.docIdColumns = [("t", ⟨0, .utf8⟩)] ∧
      f.fetchColumns.map (fun x => (x.1, x.2.map (·.column))) = [("t", ["c"])] ∧
      f.partitionColumns.map (fun x => (x.1, x.2.map (·.column))) = [("t", ["d"])] ∧
      f.executionNodes.entries = [(0, ["node"])] ∧ f.subContexts.size = 2 ∧
      f.bulkSize = some 100 := by
    have hready : ReadyToJoin firstLate twiceListed (.start twoShards ⟨10000, 100⟩ 1) _ _ _ :=
      ⟨Nat.le_refl 2, rfl, rfl, rfl, ⟨_, rfl, rfl⟩, rfl⟩
    exact ⟨_, _, _, _, _, _, hready.gives_plan_of_steps joinOrder_pairs rfl rfl rfl,
      List.mem_of_getElem? (i := 3) rfl, rfl, rfl, rfl, rfl, rfl, rfl, rfl⟩
  obtain ⟨left, right, leftOuter, merge, after, f, h, hf, hids, hrest⟩ := hgives
  have hnodup := hids ▸ (by decide : ([0, 1] : List StageId).Nodup)
  obtain ⟨row, leaves, -, hnames, -, -, hfrom, -, -⟩ := exact_fetch h hf hnodup
  have horder : twiceListed.joinedNames = ["t", "u"] := by
    rw [joinedNames, show twiceListed.sourceOrder = [0, 1] from joinOrder_pairs]
    rfl
  exact ⟨left, right, leftOuter, merge, after, f, row, leaves, h, hf, hnodup, hrest.1, hrest.2.1,
    hrest.2.2.1, hrest.2.2.2.1, hrest.2.2.2.2.1, hrest.2.2.2.2.2, hnames.trans horder, hfrom⟩

end CrossJoin

end ShardJoin
