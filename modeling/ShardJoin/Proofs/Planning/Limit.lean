/-
The limit that is pushed to the sources of a statement.

If nothing is left to be evaluated on the joined rows, a plan only gives those
between offset and limit, so no source needs more rows than the two together.

* `nestedLoops_cutSome` — whichever sources are cut to so many rows, the rows
  between offset and limit stay;
* `CrossJoin.run_topN_joinAll` — those are the rows that a plan gives;
* `Statement.split_limits_keep_page` — and so many rows are what all sources
  that are not planned yet are asked for, exactly if nothing is left.
-/
import ShardJoin.Proofs.Planning.Scanning

namespace ShardJoin

variable {α : Type}

/-! ### Sources that are cut -/

/-- Some lists, given by their positions, cut to a limit. -/
def cutSome {β : Type} (truncated : Nat → Bool) (limit : UInt64) (lists : List (List β)) :
    List (List β) :=
  lists.mapIdx fun i l => cut (if truncated i then some limit else none) l

theorem map_take_cutSome {β : Type} {lists : List (List β)}
    (hsize : ∀ l ∈ lists, l.length < UInt64.size) (truncated : Nat → Bool)
    (limit offset : UInt64) :
    (cutSome truncated (Word.saturatingAdd limit offset) lists).map
        (List.take (limit.toNat + offset.toNat)) =
      lists.map (List.take (limit.toNat + offset.toNat)) := by
  refine List.ext_getElem (by simp [cutSome]) fun i hi hi' => ?_
  simp only [cutSome, List.getElem_map, List.getElem_mapIdx]
  cases truncated i with
  | false => rfl
  | true => exact take_cut (hsize _ (List.getElem_mem _)) limit offset

/-- The first rows of nested loops only need the first rows of each side. -/
theorem nestedLoops_take_congr {n : Nat} {sides sides' : List (List (List (Datum α)))}
    (h : sides.map (List.take n) = sides'.map (List.take n)) :
    (nestedLoops sides).take n = (nestedLoops sides').take n := by
  rw [nestedLoops_eq, nestedLoops_eq, ← List.map_take, ← List.map_take, choices_take_congr h]

/-- Sides that are cut to limit and offset together give the same rows between the offset and the
limit. -/
theorem nestedLoops_cutSome {sides : List (List (List (Datum α)))}
    (hsize : ∀ rows ∈ sides, rows.length < UInt64.size) (truncated : Nat → Bool)
    (limit offset : UInt64) :
    ((nestedLoops (cutSome truncated (Word.saturatingAdd limit offset) sides)).drop
        offset.toNat).take limit.toNat =
      ((nestedLoops sides).drop offset.toNat).take limit.toNat := by
  rw [List.take_drop, List.take_drop, Nat.add_comm offset.toNat,
    nestedLoops_take_congr (map_take_cutSome hsize truncated limit offset)]

/-- Without an order by, the rows of a plan are the joined rows between offset and limit. -/
theorem CrossJoin.run_topN_joinAll {ι : Interpretation α} {engine : Engine α} {left : Plan}
    {rest : List Plan} (hregular : ∀ p ∈ left :: rest, p.Regular ι engine) (handler : NodeId)
    (next : StageId) (limit offset : UInt64) (outputs : List Expr) :
    Projection.run ι engine ((joinAll handler next left rest).execute ι engine)
        (.topN limit offset none outputs) =
      (((nestedLoops ((left :: rest).map (Plan.execute ι engine))).drop offset.toNat).take
        limit.toNat).map (emit ι outputs) := by
  rw [List.forall_mem_cons] at hregular
  rw [Projection.run, OrderBy.entriesOf, sortBy_nil, Plan.execute_joinAll hregular.1 hregular.2]

/-! ### What the sources are asked for -/

/-- A source that is neither planned nor a sub query is a table. -/
theorem Source.exists_table (source : Source) (hplan : source.plan? = none)
    (hsub : source.isSubQuery = false) : ∃ table, source.table? = some table := by
  cases source with
  | table relation => exact ⟨relation, rfl⟩
  | queried query => exact ⟨query.table, rfl⟩
  | subQuery query => cases hsub
  | planned plan => cases hplan

namespace Statement

theorem limit_of_share {s : Statement} {settings : PlannerSettings} {split : Split}
    (hsplit : split.IsOf s settings) {i : Nat} {q : TableQuery}
    (h : s.shareOf settings.selectLimit i = .ok (some q)) :
    q.select.limit =
      if split.pushesLimit then some (Word.saturatingAdd split.limit s.select.offset) else none := by
  rw [(shareOf_eq_ok h).2.2.2.1, tableLimit, Split.pushesLimit, hsplit.remainingQuery,
    hsplit.remainingOrderBy, hsplit.limit]
  rfl

/-- Cutting sources to limit and offset together keeps all rows between the offset and the limit
of their nested loops, which are the rows of the plan if nothing else is evaluated on the joined
rows.  Every source without a plan is asked for so many rows in that case, and not limited in the
others. -/
theorem split_limits_keep_page (ι : Interpretation α) (engine : Engine α) :
    (∀ (sides : List (List (List (Datum α)))) (truncated : Nat → Bool) (limit offset : UInt64),
      (∀ rows ∈ sides, rows.length < UInt64.size) →
        ((nestedLoops (cutSome truncated (Word.saturatingAdd limit offset) sides)).drop
            offset.toNat).take limit.toNat =
          ((nestedLoops sides).drop offset.toNat).take limit.toNat) ∧
    (∀ (left : Plan) (rest : List Plan) (handler : NodeId) (next : StageId)
      (limit offset : UInt64) (outputs : List Expr),
      (∀ p ∈ left :: rest, p.Regular ι engine) →
        Projection.run ι engine ((CrossJoin.joinAll handler next left rest).execute ι engine)
            (.topN limit offset none outputs) =
          (((nestedLoops ((left :: rest).map (Plan.execute ι engine))).drop offset.toNat).take
            limit.toNat).map (emit ι outputs)) ∧
    ∀ (s : Statement) (settings : PlannerSettings) (split : Split), s.split settings = .ok split →
      ∀ (i : Nat) (x : RelationName × Source), s.sources[i]? = some x → x.2.plan? = none →
        ∃ q, split.shares[i]? = some (some q) ∧
          (split.remainingQuery = none ∧ split.remainingOrderBy = none →
            q.select.limit = some (Word.saturatingAdd split.limit s.select.offset)) ∧
          (¬(split.remainingQuery = none ∧ split.remainingOrderBy = none) →
            q.select.limit = none) := by
  refine ⟨fun sides truncated limit offset hsize => nestedLoops_cutSome hsize truncated limit offset,
    fun left rest handler next limit offset outputs hregular =>
      CrossJoin.run_topN_joinAll hregular handler next limit offset outputs,
    fun s settings split hsplit i x hx hplan => ?_⟩
  have hspec := s.split_spec hsplit
  have hsub := isSubQuery_of_split hsplit x (List.mem_of_getElem? hx)
  obtain ⟨table, htable⟩ := x.2.exists_table hplan hsub
  have hat : s.tableAt? i = some table := by
    rw [tableAt?, hx]
    exact htable
  obtain ⟨q, hq, hshare⟩ := exists_tableQuery hspec hat
  have hpushes : split.pushesLimit = true ↔
      split.remainingQuery = none ∧ split.remainingOrderBy = none := by
    rw [Split.pushesLimit, Bool.and_eq_true, Option.isNone_iff_eq_none, Option.isNone_iff_eq_none]
  refine ⟨q, hq, fun hnothing => ?_, fun hsomething => ?_⟩
  · rw [limit_of_share hspec hshare, if_pos (hpushes.2 hnothing)]
  · rw [limit_of_share hspec hshare, if_neg (mt hpushes.1 hsomething)]

/-- The pairs of numbers in any order, behind the first five, as many as a word can count. -/
def allPairs : Statement :=
  { pairs with select := { pairs.select with orderBy := none, limit := some Word.max, offset := 5 } }

/-- Three numbers are joined with themselves: the first two of the inner ones are enough for the
second pair.  The tables of all pairs are asked for as many rows as a word can count. -/
theorem split_limits_keep_page_allPairs :
    let number := fun n : Int64 => (.plain (.int64 n) : Datum Empty)
    let rows := [[number 1], [number 2], [number 3]]
    let engine := Engine.scanning .integers (fun _ => []) (fun _ => rows) fun _ rows => rows
    let get := Plan.tableGet ⟨⟨"doc", "t"⟩, "t", (columnTable "t" "a").allColumns, ⟨[]⟩, none⟩
    ((nestedLoops [rows, cut (some 2) rows]).drop 1).take 1 = [[number 1, number 2]] ∧
      Projection.run .integers engine
          ((CrossJoin.joinAll "node" 0 get [get]).execute .integers engine)
          (.topN 1 1 none [.inputAt 1 .int64]) = [[number 2]] ∧
      ∃ split q r, allPairs.split .standard = .ok split ∧ split.shares = [some q, some r] ∧
        q.select.limit = some Word.max ∧ r.select.limit = some Word.max := by
  intro number rows engine get
  obtain ⟨hcut, hpage, hshare⟩ := split_limits_keep_page .integers engine
  have hsize : ∀ l ∈ [rows, rows], l.length < UInt64.size := by decide
  have hregular : ∀ p ∈ [get, get], p.Regular .integers engine := by
    have hrows : ∀ row ∈ rows, row.length = 1 := by decide
    simp only [List.mem_cons, List.not_mem_nil, or_false, or_self, forall_eq]
    exact hrows
  refine ⟨(hcut [rows, rows] (· == 1) 1 1 hsize).trans rfl,
    (hpage get [get] "node" 0 1 1 _ hregular).trans rfl, _, _, _, rfl, rfl, ?_, ?_⟩
  · obtain ⟨q, hq, hlimit, -⟩ := hshare allPairs .standard _ rfl 0 _ rfl rfl
    obtain rfl := Option.some.inj (Option.some.inj hq)
    exact hlimit ⟨rfl, rfl⟩
  · obtain ⟨r, hr, hlimit, -⟩ := hshare allPairs .standard _ rfl 1 _ rfl rfl
    obtain rfl := Option.some.inj (Option.some.inj hr)
    exact hlimit ⟨rfl, rfl⟩

end Statement

end ShardJoin
