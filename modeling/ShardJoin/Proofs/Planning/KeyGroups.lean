/-
Which order bys are given to the tables, and that they are given whole.

An order by is given away if every key refers to one relation alone, the
relation is a base table, and the keys of each relation stand together.  Then
the keys of the tables, one table after the other in the order of the join, are
the keys of the statement; otherwise no table is asked to sort or to stop early.

* `Statement.keysSeparate_iff` — which order bys are given away;
* `Statement.KeyPass.visitAll_spec` — it is enough to look at the keys once, from
  first to last, and to keep the source of the previous key;
* `Statement.split_keys` — what taking a statement apart does with its order by.
-/
import ShardJoin.Proofs.Planning.Requests
import ShardJoin.Proofs.Planning.RowOrder

namespace ShardJoin

/-! ### Elements that stand together -/

/-- Whatever stands between two equal elements is equal to them. -/
def Together {β : Type} (l : List β) : Prop :=
  ∀ ⦃a b c : Nat⦄ ⦃x : β⦄, a < b → b < c → l[a]? = some x → l[c]? = some x → l[b]? = some x

namespace Together

variable {β γ δ : Type}

theorem nil : Together ([] : List β) := by
  intro a b c x _ _ ha
  cases ha

/-- Standing together is a matter of which elements are equal. -/
theorem map_congr {l : List β} {f : β → γ} {g : β → δ}
    (h : ∀ x ∈ l, ∀ y ∈ l, f x = f y → g x = g y) (hg : Together (l.map g))
    (hback : ∀ x ∈ l, ∀ y ∈ l, g x = g y → f x = f y) : Together (l.map f) := by
  intro a b c z hab hbc ha hc
  rw [List.getElem?_map, Option.map_eq_some_iff] at ha hc
  obtain ⟨x, ha, rfl⟩ := ha
  obtain ⟨y, hc, hyx⟩ := hc
  have hx := List.mem_of_getElem? ha
  have hy := List.mem_of_getElem? hc
  have hbetween := hg hab hbc (x := g x) (by rw [List.getElem?_map, ha, Option.map_some])
    (by rw [List.getElem?_map, hc, Option.map_some, h y hy x hx hyx])
  rw [List.getElem?_map, Option.map_eq_some_iff] at hbetween
  obtain ⟨w, hb, hw⟩ := hbetween
  rw [List.getElem?_map, hb, Option.map_some, hback w (List.mem_of_getElem? hb) x hx hw]

/-- One more element either is new or repeats the last one. -/
theorem append_singleton_iff {l : List β} {x : β} :
    Together (l ++ [x]) ↔ Together l ∧ (x ∈ l → l.getLast? = some x) := by
  have hold : ∀ {k : Nat} {y : β}, l[k]? = some y → (l ++ [x])[k]? = some y := by
    intro k y hk
    rwa [List.getElem?_append_left (List.getElem?_eq_some_iff.1 hk).1]
  constructor
  · intro h
    refine ⟨fun a b c y hab hbc ha hc => ?_, fun hx => ?_⟩
    · have hlt : b < l.length := by
        have := (List.getElem?_eq_some_iff.1 hc).1
        omega
      have hb := h hab hbc (hold ha) (hold hc)
      rwa [List.getElem?_append_left hlt] at hb
    · obtain ⟨a, ha⟩ := List.mem_iff_getElem?.1 hx
      have hlt := (List.getElem?_eq_some_iff.1 ha).1
      rw [List.getLast?_eq_getElem?]
      by_cases hlast : a = l.length - 1
      · rwa [← hlast]
      · have hb := h (b := l.length - 1) (c := l.length) (by omega) (by omega) (hold ha) (by simp)
        rwa [List.getElem?_append_left (by omega)] at hb
  · rintro ⟨h, hlast⟩ a b c y hab hbc ha hc
    have hclt : c < l.length + 1 := by simpa using (List.getElem?_eq_some_iff.1 hc).1
    rw [List.getElem?_append_left (by omega)] at ha ⊢
    by_cases hc' : c < l.length
    · rw [List.getElem?_append_left hc'] at hc
      exact h hab hbc ha hc
    · obtain rfl : c = l.length := by omega
      obtain rfl : x = y := by simpa using hc
      have hend := hlast (List.mem_of_getElem? ha)
      rw [List.getLast?_eq_getElem?] at hend
      by_cases hb : b = l.length - 1
      · rwa [hb]
      · exact h hab (by omega) ha hend

end Together

namespace Statement

/-- No element recurs in a list without repetitions up to neighbours exactly if equal elements
stand together. -/
theorem nodup_collapse_iff {l : List (Option Nat)} : (collapse l).Nodup ↔ Together l := by
  refine ⟨fun h a b c x hab hbc ha hc => between_of_collapse h (by omega) (by omega) ha hc, ?_⟩
  have htail : ∀ {a : Option Nat} {l : List (Option Nat)}, Together (a :: l) → Together l := by
    intro a l h i j k x hij hjk hi hk
    exact h (a := i + 1) (b := j + 1) (c := k + 1) (by omega) (by omega) hi hk
  fun_induction collapse l with
  | case1 b rest ih => exact fun h => ih (htail h)
  | case2 a b rest hne ih =>
    intro h
    refine List.nodup_cons.2 ⟨fun hmem => ?_, ih (htail h)⟩
    obtain ⟨k, hk⟩ := List.mem_iff_getElem?.1 (mem_collapse.1 hmem)
    -- the element would recur behind its neighbour
    by_cases hzero : k = 0
    · subst hzero
      exact hne (Option.some.inj hk).symm
    · have := h (a := 0) (b := 1) (c := k + 1) (by omega) (by omega) rfl hk
      exact hne (Option.some.inj this).symm
  | case3 l hl =>
    intro _
    rcases l with _ | ⟨a, _ | ⟨b, rest⟩⟩
    · exact List.nodup_nil
    · exact List.pairwise_singleton _ a
    · exact absurd rfl (hl a b rest)

variable {s : Statement} {o : OrderBy}

/-! ### Which order bys are given away -/

/-- An order by whose keys are given to the tables: every key refers to one relation alone, which
is a base table, and the keys of each relation stand together. -/
structure GivesKeys (s : Statement) (o : OrderBy) : Prop where
  table : ∀ key ∈ o.keys, ∃ relation i table,
    key.relations = [relation] ∧ s.position? relation = some i ∧ s.tableAt? i = some table
  together : Together (o.keys.map Expr.relations)

theorem home?_eq_some_iff {e : Expr} {i : Nat} :
    s.home? e = some i ↔ ∃ relation, e.relations = [relation] ∧ s.position? relation = some i := by
  rw [home?, Option.bind_eq_some_iff]
  refine exists_congr fun relation => and_congr_left fun _ => ?_
  exact Expr.relations_eq_singleton_iff.symm

/-- Sources at different positions are found under different names. -/
theorem relations_eq_of_home? {e f : Expr} {i : Nat} (he : s.home? e = some i)
    (hf : s.home? f = some i) : e.relations = f.relations := by
  obtain ⟨relation, he, hi⟩ := home?_eq_some_iff.1 he
  obtain ⟨relation', hf, hi'⟩ := home?_eq_some_iff.1 hf
  obtain ⟨_, hat⟩ := position?_eq_some hi
  obtain ⟨_, hat'⟩ := position?_eq_some hi'
  rw [hat, Option.some.injEq, Prod.mk.injEq] at hat'
  rw [he, hf, hat'.1]

theorem home?_eq_of_relations {e f : Expr} (h : e.relations = f.relations) {i : Nat}
    (he : s.home? e = some i) : s.home? f = some i := by
  obtain ⟨relation, hrelation, hi⟩ := home?_eq_some_iff.1 he
  exact home?_eq_some_iff.2 ⟨relation, h ▸ hrelation, hi⟩

theorem keysSeparate_iff (ho : s.select.orderBy = some o) :
    s.keysSeparate = true ↔ s.GivesKeys o := by
  have hkeys : s.keyHomes = o.keys.map s.home? := by rw [keyHomes, sortKeys, ho]
  rw [keysSeparate, Bool.and_eq_true, decide_eq_true_eq, nodup_collapse_iff, List.all_eq_true,
    hkeys, List.forall_mem_map]
  have htable : (∀ key ∈ o.keys, ((s.home? key).bind s.tableAt?).isSome = true) ↔
      ∀ key ∈ o.keys, ∃ relation i table,
        key.relations = [relation] ∧ s.position? relation = some i ∧ s.tableAt? i = some table := by
    refine forall₂_congr fun key _ => ?_
    simp only [Option.isSome_iff_exists, Option.bind_eq_some_iff, home?_eq_some_iff]
    constructor
    · rintro ⟨table, i, ⟨relation, hrelation, hi⟩, htable⟩
      exact ⟨relation, i, table, hrelation, hi, htable⟩
    · rintro ⟨relation, i, table, hrelation, hi, htable⟩
      exact ⟨table, i, ⟨relation, hrelation, hi⟩, htable⟩
  -- if every key has a home, the homes of two keys are equal exactly if their relations are
  have hhome : (∀ key ∈ o.keys, ((s.home? key).bind s.tableAt?).isSome = true) →
      ∀ x ∈ o.keys, ∀ y ∈ o.keys, s.home? x = s.home? y ↔ x.relations = y.relations := by
    intro hall x hx y _
    obtain ⟨table, htable⟩ := Option.isSome_iff_exists.1 (hall x hx)
    obtain ⟨i, hi, -⟩ := Option.bind_eq_some_iff.1 htable
    constructor
    · intro heq
      exact relations_eq_of_home? hi (heq ▸ hi)
    · intro heq
      rw [hi, home?_eq_of_relations heq hi]
  constructor
  · rintro ⟨hall, htogether⟩
    have hiff := hhome hall
    exact ⟨htable.1 hall, htogether.map_congr (fun x hx y hy => (hiff x hx y hy).2)
      fun x hx y hy => (hiff x hx y hy).1⟩
  · intro h
    have hall := htable.2 h.table
    have hiff := hhome hall
    exact ⟨hall, h.together.map_congr (fun x hx y hy => (hiff x hx y hy).1)
      fun x hx y hy => (hiff x hx y hy).2⟩

/-! ### One pass over the keys -/

/-- What is known after some keys: where the first key of each source was met, the keys given to
each table, the source of the previous key, and whether the keys cannot be given away. -/
structure KeyPass where
  first : Nat → Option Nat
  given : Nat → List Nat
  previous : Option Nat
  spans : Bool

namespace KeyPass

/-- Nothing is known before the first key. -/
def start : KeyPass := ⟨fun _ => none, fun _ => [], none, false⟩

/-- Visits the key at a position, which refers to the given source alone. -/
def visit (s : Statement) (pass : KeyPass) (k : Nat) : Option Nat → KeyPass
  | none => { pass with spans := true }
  | some i =>
    { first := fun j => if j = i then pass.first i <|> some k else pass.first j
      given := fun j =>
        if j = i ∧ (s.tableAt? i).isSome then pass.given j ++ [k] else pass.given j
      previous := some i
      spans := pass.spans || (s.tableAt? i).isNone ||
        (pass.first i).isSome && pass.previous != some i }

/-- Visits the keys from a position on. -/
def visitAll (s : Statement) : KeyPass → Nat → List (Option Nat) → KeyPass
  | pass, _, [] => pass
  | pass, k, home :: homes => visitAll s (pass.visit s k home) (k + 1) homes

/-- What the pass knows about the keys that it has visited. -/
structure Knows (s : Statement) (homes : List (Option Nat)) (pass : KeyPass) : Prop where
  first : ∀ i, pass.first i = homes.findIdx? (· == some i)
  given : ∀ i, pass.given i = if (s.tableAt? i).isSome then
    (List.range homes.length).filter (fun k => homes[k]? == some (some i)) else []
  previous : pass.spans = false → homes.getLast? = pass.previous.map some
  spans : pass.spans = false ↔
    (∀ home ∈ homes, (home.bind s.tableAt?).isSome = true) ∧ Together homes

theorem knows_start (s : Statement) : Knows s [] start where
  first _ := rfl
  given i := by simp [start]
  previous _ := rfl
  spans := iff_of_true rfl ⟨by simp, .nil⟩

variable {pass : KeyPass} {homes : List (Option Nat)}

/-- One more position is taken if it holds what is looked for. -/
theorem filter_range_append (homes : List (Option Nat)) (home : Option Nat) (i : Nat) :
    (List.range (homes ++ [home]).length).filter
        (fun k => (homes ++ [home])[k]? == some (some i)) =
      (List.range homes.length).filter (fun k => homes[k]? == some (some i)) ++
        if home = some i then [homes.length] else [] := by
  rw [List.length_append, List.length_singleton, List.range_succ, List.filter_append]
  congr 1
  · refine List.filter_congr fun k hk => ?_
    rw [List.getElem?_append_left (List.mem_range.1 hk)]
  · by_cases h : home = some i <;> simp [h]

theorem Knows.visit (h : Knows s homes pass) (home : Option Nat) :
    Knows s (homes ++ [home]) (pass.visit s homes.length home) := by
  cases home with
  | none =>
    refine ⟨fun i => ?_, fun i => ?_, nofun, ?_⟩
    · rw [List.findIdx?_append, ← h.first i]
      simp [KeyPass.visit]
    · rw [filter_range_append, if_neg (Option.some_ne_none i).symm, List.append_nil]
      exact h.given i
    · refine iff_of_false nofun ?_
      rintro ⟨hall, -⟩
      cases hall none (by simp)
  | some i =>
    refine ⟨fun j => ?_, fun j => ?_, fun _ => ?_, ?_⟩
    · rw [List.findIdx?_append, ← h.first j]
      by_cases hj : j = i
      · subst hj
        simp [KeyPass.visit]
      · have hne : ¬i = j := fun heq => hj heq.symm
        simp [KeyPass.visit, hj, hne]
    · rw [filter_range_append]
      show (if j = i ∧ (s.tableAt? i).isSome then pass.given j ++ [homes.length]
        else pass.given j) = _
      rw [h.given j]
      by_cases hj : j = i
      · subst hj
        by_cases htable : (s.tableAt? j).isSome = true <;> simp [htable]
      · have hne : ¬i = j := fun heq => hj heq.symm
        simp [hj, hne]
    · show (homes ++ [some i]).getLast? = some (some i)
      rw [List.getLast?_append, List.getLast?_singleton, Option.some_or]
    · have hmem : (pass.first i).isSome = true ↔ some i ∈ homes := by
        rw [h.first i, List.findIdx?_isSome, List.any_eq_true]
        simp
      have hspans : (pass.visit s homes.length (some i)).spans = false ↔
          pass.spans = false ∧ (s.tableAt? i).isSome = true ∧
            (some i ∈ homes → pass.previous = some i) := by
        rw [← hmem]
        simp [KeyPass.visit, and_assoc]
      rw [hspans, Together.append_singleton_iff, List.forall_mem_append,
        List.forall_mem_singleton, Option.bind_some]
      constructor
      · rintro ⟨hfree, htable, hlast⟩
        obtain ⟨hall, htogether⟩ := h.spans.1 hfree
        refine ⟨⟨hall, htable⟩, htogether, fun hi => ?_⟩
        rw [h.previous hfree, hlast hi, Option.map_some]
      · rintro ⟨⟨hall, htable⟩, htogether, hlast⟩
        have hfree := h.spans.2 ⟨hall, htogether⟩
        refine ⟨hfree, htable, fun hi => ?_⟩
        have hprevious := h.previous hfree
        rw [hlast hi] at hprevious
        obtain ⟨j, hj, heq⟩ := Option.map_eq_some_iff.1 hprevious.symm
        rw [hj, Option.some.inj heq]

theorem Knows.visitAll (h : Knows s homes pass) (rest : List (Option Nat)) :
    Knows s (homes ++ rest) (pass.visitAll s homes.length rest) := by
  induction rest generalizing homes pass with
  | nil => rwa [List.append_nil]
  | cons home rest ih =>
    have hstep := ih (h.visit home)
    rwa [List.append_assoc, List.singleton_append, List.length_append,
      List.length_singleton] at hstep

/-- One pass over the keys finds the first key of each source, the keys of each table, and whether
the keys are given away. -/
theorem visitAll_spec (s : Statement) :
    let pass := start.visitAll s 0 s.keyHomes
    pass.first = s.firstKeyOf? ∧
      (∀ i table, s.tableAt? i = some table → pass.given i = s.keysOf i) ∧
        pass.spans = !s.keysSeparate := by
  intro pass
  have h : Knows s s.keyHomes pass := (knows_start s).visitAll s.keyHomes
  refine ⟨funext h.first, fun i table htable => ?_, ?_⟩
  · rw [h.given i, htable]
    rfl
  · have hiff : pass.spans = false ↔ s.keysSeparate = true := by
      rw [h.spans, keysSeparate, Bool.and_eq_true, decide_eq_true_eq, nodup_collapse_iff,
        List.all_eq_true]
    cases hseparate : s.keysSeparate with
    | true => exact hiff.2 hseparate
    | false =>
      rw [Bool.not_false, ← Bool.not_eq_false, hiff, hseparate]
      exact Bool.false_ne_true

end KeyPass

end Statement

/-! ### What becomes of an order by -/

namespace Split

/-- The whole order by is left for the joined row, and no table sorts or stops early. -/
structure KeepsKeys (split : Split) (o : OrderBy) : Prop where
  remaining : split.remainingOrderBy = some o
  unsorted : ∀ q, some q ∈ split.shares → q.select.orderBy = none
  unlimited : ∀ q, some q ∈ split.shares → q.select.limit = none

/-- Nothing is left of the order by for the joined row: the order bys of the tables, in the order
of the join, are its entries one by one. -/
structure HandsOutKeys (split : Split) (o : OrderBy) : Prop where
  remaining : split.remainingOrderBy = none
  valid : ∀ q sub, some q ∈ split.shares → q.select.orderBy = some sub → sub.validate = .ok ()
  entries : (CrossJoin.joinOrder split.firstKeys).flatMap split.keysAt = o.entries

/-- How the order by is taken apart after one pass over its keys. -/
structure FollowsPass (split : Split) (s : Statement) (pass : Statement.KeyPass) : Prop where
  /-- What the sources are joined by is where the pass has met their first keys. -/
  firstKeys : split.firstKeys = (List.range s.sources.length).map pass.first
  /-- The order by is left for the joined row if its keys cannot be given away. -/
  remaining : split.remainingOrderBy = if pass.spans then s.select.orderBy else none
  /-- If they can, each table sorts by the keys that the pass has given to it. -/
  given : ∀ i q, split.shares[i]? = some (some q) → ∀ o, s.select.orderBy = some o →
    q.select.orderBy = if pass.spans || (pass.given i).isEmpty then none else o.subset? (pass.given i)

end Split

theorem OrderBy.validate_of_subset? {o sub : OrderBy} {positions : List Nat}
    (h : o.subset? positions = some sub) : sub.validate = .ok () := by
  obtain ⟨keys, hkeys, h⟩ := Option.bind_eq_some_iff.1 h
  obtain ⟨descending, hdescending, h⟩ := Option.bind_eq_some_iff.1 h
  obtain ⟨nullsFirst, hnullsFirst, h⟩ := Option.bind_eq_some_iff.1 h
  obtain rfl := Option.some.inj h
  rw [Option.mapM_eq_some] at hkeys hdescending hnullsFirst
  refine if_pos ⟨?_, ?_⟩
  · rw [← hdescending.length_eq, hkeys.length_eq]
  · rw [← hnullsFirst.length_eq, hkeys.length_eq]

namespace Statement

variable {s : Statement} {o : OrderBy} {settings : PlannerSettings} {split : Split}

/-- An order by that is given to a table has its flags. -/
theorem validate_of_orderByOf {i : Nat} {sub : OrderBy} (h : s.orderByOf i = .ok (some sub)) :
    sub.validate = .ok () := by
  unfold orderByOf at h
  split at h
  · split at h
    · rename_i hsub
      obtain rfl := Option.some.inj (Except.ok.inj h)
      exact OrderBy.validate_of_subset? hsub
    · cases h
  · cases Except.ok.inj h

theorem orderByOf_of_remaining (h : s.remainingOrderBy = some o) (i : Nat) :
    s.orderByOf i = .ok none := by
  unfold orderByOf
  split
  · rename_i hnone _
    rw [h] at hnone
    cases hnone
  · rfl

theorem exists_shareOf {q : TableQuery} (hsplit : split.IsOf s settings)
    (hq : some q ∈ split.shares) : ∃ i, s.shareOf settings.selectLimit i = .ok (some q) := by
  obtain ⟨i, hi⟩ := List.mem_iff_getElem?.1 hq
  exact ⟨i, hsplit.shareOf_eq hi⟩

theorem keepsKeys (hsplit : split.IsOf s settings) (h : s.remainingOrderBy = some o) :
    split.KeepsKeys o := by
  refine ⟨hsplit.remainingOrderBy.trans h, fun q hq => ?_, fun q hq => ?_⟩
  · obtain ⟨i, hshare⟩ := exists_shareOf hsplit hq
    have horder := (shareOf_eq_ok hshare).2.2.1
    rw [orderByOf_of_remaining h] at horder
    exact (Except.ok.inj horder).symm
  · obtain ⟨i, hshare⟩ := exists_shareOf hsplit hq
    have hremains : s.nothingRemains = false := by
      rw [nothingRemains, h, Option.isNone_some, Bool.and_false]
    rw [(shareOf_eq_ok hshare).2.2.2.1, tableLimit, hremains, if_neg Bool.false_ne_true]

theorem handsOutKeys (hsplit : split.IsOf s settings) (ho : s.select.orderBy = some o)
    (h : s.keysSeparate = true) : split.HandsOutKeys o := by
  refine ⟨?_, fun q sub hq hsub => ?_, ?_⟩
  · rw [hsplit.remainingOrderBy, remainingOrderBy, if_pos h]
  · obtain ⟨i, hshare⟩ := exists_shareOf hsplit hq
    exact validate_of_orderByOf (hsub ▸ (shareOf_eq_ok hshare).2.2.1)
  · rw [hsplit.firstKeys, funext (keysAt_eq hsplit ho h)]
    exact flatMap_tableOrder ho (hsplit.orderBy o ho) h

/-- Taking an order by apart needs no more than one pass over its keys. -/
theorem followsPass (hsplit : split.IsOf s settings) :
    split.FollowsPass s (KeyPass.start.visitAll s 0 s.keyHomes) := by
  obtain ⟨hfirst, hgiven, hspans⟩ := KeyPass.visitAll_spec s
  refine ⟨by rw [hsplit.firstKeys, hfirst], ?_, fun i q hq o ho => ?_⟩
  · rw [hsplit.remainingOrderBy, remainingOrderBy, hspans]
    cases s.keysSeparate <;> rfl
  · have hshare := hsplit.shareOf_eq hq
    have horder := (shareOf_eq_ok hshare).2.2.1
    rw [hgiven i q.table (tableAt?_of_share hshare), hspans]
    unfold orderByOf remainingOrderBy at horder
    rw [ho] at horder
    cases hseparate : s.keysSeparate with
    | false =>
      rw [hseparate] at horder
      exact (Except.ok.inj horder).symm
    | true =>
      rw [hseparate] at horder
      cases hkeys : s.keysOf i with
      | nil =>
        rw [hkeys] at horder
        exact (Except.ok.inj horder).symm
      | cons k ks =>
        rw [hkeys] at horder
        cases hsubset : o.subset? (k :: ks) with
        | none =>
          simp only [hsubset, if_true] at horder
          cases horder
        | some sub =>
          simp only [hsubset, if_true] at horder
          exact (Except.ok.inj horder).symm

theorem checkSources_cases (sources : List (RelationName × Source)) :
    checkSources sources = .ok () ∨ ∃ x ∈ sources, x.2.isSubQuery = true ∧
      checkSources sources = .error (.subQuerySource x.1) := by
  induction sources with
  | nil => exact .inl rfl
  | cons x rest ih =>
    by_cases hx : x.2.isSubQuery = true
    · exact .inr ⟨x, List.mem_cons_self, hx, if_pos hx⟩
    · have hrest : checkSources (x :: rest) = checkSources rest := if_neg hx
      rw [hrest]
      refine ih.imp_right ?_
      rintro ⟨y, hy, h⟩
      exact ⟨y, List.mem_cons_of_mem _ hy, h⟩

/-- A statement is refused for a sub query among its sources or for an order by that lacks flags;
every other statement is taken apart. -/
theorem split_cases (s : Statement) (settings : PlannerSettings) :
    (∃ x ∈ s.sources, x.2.isSubQuery = true ∧
        s.split settings = .error (.subQuerySource x.1)) ∨
      (∃ o, s.select.orderBy = some o ∧ o.validate ≠ .ok () ∧ s.split settings =
        .error (.sortFlags o.keys.length o.descending.length o.nullsFirst.length)) ∨
      ∃ split, s.split settings = .ok split := by
  rcases checkSources_cases s.sources with hcheck | ⟨x, hx, hsub, hcheck⟩
  · refine .inr ?_
    by_cases hvalid : ∀ o, s.select.orderBy = some o → o.validate = .ok ()
    · exact .inr (exists_split (checkSources_eq_ok.1 hcheck) hvalid settings)
    · simp only [not_forall, exists_prop] at hvalid
      obtain ⟨o, ho, hinvalid⟩ := hvalid
      have herror : o.validate =
          .error (.sortFlags o.keys.length o.descending.length o.nullsFirst.length) :=
        if_neg fun hlength => hinvalid (if_pos hlength)
      refine .inl ⟨o, ho, hinvalid, ?_⟩
      unfold split
      rw [hcheck, ho]
      show (o.validate >>= fun _ => _) = _
      rw [herror]
      rfl
  · refine .inl ⟨x, hx, hsub, ?_⟩
    unfold split
    rw [hcheck]
    rfl

/-- The order by of a statement that is taken apart, if there is one, is handed out to the tables
if every key refers to one base table alone and the keys of each table stand together, and left
whole for the joined row if not, as one pass over the keys finds out.  A statement is taken apart
unless it has a sub query among its sources or an order by that lacks flags. -/
theorem split_keys (s : Statement) (settings : PlannerSettings) :
    (∃ x ∈ s.sources, x.2.isSubQuery = true ∧
        s.split settings = .error (.subQuerySource x.1)) ∨
      (∃ o, s.select.orderBy = some o ∧ o.validate ≠ .ok () ∧ s.split settings =
        .error (.sortFlags o.keys.length o.descending.length o.nullsFirst.length)) ∨
      ∃ split, s.split settings = .ok split ∧
        split.FollowsPass s (KeyPass.start.visitAll s 0 s.keyHomes) ∧
        ∀ o, s.select.orderBy = some o →
          split.HandsOutKeys o ∧ s.GivesKeys o ∨ split.KeepsKeys o ∧ ¬s.GivesKeys o := by
  refine (split_cases s settings).imp_right (Or.imp_right ?_)
  rintro ⟨split, hok⟩
  have hsplit := split_spec hok
  refine ⟨split, hok, followsPass hsplit, fun o ho => ?_⟩
  by_cases h : s.keysSeparate = true
  · exact .inl ⟨handsOutKeys hsplit ho h, (keysSeparate_iff ho).1 h⟩
  · have hremaining : s.remainingOrderBy = some o := by rw [remainingOrderBy, if_neg h, ho]
    exact .inr ⟨keepsKeys hsplit hremaining, fun hgives => h ((keysSeparate_iff ho).2 hgives)⟩

/-- The statement over two tables, sorted by the column of the first table once more behind that of
the second. -/
def interleaved : Statement :=
  let columns := (columnTable "t" "a").allColumns ++ (columnTable "u" "b").allColumns
  { pairs with select := { pairs.select with
      orderBy := some (.asc (columns ++ (columnTable "t" "a").allColumns)) } }

/-- The keys of the two tables are handed out; those that come back to the first table are not. -/
theorem split_keys_pairs :
    (∃ split o, pairs.split ⟨10000, 10000⟩ = .ok split ∧
      split.FollowsPass pairs (KeyPass.start.visitAll pairs 0 pairs.keyHomes) ∧
      pairs.select.orderBy = some o ∧
      o.keys.length = 2 ∧ split.HandsOutKeys o ∧ pairs.GivesKeys o) ∧
    ∃ split o, interleaved.split ⟨10000, 10000⟩ = .ok split ∧
      split.FollowsPass interleaved (KeyPass.start.visitAll interleaved 0 interleaved.keyHomes) ∧
      interleaved.select.orderBy = some o ∧ o.keys.length = 3 ∧
        split.KeepsKeys o ∧ ¬interleaved.GivesKeys o := by
  constructor
  · rcases split_keys pairs ⟨10000, 10000⟩ with ⟨x, -, -, h⟩ | ⟨o, -, -, h⟩ |
      ⟨split, hok, hpass, h⟩
    · exact nomatch h
    · exact nomatch h
    · refine ⟨split, _, hok, hpass, rfl, rfl, (h _ rfl).resolve_right ?_⟩
      rintro ⟨hkeeps, -⟩
      obtain rfl := Except.ok.inj (show Except.ok _ = _ from hok)
      exact nomatch hkeeps.remaining
  · rcases split_keys interleaved ⟨10000, 10000⟩ with ⟨x, -, -, h⟩ | ⟨o, -, -, h⟩ |
      ⟨split, hok, hpass, h⟩
    · exact nomatch h
    · exact nomatch h
    · refine ⟨split, _, hok, hpass, rfl, rfl, (h _ rfl).resolve_left ?_⟩
      rintro ⟨hout, -⟩
      obtain rfl := Except.ok.inj (show Except.ok _ = _ from hok)
      exact nomatch hout.remaining

end Statement

end ShardJoin
