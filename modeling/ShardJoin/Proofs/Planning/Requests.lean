/-
What a statement asks of its tables is enough for the joined row.

Each table is asked for the parts of the outputs and of what remains that it
alone supplies, and for the keys that are given to it.

* `Statement.ReadsTables` — statements whose expressions are over base tables;
* `Statement.exists_split` — such a statement can be taken apart;
* `Statement.Asks` — the tables are asked for what they supply of an expression:
  of the outputs, of the conjuncts and keys that remain, of the keys that are
  given to them.
-/
import ShardJoin.Proofs.Planning.Typing

namespace ShardJoin

/-! ### Conjunctions -/

namespace Expr

/-- The parts of an expression that no relation supplies alone are parts of every conjunction
with it. -/
theorem parts_subset_and {c a b : Expr} (hsole : c.soleRelation? = none)
    (h : c.references ⊆ a.references ∧ c.parts ⊆ a.parts ∨
      c.references ⊆ b.references ∧ c.parts ⊆ b.parts) :
    c.references ⊆ (a.and b).references ∧ c.parts ⊆ (a.and b).parts := by
  have hsub : c.references ⊆ (a.and b).references := by
    rw [references_and]
    rcases h with ⟨h, -⟩ | ⟨h, -⟩
    · exact fun r hr => List.mem_append_left _ (h hr)
    · exact fun r hr => List.mem_append_right _ (h hr)
  refine ⟨hsub, ?_⟩
  cases hand : (a.and b).soleRelation? with
  | some name =>
    -- then it refers to nothing at all
    have hnil : c.references = [] := by
      by_contra hne
      have hall := (soleRelation?_eq_some.1 hand).2
      rw [soleRelation?_eq_some.2 ⟨hne, fun r hr => hall r (hsub hr)⟩] at hsole
      cases hsole
    rw [parts_eq_nil hnil]
    exact List.nil_subset _
  | none =>
    have hparts : (a.and b).parts = a.parts ++ b.parts := by
      have hcall : (Expr.call (.ofOperator .and) [a, b]).soleRelation? = none := hand
      rw [and, apply, parts, hcall, partsAll_eq]
      simp
    rw [hparts]
    rcases h with ⟨-, h⟩ | ⟨-, h⟩
    · exact fun p hp => List.mem_append_left _ (h hp)
    · exact fun p hp => List.mem_append_right _ (h hp)

theorem parts_subset_conjoin? {es : List Expr} {query c : Expr} (hquery : conjoin? es = some query)
    (hc : c ∈ es) (hsole : c.soleRelation? = none) : c.parts ⊆ query.parts := by
  -- the invariant of the chain: it contains the expression, or that is still to come
  have hchain : ∀ (es : List Expr) (e : Expr),
      (c.references ⊆ e.references ∧ c.parts ⊆ e.parts) ∨ c ∈ es →
        c.references ⊆ (es.foldl and e).references ∧ c.parts ⊆ (es.foldl and e).parts := by
    intro es
    induction es with
    | nil => exact fun e h => h.resolve_right List.not_mem_nil
    | cons e' es ih =>
      intro e h
      refine ih (e.and e') ?_
      rcases h with h | h
      · exact .inl (parts_subset_and hsole (.inl h))
      · rcases List.mem_cons.1 h with rfl | h
        · exact .inl (parts_subset_and hsole (.inr ⟨List.Subset.refl _, List.Subset.refl _⟩))
        · exact .inr h
  cases es with
  | nil => cases hc
  | cons e es =>
    obtain rfl := Option.some.inj hquery
    refine (hchain es e ?_).2
    rcases List.mem_cons.1 hc with rfl | hc
    · exact .inl ⟨List.Subset.refl _, List.Subset.refl _⟩
    · exact .inr hc

/-- What is left unresolved of a conjunction is left of one of its members. -/
theorem exists_mem_references_resolve {es row : List Expr} {query : Expr}
    (hquery : conjoin? es = some query) {r : ColumnRef}
    (hr : r ∈ (query.resolve row).references) :
    ∃ e ∈ es, r ∈ (e.resolve row).references := by
  refine forall_conjoin? (P := fun e => r ∈ (e.resolve row).references →
    ∃ e ∈ es, r ∈ (e.resolve row).references) (fun fn args ih hr => ?_) (fun e he hr => ⟨e, he, hr⟩)
    hquery hr
  rw [resolve] at hr
  split at hr
  · cases hr
  · rw [references, resolveAll_eq, referencesAll_eq] at hr
    obtain ⟨_, hmem, hr⟩ := List.mem_flatMap.1 hr
    obtain ⟨a, ha, rfl⟩ := List.mem_map.1 hmem
    exact ih a ha hr

end Expr

namespace Statement

variable {s : Statement}

/-! ### Expressions over tables -/

/-- A statement over base tables whose expressions refer to them only, read no positions and have
no NaN. -/
structure ReadsTables (s : Statement) : Prop where
  tables : ∀ x ∈ s.sources, x.2.table?.isSome = true
  references : ∀ e ∈ s.exprs, ∀ r ∈ e.references, r.relation ∈ s.sources.map (·.1)
  inputs : ∀ e ∈ s.exprs, e.inputs = []
  numbers : ∀ e ∈ s.exprs, ∀ v ∈ e.literals, v.isNumber = true

/-- Expressions over the tables of a statement. -/
structure Reads (s : Statement) (e : Expr) : Prop where
  references : ∀ r ∈ e.references, ∃ i < s.sources.length, s.tablePosition? r.relation = some i
  numbers : ∀ v ∈ e.literals, v.isNumber = true

theorem reads_call (fn : FunctionInfo) (args : List Expr) :
    s.Reads (.call fn args) ↔ ∀ a ∈ args, s.Reads a := by
  constructor
  · intro h a ha
    exact ⟨fun r hr => h.references r (Expr.mem_references_call ha hr),
      fun v hv => h.numbers v (Expr.mem_literals_call ha hv)⟩
  · intro h
    refine ⟨fun r hr => ?_, fun v hv => ?_⟩
    · rw [Expr.references, Expr.referencesAll_eq] at hr
      obtain ⟨a, ha, hr⟩ := List.mem_flatMap.1 hr
      exact (h a ha).references r hr
    · rw [Expr.literals, Expr.literalsAll_eq] at hv
      obtain ⟨a, ha, hv⟩ := List.mem_flatMap.1 hv
      exact (h a ha).numbers v hv

/-- A part of an expression over tables is the same as itself, and one table supplies it. -/
theorem Reads.part {e : Expr} (h : s.Reads e) {p : RelationName × Expr} (hp : p ∈ e.parts) :
    p.2.same p.2 = true ∧ ∃ i < s.sources.length, s.tablePosition? p.1 = some i := by
  obtain ⟨hsole, hpart⟩ := Expr.mem_parts (fun fn args => (reads_call fn args).1) h hp
  obtain ⟨hne, hall⟩ := Expr.soleRelation?_eq_some.1 hsole
  obtain ⟨r, hr⟩ := List.exists_mem_of_ne_nil _ hne
  refine ⟨Expr.same_self hpart.numbers, ?_⟩
  rw [← hall r hr]
  exact hpart.references r hr

namespace ReadsTables

variable (hs : s.ReadsTables)
include hs

theorem reads {e : Expr} (he : e ∈ s.exprs) : s.Reads e := by
  refine ⟨fun r hr => ?_, hs.numbers e he⟩
  obtain ⟨i, hi⟩ := exists_position? (hs.references e he r hr)
  exact ⟨i, lt_of_position? hi, by rw [tablePosition?_eq hs.tables, hi]⟩

theorem reads_conjunct {c : Expr} (hc : c ∈ s.select.whereClause.conjuncts) : s.Reads c := by
  have hbool : ∀ b, s.Reads (.bool b) := fun b =>
    ⟨fun r hr => (by cases hr), fun v hv => by obtain rfl := List.mem_singleton.1 hv; rfl⟩
  have hnull : s.Reads .null :=
    ⟨fun r hr => (by cases hr), fun v hv => by obtain rfl := List.mem_singleton.1 hv; rfl⟩
  refine WhereClause.forall_conjuncts hbool hnull reads_call (fun query hquery => hs.reads ?_) c hc
  simp [exprs, Option.mem_def.1 hquery]

/-- A conjunct that no table can evaluate alone refers to no relation, or to more than one. -/
theorem soleRelation?_eq_none {c : Expr} (hc : c ∈ s.select.whereClause.conjuncts)
    (howner : s.owner? c = none) : c.soleRelation? = none := by
  cases hsole : c.soleRelation? with
  | none => rfl
  | some name =>
    obtain ⟨hne, hall⟩ := Expr.soleRelation?_eq_some.1 hsole
    obtain ⟨r, hr⟩ := List.exists_mem_of_ne_nil _ hne
    obtain ⟨i, -, hi⟩ := (hs.reads_conjunct hc).references r hr
    rw [owner?, hsole, Option.bind_some, ← hall r hr, hi] at howner
    cases howner

end ReadsTables

/-! ### Taking statements apart -/

theorem orderByOf_ne_error (hvalid : ∀ o, s.select.orderBy = some o → o.validate = .ok ())
    (i : Nat) : ∃ o, s.orderByOf i = .ok o := by
  unfold orderByOf
  split
  · rename_i o k ks ho _ hkeys
    have hlt : ∀ n ∈ k :: ks, n < o.keys.length := by
      intro n hn
      rw [← length_keyHomes ho]
      exact (List.getElem?_eq_some_iff.1 (mem_keysOf.1 (hkeys ▸ hn))).1
    obtain ⟨sub, hsub⟩ := OrderBy.exists_subset? (hvalid o ho) hlt
    exact ⟨some sub, by rw [hsub]⟩
  · exact ⟨none, rfl⟩

theorem exists_split (hsources : ∀ x ∈ s.sources, x.2.isSubQuery = false)
    (hvalid : ∀ o, s.select.orderBy = some o → o.validate = .ok ()) (settings : PlannerSettings) :
    ∃ split, s.split settings = .ok split := by
  have hcheck := checkSources_eq_ok.2 hsources
  have hshare : ∀ i, ∃ share, s.shareOf settings.selectLimit i = .ok share := by
    intro i
    obtain ⟨o, ho⟩ := orderByOf_ne_error hvalid i
    unfold shareOf
    split
    · exact ⟨none, rfl⟩
    · exact ⟨_, by rw [ho]; rfl⟩
  obtain ⟨shares, hshares⟩ := exists_forall₂ fun i (_ : i ∈ List.range s.sources.length) => hshare i
  obtain ⟨taken, hrest⟩ : ∃ taken, (do
      let shares ← (List.range s.sources.length).mapM (s.shareOf settings.selectLimit)
      return { shares
               remainingQuery := s.remainingQuery
               remainingOrderBy := s.remainingOrderBy
               firstKeys := (List.range s.sources.length).map s.firstKeyOf?
               limit := s.limitOr settings.selectLimit : Split }) = .ok taken := by
    rw [Except.mapM_eq_ok.2 hshares]
    exact ⟨_, rfl⟩
  refine ⟨taken, Except.bind_eq_ok.2 ⟨(), hcheck, ?_⟩⟩
  cases ho : s.select.orderBy with
  | none => exact hrest
  | some o => exact Except.bind_eq_ok.2 ⟨(), hvalid o ho, hrest⟩

/-! ### What is asked of a table -/

/-- Every table is asked for the parts of an expression that it supplies. -/
def Asks (s : Statement) (default : UInt64) (e : Expr) : Prop :=
  ∀ i q, s.shareOf default i = .ok (some q) → ∀ p ∈ e.parts, s.tablePosition? p.1 = some i →
    p.2.same p.2 = true → ∃ m ∈ q.required, (m == p.2) = true

variable {default : UInt64}

/-- The tables are asked for the outputs and for what remains. -/
theorem asks_of_mem {e : Expr} (he : e ∈ s.select.outputs ++ s.joinExprs) : s.Asks default e := by
  intro i q hshare p hp hi hself
  obtain ⟨houtputs, -, -, -, hjoin⟩ := shareOf_eq_ok hshare
  unfold TableQuery.required
  rw [houtputs, hjoin]
  rcases List.mem_append.1 he with he | he
  · obtain ⟨m, hm, hsame⟩ := mem_partsOf_of_part he hp hi hself
    exact ⟨m, List.mem_append_left _ (List.mem_append_left _ hm), hsame⟩
  · obtain ⟨m, hm, hsame⟩ := mem_partsOf_of_part he hp hi hself
    exact ⟨m, List.mem_append_left _ (List.mem_append_right _ hm), hsame⟩

/-- The tables are asked for the conjuncts that remain. -/
theorem asks_conjunct {c : Expr} (hc : c ∈ s.remainingConjuncts) (hsole : c.soleRelation? = none) :
    s.Asks default c := by
  intro i q hshare p hp hi hself
  cases hquery : s.remainingQuery with
  | none =>
    rw [remainingQuery, Expr.conjoin?_eq_none_iff] at hquery
    rw [hquery] at hc
    cases hc
  | some query =>
    have hmem : query ∈ s.select.outputs ++ s.joinExprs := by simp [joinExprs, hquery]
    exact asks_of_mem hmem i q hshare p (Expr.parts_subset_conjoin? hquery hc hsole hp) hi hself

/-- If no key remains, the table that a key refers to has it in its order by. -/
theorem exists_mem_keys_of_orderByOf {i : Nat} {o : OrderBy} (ho : s.select.orderBy = some o)
    (hnone : s.remainingOrderBy = none) {k : Nat} {key : Expr} (hkey : o.keys[k]? = some key)
    (hhome : s.home? key = some i) {given : Option OrderBy} (h : s.orderByOf i = .ok given) :
    ∃ sub ∈ given, key ∈ sub.keys := by
  have hk : k ∈ s.keysOf i := by
    rw [mem_keysOf, keyHomes, List.getElem?_map, sortKeys, ho, hkey, Option.map_some, hhome]
  unfold orderByOf at h
  rw [ho, hnone] at h
  obtain ⟨n, hn, rfl⟩ := List.mem_iff_getElem.1 hk
  cases hkeys : s.keysOf i with
  | nil => simp [hkeys] at hn
  | cons first rest =>
    simp only [hkeys] at h hn hkey
    split at h
    · rename_i sub hsub
      have hspec := OrderBy.keys_of_subset? hsub
      have hget := hspec.get hn (hspec.length_eq ▸ hn)
      rw [List.get_eq_getElem, List.get_eq_getElem, hkey] at hget
      refine ⟨sub, (Except.ok.inj h).symm, ?_⟩
      rw [Option.some.inj hget]
      exact List.getElem_mem _
    · cases h

/-- The keys at the positions that are given to a table are asked of it. -/
theorem mem_required_of_key {i : Nat} {q : TableQuery} (hshare : s.shareOf default i = .ok (some q))
    {o : OrderBy} (ho : s.select.orderBy = some o) (hnone : s.remainingOrderBy = none) {k : Nat}
    {key : Expr} (hkey : o.keys[k]? = some key) (hhome : s.home? key = some i) :
    key ∈ q.required := by
  obtain ⟨sub, hsub, hmem⟩ :=
    exists_mem_keys_of_orderByOf ho hnone hkey hhome (shareOf_eq_ok hshare).2.2.1
  unfold TableQuery.required
  rw [Option.mem_def.1 hsub]
  exact List.mem_append_right _ hmem

/-- If no key remains, the tables are asked for the keys. -/
theorem asks_key {o : OrderBy} (ho : s.select.orderBy = some o) (hnone : s.remainingOrderBy = none)
    {key : Expr} (hkey : key ∈ o.keys) : s.Asks default key := by
  intro i q hshare p hp hi hself
  have hseparate : s.keysSeparate = true := by
    by_contra hnot
    rw [remainingOrderBy, if_neg hnot, ho] at hnone
    cases hnone
  rw [keysSeparate, Bool.and_eq_true, List.all_eq_true] at hseparate
  have hhome : ((s.home? key).bind s.tableAt?).isSome = true := by
    refine hseparate.1 _ (List.mem_map_of_mem ?_)
    rwa [sortKeys, ho]
  -- a key of one source is its only part
  cases hsole : key.soleRelation? with
  | none => simp [home?, hsole] at hhome
  | some name =>
    rw [Expr.parts_of_soleRelation? hsole] at hp
    obtain rfl := List.mem_singleton.1 hp
    obtain ⟨k, hk⟩ := List.mem_iff_getElem?.1 hkey
    refine ⟨key, mem_required_of_key hshare ho hnone hk ?_, hself⟩
    rw [home?, hsole]
    exact (Option.filter_eq_some_iff.1 hi).1

end Statement

end ShardJoin
