/-
The parts of an expression as a tiling.

A part stands at a place of the expression: it refers to exactly one relation,
and nothing larger that it lies in does.  The listed parts are all of them from
left to right; no two overlap, and every reference lies in one of them.

* `Expr.IsPartAt` — what a part is, said place by place and without the
  function that lists them;
* `Expr.exists_tiling` — the listed parts stand at places from left to right,
  and there are no others;
* `Expr.flatMap_references_parts` — their references, one part after another,
  are those of the expression.

Whether a call is a part depends on all that it refers to, so a call is either
a part as a whole, and then nothing below it is one, or its parts are those of
its arguments.  Literals and input columns refer to nothing: they go with the
part that they lie in and are never one by themselves.
-/
import ShardJoin.Proofs.Expr.Coverage

namespace ShardJoin.Expr

/-! ### Places from left to right -/

/-- Where the two places part, the first goes on to an earlier argument. -/
def LeftOf (a b : List Nat) : Prop :=
  ∃ fork i j, i < j ∧ fork ++ [i] <+: a ∧ fork ++ [j] <+: b

/-- What stands at one place and what stands at the other have no place in common. -/
def Apart (a b : List Nat) : Prop := ∀ place, a <+: place → ¬b <+: place

theorem LeftOf.cons {a b : List Nat} (h : LeftOf a b) (k : Nat) : LeftOf (k :: a) (k :: b) := by
  obtain ⟨fork, i, j, hij, ha, hb⟩ := h
  exact ⟨k :: fork, i, j, hij, List.cons_prefix_cons.2 ⟨rfl, ha⟩,
    List.cons_prefix_cons.2 ⟨rfl, hb⟩⟩

theorem leftOf_cons_of_lt {i j : Nat} (h : i < j) (a b : List Nat) : LeftOf (i :: a) (j :: b) :=
  ⟨[], i, j, h, List.cons_prefix_cons.2 ⟨rfl, List.nil_prefix⟩,
    List.cons_prefix_cons.2 ⟨rfl, List.nil_prefix⟩⟩

theorem LeftOf.apart {a b : List Nat} (h : LeftOf a b) : Apart a b := by
  obtain ⟨fork, i, j, hij, ha, hb⟩ := h
  intro place hplace hplace'
  -- below both, the two ways on from the fork would be the same
  have hprefix : fork ++ [i] <+: fork ++ [j] :=
    List.prefix_of_prefix_length_le (ha.trans hplace) (hb.trans hplace') (by simp)
  have heq : fork ++ [i] = fork ++ [j] := hprefix.eq_of_length (by simp)
  simp only [List.append_cancel_left_eq, List.cons.injEq, and_true] at heq
  omega

/-- What is listed stands, one after another, at places from left to right, and nothing stands at
any other place. -/
structure Tiling {β : Type} (Stands : List Nat → β → Prop) (listed : List β)
    (places : List (List Nat)) : Prop where
  stands : List.Forall₂ Stands places listed
  leftToRight : places.Pairwise LeftOf
  mem_iff : ∀ path, path ∈ places ↔ ∃ b, Stands path b

/-- Tilings of the arguments of a call, counted from some number on, make up one of them all. -/
theorem exists_tiling_flatMap {β : Type} {Stands : Expr → List Nat → β → Prop}
    {list : Expr → List β} {args : List Expr}
    (h : ∀ a ∈ args, ∃ places, Tiling (Stands a) (list a) places) (k : Nat) :
    ∃ places, Tiling
      (fun path b => ∃ x ∈ args.zipIdx k, ∃ rest, path = x.2 :: rest ∧ Stands x.1 rest b)
      (args.flatMap list) places := by
  induction args generalizing k with
  | nil => exact ⟨[], .nil, .nil, by simp⟩
  | cons a args ih =>
    obtain ⟨⟨first, hfirst⟩, hargs⟩ := List.forall_mem_cons.1 h
    obtain ⟨others, hothers⟩ := ih hargs (k + 1)
    refine ⟨first.map (k :: ·) ++ others, ?_, ?_, fun path => ?_⟩
    · refine List.rel_append (List.forall₂_map_left_iff.2 (hfirst.stands.imp ?_))
        (hothers.stands.imp ?_)
      · exact fun path b hb => ⟨(a, k), by simp, path, rfl, hb⟩
      · rintro path b ⟨x, hx, hb⟩
        exact ⟨x, List.mem_cons_of_mem _ hx, hb⟩
    · refine List.pairwise_append.2 ⟨List.pairwise_map.2 (hfirst.leftToRight.imp fun h => h.cons k),
        hothers.leftToRight, fun path hpath path' hpath' => ?_⟩
      obtain ⟨rest, -, rfl⟩ := List.mem_map.1 hpath
      obtain ⟨b, x, hx, rest', rfl, -⟩ := (hothers.mem_iff path').1 hpath'
      exact leftOf_cons_of_lt (List.le_snd_of_mem_zipIdx hx) rest rest'
    · rw [List.mem_append, hothers.mem_iff, List.zipIdx_cons]
      constructor
      · rintro (hpath | ⟨b, x, hx, hb⟩)
        · obtain ⟨rest, hrest, rfl⟩ := List.mem_map.1 hpath
          obtain ⟨b, hb⟩ := (hfirst.mem_iff rest).1 hrest
          exact ⟨b, (a, k), List.mem_cons_self, rest, rfl, hb⟩
        · exact ⟨b, x, List.mem_cons_of_mem _ hx, hb⟩
      · rintro ⟨b, x, hx, rest, rfl, hb⟩
        rcases List.mem_cons.1 hx with rfl | hx
        · exact .inl (List.mem_map_of_mem ((hfirst.mem_iff rest).2 ⟨b, hb⟩))
        · exact .inr ⟨b, x, hx, rest, rfl, hb⟩

/-! ### Parts -/

/-- At a place stands a part: it refers to exactly one relation, that of the part, and nothing in
which it lies does. -/
structure IsPartAt (e : Expr) (path : List Nat) (p : RelationName × Expr) : Prop where
  stands : e.at? path = some p.2
  relations : p.2.relations = [p.1]
  largest : ∀ above t, above <+: path → above ≠ path → e.at? above = some t →
    ∀ name, t.relations ≠ [name]

/-- An expression that refers to exactly one relation is its only part. -/
theorem isPartAt_iff_of_relations {e : Expr} {name : RelationName} (h : e.relations = [name])
    {path : List Nat} {p : RelationName × Expr} :
    e.IsPartAt path p ↔ path = [] ∧ p = (name, e) := by
  constructor
  · intro hp
    cases path with
    | nil =>
      have hstands := hp.stands
      rw [at?_nil, Option.some.injEq] at hstands
      have hname := hp.relations
      rw [← hstands, h, List.cons.injEq] at hname
      exact ⟨rfl, Prod.ext hname.1.symm hstands.symm⟩
    | cons i path =>
      exact absurd h (hp.largest [] e List.nil_prefix (List.cons_ne_nil _ _).symm (at?_nil e) name)
  · rintro ⟨rfl, rfl⟩
    exact ⟨at?_nil e, h, fun above t hprefix hne => absurd (List.prefix_nil.1 hprefix) hne⟩

/-- If a call refers to no relation or to several, what lies in an argument is a part of the call
exactly if it is one of the argument. -/
theorem isPartAt_cons_iff {fn : FunctionInfo} {args : List Expr}
    (hcall : ∀ name, (Expr.call fn args).relations ≠ [name]) {i : Nat} {a : Expr}
    (hi : args[i]? = some a) {path : List Nat} {p : RelationName × Expr} :
    (Expr.call fn args).IsPartAt (i :: path) p ↔ a.IsPartAt path p := by
  have hat : ∀ path, (Expr.call fn args).at? (i :: path) = a.at? path := fun path => by
    rw [at?_call_cons, hi, Option.bind_some]
  constructor
  · intro h
    refine ⟨(hat path).symm.trans h.stands, h.relations, fun above t hprefix hne ht => ?_⟩
    exact h.largest (i :: above) t (List.cons_prefix_cons.2 ⟨rfl, hprefix⟩) (by simpa using hne)
      ((hat above).trans ht)
  · intro h
    refine ⟨(hat path).trans h.stands, h.relations, ?_⟩
    rintro (_ | ⟨j, above⟩) t hprefix hne ht
    · obtain rfl : Expr.call fn args = t := by simpa using ht
      exact hcall
    · obtain ⟨rfl, hbelow⟩ := List.cons_prefix_cons.1 hprefix
      exact h.largest above t hbelow (by simpa using hne) ((hat above).symm.trans ht)

/-- The parts of such a call are those of its arguments. -/
theorem isPartAt_call_iff {fn : FunctionInfo} {args : List Expr}
    (hcall : ∀ name, (Expr.call fn args).relations ≠ [name]) {path : List Nat}
    {p : RelationName × Expr} :
    (Expr.call fn args).IsPartAt path p ↔
      ∃ x ∈ args.zipIdx, ∃ rest, path = x.2 :: rest ∧ x.1.IsPartAt rest p := by
  constructor
  · intro h
    cases path with
    | nil =>
      have hstands := h.stands
      rw [at?_nil, Option.some.injEq] at hstands
      exact absurd (hstands ▸ h.relations) (hcall p.1)
    | cons i rest =>
      have hstands := h.stands
      rw [at?_call_cons] at hstands
      obtain ⟨a, hi, -⟩ := Option.bind_eq_some_iff.1 hstands
      exact ⟨(a, i), List.mem_zipIdx_iff_getElem?.2 hi, rest, rfl, (isPartAt_cons_iff hcall hi).1 h⟩
  · rintro ⟨⟨a, i⟩, hx, rest, rfl, h⟩
    exact (isPartAt_cons_iff hcall (List.mem_zipIdx_iff_getElem?.1 hx)).2 h

theorem relations_ne_of_soleRelation? {e : Expr} (h : e.soleRelation? = none)
    (name : RelationName) : e.relations ≠ [name] := by
  intro hname
  rw [relations_eq_singleton_iff, h] at hname
  cases hname

/-- An expression without arguments and references has no parts. -/
theorem tiling_of_leaf {e : Expr} (hleaf : ∀ i path, e.at? (i :: path) = none)
    (h : e.references = []) : Tiling e.IsPartAt e.parts [] := by
  rw [parts_eq_nil h]
  refine ⟨.nil, .nil, fun path => iff_of_false List.not_mem_nil ?_⟩
  rintro ⟨p, hp⟩
  have hstands := hp.stands
  cases path with
  | nil =>
    rw [at?_nil, Option.some.injEq] at hstands
    have hsole := relations_eq_singleton_iff.1 hp.relations
    rw [← hstands, soleRelation?_eq_some] at hsole
    exact hsole.1 h
  | cons i path =>
    rw [hleaf] at hstands
    cases hstands

theorem tiling_of_soleRelation? {e : Expr} {name : RelationName} (h : e.soleRelation? = some name) :
    Tiling e.IsPartAt e.parts [[]] := by
  have hiff : ∀ path p, e.IsPartAt path p ↔ path = [] ∧ p = (name, e) := fun _ _ =>
    isPartAt_iff_of_relations (relations_eq_singleton_iff.2 h)
  rw [parts_of_soleRelation? h]
  refine ⟨.cons ((hiff _ _).2 ⟨rfl, rfl⟩) .nil, List.pairwise_singleton _ _, fun path => ?_⟩
  rw [List.mem_singleton]
  exact ⟨fun hpath => ⟨_, (hiff _ _).2 ⟨hpath, rfl⟩⟩, fun ⟨_, hp⟩ => ((hiff _ _).1 hp).1⟩

/-- The parts of an expression stand at places from left to right, and there are no others. -/
theorem exists_tiling (e : Expr) : ∃ places, Tiling e.IsPartAt e.parts places := by
  induction e using induct with
  | column r =>
    have hsole : (Expr.column r).soleRelation? = some r.relation := by
      simp [soleRelation?, references]
    exact ⟨_, tiling_of_soleRelation? hsole⟩
  | literal v t => exact ⟨[], tiling_of_leaf (fun _ _ => rfl) rfl⟩
  | input c => exact ⟨[], tiling_of_leaf (fun _ _ => rfl) rfl⟩
  | call fn args ih =>
    cases hsole : (Expr.call fn args).soleRelation? with
    | some name => exact ⟨_, tiling_of_soleRelation? hsole⟩
    | none =>
      obtain ⟨places, hstands, hleft, hmem⟩ := exists_tiling_flatMap ih 0
      have hiff : ∀ path p, (Expr.call fn args).IsPartAt path p ↔
          ∃ x ∈ args.zipIdx, ∃ rest, path = x.2 :: rest ∧ x.1.IsPartAt rest p := fun _ _ =>
        isPartAt_call_iff (relations_ne_of_soleRelation? hsole)
      refine ⟨places, ?_, hleft, fun path => ?_⟩
      · rw [parts, hsole, partsAll_eq]
        exact hstands.imp fun path p => (hiff path p).2
      · simpa only [hiff] using hmem path

/-- The references of the parts, one part after another, are those of the expression. -/
theorem flatMap_references_parts (e : Expr) : e.parts.flatMap (·.2.references) = e.references := by
  induction e using induct with
  | column r => simp [parts, references]
  | literal v t => rfl
  | input c => rfl
  | call fn args ih =>
    cases hsole : (Expr.call fn args).soleRelation? with
    | some name => simp [parts, hsole]
    | none =>
      rw [parts, hsole, partsAll_eq, List.flatMap_assoc, references, referencesAll_eq]
      exact List.flatMap_congr ih

/-- The listed parts of an expression are all of its parts from left to right, no two of them
overlap, and no reference is left out or taken twice. -/
structure TiledByParts (e : Expr) : Prop where
  places : ∃ places, Tiling e.IsPartAt e.parts places ∧ places.Pairwise Apart
  references : e.parts.flatMap (·.2.references) = e.references

theorem tiledByParts (e : Expr) : e.TiledByParts := by
  obtain ⟨places, htiling⟩ := exists_tiling e
  exact ⟨⟨places, htiling, htiling.leftToRight.imp LeftOf.apart⟩, flatMap_references_parts e⟩

end ShardJoin.Expr
