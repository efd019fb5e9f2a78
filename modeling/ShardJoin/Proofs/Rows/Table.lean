/-
Rows of tables, and rows of the sources of a statement joined.

A row of a table has a datum for every column.  A joined row has a row of each
source, together with the position of the source; references find their source
by name.

* `Statement.eval_env` — an expression over one source needs the row of that
  source only;
* `joinedRows_filter`, `joinedRows_take_congr` — rows that are dropped before or
  after joining.
-/
import ShardJoin.Proofs.Expr.Resolution
import ShardJoin.Proofs.Rows.Choices
import ShardJoin.Split

namespace ShardJoin

variable {α : Type}

/-- A row of a table: the datum of every column, by name. -/
abbrev TableRow (α : Type) : Type := String → Datum α

/-- A row of every source, each with the position of its source. -/
abbrev JoinedRow (α : Type) : Type := List (Nat × TableRow α)

/-- What references to the columns of one table stand for. -/
def TableRow.env (row : TableRow α) : Env α where
  column r := row r.column
  column_same h := by rw [ColumnRef.column_eq_of_same h]
  input _ := .null

/-- What references to the columns of all sources stand for. -/
def Statement.env (s : Statement) (joint : JoinedRow α) : Env α where
  column r :=
    match (s.position? r.relation).bind (List.lookup · joint) with
    | some row => row r.column
    | none => .null
  column_same h := by
    rw [ColumnRef.column_eq_of_same h, ColumnRef.relation_eq_of_same h]
  input _ := .null

namespace Statement

/-- An expression over one source needs the row of that source only. -/
theorem eval_env (ι : Interpretation α) (s : Statement) {joint : JoinedRow α} {i : Nat}
    {row : TableRow α} (hrow : joint.lookup i = some row) {e : Expr}
    (he : ∀ r ∈ e.references, s.position? r.relation = some i) :
    e.eval ι (s.env joint) = e.eval ι row.env := by
  refine Expr.eval_congr ι (fun r hr => ?_) fun _ _ => rfl
  change (match (s.position? r.relation).bind (List.lookup · joint) with
    | some row => row r.column
    | none => .null) = row r.column
  rw [he r hr, Option.bind_some, hrow]

theorem position?_of_home? {s : Statement} {e : Expr} {i : Nat} (h : s.home? e = some i) :
    ∀ r ∈ e.references, s.position? r.relation = some i := by
  obtain ⟨name, hname, hi⟩ := Option.bind_eq_some_iff.1 h
  intro r hr
  rw [(Expr.soleRelation?_eq_some.1 hname).2 r hr]
  exact hi

theorem home?_of_owner? {s : Statement} {e : Expr} {i : Nat} (h : s.owner? e = some i) :
    s.home? e = some i := by
  obtain ⟨name, hname, hi⟩ := Option.bind_eq_some_iff.1 h
  exact Option.bind_eq_some_iff.2 ⟨name, hname, (Option.filter_eq_some_iff.1 hi).1⟩

end Statement

/-! ### Joining rows -/

/-- The rows of some sources joined by nested loops, the first source in the outermost one. -/
def joinedRows (rows : Nat → List (TableRow α)) (order : List Nat) : List (JoinedRow α) :=
  choices (order.map fun i => (rows i).map (i, ·))

theorem mem_joinedRows {rows : Nat → List (TableRow α)} {order : List Nat} {joint : JoinedRow α}
    (h : joint ∈ joinedRows rows order) :
    joint.map (·.1) = order ∧ ∀ p ∈ joint, p.2 ∈ rows p.1 := by
  have hmem := mem_choices.1 h
  clear h
  induction order generalizing joint with
  | nil =>
    cases hmem
    simp
  | cons i order ih =>
    cases hmem with
    | cons ha hrest =>
      obtain ⟨row, hrow, rfl⟩ := List.mem_map.1 ha
      obtain ⟨hmap, hall⟩ := ih hrest
      exact ⟨by rw [List.map_cons, hmap], List.forall_mem_cons.2 ⟨hrow, hall⟩⟩

/-- In a joined row every source has the row that stands beside its position. -/
theorem lookup_of_mem {joint : JoinedRow α} (hnodup : (joint.map (·.1)).Nodup) {i : Nat}
    {row : TableRow α} (h : (i, row) ∈ joint) : joint.lookup i = some row := by
  induction joint with
  | nil => cases h
  | cons p joint ih =>
    obtain ⟨j, row'⟩ := p
    rw [List.map_cons, List.nodup_cons] at hnodup
    rw [List.lookup_cons]
    rcases List.mem_cons.1 h with heq | hmem
    · obtain ⟨rfl, rfl⟩ := Prod.mk.inj heq
      simp
    · have hne : (i == j) = false := by
        rw [beq_eq_false_iff_ne]
        rintro rfl
        exact hnodup.1 (List.mem_map.2 ⟨_, hmem, rfl⟩)
      rw [hne]
      exact ih hnodup.2 hmem

/-- Rows can be dropped before or after joining. -/
theorem joinedRows_filter (p : Nat → TableRow α → Bool) (rows : Nat → List (TableRow α))
    (order : List Nat) :
    joinedRows (fun i => (rows i).filter (p i)) order =
      (joinedRows rows order).filter (·.all fun x => p x.1 x.2) := by
  unfold joinedRows
  rw [← choices_filter, List.map_map]
  refine congrArg _ (List.map_congr_left fun i _ => ?_)
  rw [Function.comp_apply, List.filter_map]
  rfl

/-- Without rows of one table there are no joined rows. -/
theorem joinedRows_eq_nil {rows : Nat → List (TableRow α)} {order : List Nat} {i : Nat}
    (hi : i ∈ order) (hrows : rows i = []) : joinedRows rows order = [] := by
  rw [joinedRows, choices_eq_nil_iff, List.mem_map]
  exact ⟨i, hi, by rw [hrows, List.map_nil]⟩

/-- The first joined rows only need the first rows of each source. -/
theorem joinedRows_take_congr {n : Nat} {rows rows' : Nat → List (TableRow α)} {order : List Nat}
    (h : ∀ i ∈ order, (rows i).take n = (rows' i).take n) :
    (joinedRows rows order).take n = (joinedRows rows' order).take n := by
  refine choices_take_congr ?_
  rw [List.map_map, List.map_map]
  refine List.map_congr_left fun i hi => ?_
  rw [Function.comp_apply, Function.comp_apply, ← List.map_take, ← List.map_take, h i hi]

end ShardJoin
