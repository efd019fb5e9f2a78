/-
A valid merge stage cannot go wrong.

Rows carry the types of their columns, and every read is checked: an input
column that the row does not have, or has at another type, is a fault.  What
literals, functions and stored columns stand for is left open, as long as it
has the type that they are declared with.

* `Projection.runOn`, `MergeStage.runOn` — projections on rows of typed cells,
  with checked reads;
* `Reads` — a computation that reads given columns in their order: it fails at
  the first one that does not fit the row, and gives a result if all of them do;
* `Projection.reads_runOn` — a projection reads its input columns, no others,
  and gives rows of its output types;
* `MergeStage.validate_sound` — a valid stage turns rows of its input types into
  rows of its output types; in any other stage a fetch is followed by another
  projection, or a projection fails on all rows that those before it can give.
-/
import Mathlib.Data.List.Forall2
import ShardJoin.Proofs.Plan.Typing

namespace ShardJoin

/-! ### Typed rows and checked reads -/

/-- A value in a row, with the type of its column. -/
structure Cell (β : Type) where
  type : DataType
  value : β

/-- What the parts of expressions stand for, in values that have types.  Types are only known up
to dictionary bookkeeping. -/
structure TypedSemantics (β : Type) where
  HasType : DataType → β → Prop
  hasType_same : ∀ {t u : DataType} {b : β}, (t == u) = true → HasType t b → HasType u b
  /-- The value of a literal at the type that it is declared with.  Most types have no kind of
  literal values of their own. -/
  literal : Value → DataType → β
  hasType_literal : ∀ v t, HasType t (literal v t)
  apply : FunctionInfo → List β → β
  hasType_apply : ∀ fn {types args}, List.Forall₂ HasType types args →
    HasType fn.returnType (apply fn args)
  /-- The value of a column outside the row.  A fetch reads it by the row ids of its relations. -/
  stored : List (RelationName × β) → ColumnRef → β
  hasType_stored : ∀ {types ids} r, List.Forall₂ HasType types (ids.map Prod.snd) →
    HasType r.type (stored ids r)
  /-- Whether a filter keeps a row on which its query has the given value. -/
  passes : β → Bool
  /-- Whether a row with the first keys may go before a row with the second ones. -/
  before : OrderBy → List β → List β → Bool

/-- Every type has one value, the type itself. -/
def TypedSemantics.ofTypes : TypedSemantics DataType where
  HasType t b := (b == t) = true
  hasType_same h hb := DataType.same_trans hb h
  literal _ t := t
  hasType_literal _ _ := BEq.rfl
  apply fn _ := fn.returnType
  hasType_apply _ _ _ _ := BEq.rfl
  stored _ r := r.type
  hasType_stored _ _ := BEq.rfl
  passes _ := true
  before _ _ _ := true

variable {α β γ : Type}

/-- The row has columns of the given types, one by one, and they hold values of these types. -/
def TypedSemantics.RowHas (S : TypedSemantics β) (types : List DataType) (row : List (Cell β)) :
    Prop :=
  List.Forall₂ (fun t cell => cell.type = t ∧ S.HasType t cell.value) types row

/-- There are rows of all types. -/
theorem TypedSemantics.rowHas_ofTypes (types : List DataType) :
    ofTypes.RowHas types (types.map fun t => ⟨t, t⟩) := by
  rw [RowHas, List.forall₂_map_right_iff, List.forall₂_same]
  exact fun t _ => ⟨rfl, BEq.rfl⟩

/-- The value of an input column.  It is a fault if the row does not have the column or has it at
another type. -/
def readColumn (row : List (Cell β)) (c : InputColumn) : Except InputColumn β :=
  match row[c.index]? with
  | some cell => if cell.type == c.type then .ok cell.value else .error c
  | none => .error c

namespace Expr

mutual
/-- The value of an expression on a row, by checked reads. -/
def valueOn (S : TypedSemantics β) (ids : List (RelationName × β)) (row : List (Cell β)) :
    Expr → Except InputColumn β
  | .column r => .ok (S.stored ids r)
  | .call fn args => do return S.apply fn (← valuesOn S ids row args)
  | .literal v t => .ok (S.literal v t)
  | .input c => readColumn row c

/-- The values of a list of expressions on a row, by checked reads. -/
def valuesOn (S : TypedSemantics β) (ids : List (RelationName × β)) (row : List (Cell β)) :
    List Expr → Except InputColumn (List β)
  | [] => .ok []
  | e :: es => do return (← e.valueOn S ids row) :: (← valuesOn S ids row es)
end

theorem valuesOn_eq (S : TypedSemantics β) (ids : List (RelationName × β)) (row : List (Cell β))
    (es : List Expr) : valuesOn S ids row es = es.mapM (valueOn S ids row) := by
  induction es with
  | nil => rfl
  | cons e es ih => rw [valuesOn, ih, List.mapM_cons]

end Expr

/-- The row of some expressions on a row. -/
def emitOn (S : TypedSemantics β) (ids : List (RelationName × β)) (outputs : List Expr)
    (row : List (Cell β)) : Except InputColumn (List (Cell β)) :=
  outputs.mapM fun e => do return ⟨e.type, ← e.valueOn S ids row⟩

/-- The expressions to sort by, if there is an order. -/
def OrderBy.keysOf : Option OrderBy → List Expr
  | some o => o.keys
  | none => []

namespace Projection

variable (S : TypedSemantics β)

/-- A row with the value of the query of a filter. -/
def markRow (query : Expr) (row : List (Cell β)) : Except InputColumn (List (Cell β) × β) := do
  return (row, ← query.valueOn S [] row)

/-- What a top-n emits for a row, with the keys to sort by. -/
def rankRow (orderBy : Option OrderBy) (outputs : List Expr) (row : List (Cell β)) :
    Except InputColumn (List (Cell β) × List β) := do
  return (← emitOn S [] outputs row, ← Expr.valuesOn S [] row (OrderBy.keysOf orderBy))

/-- What a fetch emits for a row: it finds the row ids first. -/
def hydrateRow (f : Fetch) (row : List (Cell β)) : Except InputColumn (List (Cell β)) := do
  let ids ← f.docIdColumns.mapM fun x => do return (x.1, ← readColumn row x.2)
  emitOn S ids f.outputs row

/-- Rows with their keys in the order that is asked for. -/
def rank (orderBy : Option OrderBy) (rows : List (List (Cell β) × List β)) :
    List (List (Cell β) × List β) :=
  match orderBy with
  | some o => rows.mergeSort fun a b => S.before o a.2 b.2
  | none => rows

/-- What a projection makes of its rows, by checked reads.  A top-n computes keys and outputs of
all rows before it sorts them. -/
def runOn (rows : List (List (Cell β))) : Projection → Except InputColumn (List (List (Cell β)))
  | .filter query => do
    return ((← rows.mapM (markRow S query)).filter fun x => S.passes x.2).map Prod.fst
  | .topN limit offset orderBy outputs => do
    let ranked := rank S orderBy (← rows.mapM (rankRow S orderBy outputs))
    return ((ranked.drop offset.toNat).take limit.toNat).map Prod.fst
  | .fetch f => rows.mapM (hydrateRow S f)
  | .nestedLoopMerge outputs => rows.mapM (emitOn S [] outputs)

/-- A projection fails to read a column, whatever rows of the given types it receives. -/
def FailsAt (types : List DataType) (p : Projection) (c : InputColumn) : Prop :=
  ∀ {β : Type} (S : TypedSemantics β) (rows : List (List (Cell β))), rows ≠ [] →
    (∀ row ∈ rows, S.RowHas types row) → p.runOn S rows = .error c

end Projection

/-- What a merge stage makes of its rows, by checked reads. -/
def MergeStage.runOn (S : TypedSemantics β) (stage : MergeStage) (rows : List (List (Cell β))) :
    Except InputColumn (List (List (Cell β))) :=
  stage.projections.foldlM (Projection.runOn S) rows

/-! ### Computations that read columns -/

/-- Whether a row of the given types does not have a column at its type. -/
def InputColumn.misfits (types : List DataType) (c : InputColumn) : Bool :=
  match types[c.index]? with
  | some t => !(t == c.type)
  | none => true

theorem InputColumn.misfits_eq_false {types : List DataType} {c : InputColumn} :
    c.misfits types = false ↔ c.FitsIn types := by
  unfold misfits FitsIn
  cases types[c.index]? <;> simp

/-- The computation reads columns of a row of the given types in their order.  It fails at the
first one that does not fit the row; if all of them do, it gives a result. -/
def Reads (types : List DataType) (columns : List InputColumn) (x : Except InputColumn α)
    (P : α → Prop) : Prop :=
  match columns.find? (InputColumn.misfits types) with
  | some c => x = .error c
  | none => ∃ a, x = .ok a ∧ P a

namespace Reads

variable {types : List DataType} {columns rest : List InputColumn} {x : Except InputColumn α}
  {P : α → Prop} {Q : γ → Prop}

theorem ok {a : α} (h : P a) : Reads types [] (.ok a) P := ⟨a, rfl, h⟩

theorem gives (h : Reads types columns x P) (hfits : ∀ c ∈ columns, c.FitsIn types) :
    ∃ a, x = .ok a ∧ P a := by
  have hnone : columns.find? (InputColumn.misfits types) = none :=
    List.find?_eq_none.2 fun c hc => by simp [InputColumn.misfits_eq_false.2 (hfits c hc)]
  rwa [Reads, hnone] at h

theorem fails (h : Reads types columns x P) {c : InputColumn}
    (hc : columns.find? (InputColumn.misfits types) = some c) : x = .error c := by
  rwa [Reads, hc] at h

theorem mono {P' : α → Prop} (h : Reads types columns x P) (hP : ∀ a, P a → P' a) :
    Reads types columns x P' := by
  unfold Reads at h ⊢
  split
  · simpa only [*] using h
  · obtain ⟨a, ha, hPa⟩ : ∃ a, x = .ok a ∧ P a := by simpa only [*] using h
    exact ⟨a, ha, hP a hPa⟩

/-- One computation after another reads the columns of both. -/
theorem bind {f : α → Except InputColumn γ} (h : Reads types columns x P)
    (hf : ∀ a, P a → Reads types rest (f a) Q) : Reads types (columns ++ rest) (x >>= f) Q := by
  rw [Reads, List.find?_append]
  cases hc : columns.find? (InputColumn.misfits types) with
  | some c =>
    rw [h.fails hc]
    rfl
  | none =>
    rw [Reads, hc] at h
    obtain ⟨a, rfl, ha⟩ := h
    exact hf a ha

theorem map {f : α → γ} (h : Reads types columns x P) (hf : ∀ a, P a → Q (f a)) :
    Reads types columns (do return f (← x)) Q := by
  have hbind : Reads types (columns ++ []) (do return f (← x)) Q := h.bind fun a ha => ok (hf a ha)
  rwa [List.append_nil] at hbind

/-- Items that are computed one by one read the columns of all of them. -/
theorem mapM {items : List α} {reads : α → List InputColumn} {f : α → Except InputColumn γ}
    {R : α → γ → Prop} (h : ∀ a ∈ items, Reads types (reads a) (f a) (R a)) :
    Reads types (items.flatMap reads) (items.mapM f) (List.Forall₂ R items) := by
  induction items with
  | nil => exact ok .nil
  | cons a items ih =>
    rw [List.forall_mem_cons] at h
    rw [List.mapM_cons, List.flatMap_cons]
    exact h.1.bind fun b hb => (ih h.2).map fun bs hbs => .cons hb hbs

/-- Rows that are computed one by one read the same columns, which fit all of them or already
fail at the first one. -/
theorem mapM_rows {rows : List α} {f : α → Except InputColumn γ} (hne : rows ≠ [])
    (h : ∀ row ∈ rows, Reads types columns (f row) Q) :
    Reads types columns (rows.mapM f) (fun out => ∀ row ∈ out, Q row) := by
  induction rows with
  | nil => exact absurd rfl hne
  | cons row rows ih =>
    rw [List.forall_mem_cons] at h
    rw [Reads, List.mapM_cons]
    cases hc : columns.find? (InputColumn.misfits types) with
    | some c =>
      rw [h.1.fails hc]
      rfl
    | none =>
      obtain ⟨b, hb, hQ⟩ : ∃ b, f row = .ok b ∧ Q b := by simpa only [Reads, hc] using h.1
      have hrest : ∃ bs, rows.mapM f = .ok bs ∧ ∀ b ∈ bs, Q b := by
        cases rows with
        | nil => exact ⟨[], rfl, by simp⟩
        | cons row' rows => simpa only [Reads, hc] using ih (by simp) h.2
      obtain ⟨bs, hbs, hQs⟩ := hrest
      exact ⟨b :: bs, by rw [hb, hbs]; rfl, List.forall_mem_cons.2 ⟨hQ, hQs⟩⟩

end Reads

/-! ### Expressions -/

/-- Outside of fetches there are no row ids. -/
theorem TypedSemantics.noIds (S : TypedSemantics β) :
    List.Forall₂ S.HasType [] (([] : List (RelationName × β)).map Prod.snd) := .nil

namespace TypedSemantics.RowHas

variable {S : TypedSemantics β} {types : List DataType} {row : List (Cell β)}

/-- A row has a cell exactly where there is a type, and its value has this type. -/
theorem column (h : S.RowHas types row) (i : Nat) : types[i]? = row[i]?.map Cell.type ∧
    ∀ cell, row[i]? = some cell → S.HasType cell.type cell.value := by
  induction h generalizing i with
  | nil => simp
  | cons hcell _ ih =>
    obtain ⟨rfl, hvalue⟩ := hcell
    cases i with
    | zero => simpa using hvalue
    | succ i => simpa using ih i

/-- An input column is read at its type. -/
theorem reads_readColumn (h : S.RowHas types row) (c : InputColumn) :
    Reads types [c] (readColumn row c) (S.HasType c.type) := by
  obtain ⟨htypes, hvalues⟩ := h.column c.index
  rw [Reads, readColumn, List.find?_singleton, InputColumn.misfits, htypes]
  cases hcell : row[c.index]? with
  | none => rfl
  | some cell =>
    cases htype : cell.type == c.type with
    | false => simp [htype]
    | true =>
      simpa [htype] using S.hasType_same htype (hvalues cell hcell)

variable {ids : List (RelationName × β)} {idTypes : List DataType}

/-- An expression reads its input columns and has a value of its type. -/
theorem reads_valueOn (h : S.RowHas types row)
    (hids : List.Forall₂ S.HasType idTypes (ids.map Prod.snd)) (e : Expr) :
    Reads types e.inputs (e.valueOn S ids row) (S.HasType e.type) := by
  induction e using Expr.induct with
  | column r => exact .ok (S.hasType_stored r hids)
  | literal v t => exact .ok (S.hasType_literal v t)
  | input c => exact h.reads_readColumn c
  | call fn args ih =>
    rw [Expr.inputs, Expr.inputsAll_eq, Expr.valueOn, Expr.valuesOn_eq]
    refine (Reads.mapM ih).map fun values hvalues => ?_
    exact S.hasType_apply fn (List.forall₂_map_left_iff.2 hvalues)

theorem reads_valuesOn (h : S.RowHas types row)
    (hids : List.Forall₂ S.HasType idTypes (ids.map Prod.snd)) (es : List Expr) :
    Reads types (es.flatMap Expr.inputs) (Expr.valuesOn S ids row es)
      (List.Forall₂ (fun e => S.HasType e.type) es) := by
  rw [Expr.valuesOn_eq]
  exact Reads.mapM fun e _ => h.reads_valueOn hids e

/-- Outputs read their input columns and emit a row of their types. -/
theorem reads_emitOn (h : S.RowHas types row)
    (hids : List.Forall₂ S.HasType idTypes (ids.map Prod.snd)) (outputs : List Expr) :
    Reads types (outputs.flatMap Expr.inputs) (emitOn S ids outputs row)
      (S.RowHas (outputs.map Expr.type)) := by
  refine (Reads.mapM (R := fun e cell => cell.type = e.type ∧ S.HasType e.type cell.value)
    fun e _ => ?_).mono fun cells hcells => List.forall₂_map_left_iff.2 hcells
  exact (h.reads_valueOn hids e).map fun b hb => ⟨rfl, hb⟩

end TypedSemantics.RowHas

/-! ### Projections -/

namespace Projection

variable {S : TypedSemantics β} {types : List DataType} {rows : List (List (Cell β))}

/-- A top-n reads its outputs and then its keys. -/
theorem reads_rankRow (limit offset : UInt64) (orderBy : Option OrderBy) (outputs : List Expr)
    {row : List (Cell β)} (h : S.RowHas types row) :
    Reads types (Projection.topN limit offset orderBy outputs).inputColumns
      (rankRow S orderBy outputs row) (fun x => S.RowHas (outputs.map Expr.type) x.1) := by
  have hcolumns : (Projection.topN limit offset orderBy outputs).inputColumns =
      outputs.flatMap Expr.inputs ++ (OrderBy.keysOf orderBy).flatMap Expr.inputs := by
    cases orderBy <;> rfl
  rw [hcolumns]
  refine (h.reads_emitOn S.noIds outputs).bind fun out hout => ?_
  exact (h.reads_valuesOn S.noIds _).map fun keys _ => hout

/-- A fetch reads its row ids and then what it emits. -/
theorem reads_hydrateRow (f : Fetch) {row : List (Cell β)} (h : S.RowHas types row) :
    Reads types (Projection.fetch f).inputColumns (hydrateRow S f row)
      (S.RowHas (f.outputs.map Expr.type)) := by
  have hids : Reads types (f.docIdColumns.map (·.2))
      (f.docIdColumns.mapM fun x => do return (x.1, ← readColumn row x.2))
      (List.Forall₂ (fun x id => S.HasType x.2.type id.2) f.docIdColumns) := by
    rw [List.map_eq_flatMap]
    exact Reads.mapM fun x _ => (h.reads_readColumn x.2).map fun b hb => hb
  refine hids.bind fun ids hvalues => ?_
  have htyped : List.Forall₂ S.HasType (f.docIdColumns.map (·.2.type)) (ids.map Prod.snd) :=
    List.forall₂_map_left_iff.2 (List.forall₂_map_right_iff.2 hvalues)
  exact h.reads_emitOn htyped f.outputs

theorem mem_rank {orderBy : Option OrderBy} {ranked : List (List (Cell β) × List β)}
    {x : List (Cell β) × List β} : x ∈ rank S orderBy ranked ↔ x ∈ ranked := by
  cases orderBy with
  | none => rfl
  | some o => exact List.mem_mergeSort

/-- A projection reads its input columns, no others, and gives rows of its output types. -/
theorem reads_runOn (hrows : ∀ row ∈ rows, S.RowHas types row) (hne : rows ≠ [])
    (p : Projection) :
    Reads types p.inputColumns (p.runOn S rows)
      (fun out => ∀ row ∈ out, S.RowHas (p.outputTypes types) row) := by
  cases p with
  | filter query =>
    refine (Reads.mapM_rows (Q := fun x => S.RowHas types x.1) hne fun row hrow => ?_).map
      fun marked hmarked row hrow => ?_
    · exact ((hrows row hrow).reads_valueOn S.noIds query).map fun _ _ => hrows row hrow
    · obtain ⟨x, hx, rfl⟩ := List.mem_map.1 hrow
      exact hmarked x (List.mem_of_mem_filter hx)
  | topN limit offset orderBy outputs =>
    refine (Reads.mapM_rows hne fun row hrow =>
      reads_rankRow limit offset orderBy outputs (hrows row hrow)).map
        fun ranked hranked row hrow => ?_
    obtain ⟨x, hx, rfl⟩ := List.mem_map.1 hrow
    exact hranked x (mem_rank.1 (List.mem_of_mem_drop (List.mem_of_mem_take hx)))
  | fetch f => exact Reads.mapM_rows hne fun row hrow => reads_hydrateRow f (hrows row hrow)
  | nestedLoopMerge outputs =>
    exact Reads.mapM_rows hne fun row hrow => (hrows row hrow).reads_emitOn S.noIds outputs

/-- On rows of its input types a projection runs if its input columns fit them. -/
theorem runOn_of_fits {p : Projection} (hrows : ∀ row ∈ rows, S.RowHas types row)
    (hfits : ∀ c ∈ p.inputColumns, c.FitsIn types) :
    ∃ out, p.runOn S rows = .ok out ∧ ∀ row ∈ out, S.RowHas (p.outputTypes types) row := by
  by_cases hne : rows = []
  -- without rows nothing is read
  · subst hne
    refine ⟨[], ?_, by simp⟩
    rcases p with _ | ⟨_, _, orderBy, _⟩ | _ | _
    case topN => cases orderBy <;> simp [runOn, rank, bind, Except.bind, pure, Except.pure]
    all_goals rfl
  · exact (reads_runOn hrows hne p).gives hfits

/-- It fails at the first input column that does not fit its rows. -/
theorem failsAt_of_misfits {p : Projection} {c : InputColumn}
    (hc : p.inputColumns.find? (InputColumn.misfits types) = some c) : p.FailsAt types c :=
  fun _ _ hne hrows => (reads_runOn hrows hne p).fails hc

end Projection

/-! ### Chains of projections -/

namespace MergeStage

/-- The types of the rows that reach the projection at a position. -/
def typesBefore (types : List DataType) (ps : List Projection) (k : Nat) : List DataType :=
  (ps.take k).foldl (fun types p => p.outputTypes types) types

/-- A stage that turns all rows of its input types into rows of its output types, and of whose
projections only the last one fetches. -/
structure CannotGoWrong (stage : MergeStage) : Prop where
  runs : ∀ {β : Type} (S : TypedSemantics β) (rows : List (List (Cell β))),
    (∀ row ∈ rows, S.RowHas stage.inputTypes row) →
      ∃ out, stage.runOn S rows = .ok out ∧ ∀ row ∈ out, S.RowHas stage.outputTypes row
  fetchLast : ∀ k p, stage.projections[k]? = some p → p.isFetch = true →
    k + 1 = stage.projections.length

/-- Projections of which one goes wrong, with what is to be said about it. -/
inductive GoesWrong (types : List DataType) (ps : List Projection) : MergeFault → Prop
  /-- A fetch is followed by another projection. -/
  | fetchNotLast {k : Nat} {p q : Projection} : ps[k]? = some p → ps[k + 1]? = some q →
    p.isFetch = true → GoesWrong types ps .fetchNotLast
  /-- A projection reads a column that its rows do not have. -/
  | missingColumn {k : Nat} {p : Projection} {c : InputColumn} : ps[k]? = some p →
    (typesBefore types ps k)[c.index]? = none → p.FailsAt (typesBefore types ps k) c →
    GoesWrong types ps (.missingColumn p.name c.index (typesBefore types ps k).length)
  /-- A projection reads a column at a type that its rows do not have there. -/
  | columnType {k : Nat} {p : Projection} {c : InputColumn} {t : DataType} : ps[k]? = some p →
    (typesBefore types ps k)[c.index]? = some t → (t == c.type) = false →
    p.FailsAt (typesBefore types ps k) c →
    GoesWrong types ps (.columnType p.name c.type c.index t)

variable {types : List DataType} {ps : List Projection} {why : MergeFault}

/-- A chain runs if each of its projections fits the rows of those before it. -/
theorem exists_foldlM_runOn (h : checkChain types ps = .ok ()) (S : TypedSemantics β)
    {rows : List (List (Cell β))} (hrows : ∀ row ∈ rows, S.RowHas types row) :
    ∃ out, ps.foldlM (Projection.runOn S) rows = .ok out ∧
      ∀ row ∈ out, S.RowHas (ps.foldl (fun types p => p.outputTypes types) types) row := by
  induction ps generalizing types rows with
  | nil => exact ⟨rows, rfl, hrows⟩
  | cons p rest ih =>
    obtain ⟨-, hfits, hrest⟩ := checkChain_cons_eq_ok.1 h
    obtain ⟨next, hnext, hnextRows⟩ := Projection.runOn_of_fits hrows hfits
    obtain ⟨out, hout, houtRows⟩ := ih hrest hnextRows
    refine ⟨out, ?_, houtRows⟩
    rw [List.foldlM_cons, hnext]
    exact hout

/-- Only the last projection of a chain fetches. -/
theorem succ_eq_length_of_isFetch (h : checkChain types ps = .ok ()) {k : Nat} {p : Projection}
    (hp : ps[k]? = some p) (hfetch : p.isFetch = true) : k + 1 = ps.length := by
  induction ps generalizing types k with
  | nil => cases hp
  | cons q rest ih =>
    obtain ⟨hlast, -, hrest⟩ := checkChain_cons_eq_ok.1 h
    cases k with
    | zero =>
      obtain rfl := Option.some.inj hp
      rw [hlast hfetch]
      rfl
    | succ k => exact congrArg Nat.succ (ih hrest hp)

/-- What goes wrong in the rest of a chain goes wrong in the chain. -/
theorem GoesWrong.cons {p : Projection} (h : GoesWrong (p.outputTypes types) ps why) :
    GoesWrong types (p :: ps) why := by
  cases h with
  | fetchNotLast hk hnext hfetch => exact .fetchNotLast (k := _ + 1) hk hnext hfetch
  | missingColumn hk hnone hfails => exact .missingColumn (k := _ + 1) hk hnone hfails
  | columnType hk ht htype hfails => exact .columnType (k := _ + 1) hk ht htype hfails

/-- The columns of a projection are refused for the first one that does not fit. -/
theorem find?_misfits_of_checkColumns {projection : String} {columns : List InputColumn}
    (h : checkColumns projection types columns = .error why) :
    ∃ c, columns.find? (InputColumn.misfits types) = some c ∧
      (types[c.index]? = none ∧ why = .missingColumn projection c.index types.length ∨
        ∃ t, types[c.index]? = some t ∧ (t == c.type) = false ∧
          why = .columnType projection c.type c.index t) := by
  induction columns with
  | nil => cases h
  | cons c columns ih =>
    rw [checkColumns] at h
    cases htype : types[c.index]? with
    | none =>
      rw [htype] at h
      exact ⟨c, by simp [InputColumn.misfits, htype], .inl ⟨htype, (Except.error.inj h).symm⟩⟩
    | some t =>
      cases hsame : t == c.type with
      | false =>
        refine ⟨c, by simp [InputColumn.misfits, htype, hsame], .inr ⟨t, htype, hsame, ?_⟩⟩
        simpa [htype, hsame, eq_comm] using h
      | true =>
        obtain ⟨d, hd, hwhy⟩ := ih (by simpa [htype, hsame] using h)
        refine ⟨d, ?_, hwhy⟩
        rw [List.find?_cons_of_neg (by simp [InputColumn.misfits, htype, hsame]), hd]

/-- A chain is refused for what goes wrong in it. -/
theorem goesWrong_of_checkChain (h : checkChain types ps = .error why) :
    GoesWrong types ps why := by
  induction ps generalizing types with
  | nil => cases h
  | cons p rest ih =>
    rw [checkChain] at h
    by_cases hlast : (p.isFetch && !rest.isEmpty) = true
    -- the fetch is noticed before the columns are
    · rw [if_pos hlast] at h
      obtain rfl := Except.error.inj h
      obtain ⟨hfetch, hrest⟩ : p.isFetch = true ∧ rest ≠ [] := by simpa using hlast
      obtain ⟨q, rest, rfl⟩ := List.exists_cons_of_ne_nil hrest
      exact .fetchNotLast (k := 0) rfl rfl hfetch
    · rw [if_neg hlast] at h
      cases hcolumns : checkColumns p.name types p.inputColumns with
      | ok _ =>
        rw [hcolumns] at h
        exact (ih h).cons
      | error fault =>
        rw [hcolumns] at h
        obtain rfl := Except.error.inj h
        obtain ⟨c, hc, ⟨hnone, rfl⟩ | ⟨t, ht, htype, rfl⟩⟩ :=
          find?_misfits_of_checkColumns hcolumns
        · exact .missingColumn (k := 0) rfl hnone (Projection.failsAt_of_misfits hc)
        · exact .columnType (k := 0) rfl ht htype (Projection.failsAt_of_misfits hc)

/-- A valid merge stage turns rows of its input types into rows of its output types, whatever
functions and stored columns stand for, and only its last projection fetches.  In a stage that is
not valid a fetch is followed by another projection, or a projection reads a column that the rows
of those before it do not have at its type; the fault says which. -/
theorem validate_sound (stage : MergeStage) :
    (stage.validate = .ok () → stage.CannotGoWrong) ∧
      ∀ fault, stage.validate = .error fault → ∃ why, fault = .merge stage.name why ∧
        GoesWrong stage.inputTypes stage.projections why := by
  refine ⟨fun h => ?_, fun fault h => ?_⟩
  · have hchain := validate_eq_ok.1 h
    exact ⟨fun S _ => exists_foldlM_runOn hchain S, fun _ _ => succ_eq_length_of_isFetch hchain⟩
  · unfold validate at h
    cases hchain : checkChain stage.inputTypes stage.projections with
    | ok _ => simp [hchain] at h
    | error why =>
      rw [hchain] at h
      exact ⟨why, (Except.error.inj h).symm, goesWrong_of_checkChain hchain⟩

/-- Two columns are filtered, sorted and cut down to the row id at a position, and a column of
`t` is read back. -/
def hydration (index : Nat) : MergeStage :=
  { id := 1, name := "m", executionNodes := ["n1"], inputTypes := [.int64, .utf8], senders := 1
    projections := [
      .filter (.eq (.inputAt 0 .int64) (.int64 1)),
      .topN 10 0 (some (.asc [.inputAt 0 .int64])) [.inputAt index .utf8],
      .fetch
        { docIdColumns := [("t", ⟨0, .utf8⟩)], inputTypes := [.utf8], fetchColumns := []
          outputs := [.column ⟨"t", ⟨"doc", "t"⟩, "b", .boolean, false⟩], partitionColumns := []
          executionNodes := .empty, subContexts := .empty, bulkSize := none }]
    sort := none, downstream := .handler "n1" }

/-- The row id is found in the second column.  There is no fifth one, and the top-n fails. -/
theorem validate_sound_hydration :
    ((hydration 1).validate = .ok () ∧ ∃ out, (hydration 1).runOn .ofTypes
        [[⟨.int64, .int64⟩, ⟨.utf8, .utf8⟩]] = .ok out ∧
          ∀ row ∈ out, TypedSemantics.ofTypes.RowHas [.boolean] row) ∧
    (hydration 4).validate = .error (.merge "m" (.missingColumn "TopN" 4 2)) ∧
      GoesWrong [.int64, .utf8] (hydration 4).projections (.missingColumn "TopN" 4 2) ∧
      (hydration 4).runOn .ofTypes [[⟨.int64, .int64⟩, ⟨.utf8, .utf8⟩]] = .error ⟨4, .utf8⟩ := by
  have hvalid : (hydration 1).validate = .ok () := by rfl
  have hinvalid : (hydration 4).validate = .error (.merge "m" (.missingColumn "TopN" 4 2)) := by
    rfl
  refine ⟨⟨hvalid, ?_⟩, hinvalid, ?_, by rfl⟩
  · refine ((validate_sound _).1 hvalid).runs .ofTypes _ fun row hrow => ?_
    obtain rfl := List.mem_singleton.1 hrow
    exact TypedSemantics.rowHas_ofTypes [.int64, .utf8]
  · obtain ⟨why, hwhy, hwrong⟩ := (validate_sound _).2 _ hinvalid
    cases hwhy
    exact hwrong

end MergeStage

end ShardJoin
