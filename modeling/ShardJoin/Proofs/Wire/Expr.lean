/-
Expressions and the clauses of a select that come back from their JSON form.

Only input columns have positions, so an expression fits if the input columns
at its leaves do.  A literal comes back bit by bit, a NaN too, so what comes
back is the same expression and not only an equal one.
-/
import ShardJoin.Proofs.Wire.DataType
import ShardJoin.Wire.Select

namespace ShardJoin

open Wire

/-! ### Leaves

Of a record only its own form is unfolded; its members come back by their instances. -/

instance : LawfulWire TableName where
  decode_encode {t} _ := by
    unfold instWireTableName
    simp

instance : Unbounded TableName := ⟨fun _ => trivial⟩

instance : LawfulWire ColumnRef where
  decode_encode {r} _ := by
    unfold instWireColumnRef
    simp

instance : Unbounded ColumnRef := ⟨fun _ => trivial⟩

instance : LawfulWire FunctionKind where
  decode_encode {kind} _ := by cases kind <;> rfl

instance : Unbounded FunctionKind := ⟨fun _ => trivial⟩

instance : LawfulWire FunctionInfo where
  decode_encode {f} _ := by
    unfold instWireFunctionInfo
    simp

instance : Unbounded FunctionInfo := ⟨fun _ => trivial⟩

instance : LawfulWire InputColumn where
  Fits c := Fits c.index
  decode_encode {c} hindex := by
    unfold instWireInputColumn
    simp [hindex]
  fits_of_decode h := by
    unfold instWireInputColumn at h
    simp only [Option.bind_eq_bind, Option.bind_eq_some_iff] at h
    obtain ⟨index, hindex, _, -, h⟩ := h
    cases h
    exact fits_of_required hindex

instance : LawfulWire Value where
  decode_encode {v} _ := by
    unfold instWireValue
    cases v <;> simp [Json.tagged]

instance : Unbounded Value := ⟨fun _ => trivial⟩

/-! ### Trees -/

mutual
theorem Expr.decode_encode : ∀ {e : Expr}, (∀ c ∈ e.inputs, Fits c) → Expr.decode e.encode = some e
  | .column r, _ => by
    simp [Expr.encode, Json.tagged, Expr.decode]
  | .call fn args, h => by
    have hargs : Expr.decodeAll (Expr.encodeAll args) = some args := Expr.decodeAll_encodeAll h
    simp [Expr.encode, Json.tagged, Expr.decode, Json.items?, Json.member?, hargs]
  | .literal v t, _ => by
    simp [Expr.encode, Json.tagged, Expr.decode]
  | .input c, h => by
    have hc : Fits c := h c List.mem_cons_self
    simp [Expr.encode, Json.tagged, Expr.decode, hc]

theorem Expr.decodeAll_encodeAll : ∀ {es : List Expr}, (∀ c ∈ Expr.inputsAll es, Fits c) →
    Expr.decodeAll (Expr.encodeAll es) = some es
  | [], _ => by simp [Expr.encodeAll, Expr.decodeAll]
  | e :: es, h => by
    rw [Expr.inputsAll] at h
    have he := Expr.decode_encode fun c hc => h c (List.mem_append_left _ hc)
    have hes := Expr.decodeAll_encodeAll fun c hc => h c (List.mem_append_right _ hc)
    simp [Expr.encodeAll, Expr.decodeAll, he, hes]
end

mutual
theorem Expr.fits_of_decode {j : Json} {e : Expr} (h : Expr.decode j = some e) :
    ∀ c ∈ e.inputs, Fits c := by
  -- one case for each alternative, in the order in which they are tried
  rw [Expr.decode.eq_def] at h
  split at h
  case h_1 =>
    obtain ⟨_, -, rfl⟩ := Option.map_eq_some_iff.1 h
    exact fun _ hc => absurd hc List.not_mem_nil
  case h_2 =>
    obtain ⟨⟨items, hsize⟩, -, h⟩ := Option.bind_eq_some_iff.1 h
    obtain ⟨_, -, h⟩ := Option.bind_eq_some_iff.1 h
    obtain ⟨args, hargs, h⟩ := Option.bind_eq_some_iff.1 h
    cases h
    exact Expr.fits_of_decodeAll hargs
  case h_3 =>
    obtain ⟨_, -, h⟩ := Option.bind_eq_some_iff.1 h
    obtain ⟨_, -, h⟩ := Option.bind_eq_some_iff.1 h
    cases h
    exact fun _ hc => absurd hc List.not_mem_nil
  case h_4 =>
    obtain ⟨c, hc, rfl⟩ := Option.map_eq_some_iff.1 h
    exact fun _ hmem => List.mem_singleton.1 hmem ▸ Wire.fits_of_decode hc
  case h_5 => cases h
termination_by sizeOf j
decreasing_by subst_vars; simp; omega

theorem Expr.fits_of_decodeAll {js : List Json} {es : List Expr}
    (h : Expr.decodeAll js = some es) : ∀ c ∈ Expr.inputsAll es, Fits c := by
  cases js with
  | nil =>
    rw [Expr.decodeAll] at h
    cases h
    exact fun _ hc => absurd hc List.not_mem_nil
  | cons j js =>
    rw [Expr.decodeAll] at h
    obtain ⟨e, he, h⟩ := Option.bind_eq_some_iff.1 h
    obtain ⟨es, hes, h⟩ := Option.bind_eq_some_iff.1 h
    cases h
    intro c hc
    rw [Expr.inputsAll] at hc
    exact (List.mem_append.1 hc).elim (Expr.fits_of_decode he c) (Expr.fits_of_decodeAll hes c)
termination_by sizeOf js
end

instance : LawfulWire Expr where
  Fits e := ∀ c ∈ e.inputs, Fits c
  decode_encode := Expr.decode_encode
  fits_of_decode := Expr.fits_of_decode

instance : NeverNull Expr where
  encode_ne_null e := by cases e <;> nofun

/-! ### Clauses -/

instance : LawfulWire DocKeys where
  Fits k := Fits k.keys
  decode_encode {k} hkeys := by
    unfold instWireDocKeys
    simp [hkeys]
  fits_of_decode h := by
    unfold instWireDocKeys at h
    simp only [Option.bind_eq_bind, Option.bind_eq_some_iff] at h
    obtain ⟨keys, hkeys, h⟩ := h
    cases h
    exact fits_of_required hkeys

instance : NeverNull DocKeys := ⟨fun _ => nofun⟩

instance : LawfulWire WhereClause where
  Fits w := Fits w.query ∧ Fits w.docKeys
  decode_encode {w} h := by
    obtain ⟨hquery, hdocKeys⟩ := h
    unfold instWireWhereClause
    simp [hquery, hdocKeys]
  fits_of_decode h := by
    unfold instWireWhereClause at h
    simp only [Option.bind_eq_bind, Option.bind_eq_some_iff] at h
    obtain ⟨query, hquery, _, -, docKeys, hdocKeys, h⟩ := h
    cases h
    exact ⟨fits_of_optional hquery, fits_of_optional hdocKeys⟩

instance : LawfulWire OrderBy where
  Fits o := Fits o.keys
  decode_encode {o} hkeys := by
    unfold instWireOrderBy
    simp [hkeys]
  fits_of_decode h := by
    unfold instWireOrderBy at h
    simp only [Option.bind_eq_bind, Option.bind_eq_some_iff] at h
    obtain ⟨keys, hkeys, _, -, _, -, h⟩ := h
    cases h
    exact fits_of_required hkeys

instance : NeverNull OrderBy := ⟨fun _ => nofun⟩

instance : LawfulWire Select where
  Fits s := Fits s.outputs ∧ Fits s.whereClause ∧ Fits s.groupBy ∧ Fits s.orderBy
  decode_encode {s} h := by
    obtain ⟨houtputs, hwhere, hgroupBy, horderBy⟩ := h
    unfold instWireSelect
    simp [houtputs, hwhere, hgroupBy, horderBy]
  fits_of_decode h := by
    unfold instWireSelect at h
    simp only [Option.bind_eq_bind, Option.bind_eq_some_iff] at h
    obtain ⟨outputs, houtputs, whereClause, hwhere, groupBy, hgroupBy, orderBy, horderBy, _, -, _,
      -, h⟩ := h
    cases h
    exact ⟨fits_of_required houtputs, fits_of_required hwhere, fits_of_required hgroupBy,
      fits_of_optional horderBy⟩

end ShardJoin
