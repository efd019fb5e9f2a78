/-
Column types that come back from their JSON form.

A type is written by its name, with the parts it has as the payload.  So the
names have to tell the types apart, those of the scalar types from each other
and from the names of the types with fields; the rest follows the recursion of
types and fields.
-/
import ShardJoin.Proofs.Wire.Lawful
import ShardJoin.Wire.DataType

namespace ShardJoin

open Wire

instance : LawfulWire TimeUnit where
  decode_encode {u} _ := by cases u <;> rfl

instance : Unbounded TimeUnit := ⟨fun _ => trivial⟩

instance : LawfulWire IntervalUnit where
  decode_encode {u} _ := by cases u <;> rfl

instance : Unbounded IntervalUnit := ⟨fun _ => trivial⟩

instance : LawfulWire UnionMode where
  decode_encode {mode} _ := by cases mode <;> rfl

instance : Unbounded UnionMode := ⟨fun _ => trivial⟩

namespace ScalarType

/-- The name of a type without parts tells which type it is. -/
theorem ofName?_name {t : ScalarType} (h : t.payload? = none) : ofName? t.name = some t := by
  cases t <;> first | rfl | cases h

/-- The name of a type with parts tells how to read them. -/
theorem ofPayload?_name {t : ScalarType} {payload : Json} (h : t.payload? = some payload) :
    ofPayload? t.name payload = some t := by
  cases t <;> simp only [payload?, Option.some.injEq, reduceCtorEq] at h <;>
    subst h <;> simp [name, ofPayload?, decode_encode_pair]

end ScalarType

/-- None of the types with fields has the name of a scalar type. -/
theorem DataType.decode_tagged {t : ScalarType} {payload : Json} (h : t.payload? = some payload) :
    DataType.decode (.tagged t.name payload) =
      (ScalarType.ofPayload? t.name payload).map .scalar := by
  cases t <;> simp only [ScalarType.payload?, reduceCtorEq] at h <;>
    simp [Json.tagged, ScalarType.name, DataType.decode]

mutual
theorem DataType.decode_encode : ∀ t : DataType, DataType.decode t.encode = some t
  | .scalar t => by
    rw [DataType.encode, ScalarType.encode]
    cases h : t.payload? with
    | none =>
      show DataType.decode (.str t.name) = some (.scalar t)
      rw [DataType.decode, ScalarType.ofName?_name h]
      rfl
    | some payload =>
      show DataType.decode (.tagged t.name payload) = some (.scalar t)
      rw [DataType.decode_tagged h, ScalarType.ofPayload?_name h]
      rfl
  | .dictionary k v => by
    simp [DataType.encode, Json.tagged, DataType.decode, k.decode_encode, v.decode_encode]
  | .list f | .listView f | .largeList f | .largeListView f | .fixedSizeList f _ | .map f _ => by
    simp [DataType.encode, Json.tagged, DataType.decode, f.decode_encode]
  | .struct fs => by
    simp [DataType.encode, Json.tagged, DataType.decode, Field.decodeAll_encodeAll fs]
  | .union ms _ => by
    simp [DataType.encode, Json.tagged, DataType.decode, UnionMember.decodeAll_encodeAll ms]
  | .runEndEncoded e v => by
    simp [DataType.encode, Json.tagged, DataType.decode, e.decode_encode, v.decode_encode]

theorem Field.decode_encode : ∀ f : Field, Field.decode f.encode = some f
  | ⟨name, type, nullable, dictionaryId, dictionaryOrdered, metadata⟩ => by
    simp [Field.encode, Field.decode, Json.member?, type.decode_encode]

theorem Field.decodeAll_encodeAll : ∀ fs : List Field,
    Field.decodeAll (Field.encodeAll fs) = some fs
  | [] => by simp [Field.encodeAll, Field.decodeAll]
  | f :: fs => by
    simp [Field.encodeAll, Field.decodeAll, f.decode_encode, Field.decodeAll_encodeAll fs]

theorem UnionMember.decode_encode : ∀ m : UnionMember, UnionMember.decode m.encode = some m
  | ⟨id, f⟩ => by
    simp [UnionMember.encode, UnionMember.decode, f.decode_encode]

theorem UnionMember.decodeAll_encodeAll : ∀ ms : List UnionMember,
    UnionMember.decodeAll (UnionMember.encodeAll ms) = some ms
  | [] => by simp [UnionMember.encodeAll, UnionMember.decodeAll]
  | m :: ms => by
    simp [UnionMember.encodeAll, UnionMember.decodeAll, m.decode_encode,
      UnionMember.decodeAll_encodeAll ms]
end

instance : LawfulWire DataType where
  decode_encode {t} _ := t.decode_encode

instance : Unbounded DataType := ⟨fun _ => trivial⟩

end ShardJoin
