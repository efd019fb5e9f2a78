/-
JSON values, as plans and statements are shipped between nodes.

Numbers that are written without a decimal point are integers of any size.
The members of an object are looked up by name; members that nobody asks for
are ignored.
-/

namespace ShardJoin

/-- A JSON value. -/
inductive Json where
  | null
  | bool (value : Bool)
  | int (value : Int)
  /-- The number `mantissa / 10 ^ places`. -/
  | decimal (mantissa : Int) (places : Nat)
  | str (value : String)
  | arr (items : List Json)
  | obj (members : List (String × Json))

namespace Json

instance : Inhabited Json := ⟨.null⟩

/-- The first member with a name; it is smaller than the object. -/
def member? (name : String) :
    (members : List (String × Json)) → Option { j : Json // sizeOf j < sizeOf members }
  | [] => none
  | (n, j) :: rest =>
    if n = name then some ⟨j, by simp; omega⟩
    else (member? name rest).map fun m => ⟨m.1, by have := m.2; simp; omega⟩

/-- The items of the first member with a name, if it is an array. -/
def items? (name : String) (members : List (String × Json)) :
    Option { l : List Json // sizeOf l < sizeOf members } :=
  match member? name members with
  | some ⟨.arr items, h⟩ => some ⟨items, by simp at h; omega⟩
  | _ => none

/-- The member of an object with a name. -/
def field? (j : Json) (name : String) : Option Json :=
  match j with
  | .obj members => (member? name members).map (·.1)
  | _ => none

/-- A named alternative with its payload. -/
def tagged (tag : String) (payload : Json) : Json := .obj [(tag, payload)]

end Json

end ShardJoin
