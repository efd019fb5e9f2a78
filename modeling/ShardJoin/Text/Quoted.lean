/-
The spelled-out form of values in messages and outlines.

Messages name node lists and column types in full: texts stand in double
quotes with their special characters escaped, lists in square brackets, and an
optional value says whether it is there.
-/
import ShardJoin.Text.Glyph

namespace ShardJoin.Text

/-- A character inside double quotes. -/
def escapeChar (c : Char) : String :=
  if c = '"' then "\\\""
  else if c = '\\' then "\\\\"
  else if c = '\n' then "\\n"
  else if c = '\t' then "\\t"
  else if c = '\r' then "\\r"
  else if c = '\x00' then "\\0"
  else if isHidden c then "\\u\x7b" ++ String.ofList (Nat.toDigits 16 c.toNat) ++ "\x7d"
  else c.toString

/-- A text in double quotes. -/
def quoted (s : String) : String :=
  "\"" ++ String.join (s.toList.map escapeChar) ++ "\""

/-- Parts separated by a comma and a space. -/
def commaList (parts : List String) : String :=
  ", ".intercalate parts

/-- A list of spelled-out members in square brackets. -/
def bracketed (parts : List String) : String :=
  "[" ++ commaList parts ++ "]"

/-- An optional value, spelled out. -/
def optional {α : Type} (spell : α → String) : Option α → String
  | none => "None"
  | some a => "Some(" ++ spell a ++ ")"

/-- A truth value in lower case. -/
def ofBool (b : Bool) : String := if b then "true" else "false"

/-- A map from texts to texts, spelled out. -/
def braced (entries : List (String × String)) : String :=
  "\x7b" ++ commaList (entries.map fun e => quoted e.1 ++ ": " ++ quoted e.2) ++ "\x7d"

end ShardJoin.Text
