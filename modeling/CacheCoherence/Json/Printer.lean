import CacheCoherence.Json.Basic

/-!
# Printing JSON — one item or member per line

Items and members stand on lines of their own, indented by two blanks for every
array or object around them; an empty array or object stays on one line.
-/

namespace CacheCoherence.Json

/-- The text of a character in a string. -/
def escape (c : Char) : String :=
  match c with
  | '"' => "\\\""
  | '\\' => "\\\\"
  | '\n' => "\\n"
  | '\r' => "\\r"
  | '\t' => "\\t"
  | '\x08' => "\\b"
  | '\x0c' => "\\f"
  | c =>
      if c < ' ' then
        "\\u00" ++ (if c.toNat < 16 then "0" else "") ++ String.ofList (Nat.toDigits 16 c.toNat)
      else c.toString

/-- A string in quotes. -/
def quoted (s : String) : String := "\"" ++ String.join (s.toList.map escape) ++ "\""

/-- The blanks in front of a line that `depth` arrays and objects surround. -/
def margin (depth : Nat) : String := String.ofList (List.replicate (2 * depth) ' ')

mutual

/-- The text of a value that `depth` arrays and objects surround. A value that no
text of this library denotes is written as `null`. -/
def pretty (depth : Nat) : Json → String
  | null => "null"
  | bool true => "true"
  | bool false => "false"
  | nat n => toString n
  | otherNumber => "null"
  | str none => "null"
  | str (some s) => quoted s
  | array [] => "[]"
  | array items => "[\n" ++ prettyItems (depth + 1) items ++ "\n" ++ margin depth ++ "]"
  | object [] => "\x7b\x7d"
  | object members =>
      "\x7b\n" ++ prettyMembers (depth + 1) members ++ "\n" ++ margin depth ++ "\x7d"

/-- The lines of the items of an array. -/
def prettyItems (depth : Nat) : List Json → String
  | [] => ""
  | [v] => margin depth ++ pretty depth v
  | v :: rest => margin depth ++ pretty depth v ++ ",\n" ++ prettyItems depth rest

/-- The lines of the members of an object. -/
def prettyMembers (depth : Nat) : List (JsonText × Json) → String
  | [] => ""
  | [(name, v)] => margin depth ++ quoted (name.getD "") ++ ": " ++ pretty depth v
  | (name, v) :: rest =>
      margin depth ++ quoted (name.getD "") ++ ": " ++ pretty depth v ++ ",\n"
        ++ prettyMembers depth rest

end

/-- The text of a value. -/
def print (v : Json) : String := pretty 0 v

end CacheCoherence.Json
