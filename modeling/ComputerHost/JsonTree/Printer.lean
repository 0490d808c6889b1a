import ComputerHost.JsonTree.Basic

/-! # Printing JSON

A document is printed with one item or member a line, two spaces further in for each level.
-/

namespace ComputerHost.JsonTree

/-- How a character stands in a string literal. -/
def escape (c : Char) : List Char :=
  match c with
  | '"' => ['\\', '"']
  | '\\' => ['\\', '\\']
  | '\n' => ['\\', 'n']
  | '\r' => ['\\', 'r']
  | '\t' => ['\\', 't']
  | '\x08' => ['\\', 'b']
  | '\x0c' => ['\\', 'f']
  | c =>
    if c.toNat < 32 then
      ['\\', 'u', '0', '0', Nat.digitChar (c.toNat / 16), Nat.digitChar (c.toNat % 16)]
    else [c]

/-- The literal of a string. -/
def quote (text : String) : String :=
  "\"" ++ String.ofList (text.toList.flatMap escape) ++ "\""

/-- A line break and the spaces that a level starts with. -/
def newLine (level : Nat) : String :=
  "\n" ++ String.ofList (List.replicate (2 * level) ' ')

mutual
/-- The text of a document that stands at a level. -/
def render (level : Nat) : JsonTree → String
  | .null => "null"
  | .bool b => if b then "true" else "false"
  | .number spelling => spelling
  | .string text => quote (text.getD "")
  | .array [] => "[]"
  | .array items => "[" ++ renderItems (level + 1) items ++ newLine level ++ "]"
  | .object [] => "\x7b\x7d"
  | .object members => "\x7b" ++ renderMembers (level + 1) members ++ newLine level ++ "\x7d"

/-- The items of an array, each on a line of its own. -/
def renderItems (level : Nat) : List JsonTree → String
  | [] => ""
  | [item] => newLine level ++ render level item
  | item :: rest => newLine level ++ render level item ++ "," ++ renderItems level rest

/-- The members of an object, each on a line of its own. -/
def renderMembers (level : Nat) : List (Option String × JsonTree) → String
  | [] => ""
  | [(name, value)] => newLine level ++ quote (name.getD "") ++ ": " ++ render level value
  | (name, value) :: rest =>
    newLine level ++ quote (name.getD "") ++ ": " ++ render level value ++ "," ++
      renderMembers level rest
end

/-- The text of a document. -/
def print (document : JsonTree) : String := render 0 document

end ComputerHost.JsonTree
