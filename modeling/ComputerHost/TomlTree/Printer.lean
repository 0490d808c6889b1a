import ComputerHost.TomlTree.Basic

/-! # Printing TOML

A document is printed with its plain entries first, one a line, and after them its arrays of tables, each
item under a header of its own. A string is put into the quotes that need the fewest escapes.
-/

namespace ComputerHost.TomlTree

/-! ## Strings -/

/-- The longest run of a character. -/
def longestRun (c : Char) (s : List Char) : Nat :=
  (s.foldl (fun (longest, run) d =>
    let run := if d = c then run + 1 else 0
    (max longest run, run)) (0, 0)).1

/-- The kinds of quotes. -/
inductive Quoting where
  /-- Double quotes, on one line, with escapes. -/
  | basic
  /-- Single quotes, on one line. -/
  | literal
  | basicBlock
  | literalBlock
deriving DecidableEq, Repr

/-- Is it a control character that is always written as an escape? -/
def isControl (c : Char) : Bool := (c.toNat < 32 || c.toNat == 127) && c != '\t' && c != '\n'

/-- The quotes for a text: the first kind that holds it as it is, and else one with escapes. -/
def quoting (s : List Char) : Quoting :=
  let control := s.any isControl
  let backslash := s.contains '\\'
  let newline := s.contains '\n'
  let doubles := longestRun '"' s
  let singles := longestRun '\'' s
  if !control && !backslash && !newline && doubles == 0 then .basic
  else if !control && !newline && singles == 0 then .literal
  else if !control && !backslash && doubles ≤ 2 then .basicBlock
  else if !control && singles ≤ 2 then .literalBlock
  else if newline then .basicBlock
  else .basic

/-- How a character other than a quote and a line end stands between double quotes. -/
def escape (c : Char) : List Char :=
  match c with
  | '\\' => ['\\', '\\']
  | '\t' => ['\\', 't']
  | '\x08' => ['\\', 'b']
  | '\x0c' => ['\\', 'f']
  | '\r' => ['\\', 'r']
  | c =>
    if isControl c then
      let digit (n : Nat) : Char := (Nat.digitChar n).toUpper
      ['\\', 'u', '0', '0', digit (c.toNat / 16), digit (c.toNat % 16)]
    else [c]

/-- A text between double quotes, on one line or several. On several lines a quote is escaped only
after two of them; `run` counts those that were not. -/
def escapeAll (block : Bool) : Nat → List Char → List Char
  | _, [] => []
  | run, '"' :: rest =>
    if block && run < 2 then '"' :: escapeAll block (run + 1) rest
    else '\\' :: '"' :: escapeAll block 0 rest
  | _, '\n' :: rest =>
    if block then '\n' :: escapeAll block 0 rest else '\\' :: 'n' :: escapeAll block 0 rest
  | _, c :: rest => escape c ++ escapeAll block 0 rest

/-- A text in its quotes. A text with line ends begins on a line of its own. -/
def quote (text : String) : String :=
  let s := text.toList
  let first := if s.contains '\n' then "\n" else ""
  match quoting s with
  | .basic => "\"" ++ String.ofList (escapeAll false 0 s) ++ "\""
  | .literal => "'" ++ text ++ "'"
  | .basicBlock => "\"\"\"" ++ first ++ String.ofList (escapeAll true 0 s) ++ "\"\"\""
  | .literalBlock => "'''" ++ first ++ text ++ "'''"

/-- A name as a key: bare if it can be. -/
def printKey (name : String) : String :=
  let s := name.toList
  if !s.isEmpty && s.all fun c => c.isAlphanum || c == '_' || c == '-' then name else quote name

/-! ## Values -/

mutual
/-- The text of a value on one line. -/
def inline : TomlTree → String
  | .string text => quote text
  | .integer i => toString i
  | .boolean b => if b then "true" else "false"
  | .float spelling => spelling
  | .moment spelling => spelling
  | .array items => "[" ++ inlineItems items ++ "]"
  | .table [] => "\x7b\x7d"
  | .table entries => "\x7b " ++ inlineEntries entries ++ " \x7d"

def inlineItems : List TomlTree → String
  | [] => ""
  | [item] => inline item
  | item :: rest => inline item ++ ", " ++ inlineItems rest

def inlineEntries : List (String × TomlTree) → String
  | [] => ""
  | [(name, v)] => printKey name ++ " = " ++ inline v
  | (name, v) :: rest => printKey name ++ " = " ++ inline v ++ ", " ++ inlineEntries rest
end

/-! ## Documents -/

/-- The items of a nonempty array of tables. -/
def tables? : TomlTree → Option (List (List (String × TomlTree)))
  | .array [] => none
  | .array items => items.mapM fun
    | .table entries => some entries
    | _ => none
  | _ => none

/-- The line of an entry. -/
def printEntry (entry : String × TomlTree) : String :=
  printKey entry.1 ++ " = " ++ entry.2.inline ++ "\n"

/-- The lines of several entries. -/
def printEntries (entries : List (String × TomlTree)) : String :=
  String.join (entries.map printEntry)

/-- An array of tables, each item under a header and after an empty line. -/
def printTables (name : String) (items : List (List (String × TomlTree))) : String :=
  String.join (items.map fun entries => "\n[[" ++ printKey name ++ "]]\n" ++ printEntries entries)

/-- The text of a document. -/
def print (entries : List (String × TomlTree)) : String :=
  printEntries (entries.filter fun (_, v) => (tables? v).isNone) ++
    String.join (entries.map fun (name, v) => ((tables? v).map (printTables name)).getD "")

end ComputerHost.TomlTree
